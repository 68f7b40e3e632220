import AnanicyCpp.ProcessInfo.Lines
import AnanicyCpp.ProcessInfo.Map
import Mathlib.Data.Prod.Lex

/-!
# The map of autogroups

`get_autogroup_map` sorts the reports of all threads by their autogroups. A group is opened when its
number is first seen, and a report is stored in it under the id of its thread, without its
autogroup. The keys of both levels are decimal numbers of `std::int32_t`.

## Main definitions

* `ProcessInfo.addProcess`, `ProcessInfo.autogroupMap` : the body of the loop, and the loop.
* `ProcessInfo.getAutogroupMap` : the function.
* `ProcessInfo.autogroupNumber`, `ProcessInfo.threadId` : what a report says of its place.
* `ProcessInfo.procOf` : what a map of autogroups has at a place.
* `ProcessInfo.placeOf`, `ProcessInfo.assignment` : the place of a report, and its assignment there.
* `ProcessInfo.Partition` : the map of autogroups is a partition of the reports with an autogroup.

## Main results

* `ProcessInfo.exists_autogroupMap` : each report is one assignment.
* `ProcessInfo.procOf_eq_some_iff` : what is found at a place.
* `ProcessInfo.getAutogroupMap_partition` : the result is a partition.
-/

namespace AnanicyCpp

namespace ProcessInfo

open Text

/-! ### The loop -/

/-- The decimal text of a number. -/
def decimal (n : ℤ) : String := String.ofList (ofInt n)

/-- `to_str` of an `std::int32_t` -/
def toStr (n : Int32) : String := decimal n.toInt

/-- A group that has no processes yet. -/
def openGroup (autogroupMap : Json) (autogroupNum : String) (nice : Json) : Json :=
  if autogroupMap.contains autogroupNum then autogroupMap
  else autogroupMap.update autogroupNum fun _ =>
    ((Json.object []).update "nice" fun _ => nice).update "proc" fun _ => .object []

/-- The body of the loop. -/
def addProcess (autogroupMap processInfo : Json) : Except TypeError Json := do
  let autogroup ← processInfo.subscript "autogroup"
  if autogroup.isNull then pure autogroupMap
  else
    let group ← autogroup.subscript "group"
    let autogroupNum := toStr (← group.getInt)
    let autogroupMap := openGroup autogroupMap autogroupNum (autogroup.index "nice")
    let processInfo := processInfo.eraseKey "autogroup"
    let tpid ← processInfo.subscript "tpid"
    let pid := toStr (← tpid.getInt)
    pure (autogroupMap.update autogroupNum (·.update "proc" (·.update pid fun _ => processInfo)))

/-- The loop over the reports. -/
def autogroupMap (processInfoMap : Json) : Except TypeError Json :=
  processInfoMap.members.foldlM (fun autogroupMap e => addProcess autogroupMap e.2) .null

/-- `get_autogroup_map` -/
def getAutogroupMap (proc : List PidEntry) (exeFailCount : ℕ) : Except TypeError Json :=
  autogroupMap (getProcessInfoMap proc exeFailCount).1

/-! ### Partitions -/

/-- The report has an autogroup that is not null. -/
def InAutogroup (info : Json) : Prop := (info.index "autogroup").isNull = false

instance (info : Json) : Decidable (InAutogroup info) := inferInstanceAs (Decidable (_ = false))

/-- The number of the autogroup of a report. -/
def autogroupNumber (info : Json) : Option ℤ :=
  ((info.index "autogroup").index "group").integerValue

/-- The id of the thread of a report. -/
def threadId (info : Json) : Option ℤ := (info.index "tpid").integerValue

/-- What a map of autogroups has in a group under a thread id. -/
def procOf (autogroupMap : Json) (place : String × String) : Option Json :=
  ((autogroupMap.index place.1).index "proc").find? place.2

/-- The entry has the fields of the report but its autogroup. -/
def IsEntryOf (info entry : Json) : Prop :=
  ∀ key, entry.find? key = if key = "autogroup" then none else info.find? key

/-- The map of autogroups has the report at the place. -/
def ListedAt (autogroupMap info : Json) (place : String × String) : Prop :=
  ∃ entry, procOf autogroupMap place = some entry ∧ IsEntryOf info entry

/-- The map of autogroups is a partition of the reports that have one. -/
structure Partition (processInfoMap autogroupMap : Json) : Prop where
  /-- A report with an autogroup is listed at one place. -/
  once : ∀ key info, processInfoMap.find? key = some info → InAutogroup info →
    ∃! place, ListedAt autogroupMap info place
  /-- This is in its own group, under its own thread id. -/
  own : ∀ key info, processInfoMap.find? key = some info → InAutogroup info →
    ∃ group tid, autogroupNumber info = some group ∧ threadId info = some tid ∧
      ListedAt autogroupMap info (decimal group, decimal tid)
  /-- What is listed is a report with an autogroup, and only one. -/
  only : ∀ place entry, procOf autogroupMap place = some entry →
    ∃! key, ∃ info, processInfoMap.find? key = some info ∧ InAutogroup info ∧ IsEntryOf info entry
  /-- No group is empty. -/
  nonempty : ∀ group, autogroupMap.contains group → ∃ pid, (procOf autogroupMap (group, pid)).isSome

/-! ### One report -/

theorem procOf_openGroup (m : Json) (num : String) (nice : Json) (place : String × String) :
    procOf (openGroup m num nice) place = procOf m place := by
  rw [openGroup]
  split_ifs with hopen
  · rfl
  · rw [procOf, procOf, Json.index_update]
    split_ifs with hnum
    · have hnone : m.index place.1 = .null := by
        rw [hnum, Json.index, Option.not_isSome_iff_eq_none.mp hopen]
        rfl
      rw [hnone, Json.index_update, if_pos rfl]
      rfl
    · rfl

theorem contains_openGroup (m : Json) (num : String) (nice : Json) (group : String) :
    (openGroup m num nice).contains group ↔ group = num ∨ m.contains group := by
  rw [openGroup]
  split_ifs with hopen
  · exact (or_iff_right_of_imp fun h => h ▸ hopen).symm
  · rw [Json.contains, Json.find_update, Json.contains]
    split_ifs with hnum <;> simp [hnum]

/-- An assignment in a group. -/
theorem procOf_update (m : Json) (num pid : String) (info : Json) (place : String × String) :
    procOf (m.update num (·.update "proc" (·.update pid fun _ => info))) place =
      if place = (num, pid) then some info else procOf m place := by
  rw [procOf, procOf, Json.index_update]
  by_cases hnum : place.1 = num
  · rw [if_pos hnum, Json.index_update, if_pos rfl, Json.find_update, hnum]
    by_cases hpid : place.2 = pid
    · rw [if_pos hpid, if_pos (Prod.ext hnum hpid)]
    · rw [if_neg hpid, if_neg fun h => hpid (congrArg Prod.snd h)]
  · rw [if_neg hnum, if_neg fun h => hnum (congrArg Prod.fst h)]

/-- Every group that is there has a process. -/
def NoneEmpty (m : Json) : Prop :=
  ∀ group, m.contains group → ∃ pid, (procOf m (group, pid)).isSome

theorem noneEmpty_update {m : Json} (h : NoneEmpty m) (num pid : String) (nice info : Json) :
    NoneEmpty ((openGroup m num nice).update num
      (·.update "proc" (·.update pid fun _ => info))) := by
  intro group hgroup
  by_cases hnum : group = num
  · refine ⟨pid, ?_⟩
    rw [procOf_update, if_pos (by rw [hnum])]
    rfl
  · have hold : m.contains group := by
      rw [Json.contains, Json.find_update, if_neg hnum] at hgroup
      exact ((contains_openGroup m num nice group).mp hgroup).resolve_left hnum
    obtain ⟨pid', hpid⟩ := h group hold
    refine ⟨pid', ?_⟩
    rw [procOf_update, if_neg fun heq => hnum (congrArg Prod.fst heq), procOf_openGroup]
    exact hpid

/-! ### What a report says of its place -/

theorem index_objectOf (assignments : List (String × Json)) (key : String) :
    (objectOf assignments).index key = (lastAssigned key assignments).getD .null := by
  rw [Json.index, find_objectOf]

/-- A report with an autogroup has both of its numbers and the id of the thread. -/
theorem exists_index_autogroup {pid : UInt32} {entry : ProcEntry} {exeFailCount : ℕ} {info : Json}
    (hinfo : (getProcessInfo pid (some entry) exeFailCount).1 = some info)
    (hin : InAutogroup info) :
    ∃ group nice, info.index "autogroup" =
        .object [("group", .numberUnsigned group), ("nice", .numberUnsigned nice)] ∧
      info.index "tpid" = .numberUnsigned pid.toUInt64 := by
  rw [InAutogroup] at hin
  rcases getProcessInfo_cases pid entry exeFailCount with
    ⟨-, hreport⟩ | ⟨tgid, -, ⟨e, -, hreport⟩ | ⟨autogroup, hautogroup, hreport⟩⟩ <;>
    obtain rfl := Option.some.inj (hreport.symm.trans hinfo)
  · rw [index_objectOf, lastAssigned_singleton, if_neg (by decide)] at hin
    exact absurd hin.symm Bool.false_ne_true
  · rw [index_objectOf, lastAssigned_append] at hin
    simp [nameMembers, lastAssigned_cons, Json.isNull] at hin
  · have hattributes : lastAssigned "autogroup" (attributeMembers entry) = none := by
      simp [attributeMembers, lastAssigned_cons]
    have hattributes' : lastAssigned "tpid" (attributeMembers entry) = none := by
      simp [attributeMembers, lastAssigned_cons]
    rw [index_objectOf, lastAssigned_append, lastAssigned_cons, hattributes] at hin ⊢
    rw [index_objectOf, lastAssigned_append, lastAssigned_cons, hattributes']
    rcases readsOrThrows (InputStream.firstLine entry.autogroup) with
      hnull | ⟨group, nice, -, -, hobject⟩ | hthrow
    · obtain rfl := Except.ok.inj (hautogroup.symm.trans hnull)
      exact absurd hin.symm Bool.false_ne_true
    · refine ⟨toSize group, toSize nice, Except.ok.inj (hautogroup.symm.trans hobject), ?_⟩
      simp [nameMembers, lastAssigned_cons]
    · simp [hautogroup] at hthrow

/-- The place of a report. -/
def placeOf (info : Json) : String × String :=
  (decimal ((autogroupNumber info).getD 0), decimal ((threadId info).getD 0))

/-- A report that has its place: its key is the id of its thread, and its group has a number. -/
structure Placed (e : String × Json) (group tid : ℕ) : Prop where
  isObject : e.2.isObject = true
  isObject_autogroup : (e.2.index "autogroup").isObject = true
  autogroupNumber_eq : autogroupNumber e.2 = some (group : ℤ)
  threadId_eq : threadId e.2 = some (tid : ℤ)
  tid_lt : tid < 2 ^ 31
  key_eq : e.1 = decimal tid

theorem IsReport.isObject {e : String × Json} (h : IsReport e) : e.2.isObject = true := by
  obtain ⟨tid, -, -, files, exeFailCount, hinfo⟩ := h
  rw [getProcessInfo_some] at hinfo
  rw [← Option.some.inj hinfo]
  rfl

theorem IsReport.exists_placed {e : String × Json} (h : IsReport e) (hin : InAutogroup e.2) :
    ∃ group tid, Placed e group tid := by
  have hobject := h.isObject
  obtain ⟨tid, htid, hkey, files, exeFailCount, hinfo⟩ := h
  obtain ⟨group, nice, hautogroup, htpid⟩ := exists_index_autogroup hinfo hin
  refine ⟨group.toNat, tid, hobject, ?_, ?_, ?_, htid, hkey⟩
  · rw [hautogroup]
    rfl
  · rw [autogroupNumber, hautogroup]
    rfl
  · have hsize : tid < UInt32.size := htid.trans (by decide)
    rw [threadId, htpid, Json.integerValue, UInt32.toNat_toUInt64,
      UInt32.toNat_ofNat_of_lt' hsize]

/-- A number of 31 bits goes through `std::int32_t` unchanged. -/
theorem exists_toStr_getInt {v : Json} {n : ℕ} (hv : v.integerValue = some (n : ℤ))
    (hn : n < 2 ^ 31) : ∃ x, v.getInt = .ok x ∧ toStr x = decimal n := by
  obtain ⟨x, hx, hvalue⟩ := Json.toInt_getInt hv
  refine ⟨x, hx, congrArg decimal (hvalue.trans ?_)⟩
  exact (Word.bmod_eq_self_iff n).mpr (by omega)

section Placed

variable {e : String × Json} {group tid : ℕ}

theorem Placed.placeOf_eq (h : Placed e group tid) : placeOf e.2 = (decimal group, e.1) := by
  rw [placeOf, h.autogroupNumber_eq, h.threadId_eq, h.key_eq]
  rfl

/-- The report is assigned to its place. -/
theorem Placed.addProcess_eq (h : Placed e group tid) (hin : InAutogroup e.2)
    (hgroup : group < 2 ^ 31) (m : Json) :
    ∃ nice, addProcess m e.2 = .ok ((openGroup m (decimal group) nice).update (decimal group)
      (·.update "proc" (·.update e.1 fun _ => e.2.eraseKey "autogroup"))) := by
  obtain ⟨x, hx, hxStr⟩ := exists_toStr_getInt h.autogroupNumber_eq hgroup
  obtain ⟨y, hy, hyStr⟩ := exists_toStr_getInt h.threadId_eq h.tid_lt
  have htpid : (e.2.eraseKey "autogroup").subscript "tpid" = .ok (e.2.index "tpid") := by
    rw [Json.subscript_of_isObject rfl, Json.index_eraseKey, if_neg (by decide)]
  refine ⟨(e.2.index "autogroup").index "nice", ?_⟩
  rw [addProcess, Json.subscript_of_isObject h.isObject, Fallible.ok_bind,
    if_neg (Bool.not_eq_true _ ▸ hin), Json.subscript_of_isObject h.isObject_autogroup,
    Fallible.ok_bind, hx, Fallible.ok_bind, hxStr]
  simp only [htpid, Fallible.ok_bind, hy, hyStr, h.key_eq]
  rfl

end Placed

/-- A report without an autogroup is left out. -/
theorem addProcess_of_not_inAutogroup {info : Json} (hinfo : info.isObject = true)
    (hin : ¬InAutogroup info) (m : Json) : addProcess m info = .ok m := by
  rw [addProcess, Json.subscript_of_isObject hinfo]
  exact if_pos (Bool.eq_true_of_not_eq_false hin)

/-! ### The loop is a list of assignments -/

/-- The assignment that a report makes. -/
def assignment (e : String × Json) : Option ((String ×ₗ String) × Json) :=
  if InAutogroup e.2 then some (toLex (placeOf e.2), e.2.eraseKey "autogroup") else none

/-- One report is at most one assignment, and leaves no group empty. -/
theorem IsReport.exists_addProcess {e : String × Json} (h : IsReport e)
    (hgroup : ∀ n, autogroupNumber e.2 = some n → n < 2 ^ 31) {m : Json} (hm : NoneEmpty m) :
    ∃ m', addProcess m e.2 = .ok m' ∧ NoneEmpty m' ∧
      ∀ place : String ×ₗ String, procOf m' (ofLex place) =
        (lastAssigned place (assignment e).toList).or (procOf m (ofLex place)) := by
  by_cases hin : InAutogroup e.2
  · obtain ⟨group, tid, hplaced⟩ := h.exists_placed hin
    have hlt := hgroup _ hplaced.autogroupNumber_eq
    obtain ⟨nice, hadd⟩ := hplaced.addProcess_eq hin (by omega) m
    refine ⟨_, hadd, noneEmpty_update hm _ _ nice _, fun place => ?_⟩
    rw [procOf_update, procOf_openGroup, assignment, if_pos hin, Option.toList_some,
      lastAssigned_singleton, hplaced.placeOf_eq]
    by_cases hplace : place = toLex (decimal group, e.1)
    · rw [if_pos hplace, Option.some_or]
      exact if_pos (congrArg ofLex hplace)
    · rw [if_neg hplace, Option.none_or]
      exact if_neg fun h => hplace (congrArg toLex h)
  · refine ⟨m, addProcess_of_not_inAutogroup h.isObject hin m, hm, fun place => ?_⟩
    rw [assignment, if_neg hin]
    rfl

/-- **Each report is one assignment.** The loop ends, no group is left empty, and what is found at a
place is what the last report of the place has assigned. -/
theorem exists_autogroupMap {processInfoMap : Json}
    (hreports : ∀ e ∈ processInfoMap.members, IsReport e)
    (hgroups : ∀ e ∈ processInfoMap.members, ∀ n, autogroupNumber e.2 = some n → n < 2 ^ 31) :
    ∃ m, autogroupMap processInfoMap = .ok m ∧ NoneEmpty m ∧ ∀ place, procOf m place =
      lastAssigned (toLex place) (processInfoMap.members.filterMap assignment) := by
  have hnull : NoneEmpty .null := fun group hgroup => absurd hgroup Bool.false_ne_true
  obtain ⟨m, hm, hne, hprocOf⟩ := exists_foldlM_of_assignment
    (fun m hm e he => (hreports e he).exists_addProcess (hgroups e he) hm) hnull
  exact ⟨m, hm, hne, fun place => (hprocOf (toLex place)).trans (Option.or_none ..)⟩

theorem assignment_eq_some_iff {e : String × Json} {a : (String ×ₗ String) × Json} :
    assignment e = some a ↔
      InAutogroup e.2 ∧ (toLex (placeOf e.2), e.2.eraseKey "autogroup") = a := by
  rw [assignment]
  split_ifs with hin <;> simp [hin]

/-- The second part of a place is the key of the report. -/
theorem IsReport.placeOf_snd {e : String × Json} (h : IsReport e) (hin : InAutogroup e.2) :
    (placeOf e.2).2 = e.1 := by
  obtain ⟨group, tid, hplaced⟩ := h.exists_placed hin
  rw [hplaced.placeOf_eq]

/-- No place is assigned twice. -/
theorem ReportMap.nodup_assignment {processInfoMap : Json} (h : ReportMap processInfoMap.members) :
    ((processInfoMap.members.filterMap assignment).map Prod.fst).Nodup := by
  refine List.pairwise_map.mpr (List.pairwise_filterMap.mpr
    (h.sorted.imp_of_mem fun {e e'} he he' hlt a ha a' ha' heq => ?_))
  obtain ⟨hin, rfl⟩ := assignment_eq_some_iff.mp ha
  obtain ⟨hin', rfl⟩ := assignment_eq_some_iff.mp ha'
  have hkey : e.1 = e'.1 := by
    rw [← (h.isReport e he).placeOf_snd hin, ← (h.isReport e' he').placeOf_snd hin']
    exact congrArg (fun place => (ofLex place).2) heq
  exact absurd hkey (ne_of_lt hlt)

/-! ### The partition -/

theorem isEntryOf_eraseKey (info : Json) : IsEntryOf info (info.eraseKey "autogroup") :=
  fun key => Json.find_eraseKey info "autogroup" key

/-- An entry keeps the id of its thread. -/
theorem IsEntryOf.threadId_eq {info entry : Json} (h : IsEntryOf info entry) :
    threadId entry = threadId info := by
  rw [threadId, threadId, Json.index, Json.index, h "tpid", if_neg (by decide)]

/-- The id of the thread tells the reports apart. -/
theorem IsReport.key_eq {e e' : String × Json} (h : IsReport e) (h' : IsReport e')
    (hin : InAutogroup e.2) (hin' : InAutogroup e'.2) (htid : threadId e.2 = threadId e'.2) :
    e.1 = e'.1 := by
  rw [← h.placeOf_snd hin, ← h'.placeOf_snd hin']
  exact congrArg (fun tid => decimal (tid.getD 0)) htid

section Partition

variable {processInfoMap m : Json} (h : ReportMap processInfoMap.members)
  (hm : ∀ place, procOf m place =
    lastAssigned (toLex place) (processInfoMap.members.filterMap assignment))
include h

/-- Two reports with an autogroup that have a common entry are one report. -/
theorem ReportMap.eq_of_isEntryOf {key key' : String} {info info' entry : Json}
    (hfind : processInfoMap.find? key = some info) (hin : InAutogroup info)
    (hentry : IsEntryOf info entry) (hfind' : processInfoMap.find? key' = some info')
    (hin' : InAutogroup info') (hentry' : IsEntryOf info' entry) : key' = key ∧ info' = info := by
  have hkey : key' = key := (h.isReport_of_find hfind').key_eq (h.isReport_of_find hfind) hin' hin
    (hentry'.threadId_eq.symm.trans hentry.threadId_eq)
  rw [hkey] at hfind'
  exact ⟨hkey, Option.some.inj (hfind'.symm.trans hfind)⟩

include hm

/-- **What is found at a place** is the report whose place this is, without its autogroup. -/
theorem procOf_eq_some_iff (place : String × String) (entry : Json) :
    procOf m place = some entry ↔ ∃ key info, processInfoMap.find? key = some info ∧
      InAutogroup info ∧ placeOf info = place ∧ info.eraseKey "autogroup" = entry := by
  rw [hm, lastAssigned_eq_some_iff h.nodup_assignment, List.mem_filterMap]
  constructor
  · rintro ⟨e, he, ha⟩
    obtain ⟨hin, heq⟩ := assignment_eq_some_iff.mp ha
    exact ⟨e.1, e.2, h.sorted.find_eq_some_iff.mpr he, hin,
      congrArg (fun a => ofLex a.1) heq, congrArg Prod.snd heq⟩
  · rintro ⟨key, info, hfind, hin, rfl, rfl⟩
    exact ⟨(key, info), h.sorted.find_eq_some_iff.mp hfind, assignment_eq_some_iff.mpr ⟨hin, rfl⟩⟩

/-- A report is listed at its place. -/
theorem listedAt_placeOf {key : String} {info : Json}
    (hfind : processInfoMap.find? key = some info) (hin : InAutogroup info) :
    ListedAt m info (placeOf info) :=
  ⟨info.eraseKey "autogroup",
    (procOf_eq_some_iff h hm _ _).mpr ⟨key, info, hfind, hin, rfl, rfl⟩, isEntryOf_eraseKey info⟩

/-- It is listed nowhere else. -/
theorem eq_placeOf_of_listedAt {key : String} {info : Json} {place : String × String}
    (hfind : processInfoMap.find? key = some info) (hin : InAutogroup info)
    (hlisted : ListedAt m info place) : place = placeOf info := by
  obtain ⟨entry, hprocOf, hentry⟩ := hlisted
  obtain ⟨key', info', hfind', hin', rfl, rfl⟩ := (procOf_eq_some_iff h hm _ _).mp hprocOf
  have hsame := h.eq_of_isEntryOf hfind hin hentry hfind' hin' (isEntryOf_eraseKey info')
  rw [hsame.2]

theorem partition_of_procOf (hnonempty : NoneEmpty m) : Partition processInfoMap m where
  once key info hfind hin :=
    ⟨placeOf info, listedAt_placeOf h hm hfind hin,
      fun _ hlisted => eq_placeOf_of_listedAt h hm hfind hin hlisted⟩
  own key info hfind hin := by
    obtain ⟨group, tid, hplaced⟩ := (h.isReport_of_find hfind).exists_placed hin
    have hplace : placeOf info = (decimal group, decimal tid) := by
      rw [hplaced.placeOf_eq, hplaced.key_eq]
    exact ⟨group, tid, hplaced.autogroupNumber_eq, hplaced.threadId_eq,
      hplace ▸ listedAt_placeOf h hm hfind hin⟩
  only place entry hprocOf := by
    obtain ⟨key, info, hfind, hin, -, rfl⟩ := (procOf_eq_some_iff h hm _ _).mp hprocOf
    have hentry := isEntryOf_eraseKey info
    refine ⟨key, ⟨info, hfind, hin, hentry⟩, ?_⟩
    rintro key' ⟨info', hfind', hin', hentry'⟩
    exact (h.eq_of_isEntryOf hfind hin hentry hfind' hin' hentry').1
  nonempty := hnonempty

end Partition

/-- **The map of autogroups is a partition** of the reports that have an autogroup, if the numbers
of the groups have 31 bits. -/
theorem getAutogroupMap_partition (proc : List PidEntry) (exeFailCount : ℕ)
    (hgroups : ∀ key info, (getProcessInfoMap proc exeFailCount).1.find? key = some info →
      ∀ n, autogroupNumber info = some n → n < 2 ^ 31) :
    ∃ m, getAutogroupMap proc exeFailCount = .ok m ∧
      Partition (getProcessInfoMap proc exeFailCount).1 m := by
  have hreports := reportMap_getProcessInfoMap proc exeFailCount
  obtain ⟨m, hm, hnonempty, hprocOf⟩ := exists_autogroupMap hreports.isReport fun e he =>
    hgroups e.1 e.2 (hreports.sorted.find_eq_some_iff.mpr he)
  exact ⟨m, hm, partition_of_procOf hreports hprocOf hnonempty⟩

/-- A listing with one process, whose only thread is in the autogroup `25`. -/
def sampleProc : List PidEntry :=
  [⟨['7'], [{
    name := ['7']
    files := some { sampleEntry "sh".toList with autogroup := some (autogroupLine 25 0) }
    isNumeral := fun _ => ⟨7, by decide, rfl⟩ }]⟩]

theorem getAutogroupMap_partition_sample :
    ∃ m, getAutogroupMap sampleProc 0 = .ok m ∧ Partition (getProcessInfoMap sampleProc 0).1 m := by
  have hnumbers : ((getProcessInfoMap sampleProc 0).1.members.all
      fun e => autogroupNumber e.2 == some 25) = true := by
    decide +kernel
  refine getAutogroupMap_partition sampleProc 0 fun key info hfind n hn => ?_
  have hnumber := List.all_eq_true.mp hnumbers _ (SortedAssoc.mem_of_find_eq_some hfind)
  obtain rfl := Option.some.inj (hn.symm.trans (beq_iff_eq.mp hnumber))
  decide

end ProcessInfo

end AnanicyCpp
