import AnanicyCpp.ProcessInfo.Info

/-!
# The map of all threads

`get_process_info_map` goes over `/proc` and over the task directory of each process in it, and
collects the reports of the threads under their names. A process that is there already as a thread
of another one is left out, and so is a thread that is there already. The exceptions of the loop
over a task directory are swallowed, so that the loop ends with what it has found.

## Main definitions

* `TaskEntry`, `PidEntry` : the entries of a task directory and of `/proc`.
* `ProcessInfo.getProcessInfoMap` : the map.
* `ProcessInfo.IsReport` : an entry of the map is the report of the thread that its key names.

## Main results

* `ProcessInfo.reportMap_getProcessInfoMap` : every entry of the map is one, with the keys in order.
-/

namespace AnanicyCpp

open Text

/-- An entry of a task directory: its name, and the files of the thread when they are read, if there
are any. The kernel names a thread by its id, a `pid_t` that is not negative. -/
structure TaskEntry where
  name : Text
  files : Option ProcEntry
  isNumeral : (name.headD nul).isDigit = true → ∃ tid < 2 ^ 31, name = Nat.toDigits 10 tid

/-- An entry of `/proc`: its name, and the entries of its task directory up to the end of the
directory or an exception. -/
structure PidEntry where
  name : Text
  tasks : List TaskEntry

namespace ProcessInfo

/-- `is_valid_entry`. The comparison of the name with `"0"` is one of pointers and never holds. -/
def isValidEntry (processMap : Json) (entryFilename : Text) : Bool :=
  (entryFilename.headD nul).isDigit && !processMap.contains (String.ofList entryFilename)

/-- The body of the inner loop, for the members of the map and the count of refused links. -/
def readTask (state : List (String × Json) × ℕ) (task : TaskEntry) : List (String × Json) × ℕ :=
  if isValidEntry (.object state.1) task.name then
    let (procInfo, exeFailCount) := getProcessInfo (toUInt32 task.name) task.files state.2
    match procInfo with
    | some procInfo => (SortedAssoc.insert (String.ofList task.name) procInfo state.1, exeFailCount)
    | none => (state.1, exeFailCount)
  else state

/-- The body of the outer loop. -/
def readPid (state : List (String × Json) × ℕ) (entry : PidEntry) : List (String × Json) × ℕ :=
  if isValidEntry (.object state.1) entry.name then entry.tasks.foldl readTask state else state

/-- `get_process_info_map` -/
def getProcessInfoMap (proc : List PidEntry) (exeFailCount : ℕ) : Json × ℕ :=
  let state := proc.foldl readPid ([], exeFailCount)
  (.object state.1, state.2)

/-- The entry is the report of the thread whose id is the key. -/
def IsReport (e : String × Json) : Prop :=
  ∃ tid < 2 ^ 31, e.1 = String.ofList (Nat.toDigits 10 tid) ∧
    ∃ files exeFailCount, (getProcessInfo (UInt32.ofNat tid) (some files) exeFailCount).1 = some e.2

/-- What the loops keep: the keys are in order, and the entries are reports. -/
structure ReportMap (members : List (String × Json)) : Prop where
  sorted : SortedAssoc.Sorted members
  isReport : ∀ e ∈ members, IsReport e

theorem ReportMap.isReport_of_find {processMap : Json} (h : ReportMap processMap.members)
    {key : String} {info : Json} (hfind : processMap.find? key = some info) :
    IsReport (key, info) :=
  h.isReport _ (SortedAssoc.mem_of_find_eq_some hfind)

theorem reportMap_readTask {state : List (String × Json) × ℕ} (h : ReportMap state.1)
    (task : TaskEntry) : ReportMap (readTask state task).1 := by
  rw [readTask]
  split_ifs with hvalid
  · obtain ⟨tid, htid, hname⟩ := task.isNumeral (Bool.and_eq_true_iff.mp hvalid).1
    have hpid : toUInt32 task.name = UInt32.ofNat tid := by
      rw [hname, toUInt32_toDigits (by omega)]
    cases hinfo : (getProcessInfo (toUInt32 task.name) task.files state.2).1 with
    | none =>
      simp only [hinfo]
      exact h
    | some procInfo =>
      simp only [hinfo]
      refine ⟨h.sorted.insert _ _, fun e he => ?_⟩
      rcases SortedAssoc.mem_insert he with rfl | he
      · cases hfiles : task.files with
        | none =>
          rw [hfiles] at hinfo
          exact nomatch hinfo
        | some files =>
          rw [hpid, hfiles] at hinfo
          exact ⟨tid, htid, congrArg String.ofList hname, files, state.2, hinfo⟩
      · exact h.isReport e he
  · exact h

theorem reportMap_readPid {state : List (String × Json) × ℕ} (h : ReportMap state.1)
    (entry : PidEntry) : ReportMap (readPid state entry).1 := by
  rw [readPid]
  split_ifs
  · exact List.foldlRecOn (motive := fun state : List (String × Json) × ℕ => ReportMap state.1)
      entry.tasks _ h fun _ h task _ => reportMap_readTask h task
  · exact h

/-- **Every entry of the map is a report**, whatever the directories hold. -/
theorem reportMap_getProcessInfoMap (proc : List PidEntry) (exeFailCount : ℕ) :
    ReportMap (getProcessInfoMap proc exeFailCount).1.members := by
  have hempty : ReportMap [] := ⟨List.Pairwise.nil, fun _ he => nomatch he⟩
  exact List.foldlRecOn (motive := fun state : List (String × Json) × ℕ => ReportMap state.1)
    proc _ hempty fun _ h entry _ => reportMap_readPid h entry

end ProcessInfo

end AnanicyCpp
