import AnanicyCpp.Priority.IoPriority
import AnanicyCpp.ProcessInfo.Info
import AnanicyCpp.Reference

/-!
# From the setters to the report

`set_sched`, `set_io_priority` and `set_oom_score_adjust` encode names and numbers for the kernel,
and `get_process_info` decodes what the kernel has. On a kernel that stores what it is given, the
names and the scheduling priority come back, and of the rest what the decoders keep: the level of
the best-effort class as long as it has thirteen bits, no level of the realtime class, and no
negative `oom_score_adj` (`ProcessInfo.reports_iff`).

## Main definitions

* `Kernel.Stores` : a kernel that stores what it is given.
* `ProcessInfo.Request`, `ProcessInfo.Request.Accepted` : the values for the three setters.
* `ProcessInfo.Reports` : a report shows the values of a request.
* `ProcessInfo.IoSurvives` : the classes and levels that come back.

## Main results

* `ProcessInfo.extractUnsigned_ofInt` : a number that is read back without its sign.
* `ProcessInfo.reports_iff` : when the report shows the values of a request.
-/

namespace AnanicyCpp

variable {σ : Type}

/-- The calls of the three setters succeed and store their arguments, and the kernel reports what it
has stored. -/
structure Kernel.Stores (k : Kernel σ) (view : σ → Attributes) : Prop where
  schedSetscheduler : ∀ pid policy prio s,
    (k.syscall (.schedSetscheduler pid policy prio) s).1 = 0 ∧
    view (k.syscall (.schedSetscheduler pid policy prio) s).2 =
      (view s).withThread pid { (view s).thread pid with
        policy := policy.toUInt32, rtPriority := prio.toUInt32 }
  ioprioSet : ∀ who ioPrio s, (k.syscall (.ioprioSet who ioPrio) s).1 = 0 ∧
    view (k.syscall (.ioprioSet who ioPrio) s).2 =
      (view s).withThread who.toInt32 { (view s).thread who.toInt32 with ioPrio }
  writeOomScoreAdj : ∀ pid value s, k.opensOomScoreAdj pid s = true ∧
    view (k.syscall (.writeOomScoreAdj pid value) s).2 =
      { view s with oomScoreAdj := Function.update (view s).oomScoreAdj pid value }
  schedGetattr : ∀ pid s, ∃ attr, k.schedGetattr pid s = some attr ∧
    attr.schedPolicy = ((view s).thread pid).policy ∧
    attr.schedPriority = ((view s).thread pid).rtPriority

namespace ProcessInfo

open Priority Text Word

/-- Values for the three setters. -/
structure Request where
  sched : String
  rtPrio : UInt32
  ioClass : String
  level : Int32
  oomScoreAdj : Int32

namespace Request

/-- No setter declares its values to be unsupported or invalid. -/
structure Accepted (r : Request) : Prop where
  sched : (schedRequest r.sched r.rtPrio).isSome
  supported : r.sched ≠ "deadline"
  ionice : (ioPrioRequest r.ioClass r.level).isSome

/-- The three calls, with their results. -/
def apply (k : Kernel σ) (pid : Pid) (r : Request) (s : σ) : List Outcome × σ :=
  let sched := setSched k pid r.sched r.rtPrio s
  let ionice := setIoPriority k pid r.ioClass r.level sched.2
  let oomScoreAdj := setOomScoreAdjust k pid r.oomScoreAdj ionice.2
  ([sched.1, ionice.1, oomScoreAdj.1], oomScoreAdj.2)

end Request

/-- What a process with the files shows of the state of the kernel. The kernel writes
`oom_score_adj` as a decimal number and a line feed. -/
def entryOf (k : Kernel σ) (view : σ → Attributes) (pid : Pid) (files : ProcEntry) (s : σ) :
    ProcEntry :=
  { files with
    schedGetattr := k.schedGetattr pid s
    ioprioGet := ((view s).thread pid).ioPrio
    oomScoreAdj := some (ofInt ((view s).oomScoreAdj pid).toInt ++ ['\n']) }

/-- The report shows the values of a request: the scheduler, where `other` and `normal` are one, the
realtime priority for `rr` and `fifo`, the class and, for the classes that have levels, the level,
and `oom_score_adj`. -/
def Reports (info : Json) (r : Request) : Prop :=
  info.find? "sched" = some (.string (if r.sched = "other" then "normal" else r.sched)) ∧
  (r.sched = "rr" ∨ r.sched = "fifo" →
    (info.index "rtprio").integerValue = some (r.rtPrio.toNat : ℤ)) ∧
  (∃ level, info.find? "ionice" = some (.array [.string r.ioClass, level]) ∧
    (r.ioClass = "realtime" ∨ r.ioClass = "best-effort" →
      level.integerValue = some r.level.toInt)) ∧
  (info.index "oom_score_adj").integerValue = some r.oomScoreAdj.toInt

/-- The classes and levels that come back. -/
def IoSurvives (ioClass : String) (level : ℤ) : Prop :=
  (ioClass = "best-effort" ∧ 0 ≤ level ∧ level < 2 ^ 13) ∨
  (ioClass = "idle" ∧ 0 ≤ level ∧ level < 2 ^ 15) ∨
  (ioClass = "none" ∧ (level < 0 ∨ 2 ^ 15 ≤ level))

/-! ### The I/O priority -/

theorem ioPrioRequest_cases {ioClass : String} {level word : Int32}
    (h : ioPrioRequest ioClass level = some word) :
    (ioClass = "best-effort" ∧ word = ioprioPrioValue ioprioClassBe level) ∨
    (ioClass = "realtime" ∧ word = ioprioPrioValue ioprioClassRt level) ∨
    (ioClass = "idle" ∧ word = ioprioPrioValue ioprioClassIdle level) ∨
    (ioClass = "none" ∧ word = ioprioPrioValue ioprioClassNone level ∧
      ioprioPrioClass word ≠ ioprioClassNone) := by
  unfold ioPrioRequest at h
  cases hcls : ioClassValue ioClass with
  | none => simp [hcls] at h
  | some cls =>
    simp only [hcls] at h
    split_ifs at h with hvalid
    obtain rfl := Option.some.inj h
    rcases ioClassValue_cases hcls with ⟨hbe, rfl⟩ | ⟨hrt, rfl⟩ | ⟨hidle, rfl⟩ | ⟨hnone, rfl⟩
    · exact Or.inl ⟨hbe, rfl⟩
    · exact Or.inr (Or.inl ⟨hrt, rfl⟩)
    · exact Or.inr (Or.inr (Or.inl ⟨hidle, rfl⟩))
    · exact Or.inr (Or.inr (Or.inr ⟨hnone, rfl, by simpa [ioprioValid] using hvalid⟩))

theorem IoPrioClass.name_injective : Function.Injective IoPrioClass.name := by
  rintro (_ | _ | _ | _) (_ | _ | _ | _) h <;> first | rfl | exact absurd h (by decide)

/-- What the member `ionice` says. -/
theorem exists_ionice_iff {word : Int32} (ioClass : String) (cls : IoPrioClass)
    (hname : cls.name = ioClass) (P : Json → Prop) :
    (∃ level, ionice word = .array [.string ioClass, level] ∧ P level) ↔
      (getIoPrioAttributes word).1 = cls ∧
        P (if cls = .bestEffort then .numberInteger (ioprioPrioData word).toInt64 else .null) := by
  rw [ionice]
  constructor
  · rintro ⟨level, hlevel, hP⟩
    obtain ⟨hclass, hrest⟩ := List.cons.inj (Json.array.inj hlevel)
    obtain rfl := IoPrioClass.name_injective ((Json.string.inj hclass).trans hname.symm)
    obtain rfl := (List.cons.inj hrest).1
    exact ⟨rfl, hP⟩
  · rintro ⟨rfl, hP⟩
    exact ⟨_, by rw [hname]; rfl, hP⟩

theorem getIoPrioAttributes_eq_idle_iff (word : Int32) :
    (getIoPrioAttributes word).1 = .idle ↔ ioprioPrioClass word = 3 := by
  unfold getIoPrioAttributes
  split_ifs <;> simp_all [ioprioClassIdle, ioprioClassBe, ioprioClassRt]

theorem getIoPrioAttributes_eq_bestEffort_iff (word : Int32) :
    (getIoPrioAttributes word).1 = .bestEffort ↔ ioprioPrioClass word = 2 := by
  unfold getIoPrioAttributes
  split_ifs <;> simp_all [ioprioClassIdle, ioprioClassBe, ioprioClassRt]

theorem getIoPrioAttributes_eq_none_iff (word : Int32) :
    (getIoPrioAttributes word).1 = .none ↔
      ioprioPrioClass word ≠ 1 ∧ ioprioPrioClass word ≠ 2 ∧ ioprioPrioClass word ≠ 3 := by
  unfold getIoPrioAttributes
  split_ifs <;> simp_all [ioprioClassIdle, ioprioClassBe, ioprioClassRt]

/-- The level that the best-effort class reports. -/
theorem integerValue_data {cls : Int32} (hcls : (cls <<< 13) &&& 0x1FFF = 0) (level : Int32) :
    (Json.numberInteger (ioprioPrioData (ioprioPrioValue cls level)).toInt64).integerValue =
      some (level.toInt % 2 ^ 13) := by
  rw [data_ioprioPrioValue hcls, Json.integerValue, Int32.toInt_toInt64]
  exact congrArg some (toInt_and_low level)

theorem bestEffort_comes_back_iff (level : Int32) :
    (getIoPrioAttributes (ioprioPrioValue ioprioClassBe level)).1 = .bestEffort ∧
      (Json.numberInteger
        (ioprioPrioData (ioprioPrioValue ioprioClassBe level)).toInt64).integerValue =
          some level.toInt ↔
    0 ≤ level.toInt ∧ level.toInt < 2 ^ 13 := by
  rw [integerValue_data (by decide), Option.some.injEq]
  constructor
  · rintro ⟨-, hmod⟩
    omega
  · rintro ⟨hnonneg, hlt⟩
    have hzero : ioprioPrioClass level = 0 :=
      (ioprioPrioClass_eq_zero_iff level).mpr ⟨hnonneg, hlt⟩
    refine ⟨?_, Int.emod_eq_of_lt hnonneg hlt⟩
    rw [getIoPrioAttributes_eq_bestEffort_iff, class_ioprioPrioValue (by decide), hzero]
    rfl

theorem idle_comes_back_iff (level : Int32) :
    (getIoPrioAttributes (ioprioPrioValue ioprioClassIdle level)).1 = .idle ↔
      0 ≤ level.toInt ∧ level.toInt < 2 ^ 15 := by
  have hclass : (ioprioPrioClass level).toInt = level.toInt / 2 ^ 13 := toInt_shiftRight level
  rw [getIoPrioAttributes_eq_idle_iff, class_ioprioPrioValue (by decide)]
  refine (three_or_eq_iff (ioprioPrioClass level)).trans ?_
  omega

/-- The class none is accepted only with a level that looks like a class. -/
theorem none_comes_back_iff {level : Int32}
    (hvalid : ioprioPrioClass (ioprioPrioValue ioprioClassNone level) ≠ ioprioClassNone) :
    (getIoPrioAttributes (ioprioPrioValue ioprioClassNone level)).1 = .none ↔
      level.toInt < 0 ∨ 2 ^ 15 ≤ level.toInt := by
  have hword :
      ioprioPrioClass (ioprioPrioValue ioprioClassNone level) = ioprioPrioClass level := by
    rw [class_ioprioPrioValue (by decide)]
    exact Int32.zero_or
  have hzero : ¬level.toInt / 2 ^ 13 = 0 :=
    (ioprioPrioClass_eq_iff level 0).not.mp (hword ▸ hvalid)
  have hone : ioprioPrioClass level = 1 ↔ level.toInt / 2 ^ 13 = 1 := ioprioPrioClass_eq_iff level 1
  have htwo : ioprioPrioClass level = 2 ↔ level.toInt / 2 ^ 13 = 2 := ioprioPrioClass_eq_iff level 2
  have hthree : ioprioPrioClass level = 3 ↔ level.toInt / 2 ^ 13 = 3 :=
    ioprioPrioClass_eq_iff level 3
  rw [getIoPrioAttributes_eq_none_iff, hword, ne_eq, ne_eq, ne_eq, hone, htwo, hthree]
  omega

/-- The class and the level that come back. -/
theorem ionice_reports_iff {ioClass : String} {level word : Int32}
    (h : ioPrioRequest ioClass level = some word) :
    (∃ reported, ionice word = .array [.string ioClass, reported] ∧
      (ioClass = "realtime" ∨ ioClass = "best-effort" →
        reported.integerValue = some level.toInt)) ↔ IoSurvives ioClass level.toInt := by
  rcases ioPrioRequest_cases h with ⟨rfl, rfl⟩ | ⟨rfl, rfl⟩ | ⟨rfl, rfl⟩ | ⟨rfl, rfl, hvalid⟩
  · rw [exists_ionice_iff "best-effort" .bestEffort rfl, if_pos rfl,
      forall_prop_of_true (Or.inr rfl), bestEffort_comes_back_iff]
    simp [IoSurvives]
  · rw [exists_ionice_iff "realtime" .realtime rfl, forall_prop_of_true (Or.inl rfl)]
    simp [IoSurvives, Json.integerValue]
  · rw [exists_ionice_iff "idle" .idle rfl, idle_comes_back_iff]
    simp [IoSurvives]
  · rw [exists_ionice_iff "none" .none rfl, none_comes_back_iff hvalid]
    simp [IoSurvives]

/-! ### The number of `oom_score_adj` -/

/-- The number in front of a line feed is the unsigned reading of the word. -/
theorem extractUnsigned_ofInt (value : Int32) :
    extractUnsigned (ofInt value.toInt ++ ['\n']) = value.toUInt32 := by
  have hvalue := toNat_toUInt32 value
  have hrange := value.toInt_lt
  have hlow := value.le_toInt
  rw [← UInt32.toNat_inj]
  cases h : value.toInt with
  | ofNat n =>
    rw [h] at hvalue hrange
    rw [ofInt, extractUnsigned_toDigits n rfl, UInt32.toNat_ofNat']
    simp only [Int.ofNat_eq_natCast] at hvalue hrange
    omega
  | negSucc n =>
    rw [h] at hvalue hlow
    simp only [Int.negSucc_eq] at hvalue hlow
    rw [ofInt, List.cons_append, extractUnsigned_minus_toDigits (by omega) rfl, UInt32.toNat_neg,
      UInt32.toNat_ofNat', UInt32.size]
    omega

/-- The unsigned reading is the number itself where it has no sign. -/
theorem integerValue_toUInt32 (value : Int32) :
    (Json.numberUnsigned value.toUInt32.toUInt64).integerValue = some value.toInt ↔
      0 ≤ value.toInt := by
  have hvalue := toNat_toUInt32 value
  have hlt := value.toInt_lt
  rw [Json.integerValue, UInt32.toNat_toUInt64, Option.some.injEq]
  omega

/-! ### The scheduler -/

/-- The name and the priority that come back from an accepted scheduler. -/
theorem schedRequest_reported {schedName : String} {rtPrio : UInt32} {sched prio : Int32}
    (h : schedRequest schedName rtPrio = some (sched, prio)) (hsupported : schedName ≠ "deadline") :
    getSchedPolicyName sched.toUInt32 = (if schedName = "other" then "normal" else schedName) ∧
      (schedName = "rr" ∨ schedName = "fifo" → prio.toUInt32 = rtPrio) := by
  unfold schedRequest at h
  split_ifs at h with hidle hnormal hrr hfifo hbatch <;> cases h
  · subst hidle
    exact ⟨by decide, by simp⟩
  · rcases hnormal with rfl | rfl <;> exact ⟨by decide, by simp⟩
  · subst hrr
    exact ⟨by decide, fun _ => rfl⟩
  · subst hfifo
    exact ⟨by decide, fun _ => rfl⟩
  · subst hbatch
    exact ⟨by decide, by simp⟩

/-! ### The state after the calls -/

theorem result_zero (funcName : String) (pid : Pid) : result 0 funcName pid = .ok true := rfl

/-- An accepted request is stored, and every setter returns `true`. -/
theorem apply_eq {k : Kernel σ} {view : σ → Attributes} (hk : k.Stores view) {r : Request}
    {sched prio word : Int32} (hsched : schedRequest r.sched r.rtPrio = some (sched, prio))
    (hword : ioPrioRequest r.ioClass r.level = some word) (pid : Pid) (s : σ) :
    (r.apply k pid s).1 = [.ok true, .ok true, .ok true] ∧
    ((view (r.apply k pid s).2).thread pid).policy = sched.toUInt32 ∧
    ((view (r.apply k pid s).2).thread pid).rtPriority = prio.toUInt32 ∧
    ((view (r.apply k pid s).2).thread pid).ioPrio = word ∧
    (view (r.apply k pid s).2).oomScoreAdj pid = r.oomScoreAdj := by
  obtain ⟨hset, hstored⟩ := hk.schedSetscheduler pid sched prio s
  have hsetSched : setSched k pid r.sched r.rtPrio s =
      (.ok true, (k.syscall (.schedSetscheduler pid sched prio) s).2) := by
    simp only [setSched, hsched, hset, result_zero]
  generalize (k.syscall (.schedSetscheduler pid sched prio) s).2 = s₁ at hsetSched hstored
  obtain ⟨hset', hstored'⟩ := hk.ioprioSet pid.toUInt32 word s₁
  have hsetIo : setIoPriority k pid r.ioClass r.level s₁ =
      (.ok true, (k.syscall (.ioprioSet pid.toUInt32 word) s₁).2) := by
    simp only [setIoPriority, hword, hset', result_zero]
  generalize (k.syscall (.ioprioSet pid.toUInt32 word) s₁).2 = s₂ at hsetIo hstored'
  obtain ⟨hopen, hstored''⟩ := hk.writeOomScoreAdj pid r.oomScoreAdj s₂
  have hsetOom : setOomScoreAdjust k pid r.oomScoreAdj s₂ =
      (.ok true, (k.syscall (.writeOomScoreAdj pid r.oomScoreAdj) s₂).2) := by
    simp only [setOomScoreAdjust, hopen, if_true]
  have happly : r.apply k pid s = ([.ok true, .ok true, .ok true],
      (k.syscall (.writeOomScoreAdj pid r.oomScoreAdj) s₂).2) := by
    simp only [Request.apply, hsetSched, hsetIo, hsetOom]
  rw [happly, hstored'', hstored', hstored]
  simp [Attributes.thread_withThread]

/-- What a report shows that has the members of the stored values. -/
theorem reports_iff_of_members {info : Json} {r : Request} (hsupported : r.sched ≠ "deadline")
    {sched prio word : Int32} (hsched : schedRequest r.sched r.rtPrio = some (sched, prio))
    (hword : ioPrioRequest r.ioClass r.level = some word)
    (hschedMember : info.find? "sched" = some (.string (getSchedPolicyName sched.toUInt32)))
    (hrtprioMember : info.find? "rtprio" = some (.numberUnsigned prio.toUInt32.toUInt64))
    (hioniceMember : info.find? "ionice" = some (ionice word))
    (hoomMember : info.find? "oom_score_adj" =
      some (.numberUnsigned r.oomScoreAdj.toUInt32.toUInt64)) :
    Reports info r ↔ IoSurvives r.ioClass r.level.toInt ∧ 0 ≤ r.oomScoreAdj.toInt := by
  obtain ⟨hname, hrtPrio⟩ := schedRequest_reported hsched hsupported
  rw [Reports, hschedMember, hname, hioniceMember, Json.index_of_find hrtprioMember,
    Json.index_of_find hoomMember, integerValue_toUInt32, ← ionice_reports_iff hword]
  have hrt : r.sched = "rr" ∨ r.sched = "fifo" →
      (Json.numberUnsigned prio.toUInt32.toUInt64).integerValue = some (r.rtPrio.toNat : ℤ) :=
    fun h => by rw [hrtPrio h, Json.integerValue, UInt32.toNat_toUInt64]
  simp only [Option.some.injEq, true_and, and_iff_right hrt]

/-- The report after the calls. -/
theorem exists_reports_iff {k : Kernel σ} {view : σ → Attributes} (hk : k.Stores view)
    {r : Request} (hr : r.Accepted) (pid : Pid) (files : ProcEntry) (exeFailCount : ℕ) (s : σ) :
    (∃ info, (getProcessInfo pid.toUInt32
        (some (entryOf k view pid files (r.apply k pid s).2)) exeFailCount).1 = some info ∧
        Reports info r) ↔
      Readable files ∧ IoSurvives r.ioClass r.level.toInt ∧ 0 ≤ r.oomScoreAdj.toInt := by
  obtain ⟨⟨sched, prio⟩, hsched⟩ := Option.isSome_iff_exists.mp hr.sched
  obtain ⟨word, hword⟩ := Option.isSome_iff_exists.mp hr.ionice
  obtain ⟨-, hpolicy, hprio, hio, hoom⟩ := apply_eq hk hsched hword pid s
  generalize (r.apply k pid s).2 = t at hpolicy hprio hio hoom
  obtain ⟨attr, hattr, hattrPolicy, hattrPrio⟩ := hk.schedGetattr pid t
  rw [hpolicy] at hattrPolicy
  rw [hprio] at hattrPrio
  by_cases hread : Readable (entryOf k view pid files t)
  · obtain ⟨info, hinfo, hfind⟩ := exists_report hread pid.toUInt32 exeFailCount
    have hreports : Reports info r ↔
        IoSurvives r.ioClass r.level.toInt ∧ 0 ≤ r.oomScoreAdj.toInt := by
      refine reports_iff_of_members hr.supported hsched hword (hfind _ _ ?_) (hfind _ _ ?_)
        (hfind _ _ ?_) (hfind _ _ ?_)
      · simp [attributeMembers, lastAssigned_cons, entryOf, hattr, hattrPolicy]
      · simp [attributeMembers, lastAssigned_cons, entryOf, hattr, hattrPrio]
      · simp [attributeMembers, lastAssigned_cons, entryOf, hio]
      · simp [attributeMembers, lastAssigned_cons, entryOf, hoom, extractUnsigned_ofInt]
    constructor
    · rintro ⟨info', hinfo', hreport⟩
      obtain rfl := Option.some.inj (hinfo.symm.trans hinfo')
      exact ⟨hread, hreports.mp hreport⟩
    · rintro ⟨-, hsurvives⟩
      exact ⟨info, hinfo, hreports.mpr hsurvives⟩
  · obtain ⟨info, hinfo, hnone⟩ := exists_incomplete hread pid.toUInt32 exeFailCount
    refine iff_of_false ?_ fun h => hread h.1
    rintro ⟨info', hinfo', hsched', -⟩
    obtain rfl := Option.some.inj (hinfo.symm.trans hinfo')
    exact absurd (hnone.symm.trans hsched') (by simp)

/-- **When the report shows the values of a request.** For every accepted request, on a kernel that
stores what it is given, the three setters return `true`, and the report shows the scheduler, the
realtime priority, the I/O class with its level and `oom_score_adj` exactly when the other files of
the process can be read, the class and the level are among those that come back, and
`oom_score_adj` is not negative. -/
theorem reports_iff {k : Kernel σ} {view : σ → Attributes} (hk : k.Stores view) {r : Request}
    (hr : r.Accepted) (pid : Pid) (files : ProcEntry) (exeFailCount : ℕ) (s : σ) :
    (r.apply k pid s).1 = [.ok true, .ok true, .ok true] ∧
    ((∃ info, (getProcessInfo pid.toUInt32
        (some (entryOf k view pid files (r.apply k pid s).2)) exeFailCount).1 = some info ∧
        Reports info r) ↔
      Readable files ∧ IoSurvives r.ioClass r.level.toInt ∧ 0 ≤ r.oomScoreAdj.toInt) := by
  obtain ⟨⟨sched, prio⟩, hsched⟩ := Option.isSome_iff_exists.mp hr.sched
  obtain ⟨word, hword⟩ := Option.isSome_iff_exists.mp hr.ionice
  exact ⟨(apply_eq hk hsched hword pid s).1, exists_reports_iff hk hr pid files exeFailCount s⟩

/-- The reference platform, but every policy takes every priority. -/
def storing : Kernel Attributes :=
  { (Platform.reference fun _ => []).toKernel with
    syscall := fun call a =>
      match call with
      | .schedSetscheduler pid policy prio =>
          (0, a.withThread pid { a.thread pid with
            policy := policy.toUInt32, rtPriority := prio.toUInt32 })
      | call => (Platform.reference fun _ => []).syscall call a }

theorem stores_storing : storing.Stores id where
  schedSetscheduler _ _ _ _ := ⟨rfl, rfl⟩
  ioprioSet _ _ _ := ⟨rfl, rfl⟩
  writeOomScoreAdj _ _ _ := ⟨rfl, rfl⟩
  schedGetattr _ _ := ⟨_, rfl, rfl, rfl⟩

def sampleAttributes : Attributes := ⟨fun _ => ⟨0, 0, 0, 0, 0⟩, fun _ => 0⟩

/-- The files of a shell. -/
def sampleFiles : ProcEntry where
  cmdline := some "sh".toList
  exe := .ok "/bin/sh".toList
  comm := some "sh\n".toList
  status := some "Tgid:\t7\nPPid:\t1\n".toList
  stat := some "7 (sh) S 1".toList
  autogroup := some "/autogroup-3 nice 0\n".toList
  oomScoreAdj := none
  schedGetattr := none
  ioprioGet := 0

/-- A realtime scheduler with a best-effort I/O priority. -/
def sampleRequest : Request := ⟨"rr", 5, "best-effort", 7, 100⟩

theorem accepted_sampleRequest : sampleRequest.Accepted := ⟨by decide, by decide, by decide⟩

theorem reports_iff_sample :
    (sampleRequest.apply storing 7 sampleAttributes).1 = [.ok true, .ok true, .ok true] ∧
    ((∃ info, (getProcessInfo 7 (some (entryOf storing id 7 sampleFiles
        (sampleRequest.apply storing 7 sampleAttributes).2)) 0).1 = some info ∧
        Reports info sampleRequest) ↔
      Readable sampleFiles ∧ IoSurvives "best-effort" 7 ∧ 0 ≤ (100 : ℤ)) :=
  reports_iff stores_storing accepted_sampleRequest 7 sampleFiles 0 sampleAttributes

theorem readable_sampleFiles : Readable sampleFiles := by
  refine ⟨⟨"7", ?_⟩, .object [("group", .numberUnsigned 3), ("nice", .numberUnsigned 0)], rfl⟩
  rw [parseProcStatus, sampleFiles, InputStream.whileGood_openFile]
  rfl

/-- A level of the realtime class. -/
def sampleRealtime : Request := ⟨"normal", 1, "realtime", 4, 0⟩

theorem accepted_sampleRealtime : sampleRealtime.Accepted := ⟨by decide, by decide, by decide⟩

/-- The report does not always show the values of a request: the level of the realtime class is
reported as `null`. -/
theorem not_forall_reports :
    ¬ ∀ (k : Kernel Attributes) (view : Attributes → Attributes), k.Stores view →
      ∀ r : Request, r.Accepted → ∀ (pid : Pid) (files : ProcEntry), Readable files →
      ∀ (exeFailCount : ℕ) (s : Attributes), ∃ info, (getProcessInfo pid.toUInt32
        (some (entryOf k view pid files (r.apply k pid s).2)) exeFailCount).1 = some info ∧
        Reports info r := by
  intro h
  have hreports := h storing id stores_storing sampleRealtime accepted_sampleRealtime 7 sampleFiles
    readable_sampleFiles 0 sampleAttributes
  have hsurvives := ((exists_reports_iff stores_storing accepted_sampleRealtime 7 sampleFiles 0
    sampleAttributes).mp hreports).2.1
  simp [IoSurvives, sampleRealtime] at hsurvives

end ProcessInfo

end AnanicyCpp
