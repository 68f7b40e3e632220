import AnanicyCpp.Reference
import AnanicyCpp.Worker.Requests

/-!
# Realtime processes and cgroups

With the realtime workaround on, a process that is realtime must stay out of the cgroups and be
moved to the root cgroup. The worker asks whether the process is realtime before it applies the
rule, and a rule can change the answer; a setter that returns `false` skips the move. The contract
therefore holds under a condition on what the rule and the outcomes of the setters bring about
(`Worker.cgroupContract_iff`).

## Main definitions

* `Platform.SchedulingLaws` : when a process becomes realtime.
* `Worker.CgroupContract` : what the workaround is for.
* `Worker.Makes`, `Worker.MakesRealtime`, `Worker.EndsRealtime`, `Worker.StopsEarly` : what happens
  on the way.

## Main results

* `Worker.isRealtime_handleProcess` : whether the process is realtime in the end.
* `Worker.cgroupContract_iff` : when the contract holds.
-/

namespace AnanicyCpp

variable {σ : Type}

/-! ### When a process is realtime -/

/-- What the kernel is assumed to do: a successful `sched_setscheduler` makes the process realtime
when the policy is, which it refuses without a positive priority, and ends that otherwise. A failed
one changes nothing, nor does any other call. -/
structure Platform.SchedulingLaws (P : Platform σ) (pid : Pid) : Prop where
  realtime : ∀ policy prio s, policy ∈ realtimePolicies → 0 < prio →
    (P.syscall (.schedSetscheduler pid policy prio) s).1 = 0 →
    P.isRealtime pid (P.syscall (.schedSetscheduler pid policy prio) s).2 = true
  refused : ∀ policy prio s, policy ∈ realtimePolicies →
    (P.syscall (.schedSetscheduler pid policy prio) s).1 = 0 → 0 < prio
  ordinary : ∀ policy prio s, policy ∉ realtimePolicies →
    (P.syscall (.schedSetscheduler pid policy prio) s).1 = 0 →
    P.isRealtime pid (P.syscall (.schedSetscheduler pid policy prio) s).2 = false
  failed : ∀ policy prio s, (P.syscall (.schedSetscheduler pid policy prio) s).1 ≠ 0 →
    P.isRealtime pid (P.syscall (.schedSetscheduler pid policy prio) s).2 = P.isRealtime pid s
  others : ∀ call s, call.namesRtPriority = false →
    P.isRealtime pid (P.syscall call s).2 = P.isRealtime pid s
  connecting : ∀ s, P.isRealtime pid (P.defaultSystem s).2 = P.isRealtime pid s
  calling : ∀ request s, P.isRealtime pid (P.callMethod request s).2 = P.isRealtime pid s

/-- A `set_sched` call whose system call succeeds in the given state. -/
def Platform.Schedules (P : Platform σ) (pid : Pid) (schedName : String) (rtPrio : UInt32)
    (s : σ) : Prop :=
  ∃ sched schedPriority, Priority.schedRequest schedName rtPrio = some (sched, schedPriority) ∧
    (P.syscall (.schedSetscheduler pid sched schedPriority) s).1 = 0

/-- The names of the realtime schedulers. -/
def realtimeNames : List String := ["rr", "fifo"]

theorem mem_realtimePolicies_of_schedRequest {schedName : String} {rtPrio : UInt32}
    {sched schedPriority : Int32}
    (h : Priority.schedRequest schedName rtPrio = some (sched, schedPriority)) :
    sched ∈ realtimePolicies ↔ schedName ∈ realtimeNames := by
  unfold Priority.schedRequest at h
  split_ifs at h with hidle hother hrr hfifo hdeadline hbatch <;> cases h
  · subst hidle
    decide
  · rcases hother with rfl | rfl <;> decide
  · subst hrr
    exact iff_of_true (by simp [realtimePolicies]) (by simp [realtimeNames])
  · subst hfifo
    exact iff_of_true (by simp [realtimePolicies]) (by simp [realtimeNames])
  · subst hdeadline
    decide
  · subst hbatch
    decide

namespace Platform.SchedulingLaws

variable {P : Platform σ} {pid : Pid}

/-- A `set_sched` call that succeeds decides whether the process is realtime. -/
theorem isRealtime_of_schedules (laws : P.SchedulingLaws pid) {schedName : String}
    {rtPrio : UInt32} {s : σ} (h : P.Schedules pid schedName rtPrio s) :
    P.isRealtime pid (P.setters.call pid (.setSched schedName rtPrio) s).2 =
      decide (schedName ∈ realtimeNames) := by
  obtain ⟨sched, schedPriority, hrequest, hok⟩ := h
  have hmem := mem_realtimePolicies_of_schedRequest hrequest
  show P.isRealtime pid (Priority.setSched P.toKernel pid schedName rtPrio s).2 = _
  rw [Priority.setSched, hrequest]
  by_cases hrt : sched ∈ realtimePolicies
  · rw [decide_eq_true (hmem.mp hrt)]
    exact laws.realtime _ _ s hrt (laws.refused _ _ s hrt hok) hok
  · rw [decide_eq_false fun hname => hrt (hmem.mpr hname)]
    exact laws.ordinary _ _ s hrt hok

/-- A `set_sched` call that does not succeed leaves it as it is. -/
theorem isRealtime_of_not_schedules (laws : P.SchedulingLaws pid) {schedName : String}
    {rtPrio : UInt32} {s : σ} (h : ¬P.Schedules pid schedName rtPrio s) :
    P.isRealtime pid (P.setters.call pid (.setSched schedName rtPrio) s).2 =
      P.isRealtime pid s := by
  show P.isRealtime pid (Priority.setSched P.toKernel pid schedName rtPrio s).2 = _
  unfold Priority.setSched
  cases hrequest : Priority.schedRequest schedName rtPrio with
  | none => rfl
  | some request => exact laws.failed _ _ s fun hok => h ⟨_, _, hrequest, hok⟩

/-- No other setter changes it. -/
theorem isRealtime_of_ne_setSched (laws : P.SchedulingLaws pid) {c : SetterCall}
    (hc : ∀ schedName rtPrio, c ≠ .setSched schedName rtPrio) (s : σ) :
    P.isRealtime pid (P.setters.call pid c s).2 = P.isRealtime pid s := by
  refine P.call_invariant (fun t => P.isRealtime pid t = P.isRealtime pid s)
    (fun t ht => (laws.connecting t).trans ht)
    (fun request t ht => (laws.calling request t).trans ht)
    pid c (fun call t hask ht => (laws.others call t ?_).trans ht) rfl
  cases hask with
  | setSched => exact absurd rfl (hc _ _)
  | setLatencyNice => simp [Syscall.namesRtPriority, Priority.keepsParams_latniceAttr]
  | setPriority | setIoPriority | setOomScoreAdjust => rfl

end Platform.SchedulingLaws

namespace Worker

/-! ### What happens on the way -/

/-- The call `c` is made in the state `t` when the process is handled from the state `s`. -/
def Makes (P : Platform σ) (config : Config) (rule : Json) (p : Process) (s : σ) (c : SetterCall)
    (t : σ) : Prop :=
  CallSequence.Reached (P.setters.call p.pid) (steps config rule (P.isRealtime p.pid s)) s c t

variable (P : Platform σ) (config : Config) (rule : Json) (p : Process) (s : σ)

/-- A call is made that gives the process a realtime scheduler. -/
def MakesRealtime : Prop :=
  ∃ schedName rtPrio t, Makes P config rule p s (.setSched schedName rtPrio) t ∧
    P.Schedules p.pid schedName rtPrio t ∧ schedName ∈ realtimeNames

/-- A call is made that gives the process another scheduler. -/
def EndsRealtime : Prop :=
  ∃ schedName rtPrio t, Makes P config rule p s (.setSched schedName rtPrio) t ∧
    P.Schedules p.pid schedName rtPrio t ∧ schedName ∉ realtimeNames

/-- A call is made that returns `false`. -/
def StopsEarly : Prop :=
  ∃ c t, Makes P config rule p s c t ∧ (P.setters.call p.pid c t).1 = .ok false

variable {P config rule p s}

/-- At most one `set_sched` call is made. -/
theorem Makes.setSched_unique {schedName schedName' : String} {rtPrio rtPrio' : UInt32} {t t' : σ}
    (h : Makes P config rule p s (.setSched schedName rtPrio) t)
    (h' : Makes P config rule p s (.setSched schedName' rtPrio') t') :
    schedName = schedName' ∧ rtPrio = rtPrio' ∧ t = t' := by
  have honly (name : String) (prio : UInt32) : ∀ st ∈ otherSteps config rule
      (P.isRealtime p.pid s), st.call ≠ .ok (.setSched name prio) := fun st hst hc =>
    ne_setSched_of_others config rule _ st hst _ hc ⟨name, prio, rfl⟩
  obtain ⟨-, -, hc, ht⟩ := (CallSequence.reached_iff_of_only (honly _ _)).mp h
  obtain ⟨-, -, hc', ht'⟩ := (CallSequence.reached_iff_of_only (honly _ _)).mp h'
  have hcall := Except.ok.inj (hc.symm.trans hc')
  exact ⟨(SetterCall.setSched.inj hcall).1, (SetterCall.setSched.inj hcall).2, ht.trans ht'.symm⟩

/-- Only a `set_sched` call can change whether the process is realtime. -/
theorem scheduling_cases (laws : P.SchedulingLaws p.pid) (config : Config) (rule : Json) (s : σ) :
    (∃ schedName rtPrio t, Makes P config rule p s (.setSched schedName rtPrio) t ∧
      P.isRealtime p.pid t = P.isRealtime p.pid s ∧
      P.isRealtime p.pid (handleProcess P.setters config rule p s).after =
        P.isRealtime p.pid (P.setters.call p.pid (.setSched schedName rtPrio) t).2) ∨
    (∀ schedName rtPrio t, ¬Makes P config rule p s (.setSched schedName rtPrio) t) ∧
      P.isRealtime p.pid (handleProcess P.setters config rule p s).after =
        P.isRealtime p.pid s := by
  rw [observe_after (P.isRealtime p.pid) P laws.connecting laws.calling]
  have hframe : ∀ c t, (¬∃ schedName rtPrio, c = SetterCall.setSched schedName rtPrio) →
      P.isRealtime p.pid (P.setters.call p.pid c t).2 = P.isRealtime p.pid t := fun c t hc =>
    laws.isRealtime_of_ne_setSched (fun name prio h => hc ⟨name, prio, h⟩) t
  rcases CallSequence.observe_run_of_only (P.isRealtime p.pid) _ hframe (schedStep config rule)
    (ne_setSched_of_others config rule (P.isRealtime p.pid s)) s with
    ⟨_, t, ⟨name, prio, rfl⟩, hmade, hbefore, hafter⟩ | ⟨hnone, hafter⟩
  · exact Or.inl ⟨name, prio, t, hmade, hbefore, hafter⟩
  · exact Or.inr ⟨fun name prio t h => hnone _ t h ⟨name, prio, rfl⟩, hafter⟩

/-- A process is realtime in the end when a call made it so, or when it was and no call ended it. -/
theorem isRealtime_handleProcess (laws : P.SchedulingLaws p.pid) (config : Config) (rule : Json)
    (s : σ) :
    P.isRealtime p.pid (handleProcess P.setters config rule p s).after = true ↔
      MakesRealtime P config rule p s ∨
        P.isRealtime p.pid s = true ∧ ¬EndsRealtime P config rule p s := by
  rcases scheduling_cases laws config rule s with
    ⟨name, prio, t, hmade, hbefore, hafter⟩ | ⟨hnone, hafter⟩
  · rw [hafter]
    by_cases hsched : P.Schedules p.pid name prio t
    · rw [laws.isRealtime_of_schedules hsched, decide_eq_true_iff]
      constructor
      · exact fun hname => Or.inl ⟨name, prio, t, hmade, hsched, hname⟩
      · rintro (⟨name', prio', t', hmade', -, hname⟩ | ⟨-, hends⟩)
        · rwa [(hmade.setSched_unique hmade').1]
        · by_contra hname
          exact hends ⟨name, prio, t, hmade, hsched, hname⟩
    · have hnot {name' prio' t'} (h : Makes P config rule p s (.setSched name' prio') t') :
          ¬P.Schedules p.pid name' prio' t' := by
        obtain ⟨rfl, rfl, rfl⟩ := hmade.setSched_unique h
        exact hsched
      rw [laws.isRealtime_of_not_schedules hsched, hbefore]
      constructor
      · exact fun hrt => Or.inr ⟨hrt, fun ⟨_, _, _, h, hs, _⟩ => hnot h hs⟩
      · rintro (⟨_, _, _, h, hs, _⟩ | ⟨hrt, -⟩)
        · exact absurd hs (hnot h)
        · exact hrt
  · rw [hafter]
    constructor
    · exact fun hrt => Or.inr ⟨hrt, fun ⟨_, _, _, h, _⟩ => hnone _ _ _ h⟩
    · rintro (⟨_, _, _, h, _⟩ | ⟨hrt, -⟩)
      · exact absurd h (hnone _ _ _)
      · exact hrt

/-! ### The contract -/

/-- What the workaround is for: a turn puts no realtime process into a cgroup, and it moves a
process to the root cgroup if and only if the process is realtime, after all scheduling changes. -/
structure CgroupContract (P : Platform σ) (turn : Turn σ) : Prop where
  keptOut : (∃ name, .addPidToCgroup name ∈ turn.calls) →
    P.isRealtime turn.process.pid turn.after = false
  moved : turn.movedToRoot = true ↔ P.isRealtime turn.process.pid turn.after = true

theorem keptOut_iff (hworkaround : config.cgroupRealtimeWorkaround = true) (isRealtime : Bool) :
    keptOut config isRealtime = isRealtime := by
  rw [keptOut, hworkaround, Bool.and_true]
  exact Bool.and_true isRealtime

/-- The process is moved to the root cgroup when it was realtime and no call returned `false`. -/
theorem movedToRoot_iff (P : Platform σ) (hworkaround : config.cgroupRealtimeWorkaround = true)
    (rule : Json) (p : Process) (s : σ) :
    (handleProcess P.setters config rule p s).movedToRoot = true ↔
      P.isRealtime p.pid s = true ∧ ¬StopsEarly P config rule p s := by
  have hstopped : (applyRule P.setters config rule p.pid (P.isRealtime p.pid s) s).exit =
      .stopped ↔ StopsEarly P config rule p s := by
    rw [applyRule_eq_run]
    exact CallSequence.exit_run_eq_stopped_iff
  have hkept := keptOut_iff hworkaround (P.isRealtime p.pid s)
  show (_ != CallSequence.Exit.stopped && keptOut config (P.isRealtime p.pid s)) = true ↔ _
  rw [Bool.and_eq_true, bne_iff_ne, hkept, and_comm]
  exact and_congr_right fun _ => not_congr hstopped

/-- A process that was realtime is not put into a cgroup. -/
theorem not_mem_calls_of_isRealtime (hworkaround : config.cgroupRealtimeWorkaround = true)
    (hrt : P.isRealtime p.pid s = true) (name : String) :
    .addPidToCgroup name ∉ (handleProcess P.setters config rule p s).calls := by
  show _ ∉ (applyRule P.setters config rule p.pid (P.isRealtime p.pid s) s).calls
  rw [applyRule_eq_run, CallSequence.mem_calls_run_iff, hrt]
  rintro ⟨t, h⟩
  obtain ⟨step, hstep, hon, -, -⟩ := step_of_reached h
  obtain rfl := Option.some.inj hstep
  simp [cgroupStep, keptOut_iff hworkaround] at hon

/-- **When the realtime contract holds.** On a process that is not realtime it holds unless a call
makes the process realtime. On a realtime process it holds when a call returns `false` if and only
if a call ends the realtime scheduling. -/
theorem cgroupContract_iff (laws : P.SchedulingLaws p.pid)
    (hworkaround : config.cgroupRealtimeWorkaround = true) :
    CgroupContract P (handleProcess P.setters config rule p s) ↔
      (P.isRealtime p.pid s = false → ¬MakesRealtime P config rule p s) ∧
      (P.isRealtime p.pid s = true →
        (StopsEarly P config rule p s ↔ EndsRealtime P config rule p s)) := by
  have hfinal := isRealtime_handleProcess laws config rule s
  have hmoved := movedToRoot_iff P hworkaround rule p s
  have hexcl : MakesRealtime P config rule p s → ¬EndsRealtime P config rule p s := by
    rintro ⟨name, prio, t, hmade, -, hname⟩ ⟨name', prio', t', hmade', -, hname'⟩
    exact hname' ((hmade.setSched_unique hmade').1 ▸ hname)
  cases hrt : P.isRealtime p.pid s with
  | false =>
    have hmakes : P.isRealtime p.pid (handleProcess P.setters config rule p s).after = true ↔
        MakesRealtime P config rule p s := by simp [hfinal, hrt]
    have hstays : ¬(handleProcess P.setters config rule p s).movedToRoot = true := by
      simp [hmoved, hrt]
    constructor
    · exact fun h => ⟨fun _ hmade => hstays (h.moved.mpr (hmakes.mpr hmade)), nofun⟩
    · rintro ⟨h, -⟩
      have hnot := fun hafter => h rfl (hmakes.mp hafter)
      exact ⟨fun _ => Bool.not_eq_true _ ▸ hnot, iff_of_false hstays hnot⟩
  | true =>
    have hends : P.isRealtime p.pid (handleProcess P.setters config rule p s).after = true ↔
        ¬EndsRealtime P config rule p s := by
      rw [hfinal, hrt]
      exact ⟨fun h => h.elim hexcl fun h => h.2, fun h => Or.inr ⟨rfl, h⟩⟩
    have hgoes : (handleProcess P.setters config rule p s).movedToRoot = true ↔
        ¬StopsEarly P config rule p s := by simp [hmoved, hrt]
    constructor
    · exact fun h => ⟨nofun, fun _ => not_iff_not.mp (hgoes.symm.trans (h.moved.trans hends))⟩
    · rintro ⟨-, h⟩
      refine ⟨fun ⟨name, hname⟩ => ?_, hgoes.trans ((not_congr (h rfl)).trans hends.symm)⟩
      exact absurd hname (not_mem_calls_of_isRealtime hworkaround hrt name)

/-! ### A run that breaks the contract -/

theorem isRealtime_reference (tasks : Pid → List Pid) (pid : Pid) (a : Attributes) :
    (Platform.reference tasks).isRealtime pid a = decide (0 < (a.thread pid).rtPriority) :=
  rfl

theorem schedulingLaws_reference (tasks : Pid → List Pid) (pid : Pid) :
    (Platform.reference tasks).SchedulingLaws pid where
  realtime policy prio a hpolicy hprio _ := by
    have hpos : 0 < prio.toUInt32 := by
      rw [UInt32.lt_iff_toNat_lt, Int32.toNat_toUInt32_of_le (Int32.le_of_lt hprio)]
      exact Int.pos_iff_toNat_pos.mp (Int32.lt_iff_toInt_lt.mp hprio)
    simp [Platform.reference, Kernel.isRealtime, hpolicy, hprio, Attributes.thread_withThread, hpos]
  refused policy prio a hpolicy hok := by
    by_contra hprio
    simp [Platform.reference, hpolicy, hprio, Errno.einval] at hok
  ordinary policy prio a hpolicy hok := by
    simp only [Platform.reference, if_neg hpolicy] at hok ⊢
    split_ifs at hok ⊢ with hprio
    · have hzero : prio.toUInt32 = 0 := hprio ▸ rfl
      simp [Kernel.isRealtime, Attributes.thread_withThread, hzero]
    · exact absurd (show Errno.einval = 0 from hok) (by decide)
  failed policy prio a hfailed := by
    simp only [Platform.reference] at hfailed ⊢
    split_ifs at hfailed ⊢ <;> first | rfl | exact absurd rfl hfailed
  others call a hcall := by
    rw [isRealtime_reference, isRealtime_reference]
    congr 2
    cases call with
    | setpriority who prio =>
      refine a.observe_withThread ThreadAttrs.rtPriority ?_ pid
      rfl
    | schedSetattr pid' attr flags =>
      refine a.observe_withThread ThreadAttrs.rtPriority (if_pos ?_) pid
      simpa [Syscall.namesRtPriority] using hcall
    | schedSetscheduler pid' policy prio => simp [Syscall.namesRtPriority] at hcall
    | ioprioSet who ioPrio =>
      refine a.observe_withThread ThreadAttrs.rtPriority ?_ pid
      rfl
    | writeOomScoreAdj pid' value => rfl
  connecting _ := rfl
  calling _ _ := rfl

def sampleAttributes : Attributes :=
  ⟨fun _ => ⟨0, 0, 0, 0, 0⟩, fun _ => 0⟩

theorem cgroupContract_iff_sample :
    CgroupContract (Platform.reference fun pid => [pid]) (handleProcess
        (Platform.reference fun pid => [pid]).setters ⟨.empty⟩
        (.object [("cgroup", .string "c"), ("nice", .numberInteger 5)]) ⟨7, "a"⟩
        sampleAttributes) ↔
      ((Platform.reference fun pid => [pid]).isRealtime 7 sampleAttributes = false →
        ¬MakesRealtime (Platform.reference fun pid => [pid]) ⟨.empty⟩
          (.object [("cgroup", .string "c"), ("nice", .numberInteger 5)]) ⟨7, "a"⟩
          sampleAttributes) ∧
      ((Platform.reference fun pid => [pid]).isRealtime 7 sampleAttributes = true →
        (StopsEarly (Platform.reference fun pid => [pid]) ⟨.empty⟩
          (.object [("cgroup", .string "c"), ("nice", .numberInteger 5)]) ⟨7, "a"⟩
          sampleAttributes ↔
        EndsRealtime (Platform.reference fun pid => [pid]) ⟨.empty⟩
          (.object [("cgroup", .string "c"), ("nice", .numberInteger 5)]) ⟨7, "a"⟩
          sampleAttributes)) :=
  cgroupContract_iff (schedulingLaws_reference (fun pid => [pid]) 7) (by decide)

/-- The contract does not always hold: a rule with `sched` and `cgroup` makes the process realtime
and puts it into the cgroup all the same. -/
theorem not_forall_cgroupContract :
    ¬ ∀ (P : Platform Attributes) (config : Config) (rule : Json) (p : Process) (a : Attributes),
      P.SchedulingLaws p.pid → config.cgroupRealtimeWorkaround = true →
        CgroupContract P (handleProcess P.setters config rule p a) := by
  intro h
  have hcontract := h (Platform.reference fun pid => [pid]) ⟨.empty⟩
    (.object [("cgroup", .string "c"), ("sched", .string "fifo")]) ⟨7, "a"⟩ sampleAttributes
    (schedulingLaws_reference (fun pid => [pid]) 7) (by decide)
  have hcalled := hcontract.keptOut ⟨"c", by decide +kernel⟩
  revert hcalled
  decide +kernel

end Worker

end AnanicyCpp
