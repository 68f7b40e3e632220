import AnanicyCpp.Worker.Work

/-!
# What the setters ask for

Each setter asks the kernel for calls of one kind only, and `add_pid_to_cgroup` only uses the bus.
Every frame argument about the worker goes through the rule that follows from it: what the calls
asked for preserve, the setter preserves.

## Main definitions

* `Platform.Lists` : a thread id that the task directory of a process lists.
* `Platform.Asks` : the system calls that a setter may make.

## Main results

* `Platform.call_invariant` : the invariant rule of a setter.
* `Worker.observe_after` : the last block of a turn only uses the bus.
-/

namespace AnanicyCpp

variable {σ : Type}

namespace Priority

/-- What every call preserves, the loop over the threads preserves. -/
theorem forEachTask_invariant (Inv : σ → Prop) {call : Pid → σ → Errno × σ} {names : List Text}
    (hcall : ∀ name ∈ names, 0 < Text.toInt32 name → ∀ t, Inv t →
      Inv (call (Text.toInt32 name) t).2) {s : σ} (hs : Inv s) :
    Inv (forEachTask call names s).2 := by
  refine List.foldlRecOn (motive := fun acc : Errno × σ => Inv acc.2) names _ hs ?_
  intro acc hacc name hname
  simp only
  split_ifs with htid
  · exact hcall name hname htid acc.2 hacc
  · exact hacc

/-- What the call for one name establishes and the calls for the others preserve, the loop
establishes. -/
theorem forEachTask_establishes (Q : σ → Prop) {call : Pid → σ → Errno × σ} {names : List Text}
    {name : Text} (hname : name ∈ names) (hpos : 0 < Text.toInt32 name)
    (hset : ∀ t, Q (call (Text.toInt32 name) t).2)
    (hkeeps : ∀ tid t, Q t → Q (call tid t).2) (s : σ) : Q (forEachTask call names s).2 := by
  obtain ⟨before, after, rfl⟩ := List.append_of_mem hname
  rw [forEachTask, List.foldl_append, List.foldl_cons]
  refine List.foldlRecOn (motive := fun acc : Errno × σ => Q acc.2) after _ ?_ ?_
  · simp only [if_pos hpos]
    exact hset _
  · intro acc hacc name' _
    simp only
    split_ifs
    · exact hkeeps _ acc.2 hacc
    · exact hacc

/-- The loop reports success when every call does. -/
theorem fst_forEachTask {call : Pid → σ → Errno × σ} (hcall : ∀ tid t, (call tid t).1 = 0)
    (names : List Text) (s : σ) : (forEachTask call names s).1 = 0 := by
  refine List.foldlRecOn (motive := fun acc : Errno × σ => acc.1 = 0) names _ rfl ?_
  intro acc _ name _
  simp only
  split_ifs
  · exact hcall _ acc.2
  · rfl

theorem fst_setForTasks {k : Kernel σ} {pid : Pid} {call : Pid → σ → Errno × σ} {s : σ}
    (hdir : (k.taskDir pid s).failed = false) (hcall : ∀ tid t, (call tid t).1 = 0)
    (funcName : String) : (setForTasks k funcName pid call s).1 = .ok true := by
  simp [setForTasks, hdir, result, fst_forEachTask hcall, testErrno, Except.map]

theorem snd_setForTasks (k : Kernel σ) (funcName : String) (pid : Pid)
    (call : Pid → σ → Errno × σ) (s : σ) :
    (setForTasks k funcName pid call s).2 = (forEachTask call (k.taskDir pid s).names s).2 := by
  unfold setForTasks
  simp only
  split_ifs <;> rfl

theorem setForTasks_invariant (Inv : σ → Prop) (k : Kernel σ) (funcName : String) (pid : Pid)
    {call : Pid → σ → Errno × σ} {s : σ}
    (hcall : ∀ name ∈ (k.taskDir pid s).names, 0 < Text.toInt32 name → ∀ t, Inv t →
      Inv (call (Text.toInt32 name) t).2) (hs : Inv s) :
    Inv (setForTasks k funcName pid call s).2 := by
  rw [snd_setForTasks]
  exact forEachTask_invariant Inv hcall hs

end Priority

namespace Platform

/-- The thread id occurs in the task directory of the process, in some state. -/
def Lists (P : Platform σ) (pid tid : Pid) : Prop :=
  0 < tid ∧ ∃ s, ∃ name ∈ (P.taskDir pid s).names, Text.toInt32 name = tid

/-- The system calls that a setter may make. -/
inductive Asks (P : Platform σ) (pid : Pid) : SetterCall → Syscall → Prop
  | setPriority (niceValue : Int32) {tid : Pid} (htid : P.Lists pid tid) :
      Asks P pid (.setPriority niceValue) (.setpriority tid.toUInt32 niceValue)
  | setLatencyNice (latencyNiceValue : Int32) {tid : Pid} (htid : P.Lists pid tid) :
      Asks P pid (.setLatencyNice latencyNiceValue)
        (.schedSetattr tid (Priority.latniceAttr latencyNiceValue) 0)
  | setSched {schedName : String} {rtPrio : UInt32} {sched schedPriority : Int32}
      (hrequest : Priority.schedRequest schedName rtPrio = some (sched, schedPriority)) :
      Asks P pid (.setSched schedName rtPrio) (.schedSetscheduler pid sched schedPriority)
  | setIoPriority {ioClass : String} {value ioPrio : Int32}
      (hrequest : Priority.ioPrioRequest ioClass value = some ioPrio) :
      Asks P pid (.setIoPriority ioClass value) (.ioprioSet pid.toUInt32 ioPrio)
  | setOomScoreAdjust (value : Int32) :
      Asks P pid (.setOomScoreAdjust value) (.writeOomScoreAdj pid value)

/-- What the bus preserves, moving a process preserves. -/
theorem addPidToCgroup_invariant (Inv : σ → Prop) (P : Platform σ)
    (hconnect : ∀ t, Inv t → Inv (P.defaultSystem t).2)
    (hmethod : ∀ request t, Inv t → Inv (P.callMethod request t).2) (pid : Pid)
    (cgroupName : String) {s : σ} (hs : Inv s) :
    Inv (ControlGroups.addPidToCgroup P.toBus pid cgroupName s).2 := by
  unfold ControlGroups.addPidToCgroup ControlGroups.send
  simp only
  split_ifs
  · exact hconnect s hs
  · exact hmethod _ _ (hconnect s hs)
  · exact hmethod _ _ (hconnect s hs)

/-- **The invariant rule of a setter.** What the bus and the system calls that a setter may make
preserve, the setter preserves. -/
theorem call_invariant (Inv : σ → Prop) (P : Platform σ)
    (hconnect : ∀ t, Inv t → Inv (P.defaultSystem t).2)
    (hmethod : ∀ request t, Inv t → Inv (P.callMethod request t).2) (pid : Pid) (c : SetterCall)
    (hask : ∀ call t, P.Asks pid c call → Inv t → Inv (P.syscall call t).2) {s : σ} (hs : Inv s) :
    Inv (P.setters.call pid c s).2 := by
  cases c with
  | setPriority niceValue =>
    refine Priority.setForTasks_invariant Inv P.toKernel "set_priority" pid ?_ hs
    intro name hname htid t ht
    exact hask _ t (.setPriority niceValue ⟨htid, s, name, hname, rfl⟩) ht
  | setLatencyNice latencyNiceValue =>
    refine Priority.setForTasks_invariant Inv P.toKernel "set_latency_nice" pid ?_ hs
    intro name hname htid t ht
    exact hask _ t (.setLatencyNice latencyNiceValue ⟨htid, s, name, hname, rfl⟩) ht
  | setSched schedName rtPrio =>
    show Inv (Priority.setSched P.toKernel pid schedName rtPrio s).2
    unfold Priority.setSched
    cases hrequest : Priority.schedRequest schedName rtPrio with
    | none => exact hs
    | some request => exact hask _ s (.setSched hrequest) hs
  | setIoPriority ioClass value =>
    show Inv (Priority.setIoPriority P.toKernel pid ioClass value s).2
    unfold Priority.setIoPriority
    cases hrequest : Priority.ioPrioRequest ioClass value with
    | none => exact hs
    | some ioPrio => exact hask _ s (.setIoPriority hrequest) hs
  | setOomScoreAdjust value =>
    show Inv (Priority.setOomScoreAdjust P.toKernel pid value s).2
    unfold Priority.setOomScoreAdjust
    split_ifs
    · exact hask _ s (.setOomScoreAdjust value) hs
    · exact hs
  | addPidToCgroup cgroupName =>
    exact addPidToCgroup_invariant Inv P hconnect hmethod pid cgroupName hs

end Platform

namespace Worker

/-- The move to the root cgroup at the end of a turn does not show in an observation that the bus
keeps. -/
theorem observe_after {ρ : Type} (f : σ → ρ) (P : Platform σ)
    (hconnect : ∀ t, f (P.defaultSystem t).2 = f t)
    (hmethod : ∀ request t, f (P.callMethod request t).2 = f t) (config : Config) (rule : Json)
    (p : Process) (s : σ) :
    f (handleProcess P.setters config rule p s).after =
      f (CallSequence.run (P.setters.call p.pid)
        (steps config rule (P.isRealtime p.pid s)) s).state := by
  rw [← applyRule_eq_run]
  show f (if _ then _ else _) = _
  split_ifs
  · exact P.addPidToCgroup_invariant (fun t => f t = _) (fun t ht => (hconnect t).trans ht)
      (fun request t ht => (hmethod request t).trans ht) p.pid "" rfl
  · rfl

end Worker

end AnanicyCpp
