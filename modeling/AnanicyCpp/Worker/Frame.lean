import AnanicyCpp.Reference
import AnanicyCpp.Worker.Requests

/-!
# What a turn leaves alone

An attribute whose key is absent, whose flag is off, or whose value the setter declares unsupported
or invalid should keep its value. Three calls reach further: `set_latnice` does not ask
`sched_setattr` to keep the policy and so resets it; the scheduler `deadline` is declared
unavailable and then set as if it were `normal`; and a supported scheduler is set together with a
realtime priority, also where the rule gives none. `Worker.framed_iff` says exactly when this shows.

## Main definitions

* `Worker.Framed` : the attributes that a turn has to leave alone.
* `Worker.LatniceApplies`, `Worker.SchedApplies` : the step is on and the fields up to it convert.
* `Worker.KeepsFrame` : the condition on the rule, the configuration and the attributes.

## Main results

* `Worker.framed_of_keepsFrame` : the frame on every lawful platform.
* `Worker.framed_iff` : when the frame holds on all of them.
-/

namespace AnanicyCpp

namespace Worker

open Fallible

variable {σ : Type}

/-! ### The frame -/

/-- The scheduler names that `set_sched` supports. -/
def supportedSchedNames : List String := ["idle", "normal", "other", "rr", "fifo", "batch"]

/-- The rule asks for no scheduler, or for one that `set_sched` declares unavailable or invalid. -/
def SchedFixed (config : Config) (rule : Json) : Prop :=
  ¬(config.applySched = true ∧ rule.contains "sched" = true) ∨
    ∃ name, rule.find? "sched" = some (.string name) ∧ Text.cStr name ∉ supportedSchedNames

/-- The rule gives no realtime priority, or the scheduler that would take one has to stay. -/
def RtPrioFixed (config : Config) (rule : Json) : Prop :=
  rule.contains "rtprio" = false ∨ SchedFixed config rule

/-- The rule asks for no I/O class, or for one that `set_io_priority` declares unknown, or for a
class and a level that it declares invalid. -/
def IoPrioFixed (config : Config) (rule : Json) : Prop :=
  ¬(config.applyIonice = true ∧ rule.contains "ioclass" = true) ∨
    ∃ name value, rule.find? "ioclass" = some (.string name) ∧ ioVal rule = .ok value ∧
      ∀ cls, Priority.ioClassValue (Text.cStr name) = some cls →
        Priority.ioprioValid (Priority.ioprioPrioValue cls value) = false

/-- The attributes that the rule does not set keep their values, in every thread. -/
structure Framed (config : Config) (rule : Json) (before after : Attributes) : Prop where
  nice : ¬(config.applyNice = true ∧ rule.contains "nice" = true) →
    ∀ tid, (after.thread tid).nice = (before.thread tid).nice
  latencyNice : ¬(config.applyLatnice = true ∧
      (rule.contains "latency_nice" = true ∨ rule.contains "nice" = true)) →
    ∀ tid, (after.thread tid).latencyNice = (before.thread tid).latencyNice
  policy : SchedFixed config rule →
    ∀ tid, (after.thread tid).policy = (before.thread tid).policy
  rtPriority : RtPrioFixed config rule →
    ∀ tid, (after.thread tid).rtPriority = (before.thread tid).rtPriority
  ioPrio : IoPrioFixed config rule →
    ∀ tid, (after.thread tid).ioPrio = (before.thread tid).ioPrio
  oomScoreAdj : ¬(config.applyOomScoreAdj = true ∧ rule.contains "oom_score_adj" = true) →
    after.oomScoreAdj = before.oomScoreAdj

/-! ### The condition -/

/-- The step for the latency nice value is on, and its field and those in front of it convert. -/
def LatniceApplies (config : Config) (rule : Json) : Prop :=
  (latencyNiceStep config rule).enabled = true ∧ (latencyNiceStep config rule).call.isOk = true ∧
    ((niceStep config rule).enabled = true → (niceStep config rule).call.isOk = true)

/-- The step for the scheduler is on, and its fields and those in front of it convert. -/
def SchedApplies (config : Config) (rule : Json) : Prop :=
  (schedStep config rule).enabled = true ∧ (schedStep config rule).call.isOk = true ∧
    ∀ step ∈ [niceStep config rule, latencyNiceStep config rule],
      step.enabled = true → step.call.isOk = true

/-- The realtime priority that is set with a supported scheduler when the rule gives none. -/
def impliedRtPriority (schedName : String) : UInt32 :=
  if schedName = "rr" ∨ schedName = "fifo" then 1 else 0

/-- When none of the three can show: where the scheduler has to stay, setting the latency nice value
finds only threads with the policy that it resets to, and `deadline` is asked for of a process that
has the policy and priority which are set instead; and a supported scheduler is asked for without a
realtime priority of a process that has the one which is set with it. -/
structure KeepsFrame (config : Config) (rule : Json) (pid : Pid) (tasks : List Pid)
    (before : Attributes) : Prop where
  latnice : SchedFixed config rule → LatniceApplies config rule →
    ∀ tid ∈ tasks, 0 < tid → (before.thread tid).policy = 0
  deadline : ∀ name, rule.find? "sched" = some (.string name) → Text.cStr name = "deadline" →
    SchedApplies config rule →
    (before.thread pid).policy = 0 ∧ (before.thread pid).rtPriority = 0
  rtPriority : rule.contains "rtprio" = false → ∀ name, rule.find? "sched" = some (.string name) →
    Text.cStr name ∈ supportedSchedNames → SchedApplies config rule →
    (before.thread pid).rtPriority = impliedRtPriority (Text.cStr name)

/-! ### What the calls of a rule change -/

/-- What one system call of a setter does to the attributes when it succeeds. -/
inductive Effect (P : Platform σ) (pid : Pid) : SetterCall → Attributes → Attributes → Prop
  | setPriority (niceValue : Int32) (a : Attributes) {tid : Pid} (htid : P.Lists pid tid)
      (nice : Int32) :
      Effect P pid (.setPriority niceValue) a (a.withThread tid { a.thread tid with nice })
  | setLatencyNice (latencyNiceValue : Int32) (a : Attributes) {tid : Pid}
      (htid : P.Lists pid tid) (latencyNice : Int32) :
      Effect P pid (.setLatencyNice latencyNiceValue) a
        (a.withThread tid { a.thread tid with latencyNice, policy := 0 })
  | setSched (a : Attributes) {schedName : String} {rtPrio : UInt32} {sched prio : Int32}
      (hrequest : Priority.schedRequest schedName rtPrio = some (sched, prio)) :
      Effect P pid (.setSched schedName rtPrio) a (a.withThread pid { a.thread pid with
        policy := sched.toUInt32, rtPriority := prio.toUInt32 })
  | setIoPriority (a : Attributes) {ioClass : String} {value newIoPrio : Int32}
      (hrequest : Priority.ioPrioRequest ioClass value = some newIoPrio) (ioPrio : Int32) :
      Effect P pid (.setIoPriority ioClass value) a
        (a.withThread pid { a.thread pid with ioPrio })
  | setOomScoreAdjust (value : Int32) (a : Attributes) (oomScoreAdj : Pid → Int32) :
      Effect P pid (.setOomScoreAdjust value) a { a with oomScoreAdj }

/-- The policy that goes with the latency nice value is the zero of the structure. -/
theorem effect_of_changes {P : Platform σ} {pid : Pid} {c : SetterCall} {call : Syscall}
    {a b : Attributes} (hask : P.Asks pid c call) (hchanges : call.Changes a b) :
    Effect P pid c a b := by
  cases hask with
  | setPriority niceValue htid =>
    cases hchanges
    rw [Int32.toInt32_toUInt32]
    exact .setPriority niceValue a htid _
  | @setLatencyNice latencyNiceValue tid htid =>
    cases hchanges with
    | schedSetattr _ _ _ _ latencyNice nice rtPriority hnice hrt =>
      have hparams := Priority.keepsParams_latniceAttr latencyNiceValue
      rw [hnice hparams, hrt hparams, Priority.keepsPolicy_latniceAttr, if_neg Bool.false_ne_true]
      exact .setLatencyNice latencyNiceValue a htid latencyNice
  | setSched hrequest =>
    cases hchanges
    exact .setSched a hrequest
  | setIoPriority hrequest =>
    cases hchanges
    rw [Int32.toInt32_toUInt32]
    exact .setIoPriority a hrequest _
  | setOomScoreAdjust value =>
    cases hchanges
    exact .setOomScoreAdjust value a _

namespace Effect

variable {P : Platform σ} {pid : Pid} {c : SetterCall} {a b : Attributes}

theorem nice_eq (h : Effect P pid c a b) (hc : ∀ value, c ≠ .setPriority value) (tid : Pid) :
    (b.thread tid).nice = (a.thread tid).nice := by
  cases h with
  | setPriority value => exact absurd rfl (hc value)
  | setLatencyNice | setSched | setIoPriority =>
    exact a.observe_withThread ThreadAttrs.nice (by rfl) tid
  | setOomScoreAdjust => rfl

theorem latencyNice_eq (h : Effect P pid c a b) (hc : ∀ value, c ≠ .setLatencyNice value)
    (tid : Pid) : (b.thread tid).latencyNice = (a.thread tid).latencyNice := by
  cases h with
  | setLatencyNice value => exact absurd rfl (hc value)
  | setPriority | setSched | setIoPriority =>
    exact a.observe_withThread ThreadAttrs.latencyNice (by rfl) tid
  | setOomScoreAdjust => rfl

theorem rtPriority_eq (h : Effect P pid c a b)
    (hc : ¬∃ schedName rtPrio, c = .setSched schedName rtPrio) (tid : Pid) :
    (b.thread tid).rtPriority = (a.thread tid).rtPriority := by
  cases h with
  | @setSched _ schedName rtPrio => exact absurd ⟨schedName, rtPrio, rfl⟩ hc
  | setPriority | setLatencyNice | setIoPriority =>
    exact a.observe_withThread ThreadAttrs.rtPriority (by rfl) tid
  | setOomScoreAdjust => rfl

theorem oomScoreAdj_eq (h : Effect P pid c a b) (hc : ∀ value, c ≠ .setOomScoreAdjust value) :
    b.oomScoreAdj = a.oomScoreAdj := by
  cases h with
  | setOomScoreAdjust value => exact absurd rfl (hc value)
  | setPriority | setLatencyNice | setSched | setIoPriority => rfl

/-- A thread with the policy `0` keeps it when no call asks for another one. -/
theorem policy_eq_zero (h : Effect P pid c a b)
    (hc : ∀ schedName rtPrio, c = .setSched schedName rtPrio →
      ∀ sched prio, Priority.schedRequest schedName rtPrio = some (sched, prio) → sched = 0)
    {tid : Pid} (hzero : (a.thread tid).policy = 0) : (b.thread tid).policy = 0 := by
  cases h with
  | setPriority | setIoPriority =>
    exact (a.observe_withThread ThreadAttrs.policy (by rfl) tid).trans hzero
  | setLatencyNice =>
    rw [Attributes.thread_withThread]
    split_ifs
    · rfl
    · exact hzero
  | setSched _ hrequest =>
    obtain rfl := hc _ _ rfl _ _ hrequest
    rw [Attributes.thread_withThread]
    split_ifs
    · rfl
    · exact hzero
  | setOomScoreAdjust => exact hzero

end Effect

/-- The name `deadline` is the only unsupported one that leads to a system call. -/
theorem schedRequest_of_not_supported {schedName : String} (h : schedName ∉ supportedSchedNames)
    {rtPrio : UInt32} {sched prio : Int32}
    (hrequest : Priority.schedRequest schedName rtPrio = some (sched, prio)) :
    schedName = "deadline" ∧ sched = 0 ∧ prio = 0 := by
  simp only [supportedSchedNames, List.mem_cons, List.not_mem_nil, or_false, not_or] at h
  obtain ⟨hidle, hnormal, hother, hrr, hfifo, hbatch⟩ := h
  rw [Priority.schedRequest, if_neg hidle, if_neg (not_or.mpr ⟨hnormal, hother⟩), if_neg hrr,
    if_neg hfifo, if_neg hbatch] at hrequest
  split_ifs at hrequest with hdeadline
  cases hrequest
  exact ⟨hdeadline, rfl, rfl⟩

/-- The priority that goes with a supported scheduler when the rule gives none. -/
theorem schedRequest_of_supported {schedName : String} (h : schedName ∈ supportedSchedNames) :
    ∃ sched prio, Priority.schedRequest schedName 1 = some (sched, prio) ∧
      prio.toUInt32 = impliedRtPriority schedName ∧
      if sched ∈ realtimePolicies then 0 < prio else prio = 0 := by
  simp only [supportedSchedNames, List.mem_cons, List.not_mem_nil, or_false] at h
  rcases h with rfl | rfl | rfl | rfl | rfl | rfl
  all_goals exact ⟨_, _, rfl, by decide⟩

theorem ioPrioRequest_eq_none {ioClass : String} {value : Int32}
    (h : ∀ cls, Priority.ioClassValue ioClass = some cls →
      Priority.ioprioValid (Priority.ioprioPrioValue cls value) = false) :
    Priority.ioPrioRequest ioClass value = none := by
  unfold Priority.ioPrioRequest
  cases hcls : Priority.ioClassValue ioClass with
  | none => rfl
  | some cls => simp [h cls hcls]

/-- A `set_sched` call where the scheduler has to stay asks for `deadline`. -/
theorem deadline_of_call {config : Config} {rule : Json} {schedName : String} {rtPrio : UInt32}
    {sched prio : Int32} (hfixed : SchedFixed config rule)
    (hon : (schedStep config rule).enabled = true)
    (hc : (schedStep config rule).call = .ok (.setSched schedName rtPrio))
    (hrequest : Priority.schedRequest schedName rtPrio = some (sched, prio)) :
    ∃ name, rule.find? "sched" = some (.string name) ∧ Text.cStr name = "deadline" ∧
      sched = 0 ∧ prio = 0 := by
  rcases hfixed with hoff | ⟨name, hname, hunsupported⟩
  · exact absurd (by simpa [schedStep] using hon) hoff
  · obtain ⟨prio', -, name', hname', hcall⟩ := call_schedStep_iff.mp hc
    rw [Json.index_of_find hname] at hname'
    cases hname'
    cases hcall
    exact ⟨name, hname, schedRequest_of_not_supported hunsupported hrequest⟩

/-- A `set_sched` call for a rule without a realtime priority asks for the priority `1`. -/
theorem find_of_call {config : Config} {rule : Json} {schedName : String} {rtPrio : UInt32}
    (hrtprio : rule.contains "rtprio" = false) (hon : (schedStep config rule).enabled = true)
    (hc : (schedStep config rule).call = .ok (.setSched schedName rtPrio)) :
    ∃ name, rule.find? "sched" = some (.string name) ∧ schedName = Text.cStr name ∧ rtPrio = 1 := by
  obtain ⟨prio, hprio, name, hname, hcall⟩ := call_schedStep_iff.mp hc
  obtain ⟨rfl, rfl⟩ := SetterCall.setSched.inj hcall
  have hone : rtPrio = 1 := by
    rw [Worker.rtPrio, if_neg (by simp [hrtprio])] at hprio
    exact (Except.ok.inj hprio).symm
  obtain ⟨v, hv⟩ : ∃ v, rule.find? "sched" = some v :=
    Option.isSome_iff_exists.mp (Bool.and_eq_true_iff.mp hon).2
  rw [Json.index_of_find hv] at hname
  obtain rfl := Json.getString_eq_ok_iff.mp hname
  exact ⟨name, hv, rfl, hone⟩

/-! ### The frame of a turn -/

section Kept

variable {P : Platform σ} {view : σ → Attributes} {tasks : Pid → List Pid} {config : Config}
  {rule : Json} {p : Process} {s : σ}

/-- What the effects of a call preserve, the call preserves. -/
theorem call_of_effect (laws : P.Lawful view tasks) (Q : Attributes → Prop) {pid : Pid}
    {c : SetterCall} (heffect : ∀ a b, Effect P pid c a b → Q a → Q b) {t : σ} (ht : Q (view t)) :
    Q (view (P.setters.call pid c t).2) := by
  refine P.call_invariant (fun t => Q (view t)) (fun t ht => by rwa [laws.connecting])
    (fun request t ht => by rwa [laws.calling]) pid c (fun call t hask ht => ?_) ht
  by_cases hok : (P.syscall call t).1 = 0
  · exact heffect _ _ (effect_of_changes hask (laws.succeeded call t hok)) ht
  · rwa [laws.failed call t hok]

/-- An observation that the effects of all calls which are made keep, a turn keeps. -/
theorem observe_handleProcess (laws : P.Lawful view tasks) {ρ : Type} (f : Attributes → ρ)
    (hmakes : ∀ c t, CallSequence.Reached (P.setters.call p.pid)
      (steps config rule (P.isRealtime p.pid s)) s c t →
      ∀ a b, Effect P p.pid c a b → f a = f (view s) → f b = f a) :
    f (view (handleProcess P.setters config rule p s).after) = f (view s) := by
  rw [observe_after (fun t => f (view t)) P (fun t => congrArg f (laws.connecting t))
    fun request t => congrArg f (laws.calling request t)]
  refine CallSequence.state_run_of_invariant (fun t => f (view t) = f (view s)) rfl ?_
  intro c t hreached ht
  exact call_of_effect laws (fun a => f a = f (view s))
    (fun a b heffect ha => (hmakes c t hreached a b heffect ha).trans ha) ht

/-- An attribute that the effects keep in every thread. -/
theorem thread_handleProcess (laws : P.Lawful view tasks) {ρ : Type} (f : ThreadAttrs → ρ)
    (hmakes : ∀ c t, CallSequence.Reached (P.setters.call p.pid)
      (steps config rule (P.isRealtime p.pid s)) s c t →
      ∀ a b, Effect P p.pid c a b → (∀ tid, f (a.thread tid) = f ((view s).thread tid)) →
        ∀ tid, f (b.thread tid) = f (a.thread tid)) (tid : Pid) :
    f ((view (handleProcess P.setters config rule p s).after).thread tid) =
      f ((view s).thread tid) := by
  refine congrFun (observe_handleProcess laws (fun a tid => f (a.thread tid)) ?_) tid
  exact fun c t hreached a b heffect hsame =>
    funext (hmakes c t hreached a b heffect (congrFun hsame))

/-- Where the scheduler has to stay, a `set_sched` call finds what it sets. -/
theorem zero_of_setSched {before : Attributes}
    (hkeeps : KeepsFrame config rule p.pid (tasks p.pid) before) (hfixed : SchedFixed config rule)
    {schedName : String} {rtPrio : UInt32} {t : σ}
    (hreached : CallSequence.Reached (P.setters.call p.pid)
      (steps config rule (P.isRealtime p.pid s)) s (.setSched schedName rtPrio) t)
    {sched prio : Int32} (hrequest : Priority.schedRequest schedName rtPrio = some (sched, prio)) :
    (sched = 0 ∧ prio = 0) ∧ (before.thread p.pid).policy = 0 ∧
      (before.thread p.pid).rtPriority = 0 := by
  obtain ⟨step, hstep, hon, hc, hbefore⟩ := step_of_reached hreached
  obtain rfl := Option.some.inj hstep
  obtain ⟨name, hname, hdeadline, hzero⟩ := deadline_of_call hfixed hon hc hrequest
  have happlies : SchedApplies config rule := ⟨hon, by rw [hc]; rfl, hbefore⟩
  exact ⟨hzero, hkeeps.deadline name hname hdeadline happlies⟩

/-- Where the realtime priority has to stay, a `set_sched` call finds the one that it sets. -/
theorem rtPriority_of_setSched {before : Attributes}
    (hkeeps : KeepsFrame config rule p.pid (tasks p.pid) before) (hfixed : RtPrioFixed config rule)
    {schedName : String} {rtPrio : UInt32} {t : σ}
    (hreached : CallSequence.Reached (P.setters.call p.pid)
      (steps config rule (P.isRealtime p.pid s)) s (.setSched schedName rtPrio) t)
    {sched prio : Int32} (hrequest : Priority.schedRequest schedName rtPrio = some (sched, prio)) :
    prio.toUInt32 = (before.thread p.pid).rtPriority := by
  have hstays (hsched : SchedFixed config rule) :
      prio.toUInt32 = (before.thread p.pid).rtPriority := by
    obtain ⟨⟨-, rfl⟩, -, hzero⟩ := zero_of_setSched hkeeps hsched hreached hrequest
    exact hzero.symm
  rcases hfixed with hrtprio | hsched
  · obtain ⟨step, hstep, hon, hc, hbefore⟩ := step_of_reached hreached
    obtain rfl := Option.some.inj hstep
    obtain ⟨name, hname, rfl, rfl⟩ := find_of_call hrtprio hon hc
    by_cases hsupported : Text.cStr name ∈ supportedSchedNames
    · obtain ⟨sched', prio', hrequest', himplied, -⟩ := schedRequest_of_supported hsupported
      obtain ⟨-, rfl⟩ := Prod.mk.inj (Option.some.inj (hrequest.symm.trans hrequest'))
      rw [himplied]
      exact (hkeeps.rtPriority hrtprio name hname hsupported ⟨hon, by rw [hc]; rfl, hbefore⟩).symm
    · exact hstays (.inr ⟨name, hname, hsupported⟩)
  · exact hstays hsched

theorem nice_handleProcess (laws : P.Lawful view tasks)
    (hfixed : ¬(config.applyNice = true ∧ rule.contains "nice" = true)) (tid : Pid) :
    ((view (handleProcess P.setters config rule p s).after).thread tid).nice =
      ((view s).thread tid).nice := by
  refine thread_handleProcess laws ThreadAttrs.nice (fun c t hreached a b heffect _ => ?_) tid
  refine heffect.nice_eq ?_
  rintro value rfl
  obtain ⟨step, hstep, hon, -⟩ := step_of_reached hreached
  obtain rfl := Option.some.inj hstep
  exact hfixed (by simpa [niceStep] using hon)

theorem latencyNice_handleProcess (laws : P.Lawful view tasks)
    (hfixed : ¬(config.applyLatnice = true ∧
      (rule.contains "latency_nice" = true ∨ rule.contains "nice" = true))) (tid : Pid) :
    ((view (handleProcess P.setters config rule p s).after).thread tid).latencyNice =
      ((view s).thread tid).latencyNice := by
  refine thread_handleProcess laws ThreadAttrs.latencyNice
    (fun c t hreached a b heffect _ => ?_) tid
  refine heffect.latencyNice_eq ?_
  rintro value rfl
  obtain ⟨step, hstep, hon, -⟩ := step_of_reached hreached
  obtain rfl := Option.some.inj hstep
  exact hfixed (by simpa [latencyNiceStep] using hon)

theorem policy_handleProcess (laws : P.Lawful view tasks)
    (hkeeps : KeepsFrame config rule p.pid (tasks p.pid) (view s))
    (hfixed : SchedFixed config rule) (tid : Pid) :
    ((view (handleProcess P.setters config rule p s).after).thread tid).policy =
      ((view s).thread tid).policy := by
  refine thread_handleProcess laws ThreadAttrs.policy
    (fun c t hreached a b heffect hsame tid => ?_) tid
  cases heffect with
  | setLatencyNice _ _ htid =>
    obtain ⟨step, hstep, hon, hc, hbefore⟩ := step_of_reached hreached
    obtain rfl := Option.some.inj hstep
    have happlies : LatniceApplies config rule :=
      ⟨hon, by rw [hc]; rfl, hbefore _ List.mem_cons_self⟩
    obtain ⟨hpos, t', name, hname, rfl⟩ := htid
    have hzero := hkeeps.latnice hfixed happlies _ (laws.listed p.pid t' name hname hpos) hpos
    exact a.observe_withThread ThreadAttrs.policy (hzero.symm.trans (hsame _).symm) tid
  | setSched _ hrequest =>
    obtain ⟨⟨rfl, -⟩, hzero, -⟩ := zero_of_setSched hkeeps hfixed hreached hrequest
    exact a.observe_withThread ThreadAttrs.policy (hzero.symm.trans (hsame _).symm) tid
  | setPriority | setIoPriority => exact a.observe_withThread ThreadAttrs.policy (by rfl) tid
  | setOomScoreAdjust => rfl

theorem rtPriority_handleProcess (laws : P.Lawful view tasks)
    (hkeeps : KeepsFrame config rule p.pid (tasks p.pid) (view s))
    (hfixed : RtPrioFixed config rule) (tid : Pid) :
    ((view (handleProcess P.setters config rule p s).after).thread tid).rtPriority =
      ((view s).thread tid).rtPriority := by
  refine thread_handleProcess laws ThreadAttrs.rtPriority
    (fun c t hreached a b heffect hsame tid => ?_) tid
  by_cases hc : ∃ schedName rtPrio, c = .setSched schedName rtPrio
  · obtain ⟨schedName, rtPrio, rfl⟩ := hc
    cases heffect with
    | setSched _ hrequest =>
      have hfound := rtPriority_of_setSched hkeeps hfixed hreached hrequest
      exact a.observe_withThread ThreadAttrs.rtPriority (hfound.trans (hsame _).symm) tid
  · exact heffect.rtPriority_eq hc tid

theorem ioPrio_handleProcess (laws : P.Lawful view tasks) (hfixed : IoPrioFixed config rule)
    (tid : Pid) :
    ((view (handleProcess P.setters config rule p s).after).thread tid).ioPrio =
      ((view s).thread tid).ioPrio := by
  refine thread_handleProcess laws ThreadAttrs.ioPrio
    (fun c t hreached a b heffect _ tid => ?_) tid
  cases heffect with
  | setIoPriority _ hrequest =>
    obtain ⟨step, hstep, hon, hc, -⟩ := step_of_reached hreached
    obtain rfl := Option.some.inj hstep
    obtain ⟨cls, hcls, value', hvalue', hcall⟩ := call_ioniceStep_iff.mp hc
    rcases hfixed with hoff | ⟨name, value, hname, hvalue, hinvalid⟩
    · exact absurd (by simpa [ioniceStep] using hon) hoff
    · rw [Json.index_of_find hname] at hcls
      cases hcls
      obtain rfl := Except.ok.inj (hvalue.symm.trans hvalue')
      cases hcall
      exact absurd hrequest (by simp [ioPrioRequest_eq_none hinvalid])
  | setPriority | setSched | setLatencyNice =>
    exact a.observe_withThread ThreadAttrs.ioPrio (by rfl) tid
  | setOomScoreAdjust => rfl

theorem oomScoreAdj_handleProcess (laws : P.Lawful view tasks)
    (hfixed : ¬(config.applyOomScoreAdj = true ∧ rule.contains "oom_score_adj" = true)) :
    (view (handleProcess P.setters config rule p s).after).oomScoreAdj =
      (view s).oomScoreAdj := by
  refine observe_handleProcess laws Attributes.oomScoreAdj fun c t hreached a b heffect _ => ?_
  refine heffect.oomScoreAdj_eq ?_
  rintro value rfl
  obtain ⟨step, hstep, hon, -⟩ := step_of_reached hreached
  obtain rfl := Option.some.inj hstep
  exact hfixed (by simpa [oomScoreAdjStep] using hon)

/-- **The frame of a turn.** Under the condition, a turn on any lawful platform leaves alone what
the rule does not set. -/
theorem framed_of_keepsFrame (laws : P.Lawful view tasks)
    (hkeeps : KeepsFrame config rule p.pid (tasks p.pid) (view s)) :
    Framed config rule (view s) (view (handleProcess P.setters config rule p s).after) where
  nice := nice_handleProcess laws
  latencyNice := latencyNice_handleProcess laws
  policy := policy_handleProcess laws hkeeps
  rtPriority := rtPriority_handleProcess laws hkeeps
  ioPrio := ioPrio_handleProcess laws
  oomScoreAdj := oomScoreAdj_handleProcess laws

end Kept

/-! ### What breaks the frame -/

/-- The setters for the nice values succeed on the reference platform. -/
theorem call_reference_niceSteps (tasks : Pid → List Pid) (config : Config) (rule : Json)
    (pid : Pid) : ∀ st ∈ [niceStep config rule, latencyNiceStep config rule],
      ∀ c, st.call = .ok c →
        ∀ a, ((Platform.reference tasks).setters.call pid c a).1 = .ok true := by
  intro st hst c hc a
  simp only [List.mem_cons, List.not_mem_nil, or_false] at hst
  rcases hst with rfl | rfl
  · obtain ⟨value, -, rfl⟩ := call_niceStep_iff.mp hc
    exact Priority.fst_setForTasks rfl (fun _ _ => rfl) _
  · obtain ⟨value, -, rfl⟩ := call_latencyNiceStep_iff.mp hc
    exact Priority.fst_setForTasks rfl (fun _ _ => rfl) _

/-- Setting the latency nice value on the reference platform leaves every listed thread with the
policy `0`. -/
theorem policy_setLatencyNice_reference (tasks : Pid → List Pid) {pid tid : Pid}
    (htid : tid ∈ tasks pid) (hpos : 0 < tid) (value : Int32) (a : Attributes) :
    ((((Platform.reference tasks).setters.call pid (.setLatencyNice value) a).2).thread
      tid).policy = 0 := by
  have hone (tid' : Pid) (b : Attributes) :
      ((Priority.setLatnice (Platform.reference tasks).toKernel value tid' b).2.thread tid).policy =
        if tid = tid' then 0 else (b.thread tid).policy := by
    simp only [Priority.setLatnice, Platform.reference, Attributes.thread_withThread,
      Priority.keepsPolicy_latniceAttr, Bool.false_eq_true, if_false]
    split_ifs <;> rfl
  have hname : Text.toInt32 (taskName tid) = tid := by rw [toInt32_taskName, if_pos hpos]
  show ((Priority.setForTasks _ _ pid _ a).2.thread tid).policy = 0
  rw [Priority.snd_setForTasks]
  refine Priority.forEachTask_establishes (fun b => (b.thread tid).policy = 0)
    (List.mem_map_of_mem htid) (hname.symm ▸ hpos) ?_ ?_ a
  · intro b
    rw [hname, hone, if_pos rfl]
  · intro tid' b hb
    rw [hone, hb, ite_self]

theorem policy_after_latnice (tasks : Pid → List Pid) {config : Config} {rule : Json} (p : Process)
    (hfixed : SchedFixed config rule) (happlies : LatniceApplies config rule) {tid : Pid}
    (htid : tid ∈ tasks p.pid) (hpos : 0 < tid) (a : Attributes) :
    ((handleProcess (Platform.reference tasks).setters config rule p a).after.thread
      tid).policy = 0 := by
  obtain ⟨hon, hok, hnice⟩ := happlies
  obtain ⟨c, hc⟩ := exists_eq_ok_of_isOk hok
  obtain ⟨value, -, rfl⟩ := call_latencyNiceStep_iff.mp hc
  rw [observe_after (fun b : Attributes => (b.thread tid).policy) _ (fun _ => rfl) fun _ _ => rfl]
  refine CallSequence.state_run_of_established (fun b : Attributes => (b.thread tid).policy = 0)
    [niceStep config rule] [schedStep config rule, ioniceStep config rule,
      oomScoreAdjStep config rule, cgroupStep config rule _] ?_ hon hc ?_ ?_
  · refine CallSequence.exit_run_eq_completed (List.forall_mem_singleton.mpr hnice) ?_ a
    exact fun st hst => call_reference_niceSteps tasks config rule p.pid st
      (List.mem_cons.mpr (Or.inl (List.mem_singleton.mp hst)))
  · exact fun b => policy_setLatencyNice_reference tasks htid hpos value b
  · intro st hst hon' c' hc' b hb
    refine call_of_effect (Platform.lawful_reference tasks)
      (fun b : Attributes => (b.thread tid).policy = 0) (fun a b heffect => ?_) hb
    refine heffect.policy_eq_zero ?_
    rintro schedName rtPrio rfl sched prio hrequest
    rcases List.mem_cons.mp hst with rfl | hst
    · obtain ⟨-, -, -, hzero, -⟩ := deadline_of_call hfixed hon' hc' hrequest
      exact hzero
    · exact absurd ⟨_, _, rfl⟩ (ne_setSched_of_others config rule _ st
        (List.mem_append_right _ hst) _ hc')

/-- What a call of `set_sched` that is not refused does on the reference platform. -/
theorem thread_setSched_reference (tasks : Pid → List Pid) (pid : Pid) {schedName : String}
    {rtPrio : UInt32} {sched prio : Int32}
    (hrequest : Priority.schedRequest schedName rtPrio = some (sched, prio))
    (haccepted : if sched ∈ realtimePolicies then 0 < prio else prio = 0) (a : Attributes) :
    (((Platform.reference tasks).setters.call pid (.setSched schedName rtPrio) a).2).thread pid =
      { a.thread pid with policy := sched.toUInt32, rtPriority := prio.toUInt32 } := by
  show ((Priority.setSched _ pid schedName rtPrio a).2).thread pid = _
  rw [Priority.setSched, hrequest]
  have hset : (Platform.reference tasks).syscall (.schedSetscheduler pid sched prio) a =
      (0, a.withThread pid
        { a.thread pid with policy := sched.toUInt32, rtPriority := prio.toUInt32 }) :=
    if_pos haccepted
  simp [hset, Attributes.thread_withThread]

/-- What the call for the scheduler establishes on the reference platform, and no call of another
setter undoes, holds after the turn. -/
theorem after_of_schedApplies (tasks : Pid → List Pid) {config : Config} {rule : Json} (p : Process)
    (Q : Attributes → Prop) (happlies : SchedApplies config rule) {c : SetterCall}
    (hc : (schedStep config rule).call = .ok c)
    (hset : ∀ a, Q ((Platform.reference tasks).setters.call p.pid c a).2)
    (hothers : ∀ c' a b, (¬∃ schedName rtPrio, c' = .setSched schedName rtPrio) →
      Effect (Platform.reference tasks) p.pid c' a b → Q a → Q b) (a : Attributes) :
    Q (handleProcess (Platform.reference tasks).setters config rule p a).after := by
  obtain ⟨hon, -, hbefore⟩ := happlies
  rw [observe_after Q _ (fun _ => rfl) fun _ _ => rfl]
  refine CallSequence.state_run_of_established Q [niceStep config rule,
    latencyNiceStep config rule] [ioniceStep config rule, oomScoreAdjStep config rule,
      cgroupStep config rule _] ?_ hon hc hset ?_
  · exact CallSequence.exit_run_eq_completed hbefore
      (call_reference_niceSteps tasks config rule p.pid) a
  · intro st hst _ c' hc' b hb
    have hne := ne_setSched_of_others config rule _ st (List.mem_append_right _ hst) c' hc'
    exact call_of_effect (Platform.lawful_reference tasks) Q
      (fun a b heffect => hothers c' a b hne heffect) hb

/-- The call for `deadline` leaves the process with the policy and the priority `0`. -/
theorem zero_after_deadline (tasks : Pid → List Pid) {config : Config} {rule : Json} (p : Process)
    {name : String} (hname : rule.find? "sched" = some (.string name))
    (hdeadline : Text.cStr name = "deadline") (happlies : SchedApplies config rule)
    (a : Attributes) :
    ((handleProcess (Platform.reference tasks).setters config rule p a).after.thread
      p.pid).policy = 0 ∧
    ((handleProcess (Platform.reference tasks).setters config rule p a).after.thread
      p.pid).rtPriority = 0 := by
  obtain ⟨c, hc⟩ := exists_eq_ok_of_isOk happlies.2.1
  obtain ⟨rtPrio, -, name', hname', rfl⟩ := call_schedStep_iff.mp hc
  rw [Json.index_of_find hname] at hname'
  cases hname'
  refine after_of_schedApplies tasks p (fun b => (b.thread p.pid).policy = 0 ∧
    (b.thread p.pid).rtPriority = 0) happlies hc (fun b => ?_) (fun c' a b hne heffect hb => ?_) a
  · have hrequest : Priority.schedRequest (Text.cStr name) rtPrio = some (0, 0) := by
      rw [hdeadline]
      rfl
    rw [thread_setSched_reference tasks p.pid hrequest (by decide)]
    exact ⟨rfl, rfl⟩
  · obtain ⟨hpolicy, hrt⟩ := hb
    constructor
    · exact heffect.policy_eq_zero (fun name prio h => absurd ⟨name, prio, h⟩ hne) hpolicy
    · exact (heffect.rtPriority_eq hne p.pid).trans hrt

/-- The call for a supported scheduler sets a realtime priority where the rule gives none. -/
theorem rtPriority_after_sched (tasks : Pid → List Pid) {config : Config} {rule : Json}
    (p : Process) {name : String} (hrtprio : rule.contains "rtprio" = false)
    (hname : rule.find? "sched" = some (.string name))
    (hsupported : Text.cStr name ∈ supportedSchedNames) (happlies : SchedApplies config rule)
    (a : Attributes) :
    ((handleProcess (Platform.reference tasks).setters config rule p a).after.thread
      p.pid).rtPriority = impliedRtPriority (Text.cStr name) := by
  obtain ⟨c, hc⟩ := exists_eq_ok_of_isOk happlies.2.1
  obtain ⟨rtPrio, -, schedName, -, rfl⟩ := call_schedStep_iff.mp hc
  obtain ⟨name', hname', hsame, rfl⟩ := find_of_call hrtprio happlies.1 hc
  obtain rfl := Json.string.inj (Option.some.inj (hname.symm.trans hname'))
  obtain ⟨sched, prio, hrequest, himplied, haccepted⟩ := schedRequest_of_supported hsupported
  refine after_of_schedApplies tasks p
    (fun b => (b.thread p.pid).rtPriority = impliedRtPriority (Text.cStr name)) happlies hc
    (fun b => ?_) (fun c' a b hne heffect hb => (heffect.rtPriority_eq hne p.pid).trans hb) a
  rw [hsame, thread_setSched_reference tasks p.pid hrequest haccepted]
  exact himplied

/-- **When the frame holds.** For a rule, a configuration, a process and its initial attributes,
every lawful platform keeps the frame if and only if the condition holds. -/
theorem framed_iff (config : Config) (rule : Json) (p : Process) (tasks : Pid → List Pid)
    (before : Attributes) :
    (∀ (σ : Type) (P : Platform σ) (view : σ → Attributes), P.Lawful view tasks →
      ∀ s, view s = before →
        Framed config rule before (view (handleProcess P.setters config rule p s).after)) ↔
    KeepsFrame config rule p.pid (tasks p.pid) before := by
  constructor
  · intro h
    have hframed := h Attributes (Platform.reference tasks) id
      (Platform.lawful_reference tasks) before rfl
    refine ⟨fun hfixed happlies tid htid hpos => ?_, fun name hname hdeadline happlies => ?_,
      fun hrtprio name hname hsupported happlies => ?_⟩
    · have hafter := policy_after_latnice tasks p hfixed happlies htid hpos before
      exact (hframed.policy hfixed tid).symm.trans hafter
    · have hfixed : SchedFixed config rule := Or.inr ⟨name, hname, hdeadline ▸ by decide⟩
      have hafter := zero_after_deadline tasks p hname hdeadline happlies before
      exact ⟨(hframed.policy hfixed p.pid).symm.trans hafter.1,
        (hframed.rtPriority (.inr hfixed) p.pid).symm.trans hafter.2⟩
    · have hafter := rtPriority_after_sched tasks p hrtprio hname hsupported happlies before
      exact (hframed.rtPriority (.inl hrtprio) p.pid).symm.trans hafter
  · rintro hkeeps σ P view laws s rfl
    exact framed_of_keepsFrame laws hkeeps

/-- The frame does not always hold: a rule that sets the nice value only takes a process with the
policy `SCHED_BATCH` to the ordinary one. -/
theorem not_forall_framed :
    ¬ ∀ (config : Config) (rule : Json) (p : Process) (tasks : Pid → List Pid) (σ : Type)
      (P : Platform σ) (view : σ → Attributes), P.Lawful view tasks →
      ∀ s, Framed config rule (view s) (view (handleProcess P.setters config rule p s).after) := by
  intro h
  let rule : Json := .object [("nice", .numberInteger 5)]
  let before : Attributes := ⟨fun _ => ⟨0, 0, 3, 0, 0⟩, fun _ => 0⟩
  have hframed := h ⟨.empty⟩ rule ⟨7, "a"⟩ (fun pid => [pid]) Attributes
    (Platform.reference fun pid => [pid]) id (Platform.lawful_reference fun pid => [pid]) before
  have hpolicy := hframed.policy (Or.inl (by decide)) 7
  revert hpolicy
  decide +kernel

end Worker

end AnanicyCpp
