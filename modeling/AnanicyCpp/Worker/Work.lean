import AnanicyCpp.Config
import AnanicyCpp.Library.CallSequence
import AnanicyCpp.Priority
import AnanicyCpp.Rules.Store

/-!
# The worker

`Worker::work`: take the processes from the queue, look up the rule for each name, and apply it by
up to six setter calls. A call that returns `false` continues with the next process, an exception
ends the calls for the process. A process that was realtime before the calls is then moved to the
root cgroup.

The setters are a parameter, `Setters`, over the state of everything outside the worker;
`Platform.setters` are the ones of `priority.cpp` and `cgroups.cpp`. Every turn of the loop records
what it did.

## Main definitions

* `SetterCall`, `Setters`, `Platform.setters` : the calls and the code behind them.
* `Worker.steps` : the six guarded steps for a rule.
* `Worker.handleProcess` : one turn of the loop.
* `Worker.work` : the loop.
-/

namespace AnanicyCpp

/-! ### Setters -/

/-- A call of a setter, without the process. -/
inductive SetterCall where
  | setPriority (niceValue : Int32)
  | setLatencyNice (latencyNiceValue : Int32)
  | setSched (schedName : String) (rtPrio : UInt32)
  | setIoPriority (ioClass : String) (value : Int32)
  | setOomScoreAdjust (value : Int32)
  | addPidToCgroup (cgroupName : String)
deriving DecidableEq

/-- The code that the worker calls, over a state `σ`. -/
structure Setters (σ : Type) where
  call : Pid → SetterCall → σ → Outcome × σ
  isRealtime : Pid → σ → Bool
  /-- `add_pid_to_cgroup(pid, "")`, whose result is not used. -/
  moveToRoot : Pid → σ → σ

/-- The setters of the program. The result of `add_pid_to_cgroup` is `0` on success, and the worker
tests it like a `bool`. -/
def Platform.setters {σ : Type} (P : Platform σ) : Setters σ where
  call pid
    | .setPriority niceValue => Priority.setPriority P.toKernel pid niceValue
    | .setLatencyNice latencyNiceValue =>
        Priority.setLatencyNice P.toKernel pid latencyNiceValue
    | .setSched schedName rtPrio => Priority.setSched P.toKernel pid schedName rtPrio
    | .setIoPriority ioClass value => Priority.setIoPriority P.toKernel pid ioClass value
    | .setOomScoreAdjust value => Priority.setOomScoreAdjust P.toKernel pid value
    | .addPidToCgroup cgroupName => fun s =>
        let (code, s) := ControlGroups.addPidToCgroup P.toBus pid cgroupName s
        (.ok (code != 0), s)
  isRealtime := P.toKernel.isRealtime
  moveToRoot pid s := (ControlGroups.addPidToCgroup P.toBus pid "" s).2

namespace Worker

open Fallible

/-! ### The steps of a rule -/

abbrev RuleStep := CallSequence.Step SetterCall TypeError

def niceStep (config : Config) (rule : Json) : RuleStep where
  enabled := config.applyNice && rule.contains "nice"
  call := do
    let ruleNice ← (rule.index "nice").getInt
    pure (.setPriority ruleNice)

/-- `latnice_value`: the nice value stands in for a missing latency nice value. -/
def latniceValue (rule : Json) : Except TypeError Int32 :=
  if rule.contains "latency_nice" then (rule.index "latency_nice").getInt
  else if rule.contains "nice" then (rule.index "nice").getInt
  else pure 0

def latencyNiceStep (config : Config) (rule : Json) : RuleStep where
  enabled := config.applyLatnice && (rule.contains "latency_nice" || rule.contains "nice")
  call := do
    let latniceValue ← latniceValue rule
    pure (.setLatencyNice latniceValue)

/-- `rt_prio` -/
def rtPrio (rule : Json) : Except TypeError UInt32 :=
  if rule.contains "rtprio" then (rule.index "rtprio").getUnsigned else pure 1

/-- The priority is converted before the name. -/
def schedStep (config : Config) (rule : Json) : RuleStep where
  enabled := config.applySched && rule.contains "sched"
  call := do
    let rtPrio ← rtPrio rule
    let ruleSched ← (rule.index "sched").getString
    pure (.setSched (Text.cStr ruleSched) rtPrio)

/-- `io_val`: a level that is not an integer counts as none. -/
def ioVal (rule : Json) : Except TypeError Int32 :=
  if rule.contains "ionice" && (rule.index "ionice").isNumberInteger then
    (rule.index "ionice").getInt
  else pure 0

def ioniceStep (config : Config) (rule : Json) : RuleStep where
  enabled := config.applyIonice && rule.contains "ioclass"
  call := do
    let ruleIoclass ← (rule.index "ioclass").getString
    let ioVal ← ioVal rule
    pure (.setIoPriority (Text.cStr ruleIoclass) ioVal)

def oomScoreAdjStep (config : Config) (rule : Json) : RuleStep where
  enabled := config.applyOomScoreAdj && rule.contains "oom_score_adj"
  call := do
    let ruleOomScoreAdj ← (rule.index "oom_score_adj").getInt
    pure (.setOomScoreAdjust ruleOomScoreAdj)

/-- `is_affected_by_cgroup_bug` -/
def isAffectedByCgroupBug : Bool := ControlGroups.getCgroupVersion == .v2

/-- Whether the process must stay out of the cgroups. -/
def keptOut (config : Config) (isRealtime : Bool) : Bool :=
  isRealtime && config.cgroupRealtimeWorkaround && isAffectedByCgroupBug

def cgroupStep (config : Config) (rule : Json) (isRealtime : Bool) : RuleStep where
  enabled := !keptOut config isRealtime && (config.applyCgroups && rule.contains "cgroup")
  call := do
    let ruleCgroup ← (rule.index "cgroup").getString
    pure (.addPidToCgroup ruleCgroup)

/-- The steps in order. -/
def steps (config : Config) (rule : Json) (isRealtime : Bool) : List RuleStep :=
  [niceStep config rule, latencyNiceStep config rule, schedStep config rule,
    ioniceStep config rule, oomScoreAdjStep config rule, cgroupStep config rule isRealtime]

/-! ### The calls of the steps -/

theorem call_niceStep_iff {config : Config} {rule : Json} {c : SetterCall} :
    (niceStep config rule).call = .ok c ↔
      ∃ value, (rule.index "nice").getInt = .ok value ∧ c = .setPriority value := by
  simp only [niceStep, bind_eq_ok_iff, pure_eq_ok_iff]

theorem call_latencyNiceStep_iff {config : Config} {rule : Json} {c : SetterCall} :
    (latencyNiceStep config rule).call = .ok c ↔
      ∃ value, latniceValue rule = .ok value ∧ c = .setLatencyNice value := by
  simp only [latencyNiceStep, bind_eq_ok_iff, pure_eq_ok_iff]

theorem call_schedStep_iff {config : Config} {rule : Json} {c : SetterCall} :
    (schedStep config rule).call = .ok c ↔
      ∃ prio, rtPrio rule = .ok prio ∧ ∃ name, (rule.index "sched").getString = .ok name ∧
        c = .setSched (Text.cStr name) prio := by
  simp only [schedStep, bind_eq_ok_iff, pure_eq_ok_iff]

theorem call_ioniceStep_iff {config : Config} {rule : Json} {c : SetterCall} :
    (ioniceStep config rule).call = .ok c ↔
      ∃ cls, (rule.index "ioclass").getString = .ok cls ∧ ∃ value, ioVal rule = .ok value ∧
        c = .setIoPriority (Text.cStr cls) value := by
  simp only [ioniceStep, bind_eq_ok_iff, pure_eq_ok_iff]

theorem call_oomScoreAdjStep_iff {config : Config} {rule : Json} {c : SetterCall} :
    (oomScoreAdjStep config rule).call = .ok c ↔
      ∃ value, (rule.index "oom_score_adj").getInt = .ok value ∧ c = .setOomScoreAdjust value := by
  simp only [oomScoreAdjStep, bind_eq_ok_iff, pure_eq_ok_iff]

theorem call_cgroupStep_iff {config : Config} {rule : Json} {isRealtime : Bool} {c : SetterCall} :
    (cgroupStep config rule isRealtime).call = .ok c ↔
      ∃ name, (rule.index "cgroup").getString = .ok name ∧ c = .addPidToCgroup name := by
  simp only [cgroupStep, bind_eq_ok_iff, pure_eq_ok_iff]

/-- The place of a setter among the steps. -/
def stepIndex : SetterCall → ℕ
  | .setPriority _ => 0
  | .setLatencyNice _ => 1
  | .setSched _ _ => 2
  | .setIoPriority _ _ => 3
  | .setOomScoreAdjust _ => 4
  | .addPidToCgroup _ => 5

/-- Every step calls its own setter. -/
theorem stepIndex_of_call {config : Config} {rule : Json} {isRealtime : Bool} {i : ℕ}
    {step : RuleStep} {c : SetterCall} (hi : (steps config rule isRealtime)[i]? = some step)
    (hc : step.call = .ok c) : stepIndex c = i := by
  rcases i with _ | _ | _ | _ | _ | _ | i
  · obtain rfl := Option.some.inj hi
    obtain ⟨value, -, rfl⟩ := call_niceStep_iff.mp hc
    rfl
  · obtain rfl := Option.some.inj hi
    obtain ⟨value, -, rfl⟩ := call_latencyNiceStep_iff.mp hc
    rfl
  · obtain rfl := Option.some.inj hi
    obtain ⟨prio, -, name, -, rfl⟩ := call_schedStep_iff.mp hc
    rfl
  · obtain rfl := Option.some.inj hi
    obtain ⟨cls, -, value, -, rfl⟩ := call_ioniceStep_iff.mp hc
    rfl
  · obtain rfl := Option.some.inj hi
    obtain ⟨value, -, rfl⟩ := call_oomScoreAdjStep_iff.mp hc
    rfl
  · obtain rfl := Option.some.inj hi
    obtain ⟨name, -, rfl⟩ := call_cgroupStep_iff.mp hc
    rfl
  · exact absurd hi (by simp [steps])

/-- A call that is made is the call of its step, which is on, and the fields of the steps in front
convert. -/
theorem step_of_reached {δ τ : Type} {exec : SetterCall → τ → Except δ Bool × τ} {config : Config}
    {rule : Json} {isRealtime : Bool} {s t : τ} {c : SetterCall}
    (h : CallSequence.Reached exec (steps config rule isRealtime) s c t) :
    ∃ step, (steps config rule isRealtime)[stepIndex c]? = some step ∧ step.enabled = true ∧
      step.call = .ok c ∧ ∀ st ∈ (steps config rule isRealtime).take (stepIndex c),
        st.enabled = true → st.call.isOk = true := by
  obtain ⟨before, step, after, hsplit, hon, hc, hbefore⟩ := CallSequence.exists_split_of_reached h
  have hstep : (steps config rule isRealtime)[before.length]? = some step := by
    rw [hsplit]
    simp
  have hindex := stepIndex_of_call hstep hc
  refine ⟨step, hindex ▸ hstep, hon, hc, ?_⟩
  rw [hindex, hsplit, List.take_left]
  exact hbefore

/-- The steps in front of the one for the scheduler and behind it. -/
def otherSteps (config : Config) (rule : Json) (isRealtime : Bool) : List RuleStep :=
  [niceStep config rule, latencyNiceStep config rule] ++
    [ioniceStep config rule, oomScoreAdjStep config rule, cgroupStep config rule isRealtime]

/-- The other steps never call `set_sched`. -/
theorem ne_setSched_of_others (config : Config) (rule : Json) (isRealtime : Bool) :
    ∀ st ∈ otherSteps config rule isRealtime, ∀ c, st.call = .ok c →
      ¬∃ schedName rtPrio, c = .setSched schedName rtPrio := by
  rintro st hst c hc ⟨schedName, rtPrio, rfl⟩
  simp only [otherSteps, List.cons_append, List.nil_append, List.mem_cons, List.not_mem_nil,
    or_false] at hst
  rcases hst with rfl | rfl | rfl | rfl | rfl
  · simp [call_niceStep_iff] at hc
  · simp [call_latencyNiceStep_iff] at hc
  · simp [call_ioniceStep_iff] at hc
  · simp [call_oomScoreAdjStep_iff] at hc
  · simp [call_cgroupStep_iff] at hc

/-! ### The loop -/

variable {σ : Type}

/-- What one turn of the loop did. -/
structure Turn (σ : Type) where
  process : Process
  rule : Json
  /-- The state in which the turn starts, behind the lookup of the rule. -/
  before : σ
  calls : List SetterCall
  movedToRoot : Bool
  after : σ

/-- The calls for a rule; the `null` of a name without a rule has none. -/
def applyRule (S : Setters σ) (config : Config) (rule : Json) (pid : Pid) (isRealtime : Bool)
    (s : σ) : CallSequence.Result SetterCall σ :=
  if rule.isNull then ⟨[], .completed, s⟩
  else CallSequence.run (S.call pid) (steps config rule isRealtime) s

theorem enabled_of_isNull {rule : Json} (h : rule.isNull) (config : Config) (isRealtime : Bool) :
    ∀ step ∈ steps config rule isRealtime, step.enabled = false := by
  have hmembers : rule.members = [] := by
    cases rule <;> first | rfl | exact absurd h (by simp [Json.isNull])
  have hnone (key : String) : rule.contains key = false := by
    rw [Json.contains, Json.find?, hmembers]
    rfl
  simp [steps, niceStep, latencyNiceStep, schedStep, ioniceStep, oomScoreAdjStep, cgroupStep,
    hnone]

/-- The `null` of a name without a rule needs no case of its own: none of its steps is on. -/
theorem applyRule_eq_run (S : Setters σ) (config : Config) (rule : Json) (pid : Pid)
    (isRealtime : Bool) (s : σ) :
    applyRule S config rule pid isRealtime s =
      CallSequence.run (S.call pid) (steps config rule isRealtime) s := by
  unfold applyRule
  split_ifs with h
  · rw [CallSequence.run_of_off (enabled_of_isNull h config isRealtime)]
  · rfl

/-- One turn of the loop. A call that returned `false` skips the last block too. -/
def handleProcess (S : Setters σ) (config : Config) (rule : Json) (p : Process) (s : σ) :
    Turn σ :=
  let isRealtime := S.isRealtime p.pid s
  let applied := applyRule S config rule p.pid isRealtime s
  let moves := applied.exit != .stopped && keptOut config isRealtime
  { process := p
    rule := rule
    before := s
    calls := applied.calls
    movedToRoot := moves
    after := if moves then S.moveToRoot p.pid applied.state else applied.state }

end Worker

/-- The worker: its counter, the state outside, and the turns of the loop so far. -/
structure Worker (σ : Type) where
  processedCount : UInt32
  env : σ
  turns : List (Worker.Turn σ)

namespace Worker

variable {σ : Type}

/-- The turn for a process that was taken from the queue. An exception of `get_rule` is not caught
and ends the program. -/
def takeProcess (S : Setters σ) (rules : Rules) (config : Config) (w : Worker σ) (p : Process) :
    Except TypeError (Worker σ) := do
  let rule ← rules.getRule p.name
  let turn := handleProcess S config rule p w.env
  pure ⟨w.processedCount + 1, turn.after, w.turns ++ [turn]⟩

/-- The inner loop, on the processes that `poll` returns before it times out. -/
def drain (S : Setters σ) (rules : Rules) (config : Config) (w : Worker σ)
    (polled : List Process) : Except TypeError (Worker σ) :=
  polled.foldlM (takeProcess S rules config) w

/-- `work`: the outer loop, on what each of its rounds polls. -/
def work (S : Setters σ) (rules : Rules) (config : Config) (w : Worker σ)
    (rounds : List (List Process)) : Except TypeError (Worker σ) :=
  rounds.foldlM (drain S rules config) w

end Worker

end AnanicyCpp
