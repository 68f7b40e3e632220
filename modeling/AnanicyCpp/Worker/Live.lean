import AnanicyCpp.Library.Reading
import AnanicyCpp.Library.Transition
import AnanicyCpp.Worker.Calls
import Mathlib.Data.List.Forall2

/-!
# The worker while the configuration is reloaded

The reader thread of the singleton runs `Config::reload` while the worker is at work, and the two
share the map of the configuration: `reload` assigns one key after the other, and `Worker::work`
asks for a flag in front of each call. An assignment of a key and a question for a flag are single
steps here; everything between two questions is the worker's own.

The flag of the realtime workaround is the only one that a turn asks for twice, once where it
decides about the cgroup of the rule and once in the last block. So a turn that overlaps a reload
is a turn under one configuration, whose flags had their values at some time of the turn, unless the
process is realtime and the reload changes the workaround between the two questions
(`Worker.Live.turns_of_run`). When no reload is going on, the worker is the plain one
(`Worker.Live.drain_of_run`).

## Main definitions

* `Config.Flag`, `Config.ofFlags` : the flags of a turn.
* `Worker.Live.Place`, `Worker.Live.turnProgram` : a turn, as a program that asks for flags.
* `Worker.Live.step` : the steps of the two threads.

## Main results

* `Worker.Live.eval_turnProgram` : the program of a turn and `handleProcess`.
* `Worker.Live.turns_of_run` : the turns of a run.
* `Worker.Live.drain_of_run` : a run behind a reload.
-/

namespace AnanicyCpp

namespace Config

/-! ### The flags of a turn -/

/-- The keys that a turn of the worker asks for. -/
inductive Flag where
  | nice
  | latnice
  | sched
  | ionice
  | oomScoreAdj
  | cgroups
  | realtimeWorkaround
deriving DecidableEq

/-- What a configuration says. -/
def flag (c : Config) : Flag → Bool
  | .nice => c.applyNice
  | .latnice => c.applyLatnice
  | .sched => c.applySched
  | .ionice => c.applyIonice
  | .oomScoreAdj => c.applyOomScoreAdj
  | .cgroups => c.applyCgroups
  | .realtimeWorkaround => c.cgroupRealtimeWorkaround

/-- The text of a flag. -/
def flagText (on : Bool) : String := if on then "true" else "false"

/-- A configuration with these flags. -/
def ofFlags (on : Flag → Bool) : Config :=
  ⟨SortedMap.empty.insertMany
    [("apply_nice", flagText (on .nice)), ("apply_latnice", flagText (on .latnice)),
      ("apply_sched", flagText (on .sched)), ("apply_ionice", flagText (on .ionice)),
      ("apply_oom_score_adj", flagText (on .oomScoreAdj)), ("apply_cgroup", flagText (on .cgroups)),
      ("cgroup_realtime_workaround", flagText (on .realtimeWorkaround))]⟩

theorem checkRule_ofFlags (on : Flag → Bool) {key : String} {b : Bool} (defaultValue : Bool)
    (h : (ofFlags on).get key = some (flagText b)) :
    (ofFlags on).checkRule key defaultValue = b := by
  rw [checkRule, h]
  cases b <;> rfl

@[simp]
theorem flag_ofFlags (on : Flag → Bool) : (ofFlags on).flag = on := by
  have hget {key value : String} {assignments : List (String × String)}
      (hconfig : ofFlags on = ⟨SortedMap.empty.insertMany assignments⟩)
      (hkeys : (assignments.map Prod.fst).Nodup) (hmem : (key, value) ∈ assignments) :
      (ofFlags on).get key = some value := by
    rw [hconfig, get, SortedMap.lookup_insertMany, (lastAssigned_eq_some_iff hkeys).mpr hmem,
      Option.some_or]
  funext f
  cases f <;>
    simp only [flag, applyNice, applyLatnice, applySched, applyIonice, applyOomScoreAdj,
      applyCgroups, cgroupRealtimeWorkaround] <;>
    exact checkRule_ofFlags on true (hget rfl (by simp) (by simp))

end Config

namespace Worker

variable {σ : Type}

/-! ### Turns and flags -/

/-- The steps depend on the flags only. -/
theorem steps_congr {c c' : Config} (h : c.flag = c'.flag) (rule : Json) (isRealtime : Bool) :
    steps c rule isRealtime = steps c' rule isRealtime := by
  have hnice : c.applyNice = c'.applyNice := congrFun h .nice
  have hlatnice : c.applyLatnice = c'.applyLatnice := congrFun h .latnice
  have hsched : c.applySched = c'.applySched := congrFun h .sched
  have hionice : c.applyIonice = c'.applyIonice := congrFun h .ionice
  have hoom : c.applyOomScoreAdj = c'.applyOomScoreAdj := congrFun h .oomScoreAdj
  have hcgroups : c.applyCgroups = c'.applyCgroups := congrFun h .cgroups
  have hworkaround : c.cgroupRealtimeWorkaround = c'.cgroupRealtimeWorkaround :=
    congrFun h .realtimeWorkaround
  simp only [steps, niceStep, latencyNiceStep, schedStep, ioniceStep, oomScoreAdjStep, cgroupStep,
    keptOut, hnice, hlatnice, hsched, hionice, hoom, hcgroups, hworkaround]

namespace Live

/-- A turn whose calls go by one configuration and whose last block goes by another. -/
def turnUnder (S : Setters σ) (config last : Config) (rule : Json) (p : Process) (s : σ) :
    Turn σ :=
  let isRealtime := S.isRealtime p.pid s
  let applied := applyRule S config rule p.pid isRealtime s
  let moves := applied.exit != .stopped && keptOut last isRealtime
  { process := p
    rule := rule
    before := s
    calls := applied.calls
    movedToRoot := moves
    after := if moves then S.moveToRoot p.pid applied.state else applied.state }

/-! ### The program of a turn -/

/-- The places of a turn where it asks the configuration, in their order. -/
inductive Place where
  | nice
  | latencyNice
  | sched
  | ionice
  | oomScoreAdj
  | keptOut
  | cgroup
  | movedToRoot
deriving DecidableEq

abbrev Program (α : Type) := Reading Place Config α

section Program

variable (S : Setters σ) (pid : Pid)

/-- One more step of a rule, behind calls that have gone well. -/
def goOn (r : CallSequence.Result SetterCall σ) (step : RuleStep) :
    CallSequence.Result SetterCall σ :=
  let next := CallSequence.run (S.call pid) [step] r.state
  { next with calls := r.calls ++ next.calls }

/-- A step of a rule, whose flag is asked for when it comes to it. -/
def guarded (place : Place) (step : Config → RuleStep) (r : CallSequence.Result SetterCall σ) :
    Program (CallSequence.Result SetterCall σ) :=
  if r.exit = .completed then .read place fun config => .done (goOn S pid r (step config))
  else .done r

/-- The flag of the workaround is asked for only if the process is realtime. -/
def askKeptOut (place : Place) (isRealtime : Bool) : Program Bool :=
  if isRealtime then .read place fun config => .done (keptOut config true) else .done false

/-- The step for the cgroup, with the question for the workaround in front of it. -/
def guardedCgroup (rule : Json) (isRealtime : Bool) (r : CallSequence.Result SetterCall σ) :
    Program (CallSequence.Result SetterCall σ) :=
  if r.exit = .completed then
    (askKeptOut .keptOut isRealtime).bind fun out =>
      if out then .done r else guarded S pid .cgroup (fun config => cgroupStep config rule false) r
  else .done r

/-- The calls for a rule. -/
def applyProgram (rule : Json) (isRealtime : Bool) (s : σ) :
    Program (CallSequence.Result SetterCall σ) :=
  if rule.isNull then .done ⟨[], .completed, s⟩
  else
    (guarded S pid .nice (niceStep · rule) ⟨[], .completed, s⟩).bind fun r =>
      (guarded S pid .latencyNice (latencyNiceStep · rule) r).bind fun r =>
        (guarded S pid .sched (schedStep · rule) r).bind fun r =>
          (guarded S pid .ionice (ioniceStep · rule) r).bind fun r =>
            (guarded S pid .oomScoreAdj (oomScoreAdjStep · rule) r).bind
              (guardedCgroup S pid rule isRealtime)

/-- A turn of the loop, behind `get_rule`. -/
def turnProgram (rule : Json) (p : Process) (s : σ) : Program (Turn σ) :=
  let isRealtime := S.isRealtime p.pid s
  (applyProgram S p.pid rule isRealtime s).bind fun applied =>
    (if applied.exit = .stopped then .done false else askKeptOut .movedToRoot isRealtime).bind
      fun moves => .done
        { process := p
          rule := rule
          before := s
          calls := applied.calls
          movedToRoot := moves
          after := if moves then S.moveToRoot p.pid applied.state else applied.state }

/-! ### What a turn comes to -/

/-- The flags that a turn finds. -/
def foundFlags (found : Place → Config) : Config.Flag → Bool
  | .nice => (found .nice).applyNice
  | .latnice => (found .latencyNice).applyLatnice
  | .sched => (found .sched).applySched
  | .ionice => (found .ionice).applyIonice
  | .oomScoreAdj => (found .oomScoreAdj).applyOomScoreAdj
  | .cgroups => (found .cgroup).applyCgroups
  | .realtimeWorkaround => (found .keptOut).cgroupRealtimeWorkaround

/-- The configuration that a turn seems to go by. -/
def seen (found : Place → Config) : Config := .ofFlags (foundFlags found)

theorem flag_seen (found : Place → Config) : (seen found).flag = foundFlags found :=
  Config.flag_ofFlags _

/-- More steps of a rule. -/
def extend (r : CallSequence.Result SetterCall σ) (steps : List RuleStep) :
    CallSequence.Result SetterCall σ :=
  if r.exit = .completed then
    { CallSequence.run (S.call pid) steps r.state with
      calls := r.calls ++ (CallSequence.run (S.call pid) steps r.state).calls }
  else r

variable {S pid} {found : Place → Config}

theorem eval_guarded (place : Place) (step : Config → RuleStep)
    (r : CallSequence.Result SetterCall σ) :
    (guarded S pid place step r).eval found = extend S pid r [step (found place)] := by
  unfold guarded extend
  split_ifs <;> rfl

theorem eval_askKeptOut (place : Place) (isRealtime : Bool) :
    (askKeptOut place isRealtime).eval found = keptOut (found place) isRealtime := by
  cases isRealtime <;> rfl

theorem keptOut_congr {c c' : Config} (h : c.cgroupRealtimeWorkaround = c'.cgroupRealtimeWorkaround)
    (isRealtime : Bool) : keptOut c isRealtime = keptOut c' isRealtime := by
  rw [keptOut, h, keptOut]

theorem eval_guardedCgroup (rule : Json) (isRealtime : Bool)
    (r : CallSequence.Result SetterCall σ) :
    (guardedCgroup S pid rule isRealtime r).eval found =
      extend S pid r [cgroupStep (seen found) rule isRealtime] := by
  have hcgroups : (seen found).applyCgroups = (found .cgroup).applyCgroups :=
    congrFun (flag_seen found) .cgroups
  have hout : keptOut (found .keptOut) isRealtime = keptOut (seen found) isRealtime :=
    keptOut_congr (congrFun (flag_seen found) .realtimeWorkaround).symm isRealtime
  unfold guardedCgroup
  split_ifs with hcompleted
  · rw [Reading.eval_bind, eval_askKeptOut, hout]
    cases h : keptOut (seen found) isRealtime with
    | true =>
      have hoff : ∀ step ∈ [cgroupStep (seen found) rule isRealtime], step.enabled = false := by
        simp [cgroupStep, h]
      rw [if_pos rfl, extend, if_pos hcompleted, CallSequence.run_of_off hoff, List.append_nil,
        ← hcompleted]
      rfl
    | false =>
      have hin : keptOut (found .cgroup) false = false := rfl
      have hstep :
          cgroupStep (found .cgroup) rule false = cgroupStep (seen found) rule isRealtime := by
        simp only [cgroupStep, hin, h, hcgroups]
      rw [if_neg Bool.false_ne_true, eval_guarded, hstep]
  · rw [extend, if_neg hcompleted]
    rfl

/-- The calls of the program are those of the steps. -/
theorem eval_applyProgram (rule : Json) (isRealtime : Bool) (s : σ) :
    (applyProgram S pid rule isRealtime s).eval found =
      applyRule S (seen found) rule pid isRealtime s := by
  have hextend (steps : List RuleStep) (step : RuleStep) :
      extend S pid (CallSequence.run (S.call pid) steps s) [step] =
        CallSequence.run (S.call pid) (steps ++ [step]) s := (CallSequence.run_append ..).symm
  have hnice : (seen found).applyNice = (found .nice).applyNice :=
    congrFun (flag_seen found) .nice
  have hlatnice : (seen found).applyLatnice = (found .latencyNice).applyLatnice :=
    congrFun (flag_seen found) .latnice
  have hsched : (seen found).applySched = (found .sched).applySched :=
    congrFun (flag_seen found) .sched
  have hionice : (seen found).applyIonice = (found .ionice).applyIonice :=
    congrFun (flag_seen found) .ionice
  have hoom : (seen found).applyOomScoreAdj = (found .oomScoreAdj).applyOomScoreAdj :=
    congrFun (flag_seen found) .oomScoreAdj
  unfold applyProgram applyRule
  split_ifs
  · rfl
  · have hnil : (⟨[], .completed, s⟩ : CallSequence.Result SetterCall σ) =
        CallSequence.run (S.call pid) ([] : List RuleStep) s := rfl
    simp only [Reading.eval_bind, eval_guarded, eval_guardedCgroup, hnil, hextend]
    simp only [steps, niceStep, latencyNiceStep, schedStep, ioniceStep, oomScoreAdjStep, hnice,
      hlatnice, hsched, hionice, hoom]
    rfl

/-- **A turn.** Whatever each place finds, the turn goes by the flags that it has found, and its
last block by the workaround of its own place. -/
theorem eval_turnProgram (rule : Json) (p : Process) (s : σ) :
    (turnProgram S rule p s).eval found =
      turnUnder S (seen found) (found .movedToRoot) rule p s := by
  have hmoves (exit : CallSequence.Exit) (isRealtime : Bool) :
      (if exit = .stopped then .done false else askKeptOut .movedToRoot isRealtime).eval found =
        (exit != .stopped && keptOut (found .movedToRoot) isRealtime) := by
    split_ifs with hstopped
    · rw [hstopped]
      rfl
    · rw [eval_askKeptOut, bne_iff_ne.mpr hstopped, Bool.true_and]
  simp only [turnProgram, turnUnder, Reading.eval_bind, Reading.eval_done, eval_applyProgram,
    hmoves]

/-- The places in their order. -/
def places : List Place :=
  [.nice, .latencyNice, .sched, .ionice, .oomScoreAdj, .keptOut, .cgroup, .movedToRoot]

theorem readsIn_guarded (place : Place) (step : Config → RuleStep)
    (r : CallSequence.Result SetterCall σ) : (guarded S pid place step r).ReadsIn [place] := by
  unfold guarded
  split_ifs
  · exact ⟨[], [], rfl, fun _ => trivial⟩
  · trivial

theorem readsIn_askKeptOut (place : Place) (isRealtime : Bool) :
    (askKeptOut place isRealtime).ReadsIn [place] := by
  cases isRealtime with
  | true => exact ⟨[], [], rfl, fun _ => trivial⟩
  | false => trivial

theorem readsIn_guardedCgroup (rule : Json) (isRealtime : Bool)
    (r : CallSequence.Result SetterCall σ) :
    (guardedCgroup S pid rule isRealtime r).ReadsIn [.keptOut, .cgroup] := by
  unfold guardedCgroup
  split_ifs
  · refine (readsIn_askKeptOut .keptOut isRealtime).bind fun out => ?_
    split_ifs
    · trivial
    · exact readsIn_guarded ..
  · trivial

/-- No place is read twice. -/
theorem readsIn_turnProgram (rule : Json) (p : Process) (s : σ) :
    (turnProgram S rule p s).ReadsIn places := by
  have happly (isRealtime : Bool) : (applyProgram S p.pid rule isRealtime s).ReadsIn
      [.nice, .latencyNice, .sched, .ionice, .oomScoreAdj, .keptOut, .cgroup] := by
    unfold applyProgram
    split_ifs
    · trivial
    · exact (readsIn_guarded ..).bind fun _ => (readsIn_guarded ..).bind fun _ =>
        (readsIn_guarded ..).bind fun _ => (readsIn_guarded ..).bind fun _ =>
          (readsIn_guarded ..).bind fun _ => readsIn_guardedCgroup ..
  have hmoves (exit : CallSequence.Exit) (isRealtime : Bool) :
      (if exit = .stopped then .done false else askKeptOut .movedToRoot isRealtime).ReadsIn
        [.movedToRoot] := by
    split_ifs
    · trivial
    · exact readsIn_askKeptOut ..
  exact (happly _).bind fun _ => (hmoves ..).bind fun _ => Reading.readsIn_done [] _

end Program

/-! ### The two threads -/

/-- The map, the assignments that a reload has still to make, and the worker, with the rest of its
turn. `taken` is what was taken from the queue so far, `window` has the maps since the turn in hand
began, and `windows` those of the turns that are over. -/
structure State (σ : Type) where
  config : Config
  pending : List (String × String)
  worker : Worker σ
  inHand : Option (Program (Turn σ))
  taken : List Process
  window : List Config
  windows : List (List Config)

/-- The reader thread begins a reload and makes its assignments one by one; the worker takes a
process, asks for a flag, and ends the turn. -/
inductive Act where
  | reload (content : Text)
  | assign
  | take (p : Process)
  | ask
  | finish
deriving DecidableEq

/-- The file of a reload. -/
def Act.contents : Act → List Text
  | .reload content => [content]
  | _ => []

/-- The process of a turn. -/
def Act.taken : Act → List Process
  | .take p => [p]
  | _ => []

/-- The worker is about to poll. -/
def init (config : Config) (env : σ) : State σ :=
  ⟨config, [], ⟨0, env, []⟩, none, [], [], []⟩

/-- An exception of `get_rule` ends the program, and there is no step that takes the process. -/
def step (S : Setters σ) (rules : Rules) (supported : Bool) (s : State σ) :
    Act → Option (State σ)
  | .reload content =>
      match s.pending with
      | [] => some { s with pending := Config.reloadAssignments supported content }
      | _ => none
  | .assign =>
      match s.pending with
      | [] => none
      | e :: pending =>
          let config : Config := ⟨s.config.config.insert e.1 e.2⟩
          some { s with config, pending, window := s.window ++ [config] }
  | .take p =>
      match s.inHand, rules.getRule p.name with
      | none, .ok rule =>
          some { s with
            worker := { s.worker with processedCount := s.worker.processedCount + 1 }
            inHand := some (turnProgram S rule p s.worker.env)
            taken := s.taken ++ [p]
            window := [s.config] }
      | _, _ => none
  | .ask =>
      match s.inHand with
      | some (.read _ next) => some { s with inHand := some (next s.config) }
      | _ => none
  | .finish =>
      match s.inHand with
      | some (.done turn) =>
          some { s with
            worker := { s.worker with env := turn.after, turns := s.worker.turns ++ [turn] }
            inHand := none
            windows := s.windows ++ [s.window] }
      | _ => none

section Steps

variable {S : Setters σ} {rules : Rules} {supported : Bool} {s t : State σ}

theorem step_reload {content : Text} (h : step S rules supported s (.reload content) = some t) :
    s.pending = [] ∧ t = { s with pending := Config.reloadAssignments supported content } := by
  simp only [step] at h
  split at h
  · next hpending => exact ⟨hpending, (Option.some.inj h).symm⟩
  · cases h

theorem step_assign (h : step S rules supported s .assign = some t) :
    ∃ e pending, s.pending = e :: pending ∧
      t = { s with
        config := ⟨s.config.config.insert e.1 e.2⟩
        pending
        window := s.window ++ [⟨s.config.config.insert e.1 e.2⟩] } := by
  simp only [step] at h
  split at h
  · cases h
  · next e pending hpending => exact ⟨e, pending, hpending, (Option.some.inj h).symm⟩

theorem step_take {p : Process} (h : step S rules supported s (.take p) = some t) :
    s.inHand = none ∧ ∃ rule, rules.getRule p.name = .ok rule ∧
      t = { s with
        worker := { s.worker with processedCount := s.worker.processedCount + 1 }
        inHand := some (turnProgram S rule p s.worker.env)
        taken := s.taken ++ [p]
        window := [s.config] } := by
  simp only [step] at h
  split at h
  · next rule hnone hrule => exact ⟨hnone, rule, hrule, (Option.some.inj h).symm⟩
  · cases h

theorem step_ask (h : step S rules supported s .ask = some t) :
    ∃ prog, s.inHand = some prog ∧ t = { s with inHand := some (prog.resume s.config) } := by
  simp only [step] at h
  split at h
  · next place next hprog => exact ⟨_, hprog, (Option.some.inj h).symm⟩
  · cases h

theorem step_finish (h : step S rules supported s .finish = some t) :
    ∃ turn, s.inHand = some (.done turn) ∧
      t = { s with
        worker := { s.worker with env := turn.after, turns := s.worker.turns ++ [turn] }
        inHand := none
        windows := s.windows ++ [s.window] } := by
  simp only [step] at h
  split at h
  · next turn hturn => exact ⟨turn, hturn, (Option.some.inj h).symm⟩
  · cases h

theorem taken_of_step (a : Act) (h : step S rules supported s a = some t) :
    t.taken = s.taken ++ a.taken := by
  cases a with
  | reload content =>
    obtain ⟨-, rfl⟩ := step_reload h
    exact (List.append_nil _).symm
  | assign =>
    obtain ⟨e, pending, -, rfl⟩ := step_assign h
    exact (List.append_nil _).symm
  | take p =>
    obtain ⟨-, rule, -, rfl⟩ := step_take h
    rfl
  | ask =>
    obtain ⟨prog, -, rfl⟩ := step_ask h
    exact (List.append_nil _).symm
  | finish =>
    obtain ⟨turn, -, rfl⟩ := step_finish h
    exact (List.append_nil _).symm

end Steps

/-! ### Turns that overlap a reload -/

/-- A turn that found the maps of the window. It goes by one configuration, each of whose flags is
that of a map of the window, and its last block does too, unless the process is realtime and finds
another workaround there. -/
def TurnIn (S : Setters σ) (rules : Rules) (turn : Turn σ) (window : List Config) : Prop :=
  rules.getRule turn.process.name = .ok turn.rule ∧
  ∃ config : Config, (∀ f, ∃ c ∈ window, config.flag f = c.flag f) ∧
    (turn = handleProcess S config turn.rule turn.process turn.before ∨
      S.isRealtime turn.process.pid turn.before = true ∧ ∃ last ∈ window,
        last.cgroupRealtimeWorkaround ≠ config.cgroupRealtimeWorkaround ∧
          turn = turnUnder S config last turn.rule turn.process turn.before)

/-- The rest of the turn in hand: the maps that it has found so far are in the window. -/
def InHand (S : Setters σ) (rules : Rules) (s : State σ) : Option (Program (Turn σ)) → Prop
  | none => s.taken = s.worker.turns.map Turn.process
  | some prog => ∃ p rule answers, s.taken = s.worker.turns.map Turn.process ++ [p] ∧
      rules.getRule p.name = .ok rule ∧
      prog = (turnProgram S rule p s.worker.env).feed answers ∧
      (∀ c ∈ answers, c ∈ s.window) ∧ s.config ∈ s.window

structure Inv (S : Setters σ) (rules : Rules) (env : σ) (s : State σ) : Prop where
  threads : Threads env s.worker.turns s.worker.env
  turns : List.Forall₂ (TurnIn S rules) s.worker.turns s.windows
  inHand : InHand S rules s s.inHand

theorem threads_concat {s s' : σ} {turns : List (Turn σ)} {turn : Turn σ}
    (h : Threads s turns s') (hturn : turn.before = s') :
    Threads s (turns ++ [turn]) turn.after := by
  induction turns generalizing s with
  | nil =>
    obtain rfl : s' = s := h
    exact ⟨hturn, rfl⟩
  | cons first turns ih => exact ⟨h.1, ih h.2⟩

section Turns

variable {S : Setters σ} {rules : Rules} {supported : Bool} {env : σ} {s t : State σ}

theorem turnUnder_eq_handleProcess {config last : Config} {rule : Json} {p : Process}
    (h : S.isRealtime p.pid env = true →
      last.cgroupRealtimeWorkaround = config.cgroupRealtimeWorkaround) :
    turnUnder S config last rule p env = handleProcess S config rule p env := by
  have hout : keptOut last (S.isRealtime p.pid env) = keptOut config (S.isRealtime p.pid env) := by
    cases hrealtime : S.isRealtime p.pid env with
    | true => exact keptOut_congr (h hrealtime) true
    | false => rfl
  simp only [turnUnder, handleProcess, hout]

/-- The turn of a program that has read its last flag. -/
theorem turnIn_of_feed {rule : Json} {p : Process} {answers window : List Config} {turn : Turn σ}
    {c₀ : Config} (hrule : rules.getRule p.name = .ok rule)
    (hprog : .done turn = (turnProgram S rule p env).feed answers)
    (hanswers : ∀ c ∈ answers, c ∈ window) (hc₀ : c₀ ∈ window) :
    TurnIn S rules turn window ∧ turn.process = p ∧ turn.before = env := by
  obtain ⟨found, hfound, heval⟩ :=
    Reading.exists_found (readsIn_turnProgram rule p env) (by decide) c₀ answers
  have hmem (place : Place) : found place ∈ window :=
    (hfound place).elim (fun h => h ▸ hc₀) (hanswers _)
  rw [← hprog, Reading.eval_done, eval_turnProgram] at heval
  subst heval
  refine ⟨⟨hrule, seen found, fun f => ?_, ?_⟩, rfl, rfl⟩
  · rw [flag_seen]
    cases f <;> exact ⟨_, hmem _, rfl⟩
  · by_cases hsame : S.isRealtime p.pid env = true →
        (found .movedToRoot).cgroupRealtimeWorkaround = (seen found).cgroupRealtimeWorkaround
    · exact .inl (turnUnder_eq_handleProcess hsame)
    · obtain ⟨hrealtime, hne⟩ := Classical.not_imp.mp hsame
      exact .inr ⟨hrealtime, found .movedToRoot, hmem _, hne, rfl⟩

theorem inv_init (S : Setters σ) (rules : Rules) (config : Config) (env : σ) :
    Inv S rules env (init config env) := ⟨rfl, .nil, rfl⟩

theorem Inv.step {a : Act} (hs : Inv S rules env s) (h : step S rules supported s a = some t) :
    Inv S rules env t := by
  obtain ⟨hthreads, hturns, hinHand⟩ := hs
  cases a with
  | reload content =>
    obtain ⟨-, rfl⟩ := step_reload h
    exact ⟨hthreads, hturns, hinHand⟩
  | assign =>
    obtain ⟨e, pending, -, rfl⟩ := step_assign h
    refine ⟨hthreads, hturns, ?_⟩
    show InHand S rules _ s.inHand
    cases hprog : s.inHand with
    | none =>
      rw [hprog] at hinHand
      exact hinHand
    | some prog =>
      rw [hprog] at hinHand
      obtain ⟨p, rule, answers, htaken, hrule, hfeed, hanswers, -⟩ := hinHand
      exact ⟨p, rule, answers, htaken, hrule, hfeed,
        fun c hc => List.mem_append_left _ (hanswers c hc), by simp⟩
  | take p =>
    obtain ⟨hnone, rule, hrule, rfl⟩ := step_take h
    rw [hnone] at hinHand
    refine ⟨hthreads, hturns, p, rule, [], ?_, hrule, rfl, by simp, by simp⟩
    exact congrArg (· ++ [p]) hinHand
  | ask =>
    obtain ⟨prog, hprog, rfl⟩ := step_ask h
    rw [hprog] at hinHand
    obtain ⟨p, rule, answers, htaken, hrule, rfl, hanswers, hconfig⟩ := hinHand
    refine ⟨hthreads, hturns, p, rule, answers ++ [s.config], htaken, hrule,
      (Reading.feed_concat ..).symm, fun c hc => ?_, hconfig⟩
    rcases List.mem_append.mp hc with hc | hc
    · exact hanswers c hc
    · exact List.mem_singleton.mp hc ▸ hconfig
  | finish =>
    obtain ⟨turn, hturn, rfl⟩ := step_finish h
    rw [hturn] at hinHand
    obtain ⟨p, rule, answers, htaken, hrule, hfeed, hanswers, hconfig⟩ := hinHand
    obtain ⟨hin, hprocess, hbefore⟩ := turnIn_of_feed hrule hfeed hanswers hconfig
    refine ⟨threads_concat hthreads hbefore, List.rel_append hturns (.cons hin .nil), ?_⟩
    show s.taken = (s.worker.turns ++ [turn]).map Turn.process
    rw [htaken, List.map_append, List.map_singleton, hprocess]

/-- **Turns that overlap a reload.** In every run, however the assignments of the reloads fall
between the questions of the worker, the turns are for the processes that were taken, in order, and
each starts where the one before it ended. Each is a turn of the plain worker under one
configuration, whose flags have the values of maps that the turn has seen, unless the process is
realtime and the workaround changes between the two questions for it. -/
theorem turns_of_run {config : Config} {acts : List Act}
    (h : Transition.run (Live.step S rules supported) (init config env) acts = some t) :
    t.worker.turns.map Turn.process <+: acts.flatMap Act.taken ∧
      Threads env t.worker.turns t.worker.env ∧
      List.Forall₂ (TurnIn S rules) t.worker.turns t.windows := by
  have hinv : Inv S rules env t :=
    Transition.run_invariant (Inv S rules env) (fun s _ _ t hs h => hs.step h)
      (inv_init S rules config env) h
  have htaken : t.taken = acts.flatMap Act.taken :=
    Transition.run_log State.taken Act.taken (fun s a t h => taken_of_step a h) h
  refine ⟨?_, hinv.threads, hinv.turns⟩
  rw [← htaken]
  have hhand := hinv.inHand
  cases hprog : t.inHand with
  | none =>
    rw [hprog] at hhand
    rw [show t.taken = _ from hhand]
  | some prog =>
    rw [hprog] at hhand
    obtain ⟨p, rule, answers, hp, -⟩ := hhand
    exact ⟨[p], hp.symm⟩

end Turns

/-- A worker whose processes are all realtime, and whose calls all succeed. -/
def realtimeSetters : Setters Unit where
  call _ _ s := (.ok true, s)
  isRealtime _ _ := true
  moveToRoot _ s := s

/-- The workaround is switched off while the turn stands between its two questions. -/
def tornActs : List Act :=
  [.reload "cgroup_realtime_workaround=false".toList, .take ⟨1, "a"⟩, .ask, .ask, .ask, .ask, .ask,
    .ask, .assign, .ask, .finish]

/-- The realtime process is neither moved to the cgroup of its rule nor to the root cgroup. -/
theorem turns_of_run_sample :
    ∃ t, Transition.run (step realtimeSetters sampleRules true) (init ⟨.empty⟩ ()) tornActs =
        some t ∧
      t.worker.turns.map Turn.process <+: tornActs.flatMap Act.taken ∧
      Threads () t.worker.turns t.worker.env ∧
      List.Forall₂ (TurnIn realtimeSetters sampleRules) t.worker.turns t.windows ∧
      t.worker.turns.map (fun turn => (turn.calls, turn.movedToRoot)) =
        [([.setPriority 5, .setLatencyNice 5, .setSched "fifo" 1], false)] := by
  have hturns : (Transition.run (step realtimeSetters sampleRules true) (init ⟨.empty⟩ ())
      tornActs).map (fun t => t.worker.turns.map fun turn => (turn.calls, turn.movedToRoot)) =
        some [([.setPriority 5, .setLatencyNice 5, .setSched "fifo" 1], false)] := by
    decide +kernel
  obtain ⟨t, ht, hcalls⟩ := Option.map_eq_some_iff.mp hturns
  obtain ⟨hprocesses, hthreads, hin⟩ := turns_of_run ht
  exact ⟨t, ht, hprocesses, hthreads, hin, hcalls⟩

/-! ### The worker between two reloads -/

section Steady

variable {S : Setters σ} {rules : Rules} {supported : Bool} {s t : State σ}

/-- The map, with the assignments that are still to be made, is that of the reloads so far. -/
theorem config_of_step {a : Act} (h : step S rules supported s a = some t) :
    (⟨t.config.config.insertMany t.pending⟩ : Config) =
      a.contents.foldl (fun c content => c.reload supported content)
        ⟨s.config.config.insertMany s.pending⟩ := by
  cases a with
  | reload content =>
    obtain ⟨hpending, rfl⟩ := step_reload h
    rw [hpending]
    exact (Config.reload_eq_insertMany supported content s.config).symm
  | assign =>
    obtain ⟨e, pending, hpending, rfl⟩ := step_assign h
    rw [hpending]
    rfl
  | take p =>
    obtain ⟨-, rule, -, rfl⟩ := step_take h
    rfl
  | ask =>
    obtain ⟨prog, -, rfl⟩ := step_ask h
    rfl
  | finish =>
    obtain ⟨turn, -, rfl⟩ := step_finish h
    rfl

theorem config_of_run {acts : List Act}
    (h : Transition.run (step S rules supported) s acts = some t) :
    (⟨t.config.config.insertMany t.pending⟩ : Config) =
      (acts.flatMap Act.contents).foldl (fun c content => c.reload supported content)
        ⟨s.config.config.insertMany s.pending⟩ := by
  induction acts generalizing s with
  | nil =>
    obtain rfl : s = t := Option.some.inj h
    rfl
  | cons a acts ih =>
    obtain ⟨s', hs', hrest⟩ := Transition.run_cons_eq_some_iff.mp h
    rw [ih hrest, config_of_step hs', List.flatMap_cons, List.foldl_append]

/-- A turn that finds one configuration. -/
theorem eval_turnProgram_const (config : Config) (rule : Json) (p : Process) (env : σ) :
    (turnProgram S rule p env).eval (fun _ => config) = handleProcess S config rule p env := by
  have hflags : (seen fun _ => config).flag = config.flag := by
    rw [flag_seen]
    funext f
    cases f <;> rfl
  have happly (isRealtime : Bool) : applyRule S (seen fun _ => config) rule p.pid isRealtime env =
      applyRule S config rule p.pid isRealtime env := by
    rw [applyRule, steps_congr hflags, applyRule]
  simp only [eval_turnProgram, turnUnder, handleProcess, happly]

/-- No reload is going on, and the worker has gone on from `w₀` as the plain one does. -/
structure Steady (S : Setters σ) (rules : Rules) (config : Config) (w₀ : Worker σ)
    (taken₀ : List Process) (s : State σ) : Prop where
  unchanged : s.config = config
  pending : s.pending = []
  worker : ∃ handled w, drain S rules config w₀ handled = .ok w ∧
    match s.inHand with
    | none => s.taken = taken₀ ++ handled ∧ s.worker = w
    | some prog => ∃ p rule answers, s.taken = taken₀ ++ (handled ++ [p]) ∧
        rules.getRule p.name = .ok rule ∧
        prog = (turnProgram S rule p w.env).feed answers ∧ (∀ c ∈ answers, c = config) ∧
        s.worker = { w with processedCount := w.processedCount + 1 }

theorem Steady.step {config : Config} {w₀ : Worker σ} {taken₀ : List Process} {a : Act}
    (hs : Steady S rules config w₀ taken₀ s) (ha : a.contents = [])
    (h : step S rules supported s a = some t) : Steady S rules config w₀ taken₀ t := by
  obtain ⟨hconfig, hpending, handled, w, hdrain, hworker⟩ := hs
  cases a with
  | reload content => cases ha
  | assign =>
    obtain ⟨e, pending, hassign, -⟩ := step_assign h
    rw [hpending] at hassign
    cases hassign
  | take p =>
    obtain ⟨hnone, rule, hrule, rfl⟩ := step_take h
    rw [hnone] at hworker
    obtain ⟨htaken, rfl⟩ := hworker
    refine ⟨hconfig, hpending, handled, _, hdrain, p, rule, [], ?_, hrule, rfl, by simp, rfl⟩
    rw [← List.append_assoc, ← htaken]
  | ask =>
    obtain ⟨prog, hprog, rfl⟩ := step_ask h
    rw [hprog] at hworker
    obtain ⟨p, rule, answers, htaken, hrule, rfl, hanswers, hcount⟩ := hworker
    refine ⟨hconfig, hpending, handled, w, hdrain, p, rule, answers ++ [s.config], htaken, hrule,
      (Reading.feed_concat ..).symm, fun c hc => ?_, hcount⟩
    rcases List.mem_append.mp hc with hc | hc
    · exact hanswers c hc
    · exact (List.mem_singleton.mp hc).trans hconfig
  | finish =>
    obtain ⟨turn, hturn, rfl⟩ := step_finish h
    rw [hturn] at hworker
    obtain ⟨p, rule, answers, htaken, hrule, hfeed, hanswers, hcount⟩ := hworker
    have heval : turn = handleProcess S config rule p w.env := by
      rw [← eval_turnProgram_const, ← Reading.eval_feed_of_eq hanswers, ← hfeed]
      rfl
    refine ⟨hconfig, hpending, handled ++ [p], _, ?_, htaken, rfl⟩
    rw [drain, List.foldlM_append, show List.foldlM _ _ _ = _ from hdrain, heval, hcount]
    simp [takeProcess, hrule]

/-- **Between two reloads.** From a state in which no reload is going on and no turn is in hand, to
any other such state that is reached without a reload, the worker does what the plain loop does on
the processes that it takes, under the configuration that the reloads so far have left. -/
theorem drain_of_run {config : Config} {env : σ} {before after : List Act}
    (hbefore : Transition.run (Live.step S rules supported) (init config env) before = some s)
    (hafter : Transition.run (Live.step S rules supported) s after = some t)
    (hquiet : s.pending = [] ∧ ∀ a ∈ after, a.contents = [])
    (hidle : s.inHand = none ∧ t.inHand = none) :
    drain S rules ((before.flatMap Act.contents).foldl
      (fun c content => c.reload supported content) config) s.worker (after.flatMap Act.taken) =
        .ok t.worker := by
  have hconfig : s.config = (before.flatMap Act.contents).foldl
      (fun c content => c.reload supported content) config := by
    have hmap := config_of_run hbefore
    rw [hquiet.1] at hmap
    exact hmap
  rw [← hconfig]
  have hsteady : Steady S rules s.config s.worker s.taken t := by
    refine Transition.run_invariant _ (fun s a ha t hs h => hs.step (hquiet.2 a ha) h) ?_ hafter
    refine ⟨rfl, hquiet.1, [], s.worker, rfl, ?_⟩
    rw [hidle.1]
    exact ⟨(List.append_nil _).symm, rfl⟩
  obtain ⟨handled, w, hdrain, hworker⟩ := hsteady.worker
  rw [hidle.2] at hworker
  obtain ⟨htaken, hw⟩ := hworker
  have hlog : t.taken = s.taken ++ after.flatMap Act.taken :=
    Transition.run_log State.taken Act.taken (fun s a t h => taken_of_step a h) hafter
  rw [htaken, List.append_cancel_left_eq] at hlog
  rw [← hlog, hw, hdrain]

end Steady

/-- A reload, and the turn behind it. -/
def reloadActs : List Act := [.reload "apply_nice=false".toList, .assign]

def turnActs : List Act :=
  [.take ⟨1, "a"⟩, .ask, .ask, .ask, .ask, .ask, .ask, .ask, .finish]

/-- The turn goes by the new configuration. -/
theorem drain_of_run_sample : ∃ s t,
    Transition.run (step realtimeSetters sampleRules true) (init ⟨.empty⟩ ()) reloadActs = some s ∧
    Transition.run (step realtimeSetters sampleRules true) s turnActs = some t ∧
    drain realtimeSetters sampleRules ((reloadActs.flatMap Act.contents).foldl
      (fun c content => c.reload true content) ⟨.empty⟩) s.worker (turnActs.flatMap Act.taken) =
        .ok t.worker ∧
    t.worker.turns.map (fun turn => (turn.calls, turn.movedToRoot)) =
      [([.setLatencyNice 5, .setSched "fifo" 1], true)] := by
  have hturns : (Transition.run (step realtimeSetters sampleRules true) (init ⟨.empty⟩ ())
      (reloadActs ++ turnActs)).map (fun t => (t.inHand.isNone,
        t.worker.turns.map fun turn => (turn.calls, turn.movedToRoot))) =
        some (true, [([.setLatencyNice 5, .setSched "fifo" 1], true)]) := by
    decide +kernel
  have hquiet : (Transition.run (step realtimeSetters sampleRules true) (init ⟨.empty⟩ ())
      reloadActs).map (fun s => (s.pending, s.inHand.isNone)) = some ([], true) := by
    decide +kernel
  obtain ⟨t, ht, hcalls⟩ := Option.map_eq_some_iff.mp hturns
  obtain ⟨s, hs, hafter⟩ := Transition.run_append_eq_some_iff.mp ht
  rw [hs, Option.map_some, Option.some.injEq, Prod.mk.injEq] at hquiet
  obtain ⟨hend, hcalls⟩ := Prod.mk.inj hcalls
  exact ⟨s, t, hs, hafter, drain_of_run hs hafter ⟨hquiet.1, by decide⟩
    ⟨Option.isNone_iff_eq_none.mp hquiet.2, Option.isNone_iff_eq_none.mp hend⟩, hcalls⟩

end Live

end Worker

end AnanicyCpp
