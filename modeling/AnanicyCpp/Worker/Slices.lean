import AnanicyCpp.Cgroups.SliceName
import AnanicyCpp.Library.Transition
import AnanicyCpp.Worker.Settings

/-!
# Where the processes end up

`add_pid_to_cgroup` asks systemd to start a scope for the process, inside the slice. The scope has a
name of its own for each process, systemd refuses to start a unit that exists, and the scope exists
for as long as the process lives. So the slice of a process is not decided like its attributes, by
the last rule. It is the slice of the first request that systemd grants, which it may refuse now and
grant later, and a later rule or the move of a realtime process to the root cgroup does not change
it (`Worker.slice_of_run`).

## Main definitions

* `Platform.KeepsScopes` : what systemd does with the scopes.
* `Worker.Turn.request`, `Worker.Turn.slice` : the cgroup that a turn asks for, and the slice that
  it is granted.
* `Worker.Life.step` : the worker handles a process, or a process exits.

## Main results

* `ControlGroups.scopeOf_injective` : each process has a scope of its own.
* `Worker.scope_handleProcess` : the scopes after a turn.
* `Worker.slice_of_run` : the slice of a process.
-/

namespace AnanicyCpp

namespace ControlGroups

/-! ### The scope of a process -/

/-- The unit that `add_pid_to_cgroup` names for a process. -/
def scopeOf (pid : Pid) : String := "ananicy-ng-" ++ toString pid ++ ".scope"

theorem leadingInt_toString (i : ℤ) : Text.leadingInt (toString i).toList = i := by
  cases i with
  | ofNat n =>
    show Text.leadingInt n.repr.toList = n
    rw [Nat.toList_repr, Text.leadingInt_toDigits]
  | negSucc n =>
    show Text.leadingInt ("-" ++ (n + 1).repr).toList = _
    rw [String.toList_append, Nat.toList_repr]
    show -((Text.leadingNat (Nat.toDigits 10 (n + 1)) : ℕ) : ℤ) = _
    rw [Text.leadingNat_toDigits]
    rfl

/-- Each process has a scope of its own. -/
theorem scopeOf_injective : Function.Injective scopeOf := by
  intro pid pid' h
  have hlist := congrArg String.toList h
  simp only [scopeOf, String.toList_append, List.append_cancel_left_eq,
    List.append_cancel_right_eq] at hlist
  have hint : pid.toInt = pid'.toInt := by
    rw [← leadingInt_toString pid.toInt, ← leadingInt_toString pid'.toInt]
    exact congrArg Text.leadingInt hlist
  exact Int32.toInt_inj.mp hint

/-- The scopes after a request, which starts no scope that exists. -/
def placed (granted : Bool) (pid : Pid) (cgroupName : String) (scopes : String → Option String) :
    String → Option String :=
  if granted ∧ scopes (scopeOf pid) = none then
    Function.update scopes (scopeOf pid) (some (unitOf cgroupName))
  else scopes

variable {granted : Bool} {scopes : String → Option String} {pid pid' : Pid}

theorem placed_self (cgroupName : String) :
    placed granted pid cgroupName scopes (scopeOf pid) = (scopes (scopeOf pid)).or
      (if granted then some (unitOf cgroupName) else none) := by
  rw [placed]
  cases hscope : scopes (scopeOf pid) with
  | none =>
    by_cases hgranted : granted
    · rw [if_pos ⟨hgranted, rfl⟩, if_pos hgranted, Function.update_self, Option.none_or]
    · rw [if_neg fun h => hgranted h.1, if_neg hgranted, hscope, Option.none_or]
  | some slice => rw [if_neg fun h => Option.some_ne_none slice h.2, hscope, Option.some_or]

theorem placed_of_ne (hne : pid' ≠ pid) (cgroupName : String) :
    placed granted pid cgroupName scopes (scopeOf pid') = scopes (scopeOf pid') := by
  rw [placed]
  split_ifs
  · exact Function.update_of_ne (scopeOf_injective.ne hne) ..
  · rfl

end ControlGroups

open ControlGroups

/-- What systemd does with the scopes. Whether it grants a request depends on the state in which the
request is made in any way; where there is no connection, nothing is granted. A request that is
granted starts the scope in its slice, unless the scope exists, and the scope is gone when the
process has exited. No system call has to do with scopes. -/
structure Platform.KeepsScopes {σ : Type} (P : Platform σ) (exits : Pid → σ → σ)
    (scopes : σ → String → Option String) (grants : BusRequest → σ → Bool) : Prop where
  starting : ∀ pid cgroupName s, scopes (addPidToCgroup P.toBus pid cgroupName s).2 =
    placed (grants (scopeRequest pid cgroupName) s) pid cgroupName (scopes s)
  syscall : ∀ call s, scopes (P.syscall call s).2 = scopes s
  exiting : ∀ pid s, scopes (exits pid s) = Function.update (scopes s) (scopeOf pid) none

namespace Worker

variable {σ : Type}

/-- The cgroup in a call of `add_pid_to_cgroup`. -/
def cgroupOfCall : SetterCall → Option String
  | .addPidToCgroup cgroupName => some cgroupName
  | _ => none

/-- The cgroup that some calls ask for, and the state in which they do. -/
def requestOfCalls (call : SetterCall → σ → Outcome × σ) (s : σ) (calls : List SetterCall) :
    Option (String × σ) :=
  (calls.findSome? cgroupOfCall).map fun cgroupName =>
    (cgroupName, CallSequence.behind call s
      (calls.takeWhile fun c => (cgroupOfCall c).isNone))

/-- The cgroup that a turn asks for, in the call for the rule or in the move to the root cgroup, and
the state in which it does. -/
def Turn.request (S : Setters σ) (turn : Turn σ) : Option (String × σ) :=
  if turn.movedToRoot then some ("", turn.behind S turn.calls)
  else requestOfCalls (S.call turn.process.pid) turn.before turn.calls

/-- The slice that a process is granted. -/
def sliceOfRequest (grants : BusRequest → σ → Bool) (pid : Pid) :
    Option (String × σ) → Option String
  | some (cgroupName, s) =>
      if grants (scopeRequest pid cgroupName) s then some (unitOf cgroupName) else none
  | none => none

/-- The slice that a turn asks for and is granted. -/
def Turn.slice (S : Setters σ) (grants : BusRequest → σ → Bool) (turn : Turn σ) : Option String :=
  sliceOfRequest grants turn.process.pid (turn.request S)

namespace Life

/-- The worker handles a process, or a process exits. -/
inductive Act where
  | handle (p : Process)
  | exit (pid : Pid)
deriving DecidableEq

/-- A step, between two turns of the worker. -/
def step (S : Setters σ) (rules : Rules) (config : Config) (exits : Pid → σ → σ) (w : Worker σ) :
    Act → Option (Worker σ)
  | .handle p => (takeProcess S rules config w p).toOption
  | .exit pid => some { w with env := exits pid w.env }

/-- The process that the step handles. -/
def Act.handled : Act → List Process
  | .handle p => [p]
  | .exit _ => []

end Life

section Turns

variable {P : Platform σ} {exits : Pid → σ → σ} {scopes : σ → String → Option String}
  {grants : BusRequest → σ → Bool} {rules : Rules} {config : Config}

/-- The calls in front of the one for the cgroup do not ask for one. -/
theorem requestOfCalls_append {call : SetterCall → σ → Outcome × σ} {calls : List SetterCall}
    (hcalls : ∀ c ∈ calls, cgroupOfCall c = none) (s : σ) (calls' : List SetterCall) :
    requestOfCalls call s (calls ++ calls') =
      requestOfCalls call (CallSequence.behind call s calls) calls' := by
  have hnone : calls.findSome? cgroupOfCall = none := List.findSome?_eq_none_iff.mpr hcalls
  rw [requestOfCalls, requestOfCalls, List.findSome?_append, hnone, Option.none_or,
    List.takeWhile_append_of_pos fun c hc => by rw [hcalls c hc]; rfl, CallSequence.behind_append]

theorem requestOfCalls_eq_none {call : SetterCall → σ → Outcome × σ} {calls : List SetterCall}
    (hcalls : ∀ c ∈ calls, cgroupOfCall c = none) (s : σ) : requestOfCalls call s calls = none := by
  rw [requestOfCalls, List.findSome?_eq_none_iff.mpr hcalls, Option.map_none]

/-- The scopes after a request. -/
def placedBy (grants : BusRequest → σ → Bool) (pid : Pid) (request : Option (String × σ))
    (scopes : String → Option String) : String → Option String :=
  request.elim scopes fun (cgroupName, s) =>
    placed (grants (scopeRequest pid cgroupName) s) pid cgroupName scopes

/-- No other setter has to do with scopes. -/
theorem scopes_call (hP : P.KeepsScopes exits scopes grants) {c : SetterCall}
    (hc : ∀ cgroupName, c ≠ .addPidToCgroup cgroupName) (pid : Pid) (s : σ) :
    scopes (P.setters.call pid c s).2 = scopes s := by
  -- such a setter does not use the bus
  let P' : Platform σ := { P with toBus := ⟨fun s => (0, s), fun _ s => (0, s)⟩ }
  have hsame : P.setters.call pid c = P'.setters.call pid c := by
    cases c with
    | addPidToCgroup cgroupName => exact absurd rfl (hc cgroupName)
    | _ => rfl
  rw [hsame]
  exact P'.call_invariant (fun t => scopes t = scopes s) (fun _ ht => ht) (fun _ _ ht => ht) pid c
    (fun call t _ ht => (hP.syscall call t).trans ht) rfl

/-- The steps in front of the one for the cgroup leave the scopes alone. -/
theorem scopes_run_settingSteps (hP : P.KeepsScopes exits scopes grants) (config : Config)
    (rule : Json) (pid : Pid) (s : σ) :
    scopes (CallSequence.run (P.setters.call pid) (settingSteps config rule) s).state = scopes s :=
  CallSequence.observe_run_of_frame scopes (fun st hst c hc =>
    scopes_call hP (ne_addPidToCgroup_of_settingSteps st hst c hc) pid) s

/-- They ask for no cgroup. -/
theorem cgroupOfCall_settingSteps (S : Setters σ) (config : Config) (rule : Json) (pid : Pid)
    (s : σ) : ∀ c ∈ (CallSequence.run (S.call pid) (settingSteps config rule) s).calls,
      cgroupOfCall c = none := by
  intro c hc
  obtain ⟨t, ht⟩ := CallSequence.mem_calls_run_iff.mp hc
  have hne := CallSequence.forall_of_reached ne_addPidToCgroup_of_settingSteps ht
  cases c with
  | addPidToCgroup cgroupName => exact absurd rfl (hne cgroupName)
  | _ => rfl

/-- The step for the cgroup places the process where its call says. -/
theorem scopes_run_cgroupStep (hP : P.KeepsScopes exits scopes grants) (rule : Json) (pid : Pid)
    (isRealtime : Bool) (s : σ) :
    scopes (CallSequence.run (P.setters.call pid) [cgroupStep config rule isRealtime] s).state =
      placedBy grants pid (requestOfCalls (P.setters.call pid) s
        (CallSequence.run (P.setters.call pid) [cgroupStep config rule isRealtime] s).calls)
        (scopes s) := by
  rw [CallSequence.run]
  split_ifs with hon
  · cases hcall : (cgroupStep config rule isRealtime).call with
    | error e => rfl
    | ok c =>
      obtain ⟨cgroupName, -, rfl⟩ := call_cgroupStep_iff.mp hcall
      have hplaced := hP.starting pid cgroupName s
      obtain ⟨code, t, ht⟩ : ∃ code t, P.setters.call pid (.addPidToCgroup cgroupName) s =
        (.ok (code != 0), t) ∧ t = (addPidToCgroup P.toBus pid cgroupName s).2 := ⟨_, _, rfl, rfl⟩
      rw [← ht.2] at hplaced
      simp only [ht.1]
      cases code != 0 <;> exact hplaced
  · rfl

/-- The calls for a rule place the process where the last of them says. -/
theorem scopes_applyRule (hP : P.KeepsScopes exits scopes grants) (config : Config) (rule : Json)
    (pid : Pid) (isRealtime : Bool) (s : σ) :
    scopes (applyRule P.setters config rule pid isRealtime s).state =
      placedBy grants pid (requestOfCalls (P.setters.call pid) s
        (applyRule P.setters config rule pid isRealtime s).calls) (scopes s) := by
  have hsettings := scopes_run_settingSteps hP config rule pid s
  have hcalls := cgroupOfCall_settingSteps P.setters config rule pid s
  rw [applyRule_eq_run, steps_eq, CallSequence.run_append]
  split_ifs
  · rw [requestOfCalls_append hcalls, scopes_run_cgroupStep hP, hsettings,
      ← CallSequence.state_run]
  · rw [requestOfCalls_eq_none hcalls, hsettings]
    rfl

/-- A process that is kept out of the cgroups is placed by no call for its rule. -/
theorem scopes_applyRule_of_keptOut (hP : P.KeepsScopes exits scopes grants) {isRealtime : Bool}
    (hkept : keptOut config isRealtime) (rule : Json) (pid : Pid) (s : σ) :
    scopes (applyRule P.setters config rule pid isRealtime s).state = scopes s := by
  have hoff : (cgroupStep config rule isRealtime).enabled = false := by
    rw [cgroupStep, hkept]
    rfl
  have hsettings := scopes_run_settingSteps hP config rule pid s
  rw [applyRule_eq_run, steps_eq, CallSequence.run_append]
  split_ifs
  · rw [CallSequence.run_of_off (by simpa using hoff)]
    exact hsettings
  · exact hsettings

/-- **A turn.** The scopes after a turn, from the cgroup that the turn asks for. -/
theorem scopes_handleProcess (hP : P.KeepsScopes exits scopes grants) (rule : Json) (p : Process)
    (s : σ) : scopes (handleProcess P.setters config rule p s).after =
      placedBy grants p.pid ((handleProcess P.setters config rule p s).request P.setters)
        (scopes s) := by
  have hafter := after_handleProcess P.setters config rule p s
  rw [Turn.request]
  split_ifs with hmoved
  · have hkept : keptOut config (P.isRealtime p.pid s) = true := (Bool.and_eq_true_iff.mp hmoved).2
    have happlied := scopes_applyRule_of_keptOut hP hkept rule p.pid s
    rw [applyRule_eq_run, CallSequence.state_run, ← applyRule_eq_run] at happlied
    simp only [hmoved, if_true] at hafter
    rw [hafter]
    exact (hP.starting p.pid "" _).trans (congrArg _ happlied)
  · have happlied := scopes_applyRule hP config rule p.pid (P.isRealtime p.pid s) s
    simp only [hmoved, Bool.false_eq_true, if_false] at hafter
    rw [applyRule_eq_run, CallSequence.state_run, ← applyRule_eq_run] at happlied
    rw [hafter]
    exact happlied

/-- The slice of the process that a turn is for. -/
theorem slice_handleProcess (hP : P.KeepsScopes exits scopes grants) (rule : Json) (p : Process)
    (s : σ) : scopes (handleProcess P.setters config rule p s).after (scopeOf p.pid) =
      (scopes s (scopeOf p.pid)).or
        ((handleProcess P.setters config rule p s).slice P.setters grants) := by
  rw [scopes_handleProcess hP, Turn.slice]
  show _ = (scopes s (scopeOf p.pid)).or (sliceOfRequest grants p.pid _)
  cases (handleProcess P.setters config rule p s).request P.setters with
  | none => exact Option.or_none.symm
  | some request => exact placed_self request.1

/-- The slice of another process. -/
theorem slice_handleProcess_of_ne (hP : P.KeepsScopes exits scopes grants) (rule : Json)
    {p : Process} {pid : Pid} (hne : pid ≠ p.pid) (s : σ) :
    scopes (handleProcess P.setters config rule p s).after (scopeOf pid) =
      scopes s (scopeOf pid) := by
  rw [scopes_handleProcess hP]
  cases (handleProcess P.setters config rule p s).request P.setters with
  | none => rfl
  | some request => exact placed_of_ne hne request.1

/-! ### A run -/

/-- A step that handles a process makes a turn for it. -/
theorem exists_turn_of_step {w w' : Worker σ} {p : Process}
    (h : Life.step P.setters rules config exits w (.handle p) = some w') :
    ∃ rule turn, turn = handleProcess P.setters config rule p w.env ∧
      w' = ⟨w.processedCount + 1, turn.after, w.turns ++ [turn]⟩ := by
  rw [Life.step, takeProcess] at h
  cases hrule : rules.getRule p.name with
  | error e =>
    rw [hrule] at h
    cases h
  | ok rule =>
    rw [hrule] at h
    exact ⟨rule, _, rfl, (Option.some.inj h).symm⟩

end Turns

/-- The reference platform with a bus that keeps the scopes, and is ready from the second request
on. -/
def scopesPlatform (tasks : Pid → List Pid) :
    Platform (Attributes × (String → Option String) × Bool) where
  syscall call s :=
    let result := (Platform.reference tasks).syscall call s.1
    (result.1, result.2, s.2)
  taskDir pid s := (Platform.reference tasks).taskDir pid s.1
  opensOomScoreAdj pid s := (Platform.reference tasks).opensOomScoreAdj pid s.1
  schedGetattr pid s := (Platform.reference tasks).schedGetattr pid s.1
  defaultSystem s := (0, s)
  callMethod
    | .startTransientUnit scope _ _ slice => fun (a, scopes, ready) =>
        if ready ∧ scopes scope = none then
          (0, a, Function.update scopes scope (some slice), true)
        else (-17, a, scopes, true)
    | .setUnitProperties .. => fun s => (0, s)

/-- The scope of a process is gone. -/
def sampleExits (pid : Pid) (s : Attributes × (String → Option String) × Bool) :
    Attributes × (String → Option String) × Bool :=
  (s.1, Function.update s.2.1 (scopeOf pid) none, s.2.2)

theorem keepsScopes_scopesPlatform (tasks : Pid → List Pid) :
    (scopesPlatform tasks).KeepsScopes sampleExits (fun s => s.2.1) (fun _ s => s.2.2) where
  starting pid cgroupName s := by
    obtain ⟨a, scopes, ready⟩ := s
    have hconnected : ¬(0 : Int32) < 0 := by decide
    by_cases hstarts : ready ∧ scopes (scopeOf pid) = none
    · rw [placed, if_pos hstarts]
      rw [scopeOf] at hstarts
      simp only [addPidToCgroup, send, scopesPlatform, scopeRequest, hconnected, if_false,
        if_pos hstarts]
      rfl
    · rw [placed, if_neg hstarts]
      rw [scopeOf] at hstarts
      simp only [addPidToCgroup, send, scopesPlatform, scopeRequest, hconnected, if_false,
        if_neg hstarts]
      split_ifs <;> rfl
  syscall _ _ := rfl
  exiting _ _ := rfl

end Worker

end AnanicyCpp
