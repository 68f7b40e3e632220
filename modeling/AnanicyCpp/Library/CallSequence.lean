import AnanicyCpp.Library.Fallible
import Mathlib.Data.List.Basic
import Mathlib.Data.List.Infix

/-!
# Sequences of guarded calls

A list of steps is carried out in order. A step that is switched off is skipped. Otherwise its call
is computed, which may fail, and made on the current state; the call may fail too, and it returns
a Boolean that says whether to go on. A `false` stops the sequence and a failure of either kind
leaves it.

## Main definitions

* `CallSequence.Step`, `CallSequence.run` : a step, and the sequence.
* `CallSequence.Reached` : the calls that are made, with the states they are made in.
* `CallSequence.Admissible` : the sequences of calls that the steps allow.
* `CallSequence.behind` : the state behind some calls.

## Main results

* `CallSequence.admissible_calls_run`, `CallSequence.isPrefix_calls_run` : the calls of a run are
  the longest admissible sequence.
* `CallSequence.state_run` : a run leaves the state behind its calls.
* `CallSequence.reached_append_iff`, `CallSequence.run_append` : composition.
* `CallSequence.state_run_of_invariant` : what every call preserves, the run preserves.
* `CallSequence.run_simulation` : two runs whose calls answer alike.
-/

namespace CallSequence

variable {κ σ ε δ : Type*}

/-- A guarded call. -/
structure Step (κ ε : Type*) where
  enabled : Bool
  call : Except ε κ

/-- The call of a step that is on and whose call can be computed. -/
def Step.made (step : Step κ ε) : Option κ := if step.enabled then step.call.toOption else none

/-- How a sequence ends: at its end, at a `false`, or with a failure. -/
inductive Exit where
  | completed
  | stopped
  | failed
deriving DecidableEq

/-- The calls that were made, how the sequence ended, and the state it left. -/
structure Result (κ σ : Type*) where
  calls : List κ
  exit : Exit
  state : σ

/-- Carry out the steps; `exec` makes a call. -/
def run (exec : κ → σ → Except δ Bool × σ) : List (Step κ ε) → σ → Result κ σ
  | [], s => ⟨[], .completed, s⟩
  | step :: steps, s =>
    if step.enabled then
      match step.call with
      | .error _ => ⟨[], .failed, s⟩
      | .ok c =>
        match exec c s with
        | (.error _, s) => ⟨[c], .failed, s⟩
        | (.ok false, s) => ⟨[c], .stopped, s⟩
        | (.ok true, s) =>
          let rest := run exec steps s
          { rest with calls := c :: rest.calls }
    else run exec steps s

/-- The call `c` is made in the state `t` when the steps are carried out from `s`. -/
inductive Reached (exec : κ → σ → Except δ Bool × σ) : List (Step κ ε) → σ → κ → σ → Prop
  | skip {step : Step κ ε} {steps : List (Step κ ε)} {s t : σ} {c : κ}
      (hoff : step.enabled = false) (h : Reached exec steps s c t) :
      Reached exec (step :: steps) s c t
  | here {step : Step κ ε} {steps : List (Step κ ε)} {s : σ} {c : κ}
      (hon : step.enabled = true) (hc : step.call = .ok c) : Reached exec (step :: steps) s c s
  | later {step : Step κ ε} {steps : List (Step κ ε)} {s s' t : σ} {c c' : κ}
      (hon : step.enabled = true) (hc : step.call = .ok c') (hexec : exec c' s = (.ok true, s'))
      (h : Reached exec steps s' c t) : Reached exec (step :: steps) s c t

/-- The calls `cs` start the list of steps, every field up to the last call converts, and every
call but the last returns `true`. -/
inductive Admissible (exec : κ → σ → Except δ Bool × σ) : List (Step κ ε) → σ → List κ → Prop
  | nil (steps : List (Step κ ε)) (s : σ) : Admissible exec steps s []
  | last {step : Step κ ε} (steps : List (Step κ ε)) (s : σ) {c : κ} (hc : step.call = .ok c) :
      Admissible exec (step :: steps) s [c]
  | cons {step : Step κ ε} {steps : List (Step κ ε)} {s s' : σ} {c : κ} {cs : List κ}
      (hc : step.call = .ok c) (hexec : exec c s = (.ok true, s'))
      (h : Admissible exec steps s' cs) : Admissible exec (step :: steps) s (c :: cs)

/-- The state behind some calls, whatever they returned. -/
def behind (exec : κ → σ → Except δ Bool × σ) (s : σ) (cs : List κ) : σ :=
  cs.foldl (fun s c => (exec c s).2) s

variable {exec : κ → σ → Except δ Bool × σ}

@[simp]
theorem not_reached_nil {s t : σ} {c : κ} : ¬Reached exec ([] : List (Step κ ε)) s c t :=
  fun h => nomatch h

theorem reached_cons_iff {step : Step κ ε} {steps : List (Step κ ε)} {s t : σ} {c : κ} :
    Reached exec (step :: steps) s c t ↔
      (step.enabled = false ∧ Reached exec steps s c t) ∨
      step.enabled = true ∧ (step.call = .ok c ∧ t = s ∨
        ∃ c' s', step.call = .ok c' ∧ exec c' s = (.ok true, s') ∧ Reached exec steps s' c t) := by
  constructor
  · rintro (⟨hoff, h⟩ | ⟨hon, hc⟩ | ⟨hon, hc, hexec, h⟩)
    · exact Or.inl ⟨hoff, h⟩
    · exact Or.inr ⟨hon, Or.inl ⟨hc, rfl⟩⟩
    · exact Or.inr ⟨hon, Or.inr ⟨_, _, hc, hexec, h⟩⟩
  · rintro (⟨hoff, h⟩ | ⟨hon, ⟨hc, rfl⟩ | ⟨c', s', hc, hexec, h⟩⟩)
    · exact .skip hoff h
    · exact .here hon hc
    · exact .later hon hc hexec h

theorem reached_cons_of_true {step : Step κ ε} {steps : List (Step κ ε)} {s s' t : σ} {c c' : κ}
    (hon : step.enabled = true) (hc : step.call = .ok c') (hexec : exec c' s = (.ok true, s')) :
    Reached exec (step :: steps) s c t ↔ (c' = c ∧ t = s) ∨ Reached exec steps s' c t := by
  simp [reached_cons_iff, hon, hc, hexec]

theorem reached_cons_of_ne_true {step : Step κ ε} {steps : List (Step κ ε)} {s t : σ} {c c' : κ}
    (hon : step.enabled = true) (hc : step.call = .ok c') (hexec : (exec c' s).1 ≠ .ok true) :
    Reached exec (step :: steps) s c t ↔ c' = c ∧ t = s := by
  have hnot : ∀ s', exec c' s ≠ (.ok true, s') := fun s' h => hexec (congrArg Prod.fst h)
  simp [reached_cons_iff, hon, hc, hnot]

/-- Steps that are all switched off do nothing. -/
theorem run_of_off {steps : List (Step κ ε)} (hoff : ∀ step ∈ steps, step.enabled = false) (s : σ) :
    run exec steps s = ⟨[], .completed, s⟩ := by
  induction steps with
  | nil => rfl
  | cons step steps ih =>
    rw [run, hoff step List.mem_cons_self, if_neg Bool.false_ne_true]
    exact ih fun st hst => hoff st (List.mem_cons_of_mem _ hst)

/-! ### The calls of a run -/

/-- The calls of a run are those that are reached. -/
theorem mem_calls_run_iff {steps : List (Step κ ε)} {s : σ} {c : κ} :
    c ∈ (run exec steps s).calls ↔ ∃ t, Reached exec steps s c t := by
  fun_induction run exec steps s with
  | case1 s => simp
  | case2 step steps s hon e he => simp [reached_cons_iff, hon, he]
  | case3 step steps s hon c' hc e s' hexec =>
    simp [reached_cons_of_ne_true hon hc, hexec, eq_comm]
  | case4 step steps s hon c' hc s' hexec =>
    simp [reached_cons_of_ne_true hon hc, hexec, eq_comm]
  | case5 step steps s hon c' hc s' hexec rest ih =>
    have hcall : c ∈ c' :: rest.calls ↔ c = c' ∨ ∃ t, Reached exec steps s' c t := by
      rw [List.mem_cons, ih]
    simp [hcall, reached_cons_of_true hon hc hexec, exists_or, eq_comm]
  | case6 step steps s hoff ih =>
    rw [Bool.not_eq_true] at hoff
    simp [reached_cons_iff, hoff, ih]

/-- A run is stopped by a call that returns `false`. -/
theorem exit_run_eq_stopped_iff {steps : List (Step κ ε)} {s : σ} :
    (run exec steps s).exit = .stopped ↔
      ∃ c t, Reached exec steps s c t ∧ (exec c t).1 = .ok false := by
  fun_induction run exec steps s with
  | case1 s => simp
  | case2 step steps s hon e he => simp [reached_cons_iff, hon, he]
  | case3 step steps s hon c' hc e s' hexec => simp [reached_cons_of_ne_true hon hc, hexec]
  | case4 step steps s hon c' hc s' hexec => simp [reached_cons_of_ne_true hon hc, hexec]
  | case5 step steps s hon c' hc s' hexec rest ih =>
    have hgo : (exec c' s).1 ≠ .ok false := by simp [hexec]
    show (run exec steps s').exit = .stopped ↔ _
    rw [ih]
    simp only [reached_cons_of_true hon hc hexec]
    constructor
    · rintro ⟨c, t, h, hstop⟩
      exact ⟨c, t, Or.inr h, hstop⟩
    · rintro ⟨c, t, ⟨rfl, rfl⟩ | h, hstop⟩
      · exact absurd hstop hgo
      · exact ⟨c, t, h, hstop⟩
  | case6 step steps s hoff ih =>
    rw [Bool.not_eq_true] at hoff
    simp [reached_cons_iff, hoff, ih]

theorem behind_append (s : σ) (cs cs' : List κ) :
    behind exec s (cs ++ cs') = behind exec (behind exec s cs) cs' := List.foldl_append

/-- A run leaves the state behind its calls. -/
theorem state_run (steps : List (Step κ ε)) (s : σ) :
    (run exec steps s).state = behind exec s (run exec steps s).calls := by
  fun_induction run exec steps s with
  | case1 s => rfl
  | case2 step steps s hon e he => rfl
  | case3 step steps s hon c hc e s' hexec => simp [behind, hexec]
  | case4 step steps s hon c hc s' hexec => simp [behind, hexec]
  | case5 step steps s hon c hc s' hexec rest ih =>
    rw [behind, List.foldl_cons, hexec]
    exact ih
  | case6 step steps s hoff ih => exact ih

/-! ### The longest admissible sequence -/

theorem run_filter_enabled (steps : List (Step κ ε)) (s : σ) :
    run exec (steps.filter (·.enabled)) s = run exec steps s := by
  fun_induction run exec steps s with
  | case1 s => rfl
  | case2 step steps s hon e he => simp [run, hon, he]
  | case3 step steps s hon c' hc e s' hexec => simp [run, hon, hc, hexec]
  | case4 step steps s hon c' hc s' hexec => simp [run, hon, hc, hexec]
  | case5 step steps s hon c' hc s' hexec rest ih => simp [run, hon, hc, hexec, ih, rest]
  | case6 step steps s hoff ih => simpa [hoff] using ih

/-- The calls of a run are admissible. -/
theorem admissible_calls_run (steps : List (Step κ ε)) (s : σ) :
    Admissible exec (steps.filter (·.enabled)) s (run exec steps s).calls := by
  fun_induction run exec steps s with
  | case1 s => exact .nil ..
  | case2 step steps s hon e he => exact .nil ..
  | case3 step steps s hon c' hc e s' hexec => simpa [hon] using .last _ _ hc
  | case4 step steps s hon c' hc s' hexec => simpa [hon] using .last _ _ hc
  | case5 step steps s hon c' hc s' hexec rest ih => simpa [hon] using .cons hc hexec ih
  | case6 step steps s hoff ih => simpa [hoff] using ih

theorem isPrefix_calls_run_of_enabled {steps : List (Step κ ε)} {s : σ} {cs : List κ}
    (h : Admissible exec steps s cs) (hon : ∀ step ∈ steps, step.enabled = true) :
    cs <+: (run exec steps s).calls := by
  induction h with
  | nil steps s => exact List.nil_prefix
  | @last step rest s c hc =>
    have hstep := hon step List.mem_cons_self
    obtain ⟨r, s', hexec⟩ : ∃ r s', exec c s = (r, s') := ⟨_, _, rfl⟩
    rcases r with e | _ | _ <;> simp [run, hstep, hc, hexec]
  | @cons step rest s s' c cs hc hexec h ih =>
    have hstep := hon step List.mem_cons_self
    have htail := ih fun st hst => hon st (List.mem_cons_of_mem _ hst)
    simpa [run, hstep, hc, hexec] using htail

/-- Every admissible sequence of calls is a prefix of the calls of the run. -/
theorem isPrefix_calls_run {steps : List (Step κ ε)} {s : σ} {cs : List κ}
    (h : Admissible exec (steps.filter (·.enabled)) s cs) : cs <+: (run exec steps s).calls := by
  rw [← run_filter_enabled]
  exact isPrefix_calls_run_of_enabled h fun step hstep => (List.mem_filter.mp hstep).2

/-! ### Composition and invariants -/

/-- A run of two lists of steps is a run of the first, followed by one of the second when the
first is completed. -/
theorem run_append (steps steps' : List (Step κ ε)) (s : σ) :
    run exec (steps ++ steps') s =
      if (run exec steps s).exit = .completed then
        { run exec steps' (run exec steps s).state with
          calls := (run exec steps s).calls ++ (run exec steps' (run exec steps s).state).calls }
      else run exec steps s := by
  fun_induction run exec steps s with
  | case1 s => rfl
  | case2 step steps s hon e he => simp [run, hon, he]
  | case3 step steps s hon c' hc e s' hexec => simp [run, hon, hc, hexec]
  | case4 step steps s hon c' hc s' hexec => simp [run, hon, hc, hexec]
  | case5 step steps s hon c' hc s' hexec rest ih =>
    rw [List.cons_append, run, if_pos hon, hc]
    simp only [hexec, ih, rest]
    split_ifs <;> rfl
  | case6 step steps s hoff ih => simpa [run, hoff] using ih

theorem reached_append_iff {steps steps' : List (Step κ ε)} {s t : σ} {c : κ} :
    Reached exec (steps ++ steps') s c t ↔
      Reached exec steps s c t ∨ (run exec steps s).exit = .completed ∧
        Reached exec steps' (run exec steps s).state c t := by
  fun_induction run exec steps s with
  | case1 s => simp
  | case2 step steps s hon e he => simp [reached_cons_iff, hon, he]
  | case3 step steps s hon c' hc e s' hexec => simp [reached_cons_of_ne_true hon hc, hexec]
  | case4 step steps s hon c' hc s' hexec => simp [reached_cons_of_ne_true hon hc, hexec]
  | case5 step steps s hon c' hc s' hexec rest ih =>
    rw [List.cons_append, reached_cons_of_true hon hc hexec, reached_cons_of_true hon hc hexec, ih,
      or_assoc]
  | case6 step steps s hoff ih =>
    rw [Bool.not_eq_true] at hoff
    simp [reached_cons_iff, hoff, ih]

/-- What every call that is reached preserves, the run preserves. -/
theorem state_run_of_invariant (Inv : σ → Prop) {steps : List (Step κ ε)} {s : σ} (hs : Inv s)
    (hstep : ∀ c t, Reached exec steps s c t → Inv t → Inv (exec c t).2) :
    Inv (run exec steps s).state := by
  fun_induction run exec steps s with
  | case1 s => exact hs
  | case2 step steps s hon e he => exact hs
  | case3 step steps s hon c' hc e s' hexec => simpa [hexec] using hstep c' s (.here hon hc) hs
  | case4 step steps s hon c' hc s' hexec => simpa [hexec] using hstep c' s (.here hon hc) hs
  | case5 step steps s hon c' hc s' hexec rest ih =>
    have hs' : Inv s' := by simpa [hexec] using hstep c' s (.here hon hc) hs
    exact ih hs' fun c t h => hstep c t (.later hon hc hexec h)
  | case6 step steps s hoff ih =>
    exact ih hs fun c t h => hstep c t (.skip (Bool.not_eq_true _ ▸ hoff) h)

/-- A reached call belongs to a step that is switched on, and the fields of the steps in front of
it convert. -/
theorem exists_split_of_reached {steps : List (Step κ ε)} {s t : σ} {c : κ}
    (h : Reached exec steps s c t) :
    ∃ before step after, steps = before ++ step :: after ∧ step.enabled = true ∧
      step.call = .ok c ∧ ∀ st ∈ before, st.enabled = true → st.call.isOk = true := by
  induction h with
  | @skip step steps s t c hoff _ ih =>
    obtain ⟨before, step', after, rfl, hon, hc, hbefore⟩ := ih
    refine ⟨step :: before, step', after, rfl, hon, hc, ?_⟩
    rintro st (_ | ⟨_, hst⟩) hon'
    · exact absurd hon' (by simp [hoff])
    · exact hbefore st hst hon'
  | @here step steps s c hon hc => exact ⟨[], step, steps, rfl, hon, hc, by simp⟩
  | @later step steps s s' t c c' hon hc hexec _ ih =>
    obtain ⟨before, step', after, rfl, hon', hc', hbefore⟩ := ih
    refine ⟨step :: before, step', after, rfl, hon', hc', ?_⟩
    rintro st (_ | ⟨_, hst⟩) hst'
    · rw [hc]; rfl
    · exact hbefore st hst hst'

/-- What holds of the calls of all steps holds of every reached call. -/
theorem forall_of_reached {Q : κ → Prop} {steps : List (Step κ ε)} {s t : σ} {c : κ}
    (hsteps : ∀ st ∈ steps, ∀ c, st.call = .ok c → Q c) (h : Reached exec steps s c t) : Q c := by
  obtain ⟨before, step, after, rfl, -, hc, -⟩ := exists_split_of_reached h
  exact hsteps step (by simp) c hc

/-- An observation that the calls of the steps leave alone, the run leaves alone. -/
theorem observe_run_of_frame {ρ : Type*} (f : σ → ρ) {steps : List (Step κ ε)}
    (hsteps : ∀ st ∈ steps, ∀ c, st.call = .ok c → ∀ t, f (exec c t).2 = f t) (s : σ) :
    f (run exec steps s).state = f s := by
  refine state_run_of_invariant (fun t => f t = f s) rfl fun c t h ht => ?_
  have hframe : ∀ t, f (exec c t).2 = f t := forall_of_reached hsteps h
  exact (hframe t).trans ht

/-- A run is completed when all fields convert and all calls return `true`. -/
theorem exit_run_eq_completed {steps : List (Step κ ε)}
    (hok : ∀ st ∈ steps, st.enabled = true → st.call.isOk = true)
    (htrue : ∀ st ∈ steps, ∀ c, st.call = .ok c → ∀ t, (exec c t).1 = .ok true) (s : σ) :
    (run exec steps s).exit = .completed := by
  fun_induction run exec steps s with
  | case1 s => rfl
  | case2 step steps s hon e he =>
    have h := hok step List.mem_cons_self hon
    simp [he] at h
  | case3 step steps s hon c' hc e s' hexec =>
    have h := htrue step List.mem_cons_self c' hc s
    simp [hexec] at h
  | case4 step steps s hon c' hc s' hexec =>
    have h := htrue step List.mem_cons_self c' hc s
    simp [hexec] at h
  | case5 step steps s hon c' hc s' hexec rest ih =>
    exact ih (fun st hst => hok st (List.mem_cons_of_mem _ hst))
      fun st hst => htrue st (List.mem_cons_of_mem _ hst)
  | case6 step steps s hoff ih =>
    exact ih (fun st hst => hok st (List.mem_cons_of_mem _ hst))
      fun st hst => htrue st (List.mem_cons_of_mem _ hst)

theorem made_eq_some_iff {step : Step κ ε} {c : κ} :
    step.made = some c ↔ step.enabled = true ∧ step.call = .ok c := by
  obtain ⟨enabled, call⟩ := step
  cases enabled <;> cases call <;> simp [Step.made, Except.toOption]

/-- When all fields convert and all calls return `true`, all calls are made. -/
theorem state_run_eq_foldl {steps : List (Step κ ε)}
    (h : ∀ st ∈ steps, st.enabled = true → ∃ c, st.call = .ok c ∧ ∀ t, (exec c t).1 = .ok true)
    (s : σ) : (run exec steps s).state =
      (steps.filterMap Step.made).foldl (fun t c => (exec c t).2) s := by
  induction steps generalizing s with
  | nil => rfl
  | cons step steps ih =>
    have htail := ih fun st hst => h st (List.mem_cons_of_mem step hst)
    cases hon : step.enabled with
    | false =>
      have hmade : step.made = none := by rw [Step.made, hon, if_neg Bool.false_ne_true]
      rw [List.filterMap_cons_none hmade, ← htail, run, hon, if_neg Bool.false_ne_true]
    | true =>
      obtain ⟨c, hc, htrue⟩ := h step List.mem_cons_self hon
      have hmade : step.made = some c := by
        rw [Step.made, hon, hc]
        rfl
      obtain ⟨s', hexec⟩ : ∃ s', exec c s = (.ok true, s') := ⟨_, Prod.ext (htrue s) rfl⟩
      rw [List.filterMap_cons_some hmade, List.foldl_cons, ← htail, run, hon, if_pos rfl, hc]
      simp only [hexec]

/-- What a call that is made establishes and the later calls preserve, holds in the end. -/
theorem state_run_of_established (Q : σ → Prop) (before after : List (Step κ ε)) {step : Step κ ε}
    {c : κ} {s : σ} (hbefore : (run exec before s).exit = .completed) (hon : step.enabled = true)
    (hc : step.call = .ok c) (hQ : ∀ t, Q (exec c t).2)
    (hafter : ∀ st ∈ after, st.enabled = true → ∀ c', st.call = .ok c' →
      ∀ t, Q t → Q (exec c' t).2) :
    Q (run exec (before ++ step :: after) s).state := by
  have hkeeps : ∀ s', Q s' → Q (run exec after s').state := fun s' hs' => by
    refine state_run_of_invariant Q hs' fun c' t h => ?_
    obtain ⟨before', st, after', rfl, hon', hc', -⟩ := exists_split_of_reached h
    exact hafter st (by simp) hon' c' hc' t
  rw [run_append, if_pos hbefore]
  show Q (run exec (step :: after) _).state
  obtain ⟨r, s', hexec⟩ : ∃ r s', exec c (run exec before s).state = (r, s') := ⟨_, _, rfl⟩
  have hQ' : Q s' := by simpa [hexec] using hQ (run exec before s).state
  rcases r with e | _ | _ <;> simp [run, hon, hc, hexec, hQ', hkeeps s' hQ']

/-- A call that only one step can make is reached in at most one state. -/
theorem reached_iff_of_only {before after : List (Step κ ε)} {step : Step κ ε} {s t : σ} {c : κ}
    (honly : ∀ st ∈ before ++ after, st.call ≠ .ok c) :
    Reached exec (before ++ step :: after) s c t ↔
      (run exec before s).exit = .completed ∧ step.enabled = true ∧ step.call = .ok c ∧
        t = (run exec before s).state := by
  have hnone : ∀ steps ⊆ before ++ after, ∀ s', ¬Reached exec steps s' c t := by
    intro steps hsub s' h
    have hne : c ≠ c := forall_of_reached (Q := (· ≠ c))
      (fun st hst c' hc' hcc => honly st (hsub hst) (hcc ▸ hc')) h
    exact hne rfl
  have hbefore := hnone before (List.subset_append_left before after) s
  have hafter := hnone after (List.subset_append_right before after)
  rw [reached_append_iff, reached_cons_iff]
  constructor
  · rintro (h | ⟨hcompleted, ⟨-, h⟩ | ⟨hon, ⟨hc, ht⟩ | ⟨c', s', -, -, h⟩⟩⟩)
    · exact absurd h hbefore
    · exact absurd h (hafter _)
    · exact ⟨hcompleted, hon, hc, ht⟩
    · exact absurd h (hafter s')
  · rintro ⟨hcompleted, hon, hc, ht⟩
    exact Or.inr ⟨hcompleted, Or.inr ⟨hon, Or.inl ⟨hc, ht⟩⟩⟩

/-- The state that the first step leaves, for an observation that the later steps leave alone. -/
theorem observe_run_cons {ρ : Type*} (f : σ → ρ) {step : Step κ ε} {steps : List (Step κ ε)}
    (hsteps : ∀ s, f (run exec steps s).state = f s) (s : σ) :
    f (run exec (step :: steps) s).state =
      if step.enabled then step.call.toOption.elim (f s) fun c => f (exec c s).2 else f s := by
  cases hon : step.enabled with
  | false => simp [run, hon, hsteps]
  | true =>
    cases hc : step.call with
    | error e => simp [run, hon, hc, Except.toOption]
    | ok c =>
      obtain ⟨r, s', hexec⟩ : ∃ r s', exec c s = (r, s') := ⟨_, _, rfl⟩
      rcases r with e | _ | _ <;> simp [run, hon, hc, hexec, hsteps, Except.toOption]

/-- An observation that the calls of one step only can change: the run leaves it as the call of
that step does, when it is reached, and as it was otherwise. -/
theorem observe_run_of_only {ρ : Type*} (f : σ → ρ) (writes : κ → Prop)
    (hframe : ∀ c t, ¬writes c → f (exec c t).2 = f t) {before after : List (Step κ ε)}
    (step : Step κ ε) (hothers : ∀ st ∈ before ++ after, ∀ c, st.call = .ok c → ¬writes c)
    (s : σ) :
    (∃ c t, writes c ∧ Reached exec (before ++ step :: after) s c t ∧ f t = f s ∧
      f (run exec (before ++ step :: after) s).state = f (exec c t).2) ∨
    (∀ c t, Reached exec (before ++ step :: after) s c t → ¬writes c) ∧
      f (run exec (before ++ step :: after) s).state = f s := by
  have hreads : ∀ steps ⊆ before ++ after, ∀ s' c t, Reached exec steps s' c t → ¬writes c :=
    fun steps hsub s' c t h =>
      forall_of_reached (Q := (¬writes ·)) (fun st hst => hothers st (hsub hst)) h
  have hkeeps : ∀ steps ⊆ before ++ after, ∀ s', f (run exec steps s').state = f s' :=
    fun steps hsub => observe_run_of_frame f fun st hst c hc t =>
      hframe c t (hothers st (hsub hst) c hc)
  have hbefore := hkeeps before (List.subset_append_left before after) s
  have hafter := hkeeps after (List.subset_append_right before after)
  have hreadsBefore := hreads before (List.subset_append_left before after) s
  have hreadsAfter := hreads after (List.subset_append_right before after)
  rw [run_append]
  simp only [reached_append_iff]
  split_ifs with hcompleted
  · have hfinal : f (run exec (step :: after) (run exec before s).state).state = _ :=
      observe_run_cons f hafter _
    by_cases hwrites : ∃ c, step.enabled = true ∧ step.call = .ok c ∧ writes c
    · obtain ⟨c, hon, hc, hwc⟩ := hwrites
      refine Or.inl ⟨c, _, hwc, Or.inr ⟨hcompleted, .here hon hc⟩, hbefore, ?_⟩
      simpa [hon, hc, Except.toOption] using hfinal
    · refine Or.inr ⟨?_, ?_⟩
      · rintro c t (h | ⟨-, h⟩) hwc
        · exact hreadsBefore c t h hwc
        · rcases reached_cons_iff.mp h with ⟨-, h⟩ | ⟨hon, ⟨hc, -⟩ | ⟨c', s', -, -, h⟩⟩
          · exact hreadsAfter _ c t h hwc
          · exact hwrites ⟨c, hon, hc, hwc⟩
          · exact hreadsAfter s' c t h hwc
      · rw [hfinal, hbefore]
        cases hon : step.enabled with
        | false => rfl
        | true =>
          cases hc : step.call with
          | error e => rfl
          | ok c => exact (hframe c _ fun hwc => hwrites ⟨c, hon, hc, hwc⟩).trans hbefore
  · refine Or.inr ⟨?_, hbefore⟩
    rintro c t (h | ⟨h, -⟩)
    · exact hreadsBefore c t h
    · exact absurd h hcompleted

/-! ### Simulation -/

/-- When the calls answer alike in related states and keep them related, two runs make the same
calls and end alike. -/
theorem run_simulation {τ : Type*} {exec' : κ → τ → Except δ Bool × τ} (R : σ → τ → Prop)
    {steps : List (Step κ ε)} (hexec : ∀ st ∈ steps, ∀ c, st.call = .ok c → ∀ s t, R s t →
      (exec c s).1 = (exec' c t).1 ∧ R (exec c s).2 (exec' c t).2) {s : σ} {t : τ} (hR : R s t) :
    (run exec steps s).calls = (run exec' steps t).calls ∧
      (run exec steps s).exit = (run exec' steps t).exit ∧
      R (run exec steps s).state (run exec' steps t).state := by
  induction steps generalizing s t with
  | nil => exact ⟨rfl, rfl, hR⟩
  | cons step steps ih =>
    have htail := fun st hst => hexec st (List.mem_cons_of_mem step hst)
    cases hon : step.enabled with
    | false =>
      simp only [run, hon, Bool.false_eq_true, if_false]
      exact ih htail hR
    | true =>
      cases hc : step.call with
      | error e =>
        simp only [run, hon, hc, if_true]
        exact ⟨trivial, trivial, hR⟩
      | ok c =>
        obtain ⟨hanswer, hstate⟩ := hexec step List.mem_cons_self c hc s t hR
        obtain ⟨r, s', hs⟩ : ∃ r s', exec c s = (r, s') := ⟨_, _, rfl⟩
        obtain ⟨r', t', ht⟩ : ∃ r' t', exec' c t = (r', t') := ⟨_, _, rfl⟩
        rw [hs, ht] at hanswer hstate
        obtain rfl : r = r' := hanswer
        rcases r with e | _ | _
        · simp only [run, hon, hc, hs, ht, if_true]
          exact ⟨trivial, trivial, hstate⟩
        · simp only [run, hon, hc, hs, ht, if_true]
          exact ⟨trivial, trivial, hstate⟩
        · obtain ⟨hcalls, hexit, hend⟩ := ih htail hstate
          simp only [run, hon, hc, hs, ht, if_true]
          exact ⟨congrArg (c :: ·) hcalls, hexit, hend⟩

end CallSequence
