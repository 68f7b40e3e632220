import Mathlib.Data.Nat.Notation
import Mathlib.Data.Option.Basic

/-!
# Runs of a partial step

A step function takes a state and an action to the next state, or to nothing when the action is not
possible in that state. The actions carry every choice that the system leaves open, so a run is
determined by the list of its actions; a list that comes to an action that is not possible stands
for the run up to there.

## Main definitions

* `Transition.run` : the state that a list of actions leads to.
* `Transition.Always` : a property of every state of a run.
* `Transition.EveryStep` : a property of every step of a run, with the state it is taken in.

## Main results

* `Transition.always_of_invariant`, `Transition.everyStep_of_invariant` : the rules of invariants,
  for runs whose steps meet a condition.
* `Transition.everyStep_of_always` : what the states of a run say about its steps.
* `Transition.run_invariant`, `Transition.run_established` : the rules for all runs.
* `Transition.run_log`, `Transition.run_measure` : the rules of a log that the steps write, and of a
  measure that they decrease.
* `Transition.run_append`, `Transition.everyStep_iff` : composition.
* `Transition.run_flatMap`, `Transition.exists_run` : simulation by another system.
-/

namespace Transition

variable {σ α : Type*} (step : σ → α → Option σ)

/-- The state after a list of actions. -/
def run : σ → List α → Option σ
  | s, [] => some s
  | s, a :: acts => (step s a).bind fun t => run t acts

/-- Every state of the run meets `P`. -/
def Always (P : σ → Prop) : σ → List α → Prop
  | s, [] => P s
  | s, a :: acts => P s ∧ ∀ t, step s a = some t → Always P t acts

/-- Every step of the run meets `C`, which speaks of the action and the state before it. -/
def EveryStep (C : σ → α → Prop) : σ → List α → Prop
  | _, [] => True
  | s, a :: acts => ∀ t, step s a = some t → C s a ∧ EveryStep C t acts

variable {step}

@[simp]
theorem run_nil (s : σ) : run step s [] = some s := rfl

theorem run_cons (s : σ) (a : α) (acts : List α) :
    run step s (a :: acts) = (step s a).bind fun t => run step t acts := rfl

theorem run_cons_eq_some_iff {s u : σ} {a : α} {acts : List α} :
    run step s (a :: acts) = some u ↔ ∃ t, step s a = some t ∧ run step t acts = some u := by
  rw [run_cons, Option.bind_eq_some_iff]

theorem run_append (s : σ) (before after : List α) :
    run step s (before ++ after) = (run step s before).bind fun t => run step t after := by
  induction before generalizing s with
  | nil => rfl
  | cons a before ih =>
    rw [List.cons_append, run_cons, run_cons, Option.bind_assoc]
    congr 1
    funext t
    exact ih t

theorem run_append_eq_some_iff {s u : σ} {before after : List α} :
    run step s (before ++ after) = some u ↔
      ∃ t, run step s before = some t ∧ run step t after = some u := by
  rw [run_append, Option.bind_eq_some_iff]

theorem run_append_cons_eq_some_iff {s u : σ} {before after : List α} {a : α} :
    run step s (before ++ a :: after) = some u ↔
      ∃ t t', run step s before = some t ∧ step t a = some t' ∧ run step t' after = some u := by
  simp only [run_append_eq_some_iff, run_cons_eq_some_iff, exists_and_left]

theorem EveryStep.cons {C : σ → α → Prop} {s t : σ} {a : α} {acts : List α}
    (hstep : step s a = some t) (ha : C s a) (h : EveryStep step C t acts) :
    EveryStep step C s (a :: acts) := by
  intro t' ht'
  obtain rfl : t = t' := Option.some.inj (hstep.symm.trans ht')
  exact ⟨ha, h⟩

/-- The steps of a run, each with the part of the run before it. -/
theorem everyStep_iff {C : σ → α → Prop} {s : σ} {acts : List α} :
    EveryStep step C s acts ↔ ∀ before a after t t', acts = before ++ a :: after →
      run step s before = some t → step t a = some t' → C t a := by
  induction acts generalizing s with
  | nil => simp [EveryStep]
  | cons b acts ih =>
    constructor
    · rintro h (_ | ⟨c, before⟩) a after t t' hacts hrun ha
      · obtain ⟨rfl, rfl⟩ := List.cons.inj hacts
        obtain rfl : s = t := Option.some.inj hrun
        exact (h t' ha).1
      · obtain ⟨rfl, rfl⟩ := List.cons.inj hacts
        obtain ⟨s', hs', hrest⟩ := run_cons_eq_some_iff.mp hrun
        exact ih.mp (h s' hs').2 before a after t t' rfl hrest ha
    · intro h s' hs'
      refine ⟨h [] b acts s s' rfl rfl hs', ih.mpr fun before a after t t' hacts hrun ha => ?_⟩
      exact h (b :: before) a after t t' (by rw [hacts, List.cons_append])
        (run_cons_eq_some_iff.mpr ⟨s', hs', hrun⟩) ha

theorem Always.head {P : σ → Prop} {s : σ} {acts : List α} (h : Always step P s acts) : P s := by
  cases acts with
  | nil => exact h
  | cons a acts => exact h.1

/-- What holds in every state of a run holds in its last one. -/
theorem Always.last {P : σ → Prop} {s t : σ} {acts : List α} (h : Always step P s acts)
    (hrun : run step s acts = some t) : P t := by
  induction acts generalizing s with
  | nil =>
    obtain rfl : s = t := Option.some.inj hrun
    exact h
  | cons a acts ih =>
    obtain ⟨s', hs', hrest⟩ := run_cons_eq_some_iff.mp hrun
    exact ih (h.2 s' hs') hrest

variable (Inv : σ → Prop) {P : σ → Prop} {C D : σ → α → Prop} {s : σ} {acts : List α}

/-- What every step preserves, a run preserves. -/
theorem run_invariant {t : σ} (hstep : ∀ s, ∀ a ∈ acts, ∀ t, Inv s → step s a = some t → Inv t)
    (hs : Inv s) (hrun : run step s acts = some t) : Inv t := by
  induction acts generalizing s with
  | nil =>
    obtain rfl : s = t := Option.some.inj hrun
    exact hs
  | cons a acts ih =>
    obtain ⟨s', hs', hrest⟩ := run_cons_eq_some_iff.mp hrun
    have hInv : Inv s' := hstep s a List.mem_cons_self s' hs hs'
    exact ih (fun s b hb => hstep s b (List.mem_cons_of_mem a hb)) hInv hrest

/-- What an action of the run establishes, and every step preserves, holds at the end. -/
theorem run_established (Inv' : σ → Prop) {a : α} {t : σ} (ha : a ∈ acts)
    (hstep : ∀ s, ∀ b ∈ acts, ∀ t, Inv s → step s b = some t → Inv t)
    (hestablishes : ∀ s t, Inv s → step s a = some t → Inv' t)
    (hstep' : ∀ s, ∀ b ∈ acts, ∀ t, Inv' s → step s b = some t → Inv' t)
    (hs : Inv s) (hrun : run step s acts = some t) : Inv' t := by
  obtain ⟨before, after, rfl⟩ := List.append_of_mem ha
  obtain ⟨u, v, hbefore, ha, hafter⟩ := run_append_cons_eq_some_iff.mp hrun
  have hu : Inv u :=
    run_invariant Inv (fun s b hb => hstep s b (List.mem_append_left _ hb)) hs hbefore
  refine run_invariant Inv' (fun s b hb => hstep' s b ?_) (hestablishes u v hu ha) hafter
  exact List.mem_append_right before (List.mem_cons_of_mem a hb)

/-- What every step appends to a log, a run appends in its order. -/
theorem run_log {β : Type*} (log : σ → List β) (emit : α → List β) {t : σ}
    (hstep : ∀ s a t, step s a = some t → log t = log s ++ emit a)
    (hrun : run step s acts = some t) : log t = log s ++ acts.flatMap emit := by
  induction acts generalizing s with
  | nil =>
    obtain rfl : s = t := Option.some.inj hrun
    rw [List.flatMap_nil, List.append_nil]
  | cons a acts ih =>
    obtain ⟨s', hs', hrest⟩ := run_cons_eq_some_iff.mp hrun
    rw [ih hrest, hstep s a s' hs', List.flatMap_cons, List.append_assoc]

/-- When every step decreases a measure, a run is no longer than the measure allows. -/
theorem run_measure (μ : σ → ℕ) {t : σ}
    (hstep : ∀ s, ∀ a ∈ acts, ∀ t, Inv s → step s a = some t → Inv t ∧ μ t < μ s) (hs : Inv s)
    (hrun : run step s acts = some t) : acts.length + μ t ≤ μ s := by
  induction acts generalizing s with
  | nil =>
    obtain rfl : s = t := Option.some.inj hrun
    exact Nat.le_of_eq (Nat.zero_add (μ s))
  | cons a acts ih =>
    obtain ⟨s', hs', hrest⟩ := run_cons_eq_some_iff.mp hrun
    obtain ⟨hInv, hμ⟩ := hstep s a List.mem_cons_self s' hs hs'
    have hacts : acts.length + μ t ≤ μ s' :=
      ih (fun s b hb => hstep s b (List.mem_cons_of_mem a hb)) hInv hrest
    rw [List.length_cons]
    omega

/-- **Invariants.** What holds at first and is preserved by every step that meets the condition,
holds in every state of a run whose steps meet it. -/
theorem always_of_invariant (hP : ∀ s, Inv s → P s)
    (hstep : ∀ s a t, Inv s → C s a → step s a = some t → Inv t) (hs : Inv s)
    (hC : EveryStep step C s acts) : Always step P s acts := by
  induction acts generalizing s with
  | nil => exact hP s hs
  | cons a acts ih =>
    refine ⟨hP s hs, fun t ht => ?_⟩
    obtain ⟨hCa, hCacts⟩ := hC t ht
    exact ih (hstep s a t hs hCa ht) hCacts

/-- A property of the steps, under an invariant that the condition keeps. -/
theorem everyStep_of_invariant (hstep : ∀ s a t, Inv s → C s a → step s a = some t → Inv t)
    (hD : ∀ s a t, Inv s → C s a → step s a = some t → D s a) (hs : Inv s)
    (hC : EveryStep step C s acts) : EveryStep step D s acts := by
  induction acts generalizing s with
  | nil => trivial
  | cons a acts ih =>
    intro t ht
    obtain ⟨hCa, hCacts⟩ := hC t ht
    exact ⟨hD s a t hs hCa ht, ih (hstep s a t hs hCa ht) hCacts⟩

/-- A condition on the steps that the states before and after each step decide. -/
theorem everyStep_of_always (hstep : ∀ s a t, Inv s → step s a = some t → Inv t)
    (hC : ∀ s a t, Inv s → P s → P t → step s a = some t → C s a) (hs : Inv s)
    (hP : Always step P s acts) : EveryStep step C s acts := by
  induction acts generalizing s with
  | nil => trivial
  | cons a acts ih =>
    intro t ht
    have hrest : Always step P t acts := hP.2 t ht
    exact ⟨hC s a t hs hP.1 hrest.head ht, ih (hstep s a t hs ht) hrest⟩

/-! ### Simulation -/

section Simulation

variable {τ β : Type*} {step' : τ → β → Option τ} (proj : σ → τ)

/-- When every step stands for a list of steps of another system, a run stands for the run with all
of them. -/
theorem run_flatMap (emit : α → List β) {t : σ}
    (hstep : ∀ s a t, step s a = some t → run step' (proj s) (emit a) = some (proj t))
    (hrun : run step s acts = some t) :
    run step' (proj s) (acts.flatMap emit) = some (proj t) := by
  induction acts generalizing s with
  | nil =>
    obtain rfl : s = t := Option.some.inj hrun
    rfl
  | cons a acts ih =>
    obtain ⟨s', hs', hrest⟩ := run_cons_eq_some_iff.mp hrun
    exact run_append_eq_some_iff.mpr ⟨proj s', hstep s a s' hs', ih hrest⟩

/-- When every step can be followed by another system, a run can. -/
theorem exists_run {t : σ}
    (hstep : ∀ s a t, step s a = some t → ∃ acts', run step' (proj s) acts' = some (proj t))
    (hrun : run step s acts = some t) : ∃ acts', run step' (proj s) acts' = some (proj t) := by
  induction acts generalizing s with
  | nil =>
    obtain rfl : s = t := Option.some.inj hrun
    exact ⟨[], rfl⟩
  | cons a acts ih =>
    obtain ⟨s', hs', hrest⟩ := run_cons_eq_some_iff.mp hrun
    obtain ⟨acts₁, h₁⟩ := hstep s a s' hs'
    obtain ⟨acts₂, h₂⟩ := ih hrest
    exact ⟨acts₁ ++ acts₂, run_append_eq_some_iff.mpr ⟨proj s', h₁, h₂⟩⟩

end Simulation

end Transition
