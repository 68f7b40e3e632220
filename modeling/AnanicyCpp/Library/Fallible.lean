import Mathlib.Logic.Basic

/-!
# Computations that may fail

Rules for `Except`: how a sequence of steps succeeds, and when a loop over a list does. A step that
fails ends the sequence, so a sequence succeeds exactly when all of its steps do.

## Main results

* `Fallible.bind_eq_ok_iff`, `Fallible.isOk_bind_iff` : a step followed by another.
* `Fallible.guard_eq_ok_iff`, `Fallible.when_eq_ok_iff` : a guard that throws, and a step under a
  condition.
* `Fallible.isOk_foldlM_iff` : a loop whose failures do not depend on its accumulator.
-/

namespace Fallible

universe u v

variable {ε ε' : Type u} {α β γ : Type v}

@[simp]
theorem isOk_ok (a : α) : (Except.ok a : Except ε α).isOk = true := rfl

@[simp]
theorem isOk_error (e : ε) : (Except.error e : Except ε α).isOk = false := rfl

@[simp]
theorem isOk_pure (a : α) : (pure a : Except ε α).isOk = true := rfl

@[simp]
theorem ok_bind (a : α) (f : α → Except ε β) : (Except.ok a >>= f) = f a := rfl

@[simp]
theorem error_bind (e : ε) (f : α → Except ε β) :
    ((Except.error e : Except ε α) >>= f) = .error e := rfl

@[simp]
theorem isOk_map (f : α → β) (x : Except ε α) : (f <$> x).isOk = x.isOk := by
  cases x with
  | error e => rfl
  | ok a => rfl

theorem exists_eq_ok_of_isOk {x : Except ε α} (h : x.isOk = true) : ∃ a, x = .ok a := by
  cases x with
  | error e => exact absurd h Bool.false_ne_true
  | ok a => exact ⟨a, rfl⟩

theorem pure_eq_ok_iff {a b : α} : (pure a : Except ε α) = .ok b ↔ b = a := by
  rw [pure, Applicative.toPure, eq_comm]
  exact ⟨Except.ok.inj, congrArg _⟩

theorem throw_eq_ok_iff {e : ε} {a : α} : (throw e : Except ε α) = .ok a ↔ False :=
  iff_of_false nofun id

@[simp]
theorem throw_bind (e : ε) (f : α → Except ε β) :
    ((throw e : Except ε α) >>= f) = throw e := rfl

/-- A guard, with what follows it. -/
theorem guard_eq_ok_iff {p : Prop} [Decidable p] {e : ε} {x : Except ε α} {a : α} :
    (if p then throw e else x) = .ok a ↔ ¬p ∧ x = .ok a := by
  by_cases hp : p
  · simp [hp, throw_eq_ok_iff]
  · simp [hp]

theorem mapError_eq_ok_iff {x : Except ε α} {f : ε → ε'} {a : α} :
    x.mapError f = .ok a ↔ x = .ok a := by
  cases x with
  | error e => exact iff_of_false nofun nofun
  | ok b =>
    exact ⟨fun h => congrArg Except.ok (Except.ok.inj h),
      fun h => congrArg Except.ok (Except.ok.inj h)⟩

theorem map_eq_ok_iff {x : Except ε α} {f : α → β} {b : β} :
    x.map f = .ok b ↔ ∃ a, x = .ok a ∧ f a = b := by
  cases x with
  | error e => exact iff_of_false nofun fun h => nomatch h.choose_spec.1
  | ok a =>
    refine ⟨fun h => ⟨a, rfl, Except.ok.inj h⟩, fun ⟨_, ha, hb⟩ => ?_⟩
    rw [← hb, ← Except.ok.inj ha]
    rfl

theorem bind_eq_ok_iff {x : Except ε α} {f : α → Except ε β} {b : β} :
    (x >>= f) = .ok b ↔ ∃ a, x = .ok a ∧ f a = .ok b := by
  cases x with
  | error e => simp
  | ok a => simp

theorem unit_bind_eq_ok_iff {x : Except ε PUnit} {f : PUnit → Except ε α} {a : α} :
    (x >>= f) = .ok a ↔ x = .ok ⟨⟩ ∧ f ⟨⟩ = .ok a := by
  cases x with
  | error e => exact iff_of_false nofun fun h => nomatch h.1
  | ok u => exact (and_iff_right rfl).symm

/-- A step under a condition, with what follows it. -/
theorem when_eq_ok_iff {p : Prop} [Decidable p] {x : Except ε PUnit} {y : Except ε α} {a : α} :
    (if p then x >>= fun _ => y else y) = .ok a ↔ (p → x = .ok ⟨⟩) ∧ y = .ok a := by
  by_cases hp : p
  · rw [if_pos hp, unit_bind_eq_ok_iff, forall_prop_of_true hp]
  · rw [if_neg hp, and_iff_right fun h => absurd h hp]

theorem isOk_bind_iff {x : Except ε α} {f : α → Except ε β} :
    (x >>= f).isOk ↔ ∃ a, x = .ok a ∧ (f a).isOk := by
  cases x with
  | error e => simp
  | ok a => simp

/-- **A loop over a list.** When a step computes something from an element and stores it, the loop
succeeds exactly when the computation succeeds for every element. -/
theorem isOk_foldlM_iff (f : β → Except ε γ) (store : α → β → γ → α) (elements : List β)
    (start : α) :
    (elements.foldlM (fun a e => do let c ← f e; pure (store a e c)) start).isOk ↔
      ∀ e ∈ elements, (f e).isOk := by
  induction elements generalizing start with
  | nil => simp
  | cons e elements ih =>
    rw [List.foldlM_cons, List.forall_mem_cons, isOk_bind_iff]
    simp only [ih]
    constructor
    · rintro ⟨a, ha, hrest⟩
      obtain ⟨c, hc, -⟩ := bind_eq_ok_iff.mp ha
      exact ⟨hc ▸ rfl, hrest⟩
    · rintro ⟨hok, hrest⟩
      obtain ⟨c, hc⟩ := exists_eq_ok_of_isOk hok
      exact ⟨store start e c, by rw [hc]; rfl, hrest⟩

end Fallible
