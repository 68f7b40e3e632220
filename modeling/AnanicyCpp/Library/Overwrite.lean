import Mathlib.Data.List.Basic
import Mathlib.Data.List.Destutter

/-!
# Overwriting

A program that sets attributes gives some keys new values and leaves the others. Carried out one
after the other, such changes are one change of the same kind, in which the last value of each key
counts. When each change belongs to an owner and changes of different owners have no key in common,
a list of changes may therefore be reordered between the owners, and repetitions in the changes of
one owner may be dropped (`Overwrite.all_map_congr`).

## Main definitions

* `Overwrite`, `Overwrite.apply` : new values for some keys, and what they do to the values of all.
* `Overwrite.andThen`, `Overwrite.all` : one change after the other.
* `Overwrite.without` : a change that leaves one key alone.

## Main results

* `Overwrite.apply_all` : a list of changes is one change.
* `Overwrite.all_map_apply`, `Overwrite.all_map_eq_some_of_behind` : the last value of each key.
* `Overwrite.all_map_congr` : lists of changes that come to the same.
-/

/-- New values for some keys. -/
def Overwrite {κ : Type*} (V : κ → Type*) := ∀ k, Option (V k)

namespace Overwrite

variable {κ α γ : Type*} {V : κ → Type*}

/-- Give the keys their new values. -/
def apply (o : Overwrite V) (a : ∀ k, V k) : ∀ k, V k := fun k => (o k).getD (a k)

/-- No key is changed. -/
def keep : Overwrite V := fun _ => none

/-- One change after the other. -/
def andThen (o o' : Overwrite V) : Overwrite V := fun k => (o' k).or (o k)

/-- A list of changes. -/
def all (os : List (Overwrite V)) : Overwrite V := os.foldl andThen keep

/-- The change without its value for one key. -/
def without [DecidableEq κ] (o : Overwrite V) (k : κ) : Overwrite V :=
  fun k' => if k' = k then none else o k'

@[simp]
theorem apply_keep (a : ∀ k, V k) : keep.apply a = a := rfl

theorem apply_andThen (o o' : Overwrite V) (a : ∀ k, V k) :
    (o.andThen o').apply a = o'.apply (o.apply a) := by
  funext k
  simp only [apply, andThen]
  cases o' k with
  | none => rfl
  | some v => rfl

theorem andThen_assoc (o o' o'' : Overwrite V) :
    (o.andThen o').andThen o'' = o.andThen (o'.andThen o'') := by
  funext k
  exact (Option.or_assoc ..).symm

theorem apply_without_self [DecidableEq κ] (o : Overwrite V) (k : κ) (a : ∀ k, V k) :
    (o.without k).apply a k = a k := by
  rw [apply, without, if_pos rfl, Option.getD_none]

theorem apply_without_of_ne [DecidableEq κ] (o : Overwrite V) {k k' : κ} (h : k' ≠ k)
    (a : ∀ k, V k) : (o.without k).apply a k' = o.apply a k' := by
  rw [apply, apply, without, if_neg h]

/-- The value that a change gives a key depends on the old value of that key only. -/
theorem apply_congr (o : Overwrite V) {k : κ} {a b : ∀ k, V k} (h : a k = b k) :
    o.apply a k = o.apply b k := by
  rw [apply, apply, h]

@[simp]
theorem all_nil : all ([] : List (Overwrite V)) = keep := rfl

theorem all_concat (os : List (Overwrite V)) (o : Overwrite V) :
    all (os ++ [o]) = (all os).andThen o := List.foldl_concat ..

/-- A list of changes is one change. -/
theorem apply_all (os : List (Overwrite V)) (a : ∀ k, V k) :
    (all os).apply a = os.foldl (fun a o => o.apply a) a := by
  induction os using List.reverseRecOn with
  | nil => rfl
  | append_singleton os o ih => rw [all_concat, apply_andThen, ih, List.foldl_concat]

/-- A key that no change names keeps its value. -/
theorem all_eq_none {os : List (Overwrite V)} {k : κ} (h : ∀ o ∈ os, o k = none) :
    all os k = none := by
  induction os using List.reverseRecOn with
  | nil => rfl
  | append_singleton os o ih =>
    have ho : o k = none := h o (List.mem_append_right os List.mem_cons_self)
    rw [all_concat, andThen, ho, Option.none_or]
    exact ih fun o' ho' => h o' (List.mem_append_left _ ho')

/-- Changes that may be missing. -/
theorem all_map_filterMap {β : Type*} (f : α → Option β) (g : β → Overwrite V) (xs : List α) :
    all ((xs.filterMap f).map g) = all (xs.map fun x => (f x).elim keep g) := by
  induction xs using List.reverseRecOn with
  | nil => rfl
  | append_singleton xs x ih =>
    rw [List.filterMap_append, List.map_append, List.map_append, List.map_singleton, all_concat,
      ← ih]
    cases hx : f x with
    | none =>
      rw [List.filterMap_cons_none hx, List.filterMap_nil, List.map_nil, List.append_nil]
      rfl
    | some y =>
      rw [List.filterMap_cons_some hx, List.filterMap_nil, List.map_singleton, all_concat]
      rfl

/-! ### The last value -/

theorem getLast?_filterMap_cons {β : Type*} (f : α → Option β) (x : α) (xs : List α) :
    ((x :: xs).filterMap f).getLast? = (xs.filterMap f).getLast?.or (f x) := by
  cases h : f x with
  | none => rw [List.filterMap_cons_none h, Option.or_none]
  | some v =>
    rw [List.filterMap_cons_some h, List.getLast?_cons]
    cases (xs.filterMap f).getLast? with
    | none => rfl
    | some w => rfl

theorem getLast?_filterMap_concat {β : Type*} (f : α → Option β) (xs : List α) (x : α) :
    ((xs ++ [x]).filterMap f).getLast? = (f x).or (xs.filterMap f).getLast? := by
  rw [List.filterMap_append]
  cases h : f x with
  | none => rw [List.filterMap_cons_none h, List.filterMap_nil, List.append_nil, Option.none_or]
  | some v => rw [List.filterMap_cons_some h, List.filterMap_nil, List.getLast?_concat,
      Option.some_or]

/-- The last change of a key counts. -/
theorem all_map_apply (f : α → Overwrite V) (xs : List α) (k : κ) :
    all (xs.map f) k = (xs.filterMap (f · k)).getLast? := by
  induction xs using List.reverseRecOn with
  | nil => rfl
  | append_singleton xs x ih =>
    rw [List.map_append, List.map_singleton, all_concat, getLast?_filterMap_concat, ← ih]
    rfl

/-- A value stays when no later change gives the key another one. -/
theorem all_map_eq_some_of_behind {f : α → Overwrite V} {before behind : List α} {x : α} {k : κ}
    {v : V k} (hx : f x k = some v) (hbehind : ∀ y ∈ behind, ∀ w, f y k = some w → w = v) :
    all ((before ++ x :: behind).map f) k = some v := by
  rw [all_map_apply]
  induction behind using List.reverseRecOn with
  | nil => rw [getLast?_filterMap_concat, hx, Option.some_or]
  | append_singleton behind y ih =>
    rw [← List.cons_append, ← List.append_assoc, getLast?_filterMap_concat]
    cases hy : f y k with
    | none =>
      rw [Option.none_or]
      exact ih fun z hz => hbehind z (List.mem_append_left _ hz)
    | some w =>
      have hw : w = v := hbehind y (List.mem_append_right _ List.mem_cons_self) w hy
      rw [Option.some_or, hw]

/-- A key that no change of the list names. -/
theorem all_map_eq_none_iff {f : α → Overwrite V} {xs : List α} {k : κ} :
    all (xs.map f) k = none ↔ ∀ x ∈ xs, f x k = none := by
  rw [all_map_apply, List.getLast?_eq_none_iff, List.filterMap_eq_nil_iff]

/-- Changes that give a key the same value may be made in any order. -/
theorem all_map_perm_apply {f : α → Overwrite V} {xs ys : List α} (hperm : xs.Perm ys) {k : κ}
    (hsame : ∀ x ∈ xs, ∀ y ∈ xs, ∀ v w, f x k = some v → f y k = some w → v = w) :
    all (xs.map f) k = all (ys.map f) k := by
  rw [all_map_apply, all_map_apply]
  have hvalues : (xs.filterMap (f · k)).Perm (ys.filterMap (f · k)) := hperm.filterMap _
  have hmem {v : V k} (hv : v ∈ xs.filterMap (f · k)) : ∃ x ∈ xs, f x k = some v :=
    List.mem_filterMap.mp hv
  cases hlast : (xs.filterMap (f · k)).getLast? with
  | none =>
    rw [List.getLast?_eq_none_iff.mp hlast] at hvalues
    exact (List.getLast?_eq_none_iff.mpr hvalues.nil_eq.symm).symm
  | some v =>
    have hv : v ∈ xs.filterMap (f · k) := List.mem_of_getLast? hlast
    cases hlast' : (ys.filterMap (f · k)).getLast? with
    | none =>
      have hne : ys.filterMap (f · k) ≠ [] := List.ne_nil_of_mem (hvalues.mem_iff.mp hv)
      exact absurd (List.getLast?_eq_none_iff.mp hlast') hne
    | some w =>
      obtain ⟨x, hx, hxv⟩ := hmem hv
      obtain ⟨y, hy, hyw⟩ := hmem (hvalues.mem_iff.mpr (List.mem_of_getLast? hlast'))
      rw [hsame x hx y hy v w hxv hyw]

/-! ### Repetitions and owners -/

/-- Only the changes of its owner matter for a key. -/
theorem filterMap_filter_of_owner [DecidableEq γ] {f : α → Overwrite V} {cls : α → γ} {k : κ}
    {c : γ} {xs : List α} (h : ∀ x ∈ xs, f x k ≠ none → cls x = c) :
    (xs.filter (cls · = c)).filterMap (f · k) = xs.filterMap (f · k) := by
  rw [List.filterMap_filter]
  refine List.filterMap_congr fun x hx => ?_
  by_cases hc : cls x = c
  · simp [hc]
  · have hnone : f x k = none := by
      by_contra hne
      exact hc (h x hx hne)
    simp [hnone]

/-- A change that is repeated at once counts once. -/
theorem getLast?_filterMap_destutter [DecidableEq α] {β : Type*} (f : α → Option β) (xs : List α) :
    ((xs.destutter (· ≠ ·)).filterMap f).getLast? = (xs.filterMap f).getLast? := by
  cases xs with
  | nil => rfl
  | cons x xs =>
    rw [List.destutter_cons']
    induction xs generalizing x with
    | nil => rfl
    | cons y xs ih =>
      by_cases hxy : x ≠ y
      · rw [List.destutter'_cons_pos (h := hxy), getLast?_filterMap_cons, ih,
          ← getLast?_filterMap_cons]
      · obtain rfl : x = y := not_not.mp hxy
        rw [List.destutter'_cons_neg (h := hxy), ih, getLast?_filterMap_cons f x (x :: xs),
          getLast?_filterMap_cons, Option.or_assoc, Option.or_self]

/-- **Lists of changes that come to the same.** Let the changes of different owners have no key in
common. Two lists with the same changes of each owner in the same order, but for repetitions, come
to the same, however the owners alternate. -/
theorem all_map_congr [DecidableEq α] [DecidableEq γ] {f : α → Overwrite V} {cls : α → γ}
    {owner : κ → γ} {xs ys : List α} (hxs : ∀ x ∈ xs, ∀ k, f x k ≠ none → cls x = owner k)
    (hys : ∀ y ∈ ys, ∀ k, f y k ≠ none → cls y = owner k)
    (hsame : ∀ c, (xs.filter (cls · = c)).destutter (· ≠ ·) =
      (ys.filter (cls · = c)).destutter (· ≠ ·)) :
    all (xs.map f) = all (ys.map f) := by
  have hlast {zs : List α} (hzs : ∀ z ∈ zs, ∀ k, f z k ≠ none → cls z = owner k) (k : κ) :
      all (zs.map f) k =
        (((zs.filter (cls · = owner k)).destutter (· ≠ ·)).filterMap (f · k)).getLast? := by
    rw [getLast?_filterMap_destutter, filterMap_filter_of_owner fun z hz => hzs z hz k,
      all_map_apply]
  funext k
  rw [hlast hxs, hlast hys, hsame]

end Overwrite
