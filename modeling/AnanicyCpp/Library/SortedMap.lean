import Mathlib.Data.Finset.Card
import Mathlib.Data.List.Pairwise
import Mathlib.Data.List.Nodup
import Mathlib.Data.Finset.Dedup

/-!
# Finite maps as sorted association lists

A finite map from a linearly ordered type of keys is a list of entries in strictly increasing
key order. Two such lists with the same lookups are the same list, so equality of maps is
equality of data. The list operations come first, on unbundled lists, so that a recursive type
can store its members in one; `SortedMap` bundles a list with its order.

Repeated assignment is the only way the maps of a program grow. `SortedMap.insertMany` performs
a list of assignments in order, and its lookups are decided by the last assignment to each key
(`SortedMap.lookup_insertMany`).

## Main definitions

* `SortedAssoc.find`, `SortedAssoc.insert`, `SortedAssoc.erase` : the operations on lists.
* `SortedAssoc.Sorted` : strictly increasing keys.
* `SortedMap` : a list of entries with its order.
* `SortedMap.insertMany`, `lastAssigned` : repeated assignment and its last value.

## Main results

* `SortedAssoc.ext_find` : a sorted list is determined by its lookups.
* `SortedMap.lookup_insertMany` : the last assignment to a key wins.
* `SortedMap.size_eq_card_keys` : the number of entries is the number of keys.
-/

namespace SortedAssoc

variable {α β : Type*} [LinearOrder α]

/-- The value of the first entry with key `k`. -/
def find (k : α) (l : List (α × β)) : Option β :=
  l.lookup k

/-- Assign `v` to `k`, replacing an entry with that key and keeping the order of keys. -/
def insert (k : α) (v : β) : List (α × β) → List (α × β)
  | [] => [(k, v)]
  | e :: l =>
      if k < e.1 then (k, v) :: e :: l
      else if k = e.1 then (k, v) :: l
      else e :: insert k v l

/-- Remove every entry with key `k`. -/
def erase (k : α) (l : List (α × β)) : List (α × β) :=
  l.filter fun e => e.1 ≠ k

/-- The keys are strictly increasing. -/
def Sorted (l : List (α × β)) : Prop :=
  l.Pairwise fun e e' => e.1 < e'.1

instance (l : List (α × β)) : Decidable (Sorted l) :=
  inferInstanceAs (Decidable (l.Pairwise _))

@[simp] theorem find_nil (k : α) : find k ([] : List (α × β)) = none := rfl

theorem find_cons (k : α) (e : α × β) (l : List (α × β)) :
    find k (e :: l) = if k = e.1 then some e.2 else find k l := by
  rw [find, List.lookup_cons]
  split_ifs with h
  · rw [beq_iff_eq.mpr h]
  · rw [beq_eq_false_iff_ne.mpr h]
    rfl

@[simp] theorem find_cons_self (k : α) (v : β) (l : List (α × β)) :
    find k ((k, v) :: l) = some v := by
  simp [find_cons]

theorem find_cons_of_ne {k : α} {e : α × β} (h : k ≠ e.1) (l : List (α × β)) :
    find k (e :: l) = find k l := by
  simp [find_cons, h]

theorem find_eq_none_iff {k : α} {l : List (α × β)} : find k l = none ↔ ∀ e ∈ l, e.1 ≠ k := by
  rw [find, List.lookup_eq_none_iff]
  exact forall₂_congr fun e _ => by rw [bne_iff_ne, ne_comm]

theorem find_append (k : α) (l l' : List (α × β)) :
    find k (l ++ l') = (find k l).or (find k l') :=
  List.lookup_append

theorem mem_of_find_eq_some {k : α} {v : β} {l : List (α × β)} (h : find k l = some v) :
    (k, v) ∈ l := by
  induction l with
  | nil => simp at h
  | cons e l ih =>
      rw [find_cons] at h
      split_ifs at h with hk
      · obtain rfl := Option.some.inj h
        exact hk ▸ List.mem_cons_self
      · exact List.mem_cons_of_mem _ (ih h)

/-! ### Lookups after an assignment or a removal -/

@[simp] theorem find_insert_self (k : α) (v : β) (l : List (α × β)) :
    find k (insert k v l) = some v := by
  induction l with
  | nil => simp [insert]
  | cons e l ih =>
      simp only [insert]
      split_ifs with hlt heq
      · simp
      · simp
      · rw [find_cons_of_ne heq, ih]

theorem find_insert_of_ne {k k' : α} (h : k ≠ k') (v : β) (l : List (α × β)) :
    find k (insert k' v l) = find k l := by
  induction l with
  | nil => simp [insert, find_cons, h]
  | cons e l ih =>
      simp only [insert]
      split_ifs with hlt heq
      · rw [find_cons_of_ne h]
      · rw [find_cons_of_ne h, find_cons_of_ne (heq ▸ h)]
      · rw [find_cons, find_cons, ih]

theorem find_insert (k k' : α) (v : β) (l : List (α × β)) :
    find k (insert k' v l) = if k = k' then some v else find k l := by
  split_ifs with h
  · rw [h, find_insert_self]
  · exact find_insert_of_ne h v l

theorem find_erase (k k' : α) (l : List (α × β)) :
    find k (erase k' l) = if k = k' then none else find k l := by
  split_ifs with h
  · rw [find_eq_none_iff]
    intro e he
    simpa [h] using (List.mem_filter.mp he).2
  · induction l with
    | nil => simp [erase]
    | cons e l ih =>
        by_cases he : e.1 = k'
        · rw [find_cons_of_ne (he ▸ h)]
          simpa [erase, he] using ih
        · rw [find_cons, ← ih]
          simp [erase, he, find_cons]

/-! ### The order of keys -/

theorem mem_insert {k : α} {v : β} {e : α × β} {l : List (α × β)} (h : e ∈ insert k v l) :
    e = (k, v) ∨ e ∈ l := by
  induction l with
  | nil => simpa [insert] using h
  | cons e' l ih =>
      simp only [insert] at h
      split_ifs at h with hlt heq
      · simpa using h
      · rcases List.mem_cons.mp h with h | h
        · exact Or.inl h
        · exact Or.inr (List.mem_cons_of_mem _ h)
      · rcases List.mem_cons.mp h with h | h
        · exact Or.inr (h ▸ List.mem_cons_self)
        · exact (ih h).imp_right (List.mem_cons_of_mem _)

theorem Sorted.insert {l : List (α × β)} (h : Sorted l) (k : α) (v : β) :
    Sorted (insert k v l) := by
  induction l with
  | nil => exact List.pairwise_singleton _ _
  | cons e l ih =>
      obtain ⟨hhead, htail⟩ := List.pairwise_cons.mp h
      simp only [SortedAssoc.insert]
      split_ifs with hlt heq
      · refine List.pairwise_cons.mpr ⟨fun e' he' => ?_, h⟩
        rcases List.mem_cons.mp he' with rfl | he'
        · exact hlt
        · exact hlt.trans (hhead e' he')
      · exact List.pairwise_cons.mpr ⟨fun e' he' => heq ▸ hhead e' he', htail⟩
      · refine List.pairwise_cons.mpr ⟨fun e' he' => ?_, ih htail⟩
        rcases mem_insert he' with rfl | he'
        · exact lt_of_le_of_ne (not_lt.mp hlt) (Ne.symm heq)
        · exact hhead e' he'

theorem Sorted.erase {l : List (α × β)} (h : Sorted l) (k : α) : Sorted (erase k l) :=
  List.Pairwise.filter _ h

theorem Sorted.nodup_keys {l : List (α × β)} (h : Sorted l) : (l.map Prod.fst).Nodup :=
  List.pairwise_map.mpr (h.imp fun hlt => ne_of_lt hlt)

theorem Sorted.find_eq_some_iff {l : List (α × β)} (h : Sorted l) {k : α} {v : β} :
    find k l = some v ↔ (k, v) ∈ l := by
  refine ⟨mem_of_find_eq_some, fun hm => ?_⟩
  induction l with
  | nil => simp at hm
  | cons e l ih =>
      obtain ⟨hhead, htail⟩ := List.pairwise_cons.mp h
      rcases List.mem_cons.mp hm with rfl | hm
      · exact find_cons_self k v l
      · rw [find_cons_of_ne (ne_of_gt (hhead _ hm)), ih htail hm]

/-- **A sorted list is determined by its lookups.** -/
theorem ext_find {l l' : List (α × β)} (h : Sorted l) (h' : Sorted l')
    (hf : ∀ k, find k l = find k l') : l = l' := by
  have hperm : l.Perm l' := by
    refine (List.perm_ext_iff_of_nodup (List.Nodup.of_map _ h.nodup_keys)
      (List.Nodup.of_map _ h'.nodup_keys)).mpr fun e => ?_
    rw [← h.find_eq_some_iff (k := e.1) (v := e.2), ← h'.find_eq_some_iff, hf]
  exact hperm.eq_of_pairwise (fun _ _ _ _ hlt hgt => (lt_asymm hlt hgt).elim) h h'

end SortedAssoc

/-- The last value that a list of assignments gives to a key. -/
def lastAssigned {α β : Type*} [LinearOrder α] (k : α) (l : List (α × β)) : Option β :=
  SortedAssoc.find k l.reverse

@[simp] theorem lastAssigned_nil {α β : Type*} [LinearOrder α] (k : α) :
    lastAssigned k ([] : List (α × β)) = none := rfl

theorem lastAssigned_append {α β : Type*} [LinearOrder α] (k : α) (l l' : List (α × β)) :
    lastAssigned k (l ++ l') = (lastAssigned k l').or (lastAssigned k l) := by
  simp [lastAssigned, SortedAssoc.find_append]

theorem lastAssigned_singleton {α β : Type*} [LinearOrder α] (k k' : α) (v : β) :
    lastAssigned k [(k', v)] = if k = k' then some v else none := by
  simp [lastAssigned, SortedAssoc.find_cons]

theorem mem_of_lastAssigned {α β : Type*} [LinearOrder α] {k : α} {v : β} {l : List (α × β)}
    (h : lastAssigned k l = some v) : (k, v) ∈ l :=
  List.mem_reverse.mp (SortedAssoc.mem_of_find_eq_some h)

theorem isSome_lastAssigned_iff {α β : Type*} [LinearOrder α] {k : α} {l : List (α × β)} :
    (lastAssigned k l).isSome ↔ k ∈ l.map Prod.fst := by
  rw [← Option.ne_none_iff_isSome, ne_eq, lastAssigned, SortedAssoc.find_eq_none_iff]
  simp

theorem lastAssigned_cons {α β : Type*} [LinearOrder α] (k : α) (e : α × β) (l : List (α × β)) :
    lastAssigned k (e :: l) = (lastAssigned k l).or (if k = e.1 then some e.2 else none) := by
  rw [← List.singleton_append, lastAssigned_append, lastAssigned_singleton]

/-- The values go through a function. -/
theorem lastAssigned_map {α β γ : Type*} [LinearOrder α] (f : β → γ) (k : α) (l : List (α × β)) :
    lastAssigned k (l.map fun e => (e.1, f e.2)) = (lastAssigned k l).map f := by
  induction l with
  | nil => rfl
  | cons e l ih =>
      rw [List.map_cons, lastAssigned_cons, lastAssigned_cons, ih, Option.map_or]
      split_ifs <;> rfl

/-- Where no key is assigned twice, the last value of a key is its only one. -/
theorem lastAssigned_eq_some_iff {α β : Type*} [LinearOrder α] {k : α} {v : β}
    {l : List (α × β)} (h : (l.map Prod.fst).Nodup) : lastAssigned k l = some v ↔ (k, v) ∈ l := by
  refine ⟨mem_of_lastAssigned, fun hmem => ?_⟩
  induction l with
  | nil => simp at hmem
  | cons e l ih =>
      obtain ⟨hfresh, hnodup⟩ := List.nodup_cons.mp h
      rw [lastAssigned_cons]
      rcases List.mem_cons.mp hmem with rfl | hmem
      · have hnone : lastAssigned k l = none := by
          rw [← Option.not_isSome_iff_eq_none, isSome_lastAssigned_iff]
          exact hfresh
        simp [hnone]
      · rw [ih hnodup hmem, Option.some_or]

/-- Where no key is assigned twice, the order of the assignments does not matter. -/
theorem lastAssigned_perm {α β : Type*} [LinearOrder α] {l l' : List (α × β)}
    (h : (l.map Prod.fst).Nodup) (hperm : l.Perm l') (k : α) :
    lastAssigned k l = lastAssigned k l' := by
  have h' : (l'.map Prod.fst).Nodup := (hperm.map _).nodup_iff.mp h
  ext v
  rw [lastAssigned_eq_some_iff h, lastAssigned_eq_some_iff h', hperm.mem_iff]

/-- **The last assignment wins, for a state of which only lookups are known.** Where each step of a
fold succeeds, keeps the invariant and shows as at most one assignment, the fold shows as all of
them in order. -/
theorem exists_foldlM_of_assignment {σ ε κ β ι : Type*} [LinearOrder κ] {look : σ → κ → Option β}
    {step : σ → ε → Except ι σ} {assignment : ε → Option (κ × β)} {Inv : σ → Prop} {l : List ε}
    (hstep : ∀ s, Inv s → ∀ e ∈ l, ∃ s', step s e = .ok s' ∧ Inv s' ∧
      ∀ k, look s' k = (lastAssigned k (assignment e).toList).or (look s k))
    {s : σ} (hs : Inv s) :
    ∃ s', l.foldlM step s = .ok s' ∧ Inv s' ∧
      ∀ k, look s' k = (lastAssigned k (l.filterMap assignment)).or (look s k) := by
  induction l generalizing s with
  | nil => exact ⟨s, rfl, hs, fun k => rfl⟩
  | cons e l ih =>
      obtain ⟨next, hnext, hinv, hlook⟩ := hstep s hs e List.mem_cons_self
      obtain ⟨last, hlast, hinv', hlook'⟩ :=
        ih (fun s hs e he => hstep s hs e (List.mem_cons_of_mem _ he)) hinv
      refine ⟨last, ?_, hinv', fun k => ?_⟩
      · rw [List.foldlM_cons, hnext]
        exact hlast
      · have hsplit : (e :: l).filterMap assignment =
            (assignment e).toList ++ l.filterMap assignment := by
          cases hassign : assignment e <;> simp [hassign]
        rw [hlook', hlook, hsplit, lastAssigned_append, Option.or_assoc]

/-- A finite map: its entries in strictly increasing key order. -/
structure SortedMap (α β : Type*) [LinearOrder α] where
  /-- The entries of the map. -/
  entries : List (α × β)
  /-- Keys are strictly increasing, so no key occurs twice. -/
  sorted : SortedAssoc.Sorted entries

namespace SortedMap

variable {α β : Type*} [LinearOrder α]

/-- The map without entries. -/
def empty : SortedMap α β := ⟨[], List.Pairwise.nil⟩

/-- The value stored under `k`, if any. -/
def lookup (m : SortedMap α β) (k : α) : Option β :=
  SortedAssoc.find k m.entries

/-- `insert_or_assign`: store `v` under `k`. -/
def insert (m : SortedMap α β) (k : α) (v : β) : SortedMap α β :=
  ⟨SortedAssoc.insert k v m.entries, m.sorted.insert k v⟩

/-- The number of entries. -/
def size (m : SortedMap α β) : ℕ := m.entries.length

/-- The set of keys. -/
def keys (m : SortedMap α β) : Finset α := (m.entries.map Prod.fst).toFinset

/-- Perform a list of assignments in order. -/
def insertMany (m : SortedMap α β) (l : List (α × β)) : SortedMap α β :=
  l.foldl (fun m e => m.insert e.1 e.2) m

@[simp] theorem lookup_empty (k : α) : (empty : SortedMap α β).lookup k = none := rfl

@[simp] theorem lookup_insert_self (m : SortedMap α β) (k : α) (v : β) :
    (m.insert k v).lookup k = some v :=
  SortedAssoc.find_insert_self k v m.entries

theorem lookup_insert (m : SortedMap α β) (k k' : α) (v : β) :
    (m.insert k' v).lookup k = if k = k' then some v else m.lookup k :=
  SortedAssoc.find_insert k k' v m.entries

theorem lookup_insert_of_ne (m : SortedMap α β) {k k' : α} (h : k ≠ k') (v : β) :
    (m.insert k' v).lookup k = m.lookup k :=
  SortedAssoc.find_insert_of_ne h v m.entries

theorem mem_entries_iff (m : SortedMap α β) {k : α} {v : β} :
    (k, v) ∈ m.entries ↔ m.lookup k = some v :=
  m.sorted.find_eq_some_iff.symm

/-- The entry of a key is the only one. -/
theorem entries_filter_eq_singleton {m : SortedMap α β} {k : α} {v : β} (h : m.lookup k = some v) :
    m.entries.filter (·.1 = k) = [(k, v)] := by
  have hnodup : (m.entries.filter (·.1 = k)).Nodup :=
    (List.Nodup.of_map _ m.sorted.nodup_keys).filter _
  refine List.perm_singleton.mp
    ((List.perm_ext_iff_of_nodup hnodup (List.nodup_singleton (k, v))).mpr fun e => ?_)
  rw [List.mem_filter, decide_eq_true_eq, List.mem_singleton]
  constructor
  · rintro ⟨he, rfl⟩
    rw [mem_entries_iff m (k := e.1) (v := e.2), h] at he
    rw [Option.some.inj he]
  · rintro rfl
    exact ⟨m.mem_entries_iff.mpr h, rfl⟩

/-- **A map is determined by its lookups.** -/
theorem ext_lookup {m m' : SortedMap α β} (h : ∀ k, m.lookup k = m'.lookup k) : m = m' := by
  obtain ⟨entries, hsorted⟩ := m
  obtain ⟨entries', hsorted'⟩ := m'
  obtain rfl : entries = entries' := SortedAssoc.ext_find hsorted hsorted' h
  rfl

/-! ### Repeated assignment -/

@[simp] theorem insertMany_nil (m : SortedMap α β) : m.insertMany [] = m := rfl

/-- The same on unbundled lists. -/
theorem entries_insertMany (m : SortedMap α β) (l : List (α × β)) :
    (m.insertMany l).entries = l.foldl (fun acc e => SortedAssoc.insert e.1 e.2 acc) m.entries := by
  induction l generalizing m with
  | nil => rfl
  | cons e l ih => exact ih (m.insert e.1 e.2)

theorem insertMany_append (m : SortedMap α β) (l l' : List (α × β)) :
    m.insertMany (l ++ l') = (m.insertMany l).insertMany l' :=
  List.foldl_append

/-- **The last assignment wins.** After a list of assignments a key has the last value the list
gives it, and its old value when the list does not mention it. -/
theorem lookup_insertMany (m : SortedMap α β) (l : List (α × β)) (k : α) :
    (m.insertMany l).lookup k = (lastAssigned k l).or (m.lookup k) := by
  induction l using List.reverseRecOn with
  | nil => simp
  | append_singleton l e ih =>
      rw [insertMany_append, lastAssigned_append]
      change ((m.insertMany l).insert e.1 e.2).lookup k = _
      rw [lookup_insert, lastAssigned_singleton, ih]
      split_ifs <;> simp

/-! ### Keys -/

theorem mem_keys_iff (m : SortedMap α β) {k : α} : k ∈ m.keys ↔ (m.lookup k).isSome := by
  rw [keys, List.mem_toFinset, ← Option.ne_none_iff_isSome, lookup, ne_eq,
    SortedAssoc.find_eq_none_iff]
  simp

/-- The number of entries is the number of keys. -/
theorem size_eq_card_keys (m : SortedMap α β) : m.size = m.keys.card := by
  rw [keys, List.toFinset_card_of_nodup m.sorted.nodup_keys, size, List.length_map]

theorem keys_insertMany (m : SortedMap α β) (l : List (α × β)) :
    (m.insertMany l).keys = m.keys ∪ (l.map Prod.fst).toFinset := by
  ext k
  rw [mem_keys_iff, lookup_insertMany, Finset.mem_union, mem_keys_iff, List.mem_toFinset,
    ← isSome_lastAssigned_iff]
  cases lastAssigned k l <;> simp

end SortedMap
