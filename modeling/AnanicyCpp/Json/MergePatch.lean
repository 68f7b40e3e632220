import AnanicyCpp.Json.Value

/-!
# Merge patches

`merge_patch` of `nlohmann::json` follows RFC 7396: a patch that is an object removes the members
it maps to `null` and merges its other members recursively, and any other patch replaces the
target.

Merging is determined by its lookups (`Json.find_mergeMembers`), which hold for every patch
without repeated keys. The file then describes the members of two merges that meet in practice:
a merge into nothing strips the null members (`Json.mergePatch_of_not_isObject`), and merging the
stripped value back into the original changes nothing (`Json.mergePatch_strip`).

## Main definitions

* `Json.mergePatch` : the merge.
* `Json.strip` : removal of null members of objects at every depth.

## Main results

* `Json.find_mergeMembers` : the members of a merge, key by key.
* `Json.isCanonical_mergePatch` : merging keeps the order of members.
* `Json.mergePatch_of_not_isObject`, `Json.mergePatch_strip` : merges with a stripped value.
-/

namespace AnanicyCpp

namespace Json

open SortedAssoc

mutual

/-- `target.merge_patch(patch)`, returning the new target. -/
def mergePatch (target : Json) : Json → Json
  | object patch => object (mergeMembers target.members patch)
  | patch => patch

/-- The members of the target after the members of the patch have been merged in their order. -/
def mergeMembers (target : List (String × Json)) : List (String × Json) → List (String × Json)
  | [] => target
  | (key, value) :: patch =>
      mergeMembers
        (if value.isNull then erase key target
          else insert key (mergePatch ((find key target).getD null) value) target)
        patch

end

mutual

/-- Remove the null members of objects at every depth; arrays are left alone. -/
def strip : Json → Json
  | object ms => object (stripMembers ms)
  | v => v

def stripMembers : List (String × Json) → List (String × Json)
  | [] => []
  | (key, value) :: ms =>
      if value.isNull then stripMembers ms else (key, strip value) :: stripMembers ms

end

theorem mergePatch_leaf (target : Json) {patch : Json} (h : patch.isObject = false) :
    mergePatch target patch = patch := by
  cases patch <;> simp_all [mergePatch, isObject]

theorem strip_leaf {v : Json} (h : v.isObject = false) : strip v = v := by
  cases v <;> simp_all [strip, isObject]

theorem members_leaf {v : Json} (h : v.isObject = false) : v.members = [] := by
  cases v <;> simp_all [members, isObject]

theorem isNull_strip (v : Json) : (strip v).isNull = v.isNull := by
  cases v <;> rfl

/-! ### Merges key by key -/

/-- **The members of a merge.** A key the patch does not mention keeps its member, a key the patch
maps to `null` loses it, and any other key gets the merge of the two members. -/
theorem find_mergeMembers {patch : List (String × Json)} (hp : Sorted patch)
    (target : List (String × Json)) (key : String) :
    find key (mergeMembers target patch) =
      match find key patch with
      | none => find key target
      | some v => if v.isNull then none else some (mergePatch ((find key target).getD null) v) := by
  induction patch generalizing target with
  | nil => simp [mergeMembers]
  | cons e patch ih =>
      obtain ⟨key', v⟩ := e
      obtain ⟨hhead, htail⟩ := List.pairwise_cons.mp hp
      simp only [mergeMembers]
      rw [ih htail, find_cons]
      by_cases hk : key = key'
      · subst hk
        have hnone : find key patch = none :=
          find_eq_none_iff.mpr fun e he => ne_of_gt (hhead e he)
        simp only [hnone, if_true]
        split_ifs with hv
        · rw [find_erase, if_pos rfl]
        · rw [find_insert_self]
      · have hold : find key (if v.isNull then erase key' target
            else insert key' (mergePatch ((find key' target).getD null) v) target) =
            find key target := by
          split_ifs
          · rw [find_erase, if_neg hk]
          · exact find_insert_of_ne hk _ _
        simp only [hk, if_false, hold]

theorem sorted_mergeMembers {target : List (String × Json)} (ht : Sorted target)
    (patch : List (String × Json)) : Sorted (mergeMembers target patch) := by
  induction patch generalizing target with
  | nil => exact ht
  | cons e patch ih =>
      simp only [mergeMembers]
      split_ifs
      · exact ih (ht.erase _)
      · exact ih (ht.insert _ _)

theorem find_stripMembers {ms : List (String × Json)} (hs : Sorted ms) (key : String) :
    find key (stripMembers ms) =
      match find key ms with
      | none => none
      | some v => if v.isNull then none else some (strip v) := by
  induction ms with
  | nil => rfl
  | cons e ms ih =>
      obtain ⟨key', v⟩ := e
      obtain ⟨hhead, htail⟩ := List.pairwise_cons.mp hs
      have hrest := ih htail
      by_cases hk : key = key'
      · subst hk
        have hnone : find key ms = none :=
          find_eq_none_iff.mpr fun e he => ne_of_gt (hhead e he)
        rw [hnone] at hrest
        simp only [stripMembers, find_cons_self]
        split_ifs with hv
        · exact hrest
        · exact find_cons_self _ _ _
      · simp only [stripMembers, find_cons_of_ne (e := (key', v)) hk]
        split_ifs with hv
        · exact hrest
        · rw [find_cons_of_ne (e := (key', strip v)) hk, hrest]

theorem mem_stripMembers {e : String × Json} {ms : List (String × Json)}
    (h : e ∈ stripMembers ms) : ∃ e' ∈ ms, e'.1 = e.1 ∧ e.2 = strip e'.2 := by
  induction ms with
  | nil => simp [stripMembers] at h
  | cons e' ms ih =>
      simp only [stripMembers] at h
      split_ifs at h with hv
      · obtain ⟨e'', he'', h⟩ := ih h
        exact ⟨e'', List.mem_cons_of_mem _ he'', h⟩
      · rcases List.mem_cons.mp h with rfl | h
        · exact ⟨e', List.mem_cons_self, rfl, rfl⟩
        · obtain ⟨e'', he'', h⟩ := ih h
          exact ⟨e'', List.mem_cons_of_mem _ he'', h⟩

theorem sorted_stripMembers {ms : List (String × Json)} (hs : Sorted ms) :
    Sorted (stripMembers ms) := by
  induction ms with
  | nil => exact hs
  | cons e ms ih =>
      obtain ⟨hhead, htail⟩ := List.pairwise_cons.mp hs
      simp only [stripMembers]
      split_ifs
      · exact ih htail
      · refine List.pairwise_cons.mpr ⟨fun e' he' => ?_, ih htail⟩
        obtain ⟨e'', he'', hkey, -⟩ := mem_stripMembers he'
        exact hkey ▸ hhead e'' he''

/-! ### Merging keeps the order of members -/

theorem canonical_of_find {ms : List (String × Json)} (hs : Sorted ms)
    (h : ∀ key v, find key ms = some v → v.isCanonical) : (object ms).isCanonical :=
  isCanonical_object_iff.mpr ⟨hs, fun e he => h e.1 e.2 (hs.find_eq_some_iff.mpr he)⟩

theorem isCanonical_find {v w : Json} (hv : v.isCanonical) {key : String}
    (h : find key v.members = some w) : w.isCanonical := by
  cases v with
  | object ms => exact (isCanonical_object_iff.mp hv).2 _ (mem_of_find_eq_some h)
  | _ => simp [members] at h

theorem sorted_members {v : Json} (hv : v.isCanonical) : Sorted v.members := by
  cases v with
  | object ms => exact (isCanonical_object_iff.mp hv).1
  | _ => exact List.Pairwise.nil

/-- A merge of canonical values is canonical. -/
theorem isCanonical_mergePatch {target patch : Json} (ht : target.isCanonical)
    (hp : patch.isCanonical) : (mergePatch target patch).isCanonical := by
  induction patch using inductionOnMembers generalizing target with
  | leaf patch hleaf => rwa [mergePatch_leaf target hleaf]
  | object patch ih =>
      obtain ⟨hsorted, hmem⟩ := isCanonical_object_iff.mp hp
      refine canonical_of_find (sorted_mergeMembers (sorted_members ht) patch) fun key w hw => ?_
      rw [find_mergeMembers hsorted] at hw
      split at hw
      · exact isCanonical_find ht hw
      · rename_i v hv
        have hve : (key, v) ∈ patch := mem_of_find_eq_some hv
        split_ifs at hw
        obtain rfl := Option.some.inj hw
        refine ih _ hve ?_ (hmem _ hve)
        cases hold : find key target.members with
        | none => rfl
        | some w => exact isCanonical_find ht hold

/-! ### Merges with a stripped value -/

/-- **A merge into a value that is no object strips the patch.** -/
theorem mergePatch_of_not_isObject {target patch : Json} (ht : target.isObject = false)
    (hp : patch.isCanonical) : mergePatch target patch = strip patch := by
  induction patch using inductionOnMembers generalizing target with
  | leaf patch hleaf => rw [mergePatch_leaf target hleaf, strip_leaf hleaf]
  | object patch ih =>
      obtain ⟨hsorted, hmem⟩ := isCanonical_object_iff.mp hp
      rw [mergePatch, strip, members_leaf ht]
      congr 1
      refine ext_find (sorted_mergeMembers List.Pairwise.nil patch)
        (sorted_stripMembers hsorted) fun key => ?_
      rw [find_mergeMembers hsorted, find_stripMembers hsorted]
      cases hv : find key patch with
      | none => rfl
      | some v =>
          have hve : (key, v) ∈ patch := mem_of_find_eq_some hv
          have hstrip : mergePatch null v = strip v := ih (key, v) hve rfl (hmem _ hve)
          simp only [find_nil, Option.getD_none, hstrip]

/-- **Merging a stripped value back changes nothing.** Its null members are kept because the
stripped value does not mention them. -/
theorem mergePatch_strip {v : Json} (hv : v.isCanonical) : mergePatch v (strip v) = v := by
  induction v using inductionOnMembers with
  | leaf v hleaf => rw [strip_leaf hleaf, mergePatch_leaf v hleaf]
  | object ms ih =>
      obtain ⟨hsorted, hmem⟩ := isCanonical_object_iff.mp hv
      rw [strip, mergePatch]
      congr 1
      refine ext_find (sorted_mergeMembers hsorted _) hsorted fun key => ?_
      rw [find_mergeMembers (sorted_stripMembers hsorted), find_stripMembers hsorted]
      cases hval : find key ms with
      | none => simp [members, hval]
      | some v =>
          have hve : (key, v) ∈ ms := mem_of_find_eq_some hval
          by_cases hnull : v.isNull
          · simp [members, hval, hnull]
          · simp [members, hval, hnull, isNull_strip, ih _ hve (hmem _ hve)]

end Json

end AnanicyCpp
