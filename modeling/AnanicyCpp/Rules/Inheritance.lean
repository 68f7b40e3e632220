import AnanicyCpp.Rules.Readers

/-!
# Inheritance from type rules

A program rule inherits the parameters of its type rule. What this means is defined here without
merge patches: `Rules.inherit` keeps every member that the rule has, descends where both sides have
an object, and takes the remaining members from the type rule without their null members. The two
merges of `get_rule`, which go in opposite directions, compute it.

The source never names this operation; it is the purpose of the two merges.

## Main definitions

* `Rules.inherit` : explicit members beat inherited ones.

## Main results

* `Rules.find_inherit` : the members of the result, key by key.
* `Rules.mergePatch_mergePatch` : the two merges compute `inherit`.
* `Rules.isCanonical_getRule` : the result of `get_rule` has ordered members.
* `Rules.getRule_spec` : the result of `get_rule` for every program rule.
-/

namespace AnanicyCpp

namespace Rules

open Json SortedAssoc Fallible

mutual

/-- The members of `rule`, completed by those of `type`. Only two objects have anything to
inherit from each other. -/
def inherit (rule : Json) : Json → Json
  | .object type => if rule.isObject then .object (inheritMembers rule.members type) else rule
  | _ => rule

def inheritMembers (rule : List (String × Json)) : List (String × Json) → List (String × Json)
  | [] => rule
  | (key, inherited) :: type =>
    match find key rule with
    | some own => insert key (inherit own inherited) (inheritMembers rule type)
    | none =>
      if inherited.isNull then inheritMembers rule type
      else insert key (strip inherited) (inheritMembers rule type)

end

theorem inherit_leaf_left {rule : Json} (h : rule.isObject = false) (type : Json) :
    inherit rule type = rule := by
  cases type <;> simp [inherit, h]

theorem inherit_leaf_right (rule : Json) {type : Json} (h : type.isObject = false) :
    inherit rule type = rule := by
  cases type <;> simp_all [inherit, isObject]

theorem sorted_inheritMembers {rule : List (String × Json)} (hr : Sorted rule)
    (type : List (String × Json)) : Sorted (inheritMembers rule type) := by
  induction type with
  | nil => exact hr
  | cons e type ih =>
      simp only [inheritMembers]
      split
      · exact ih.insert _ _
      · split_ifs
        · exact ih
        · exact ih.insert _ _

/-- The members of the result in terms of those of the two sides. -/
theorem find_inheritMembers (rule : List (String × Json)) {type : List (String × Json)}
    (ht : Sorted type) (key : String) :
    find key (inheritMembers rule type) =
      match find key rule, find key type with
      | none, none => none
      | none, some inherited => if inherited.isNull then none else some (strip inherited)
      | some own, none => some own
      | some own, some inherited => some (inherit own inherited) := by
  induction type with
  | nil => cases h : find key rule <;> simp [inheritMembers, h]
  | cons e type ih =>
      obtain ⟨key', inherited⟩ := e
      obtain ⟨hhead, htail⟩ := List.pairwise_cons.mp ht
      have hrest := ih htail
      by_cases hk : key = key'
      · subst hk
        have hnone : find key type = none :=
          find_eq_none_iff.mpr fun e he => ne_of_gt (hhead e he)
        rw [hnone] at hrest
        cases hown : find key rule with
        | some own => simp [inheritMembers, hown]
        | none =>
          simp only [inheritMembers, hown, find_cons_self]
          split_ifs with hnull
          · simpa [hown] using hrest
          · rw [find_insert_self]
      · rw [find_cons_of_ne (e := (key', inherited)) hk, ← hrest]
        simp only [inheritMembers]
        split
        · exact find_insert_of_ne hk _ _
        · split_ifs
          · rfl
          · exact find_insert_of_ne hk _ _

/-- **The members of an inheriting rule.** A member that only the type rule has is inherited without
its null members; two objects inherit recursively; in every other case the rule's own member
stands, an explicit `null` included. -/
theorem find_inherit {rule type : JsonValue} {own inherited : List (String × Json)}
    (hr : rule.val = .object own) (ht : type.val = .object inherited) (key : String) :
    (inherit rule.val type.val).find? key =
      match rule.val.find? key, type.val.find? key with
      | none, none => none
      | none, some v => if v.isNull then none else some (strip v)
      | some (.object r), some (.object t) => some (inherit (.object r) (.object t))
      | some v, _ => some v := by
  have hsorted : Sorted inherited := (isCanonical_object_iff.mp (ht ▸ type.property)).1
  have hfind : (inherit rule.val type.val).find? key =
      find key (inheritMembers own inherited) := by
    rw [hr, ht]
    rfl
  rw [hfind, find_inheritMembers own hsorted, hr, ht]
  simp only [find?, members]
  cases hown : find key own with
  | none => cases find key inherited <;> rfl
  | some v =>
    cases hinh : find key inherited with
    | none => cases v <;> rfl
    | some w =>
      cases v with
      | object r =>
        cases w with
        | object t => rfl
        | _ => exact congrArg some (inherit_leaf_right _ rfl)
      | _ => exact congrArg some (inherit_leaf_left rfl w)

/-! ### The two merges -/

theorem isObject_of_isNull {v : Json} (h : v.isNull) : v.isObject = false := by
  cases v <;> simp_all [isNull, isObject]

theorem isNull_mergePatch (target patch : Json) :
    (mergePatch target patch).isNull = patch.isNull := by
  cases patch <;> rfl

theorem mergePatch_mergePatch_leaf {rule type : Json} (hr : rule.isCanonical)
    (ht : type.isObject = false) : mergePatch rule (mergePatch type rule) = rule := by
  rw [mergePatch_of_not_isObject ht hr, mergePatch_strip hr]

/-- **The two merges compute inheritance.** Merging the rule into the type rule and the result back
into the rule gives the rule with what it inherits, for all values on both sides. -/
theorem mergePatch_mergePatch {rule type : Json} (hr : rule.isCanonical)
    (ht : type.isCanonical) : mergePatch rule (mergePatch type rule) = inherit rule type := by
  induction type using inductionOnMembers generalizing rule with
  | leaf type hleaf =>
      rw [mergePatch_mergePatch_leaf hr hleaf, inherit_leaf_right rule hleaf]
  | object inherited ih =>
      cases rule with
      | object own =>
        obtain ⟨hown, hownMem⟩ := isCanonical_object_iff.mp hr
        obtain ⟨hinh, hinhMem⟩ := isCanonical_object_iff.mp ht
        have hpatch : Sorted (mergeMembers inherited own) := sorted_mergeMembers hinh own
        simp only [inherit, mergePatch, members, isObject, if_true]
        congr 1
        refine ext_find (sorted_mergeMembers hown _) (sorted_inheritMembers hown _) fun key => ?_
        rw [find_mergeMembers hpatch, find_mergeMembers hown, find_inheritMembers own hinh]
        cases hv : find key own with
        | none =>
          cases hw : find key inherited with
          | none => rfl
          | some w =>
            have hcanon : w.isCanonical := hinhMem _ (mem_of_find_eq_some hw)
            have hstrip : mergePatch null w = strip w := mergePatch_of_not_isObject rfl hcanon
            simp [hstrip]
        | some v =>
          have hvcanon : v.isCanonical := hownMem _ (mem_of_find_eq_some hv)
          have hback : mergePatch v (mergePatch ((find key inherited).getD null) v) =
              (find key inherited).elim v (inherit v) := by
            cases hw : find key inherited with
            | none => exact mergePatch_mergePatch_leaf hvcanon rfl
            | some w =>
              have hmem : (key, w) ∈ inherited := mem_of_find_eq_some hw
              exact ih _ hmem hvcanon (hinhMem _ hmem)
          by_cases hnull : v.isNull
          · have hleaf : v.isObject = false := isObject_of_isNull hnull
            cases find key inherited <;> simp [hnull, inherit_leaf_left hleaf]
          · have hfalse : v.isNull = false := by simpa using hnull
            simp only [hfalse, Bool.false_eq_true, if_false, isNull_mergePatch, Option.getD_some,
              hback]
            cases find key inherited <;> rfl
      | _ => rfl

/-! ### The result of `get_rule` -/

/-- What `get_rule` returns is a value that JSON can hold: the merges keep the order of members. -/
theorem isCanonical_getRule {rules : Rules} {name : String} {merged : Json}
    (h : rules.getRule name = .ok merged) : merged.isCanonical := by
  unfold getRule at h
  split at h
  · exact Except.ok.inj h ▸ rfl
  · rename_i rule _
    split at h
    · exact Except.ok.inj h ▸ rule.property
    · obtain ⟨key, -, hmerged⟩ := bind_eq_ok_iff.mp h
      obtain rfl := pure_eq_ok_iff.mp hmerged
      unfold mergedWithType
      split
      · exact rule.property
      · rename_i typeRule _
        exact isCanonical_mergePatch rule.property
          (isCanonical_mergePatch typeRule.property rule.property)

/-- **The result of `get_rule`.** A program rule whose `type` names a stored type rule inherits its
parameters from that rule, and any other rule is returned as it is; the call leaves the store
unchanged. The last part says what inheriting means, for all objects. -/
theorem getRule_spec (rules : Rules) (name : String) (rule : JsonValue)
    (hrule : rules.programRules.lookup name = some rule) :
    (∀ key type, rule.val.find? "type" = some (.string key) →
      rules.typeRules.lookup key = some type → type.val.isObject →
      rules.getRuleCall name = .ok (inherit rule.val type.val, rules)) ∧
    (rule.val.find? "type" = none → rules.getRuleCall name = .ok (rule.val, rules)) ∧
    (∀ key, rule.val.find? "type" = some (.string key) → rules.typeRules.lookup key = none →
      rules.getRuleCall name = .ok (rule.val, rules)) ∧
    ∀ (r t : JsonValue) (own inherited : List (String × Json)),
      r.val = .object own → t.val = .object inherited → (inherit r.val t.val).isObject ∧
      ∀ key, (inherit r.val t.val).find? key =
        match r.val.find? key, t.val.find? key with
        | none, none => none
        | none, some v => if v.isNull then none else some (strip v)
        | some (.object own'), some (.object inherited') =>
            some (inherit (.object own') (.object inherited'))
        | some v, _ => some v := by
  refine ⟨fun key type hkey htype _ => ?_, fun hnone => ?_, fun key hkey hnone => ?_,
    fun r t own inherited hr ht => ⟨?_, find_inherit hr ht⟩⟩
  · have hmerged : rules.mergedWithType rule.val key = inherit rule.val type.val := by
      rw [mergedWithType, htype]
      exact mergePatch_mergePatch rule.property type.property
    simp [getRuleCall, getRule, hrule, hkey, getString, hmerged]
  · simp [getRuleCall, getRule, hrule, hnone]
  · simp [getRuleCall, getRule, hrule, hkey, getString, mergedWithType, hnone]
  · rw [hr, ht]
    rfl

/-- A browser with a document viewer's type; `nice` is inherited and the explicit `null` stays. -/
def sampleProgram : JsonValue :=
  ⟨.object [("ioclass", .null), ("name", .string "icecat"), ("type", .string "Doc-View")],
    by decide⟩

def sampleType : JsonValue :=
  ⟨.object [("ioclass", .string "idle"), ("nice", .numberInteger (-4)),
    ("type", .string "Doc-View")], by decide⟩

def sampleRules : Rules :=
  ⟨SortedMap.empty.insert "icecat" sampleProgram, SortedMap.empty.insert "Doc-View" sampleType,
    .empty⟩

theorem getRule_spec_sample :
    sampleRules.getRuleCall "icecat" =
      .ok (.object [("ioclass", .null), ("name", .string "icecat"), ("nice", .numberInteger (-4)),
        ("type", .string "Doc-View")], sampleRules) :=
  (getRule_spec sampleRules "icecat" sampleProgram rfl).1 "Doc-View" sampleType rfl rfl rfl

end Rules

end AnanicyCpp
