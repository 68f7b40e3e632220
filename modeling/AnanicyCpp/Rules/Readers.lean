import AnanicyCpp.Rules.Loading

/-!
# Exceptions in the readers of the rule store

`get_rule`, `show_rules` and `create_cgroups` are `noexcept`, so a conversion that throws inside
them ends the daemon. The loader looks at the kind of one member of each rule, and the readers
convert others: the `type` of a program rule and the `CPUQuota` of a cgroup rule. The readers
return exactly when the rules that were filed have convertible values there.

## Main definitions

* `Rules.ReadersReturn` : no reader throws.
* `Rules.Entry.Convertible` : the values of an entry that the readers convert.

## Main results

* `Rules.readersReturn_loadLines_iff` : the readers return in every store that a sequence of lines
  reaches exactly when every accepted line is convertible.
-/

namespace AnanicyCpp

/-- The order in which the entries are stored. -/
def IterationOrder.asStored : IterationOrder := ⟨id, fun _ => List.Perm.refl _⟩

namespace Rules

open Fallible

/-- No reader of the store lets an exception escape. -/
def ReadersReturn (iter : IterationOrder) (rules : Rules) : Prop :=
  (∀ name, (rules.getRule name).isOk) ∧ (∀ ruleType, (showRules iter rules ruleType).isOk) ∧
    (createCgroups iter rules).2.isOk

/-- The readers can convert the values that they convert in a rule of this class. -/
def Entry.Convertible (entry : Entry) : Prop :=
  match entry.cls with
  | .program => ∀ type, entry.rule.val.find? "type" = some type → type.isString
  | .type => True
  | .cgroup => ∀ quota, entry.rule.val.find? "CPUQuota" = some quota → quota.isArithmetic

theorem isOk_getRule_iff (rules : Rules) (name : String) :
    (rules.getRule name).isOk ↔ ∀ rule, rules.programRules.lookup name = some rule →
      Entry.Convertible ⟨.program, name, rule⟩ := by
  unfold getRule Entry.Convertible
  cases rules.programRules.lookup name with
  | none => simp
  | some rule =>
    cases htype : rule.val.find? "type" with
    | none => simp [htype]
    | some type => simp [htype, Json.isOk_getString_iff]

theorem isOk_createCgroupsOf_iff (entries : List (String × JsonValue)) :
    (createCgroupsOf entries).2.isOk ↔
      ∀ e ∈ entries, Entry.Convertible ⟨.cgroup, e.1, e.2⟩ := by
  induction entries with
  | nil => simp [createCgroupsOf]
  | cons e entries ih =>
      obtain ⟨name, rule⟩ := e
      rw [List.forall_mem_cons, ← ih, createCgroupsOf]
      unfold Entry.Convertible
      cases hquota : rule.val.find? "CPUQuota" with
      | none => simp
      | some quota =>
        have hget := Json.isOk_getUnsigned_iff quota
        cases hn : quota.getUnsigned with
        | error err => simp_all
        | ok n => simp_all

/-- The readers return exactly when the stored rules are convertible, in whatever order the maps
are traversed. -/
theorem readersReturn_iff (iter : IterationOrder) (rules : Rules) :
    ReadersReturn iter rules ↔ ∀ cls key rule, (rules.select cls).lookup key = some rule →
      Entry.Convertible ⟨cls, key, rule⟩ := by
  have hcgroups : (createCgroups iter rules).2.isOk ↔
      ∀ key rule, rules.cgroupRules.lookup key = some rule →
        Entry.Convertible ⟨.cgroup, key, rule⟩ := by
    rw [createCgroups, isOk_createCgroupsOf_iff]
    constructor
    · intro h key rule hlookup
      have hentry := rules.cgroupRules.mem_entries_iff.mpr hlookup
      exact h (key, rule) ((iter.perm _).mem_iff.mpr hentry)
    · intro h e he
      exact h e.1 e.2 (rules.cgroupRules.mem_entries_iff.mp ((iter.perm _).mem_iff.mp he))
  constructor
  · rintro ⟨hget, -, hcreate⟩ cls key rule hlookup
    cases cls with
    | program => exact (isOk_getRule_iff rules key).mp (hget key) rule hlookup
    | type => trivial
    | cgroup => exact hcgroups.mp hcreate key rule hlookup
  · intro h
    have hget (name : String) : (rules.getRule name).isOk :=
      (isOk_getRule_iff rules name).mpr fun rule hlookup => h .program name rule hlookup
    refine ⟨hget, fun ruleType => ?_, hcgroups.mpr fun key rule => h .cgroup key rule⟩
    cases ruleType with
    | rules => exact (isOk_foldlM_iff _ _ _ _).mpr fun e _ => hget e.1
    | types => rfl
    | cgroups => rfl

/-- **When the readers return.** In every store that a sequence of lines reaches from the empty
store no reader throws, exactly when every accepted line is convertible: a program rule has a
string or nothing as its `type`, and a cgroup rule has a number, a Boolean or nothing as its
`CPUQuota`. -/
theorem readersReturn_loadLines_iff (parse : JsonParser) (iter : IterationOrder)
    (lines : List Text) :
    (∀ before, before <+: lines → ReadersReturn iter (empty.loadLines parse before)) ↔
      ∀ line ∈ lines, ∀ entry, entryOfLine parse line = some entry → entry.Convertible := by
  constructor
  · intro h line hline entry hentry
    obtain ⟨before, after, rfl⟩ := List.append_of_mem hline
    have hreach := (readersReturn_iff iter _).mp
      (h (before ++ [line]) ⟨after, by simp⟩) entry.cls entry.key entry.rule
    apply hreach
    have hstep : empty.loadLines parse (before ++ [line]) =
        (empty.loadLines parse before).assign entry := by
      rw [loadLines_append]
      change (Rules.loadRuleFromString parse _ line).2 = _
      rw [loadRuleFromString_eq, hentry]
    rw [hstep, select_assign, if_pos rfl, SortedMap.lookup_insert_self]
  · intro h before hbefore
    refine (readersReturn_iff iter _).mpr fun cls key rule hlookup => ?_
    obtain ⟨line, hline, hentry⟩ := exists_entry_of_lookup hlookup
    exact h line (hbefore.subset hline) _ hentry

/-- The readers do not always return: `{"name":"a","type":5}` is accepted, and `get_rule("a")`
converts the number to a string. -/
theorem not_forall_readersReturn :
    ¬ ∀ (parse : JsonParser) (iter : IterationOrder) (lines : List Text),
      ReadersReturn iter (empty.loadLines parse lines) := by
  intro h
  let text : Text := "\x7b\"name\":\"a\",\"type\":5\x7d".toList
  let rule : JsonValue := ⟨.object [("name", .string "a"), ("type", .numberUnsigned 5)], by decide⟩
  have hget := (h (JsonParser.only text rule) .asStored [text]).1 "a"
  revert hget
  decide +kernel

end Rules

end AnanicyCpp
