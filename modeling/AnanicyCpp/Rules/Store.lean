import AnanicyCpp.Json.MergePatch
import AnanicyCpp.Library.Text

/-!
# The rule store

`rules.cpp`: the store has a map of program rules, a map of type rules and a map of cgroup rules,
filled line by line by `load_rule_from_string` and read by `get_rule`, `show_rules` and
`create_cgroups`. Parsing is a parameter, `JsonParser`, because the JSON library is not part of
the repository; it returns `none` where `json::parse` throws.

The readers are `noexcept` in the source. Here they return the `type_error` that a conversion
would throw, so that an escaping exception is visible as a value.

## Main definitions

* `JsonParser` : `json::parse`.
* `Rules`, `Rules.empty` : the store.
* `Rules.loadRuleFromString`, `Rules.loadLines` : one line, and a sequence of lines.
* `Rules.getRule`, `Rules.showRules`, `Rules.createCgroups` : the readers.
* `IterationOrder` : the order in which an `unordered_map` is traversed.
-/

namespace AnanicyCpp

/-- `json::parse`; `none` stands for the `parse_error` it throws. -/
abbrev JsonParser := Text → Option JsonValue

/-- The three maps of the store. -/
structure Rules where
  programRules : SortedMap String JsonValue
  typeRules : SortedMap String JsonValue
  cgroupRules : SortedMap String JsonValue

/-- The order in which a traversal of an `unordered_map` visits its entries. The standard leaves
it open, so it is a parameter. -/
structure IterationOrder where
  order : List (String × JsonValue) → List (String × JsonValue)
  /-- Every entry is visited once. -/
  perm : ∀ entries, (order entries).Perm entries

/-- The argument of `show_rules`. -/
inductive RuleType where
  | rules
  | types
  | cgroups
deriving DecidableEq

namespace Rules

def empty : Rules := ⟨.empty, .empty, .empty⟩

/-! ### Loading a line -/

/-- Only spaces are skipped in front of the `#`. -/
def isCommentStr (s : Text) : Bool :=
  match s.dropWhile (· == ' ') with
  | [] => true
  | c :: _ => c == '#'

def isInvalidStr (s : Text) : Bool :=
  s.isEmpty || isCommentStr s

/-- The text handed to `json::parse`. The second index counts from the start of the line, while the
length it is used for counts from the first brace. -/
def cleanLine (line : Text) : Option Text :=
  match Text.findFirstOf '{' line, Text.findFirstOf '}' line with
  | some firstPair, some secondPair => some ((line.drop firstPair).take (secondPair + 1))
  | _, _ => none

/-- File a parsed rule: a program rule by its name, else a type rule, else a cgroup rule. -/
def storeRule (rules : Rules) (rule : JsonValue) : Bool × Rules :=
  match rule.val.stringMember "name" with
  | some ruleName =>
      (true, { rules with programRules := rules.programRules.insert ruleName rule })
  | none =>
    match rule.val.stringMember "type" with
    | some ruleType => (true, { rules with typeRules := rules.typeRules.insert ruleType rule })
    | none =>
      match rule.val.stringMember "cgroup" with
      | some ruleCgroup =>
          (true, { rules with cgroupRules := rules.cgroupRules.insert ruleCgroup rule })
      | none => (false, rules)

/-- `load_rule_from_string`: the result and the store after the call. -/
def loadRuleFromString (parse : JsonParser) (rules : Rules) (line : Text) : Bool × Rules :=
  if isInvalidStr line then (false, rules)
  else
    match cleanLine line with
    | none => (false, rules)
    | some clean =>
      match parse clean with
      | none => (false, rules)
      | some rule => rules.storeRule rule

/-- The store after a sequence of calls. -/
def loadLines (parse : JsonParser) (rules : Rules) (lines : List Text) : Rules :=
  lines.foldl (fun rules line => (rules.loadRuleFromString parse line).2) rules

/-- `size()` counts the program rules. -/
def size (rules : Rules) : ℕ := rules.programRules.size

/-! ### Reading the store -/

/-- A rule with the parameters of the type rule under `key`. The source merges the rule into a copy
of the type rule, and the result back into the rule. -/
def mergedWithType (rules : Rules) (rule : Json) (key : String) : Json :=
  match rules.typeRules.lookup key with
  | none => rule
  | some typeRule => rule.mergePatch (typeRule.val.mergePatch rule)

/-- `get_rule`: the program rule with the parameters of its type, `null` without a rule. The key of
the type map is the member `type` converted to a string, whatever its kind. -/
def getRule (rules : Rules) (name : String) : Except TypeError Json :=
  match rules.programRules.lookup name with
  | none => .ok .null
  | some rule =>
    match rule.val.find? "type" with
    | none => .ok rule.val
    | some type => do
      let key ← type.getString
      pure (rules.mergedWithType rule.val key)

/-- The call of `get_rule` as a member function, with the store that it leaves. The function is
`const`: both merges write to local copies. -/
def getRuleCall (rules : Rules) (name : String) : Except TypeError (Json × Rules) := do
  let rule ← rules.getRule name
  pure (rule, rules)

/-- `rules_display[key] = value`, on a display that starts as `null`. -/
def displayMember (display : Json) (key : String) (value : Json) : Json :=
  .object (SortedAssoc.insert key value display.members)

/-- `show_rules`: the value that is dumped to the standard output. -/
def showRules (iter : IterationOrder) (rules : Rules) : RuleType → Except TypeError Json
  | .rules =>
      (iter.order rules.programRules.entries).foldlM
        (fun display rule => do
          let merged ← rules.getRule rule.1
          pure (displayMember display rule.1 merged)) .null
  | .types =>
      .ok ((iter.order rules.typeRules.entries).foldl
        (fun display rule => displayMember display rule.1 rule.2.val) .null)
  | .cgroups =>
      .ok ((iter.order rules.cgroupRules.entries).foldl
        (fun display rule => displayMember display rule.1 rule.2.val) .null)

/-- The calls of `set_cgroup_cpu_quota` that `create_cgroups` makes on the entries of the cgroup
map, and whether the loop ends without an exception. -/
def createCgroupsOf : List (String × JsonValue) → List (String × UInt32) × Except TypeError Unit
  | [] => ([], .ok ())
  | (name, rule) :: entries =>
    match rule.val.find? "CPUQuota" with
    | none => createCgroupsOf entries
    | some quota =>
      match quota.getUnsigned with
      | .error e => ([], .error e)
      | .ok n => ((name, n) :: (createCgroupsOf entries).1, (createCgroupsOf entries).2)

/-- `create_cgroups` -/
def createCgroups (iter : IterationOrder) (rules : Rules) :
    List (String × UInt32) × Except TypeError Unit :=
  createCgroupsOf (iter.order rules.cgroupRules.entries)

end Rules

end AnanicyCpp
