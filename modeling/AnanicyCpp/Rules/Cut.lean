import AnanicyCpp.Json.Grammar
import AnanicyCpp.Rules.Loading

/-!
# Where the loader cuts a rule

`load_rule_from_string` cuts the line behind its first closing brace, whether or not this brace
closes the first opening one, and counts the length of the cut from the start of the line. So a rule
with a nested object, or with a closing brace in a string, reaches the parser as a part of an object
text, which is the text of no value, unless the line is indented by as many characters as stand
behind the first closing brace (`Rules.loadRuleFromString_object_iff`).

## Main definitions

* `JsonParser.ReadsJson` : what the loader relies on in `json::parse`.
* `JsonParser.single` : the parser of a single text between blanks.

## Main results

* `Rules.cleanLine_object` : the cut of a line with an object text.
* `Rules.loadRuleFromString_object` : the call on such a line.
* `Rules.loadRuleFromString_object_iff` : when no valid rule is lost.
-/

namespace AnanicyCpp

open JsonText

/-- What is accepted is the text of a value, possibly behind blanks and a byte order mark, and the
blanks around an object do not matter for its value. -/
structure JsonParser.ReadsJson (parse : JsonParser) : Prop where
  value : ∀ s rule, parse s = some rule →
    ∃ lead value tail, s = lead ++ value ++ tail ∧ '{' ∉ lead ∧ ValueText value
  blanks : ∀ p object q, IsBlank p → ObjectText object → IsBlank q →
    parse (p ++ object ++ q) = parse object

namespace Rules

variable {p object q : Text}

/-! ### The cut -/

theorem findFirstOf_object (hp : IsBlank p) (hobject : ObjectText object) :
    Text.findFirstOf '{' (p ++ object ++ q) = some p.length ∧
    Text.findFirstOf '}' (p ++ object ++ q) = some (p.length + object.idxOf '}') := by
  obtain ⟨body, hbody, -⟩ := hobject.exists_eq
  constructor
  · rw [hbody, List.append_assoc]
    exact Text.findFirstOf_append_cons (hp.notMem (by decide)) _
  · have hmem : '}' ∈ object := by simp [hbody]
    obtain ⟨before, after, hsplit, hbefore⟩ := List.eq_append_cons_of_mem hmem
    have hidx : object.idxOf '}' = before.length := by
      rw [hsplit, List.idxOf_append_of_notMem hbefore, List.idxOf_cons_self, Nat.add_zero]
    have hnot : '}' ∉ p ++ before := by
      simp only [List.mem_append, not_or]
      exact ⟨hp.notMem (by decide), hbefore⟩
    have hline : p ++ object ++ q = (p ++ before) ++ '}' :: (after ++ q) := by
      rw [hsplit]
      simp
    rw [hline, Text.findFirstOf_append_cons hnot, hidx, List.length_append]

/-- The cut is behind the first closing brace, and as many characters further as the object is
indented by. -/
theorem cleanLine_object (hp : IsBlank p) (hobject : ObjectText object) (q : Text) :
    cleanLine (p ++ object ++ q) =
      some ((object ++ q).take (object.idxOf '}' + 1 + p.length)) := by
  obtain ⟨hopen, hclose⟩ := findFirstOf_object (q := q) hp hobject
  have hcount : p.length + object.idxOf '}' + 1 = object.idxOf '}' + 1 + p.length := by omega
  rw [cleanLine, hopen, hclose]
  simp only [List.append_assoc, List.drop_left, hcount]

/-- A part of an object text is rejected. -/
theorem parse_take_eq_none {parse : JsonParser} (hparse : parse.ReadsJson)
    (hobject : ObjectText object) {n : ℕ} (hn : n < object.length) :
    parse (object.take n) = none := by
  rw [Option.eq_none_iff_forall_ne_some]
  intro rule hrule
  obtain ⟨lead, value, tail, hsplit, hlead, hvalue⟩ := hparse.value _ _ hrule
  obtain ⟨body, hbody, -⟩ := hobject.exists_eq
  have hpart : lead ++ (value ++ tail) <+: object := by
    rw [← List.append_assoc, ← hsplit]
    exact List.take_prefix n object
  cases lead with
  | cons c lead =>
    obtain ⟨rfl, -⟩ := List.cons_prefix_cons.mp (hbody ▸ hpart)
    exact hlead List.mem_cons_self
  | nil =>
    have hvaluePrefix : value <+: object := (List.prefix_append value tail).trans hpart
    have hwhole := hobject.eq_of_prefix hvalue.balanced hvalue.ne_nil hvaluePrefix
    have hlength := congrArg List.length hsplit
    simp only [List.nil_append, List.length_append, List.length_take, hwhole] at hlength
    omega

/-- **The call on a line with an object text.** -/
theorem loadRuleFromString_object {parse : JsonParser} (hparse : parse.ReadsJson) (rules : Rules)
    (hp : IsBlank p) (hobject : ObjectText object) (hq : IsBlank q) {rule : JsonValue}
    (hrule : parse (p ++ object ++ q) = some rule) :
    rules.loadRuleFromString parse (p ++ object ++ q) =
      if object.length ≤ object.idxOf '}' + 1 + p.length then rules.storeRule rule
      else (false, rules) := by
  obtain ⟨body, hbody, -⟩ := hobject.exists_eq
  have hvalid : isInvalidStr (p ++ object ++ q) = false := by
    rw [hbody, List.append_assoc]
    exact isInvalidStr_blank hp _
  rw [hparse.blanks p object q hp hobject hq] at hrule
  rw [loadRuleFromString, hvalid, cleanLine_object hp hobject]
  simp only [Bool.false_eq_true, if_false]
  split_ifs with hcut
  · obtain ⟨k, hk⟩ := Nat.exists_eq_add_of_le hcut
    have hclean : parse (object ++ q.take k) = some rule := by
      rw [← hrule]
      exact hparse.blanks [] object _ IsBlank.nil hobject (hq.take k)
    rw [hk, Text.take_append_add, hclean]
  · rw [List.take_append_of_le_length (by omega), parse_take_eq_none hparse hobject (by omega)]

/-- **When no valid rule is lost.** For every object text with a string `name` that `json::parse`
accepts, between any blanks, the call returns `true` and stores the value under the name exactly
when the object has at most as many characters behind its first closing brace as blanks stand in
front of it. -/
theorem loadRuleFromString_object_iff {parse : JsonParser} (hparse : parse.ReadsJson)
    (rules : Rules) (hp : IsBlank p) (hobject : ObjectText object) (hq : IsBlank q)
    {rule : JsonValue} (hrule : parse (p ++ object ++ q) = some rule) {name : String}
    (hname : rule.val.find? "name" = some (.string name)) :
    rules.loadRuleFromString parse (p ++ object ++ q) =
        (true, { rules with programRules := rules.programRules.insert name rule }) ↔
      object.length ≤ object.idxOf '}' + 1 + p.length := by
  have hstore : rules.storeRule rule =
      (true, { rules with programRules := rules.programRules.insert name rule }) := by
    rw [storeRule, stringMember_eq_some_iff.mpr hname]
  rw [loadRuleFromString_object hparse rules hp hobject hq hrule, hstore]
  split_ifs with hcut
  · exact iff_of_true rfl hcut
  · exact iff_of_false (fun h => Bool.false_ne_true (congrArg Prod.fst h)) hcut

end Rules

/-! ### A nested object -/

/-- The text without the blanks at its ends. -/
def trimBlanks (s : Text) : Text := (s.dropWhile isJsonSpace).rdropWhile isJsonSpace

/-- The parser of a single text: blanks around it are skipped and every other text is an error. It
stands in for `json::parse` where a statement needs the value of one text only. -/
def JsonParser.single (text : Text) (rule : JsonValue) : JsonParser :=
  fun s => if trimBlanks s = text then some rule else none

theorem trimBlanks_object {p object q : Text} (hp : IsBlank p) (hobject : ObjectText object)
    (hq : IsBlank q) : trimBlanks (p ++ object ++ q) = object := by
  obtain ⟨body, rfl, -⟩ := hobject.exists_eq
  have hfront : (p ++ '{' :: (body ++ ['}']) ++ q).dropWhile isJsonSpace =
      ('{' :: body) ++ '}' :: q := by
    rw [List.append_assoc, List.dropWhile_append_of_pos hp]
    simp [isJsonSpace]
  have hback : q.rdropWhile isJsonSpace = [] := List.rdropWhile_eq_nil_iff.mpr hq
  rw [trimBlanks, hfront, Text.rdropWhile_append_cons (by decide), hback]
  rfl

theorem JsonParser.readsJson_single {text : Text} (htext : ValueText text) (rule : JsonValue) :
    (JsonParser.single text rule).ReadsJson where
  value s rule' h := by
    have htrim : trimBlanks s = text := by
      by_contra hne
      rw [JsonParser.single, if_neg hne] at h
      exact absurd h nofun
    obtain ⟨tail, htail⟩ := List.rdropWhile_prefix isJsonSpace (s.dropWhile isJsonSpace)
    refine ⟨s.takeWhile isJsonSpace, text, tail, ?_, ?_, htext⟩
    · rw [List.append_assoc, ← htrim, trimBlanks, htail, List.takeWhile_append_dropWhile]
    · exact fun hmem => absurd (List.mem_takeWhile_imp hmem) (by decide)
  blanks p object q hp hobject hq := by
    have hbare := trimBlanks_object IsBlank.nil hobject IsBlank.nil
    rw [List.nil_append, List.append_nil] at hbare
    rw [JsonParser.single, JsonParser.single, trimBlanks_object hp hobject hq, hbare]

namespace Rules

/-- The text `{"name":"a","x":{}}` and its value. -/
def nestedText : Text := "\x7b\"name\":\"a\",\"x\":\x7b\x7d\x7d".toList

def nestedRule : JsonValue :=
  ⟨.object [("name", .string "a"), ("x", .object [])], by decide⟩

theorem objectText_nestedText : ObjectText nestedText := by
  have hkey : StringText ('"' :: (['n', 'a', 'm', 'e'] ++ ['"'])) := StringText.of_plain (by decide)
  have ha : StringText ('"' :: (['a'] ++ ['"'])) := StringText.of_plain (by decide)
  have hname := Derives.member IsBlank.nil hkey IsBlank.nil
    (Derives.element IsBlank.nil (Derives.string ha) IsBlank.nil)
  have hempty := Derives.objectValue (Derives.emptyObject IsBlank.nil)
  have hx := Derives.member IsBlank.nil (StringText.of_plain (s := ['x']) (by decide)) IsBlank.nil
    (Derives.element IsBlank.nil hempty IsBlank.nil)
  refine (congrArg (Derives .object) (?_ : _ = nestedText)).mp
    (Derives.object (Derives.moreMembers hname (Derives.lastMember hx)))
  decide +kernel

def nestedParser : JsonParser := .single nestedText nestedRule

theorem readsJson_nestedParser : nestedParser.ReadsJson :=
  JsonParser.readsJson_single (Derives.objectValue objectText_nestedText) nestedRule

theorem nestedParser_eq {p q : Text} (hp : IsBlank p) (hq : IsBlank q) :
    nestedParser (p ++ nestedText ++ q) = some nestedRule :=
  if_pos (trimBlanks_object hp objectText_nestedText hq)

theorem find_nestedRule : nestedRule.val.find? "name" = some (.string "a") := rfl

/-- One space in front of the object, and one character behind its first closing brace. -/
theorem loadRuleFromString_object_iff_sample :
    empty.loadRuleFromString nestedParser ([' '] ++ nestedText ++ []) =
        (true, { empty with programRules := empty.programRules.insert "a" nestedRule }) ↔
      nestedText.length ≤ nestedText.idxOf '}' + 1 + [' '].length :=
  have hspace : IsBlank [' '] := by simp [IsBlank, isJsonSpace]
  loadRuleFromString_object_iff readsJson_nestedParser empty hspace objectText_nestedText
    IsBlank.nil (nestedParser_eq hspace IsBlank.nil) find_nestedRule

/-- Valid rules are lost: `{"name":"a","x":{}}` reaches the parser without its last brace. -/
theorem not_forall_loadRuleFromString_object :
    ¬ ∀ (parse : JsonParser), parse.ReadsJson → ∀ (rules : Rules) (p object q : Text),
      IsBlank p → ObjectText object → IsBlank q → '\n' ∉ p ++ object ++ q →
      ∀ (rule : JsonValue), parse (p ++ object ++ q) = some rule →
      ∀ name : String, rule.val.find? "name" = some (.string name) →
      rules.loadRuleFromString parse (p ++ object ++ q) =
        (true, { rules with programRules := rules.programRules.insert name rule }) := by
  intro h
  have hresult : empty.loadRuleFromString nestedParser ([] ++ nestedText ++ []) = _ :=
    h nestedParser readsJson_nestedParser empty [] nestedText [] IsBlank.nil objectText_nestedText
      IsBlank.nil (by decide +kernel) nestedRule (nestedParser_eq IsBlank.nil IsBlank.nil) "a"
      find_nestedRule
  have hrejected : (empty.loadRuleFromString nestedParser ([] ++ nestedText ++ [])).1 = false := by
    decide +kernel
  exact Bool.false_ne_true (hrejected.symm.trans (congrArg Prod.fst hresult))

end Rules

end AnanicyCpp
