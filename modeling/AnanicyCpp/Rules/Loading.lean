import AnanicyCpp.Json.Grammar
import AnanicyCpp.Rules.Store

/-!
# Loading rules

What a sequence of lines leaves in the store. Abstractly a line is either rejected or an entry: a
class, a key and the parsed rule. The store is then three logs of assignments, one for each class,
and its contents are the last entry for each key (`Rules.select_loadLines`).

The second part is about the text around a rule. The loader cuts the line at the braces before it
parses, and counts the length of the cut from the start of the line although the cut starts at the
first brace; a line that is indented by `n` characters therefore drags in `n` characters behind
the closing brace.

## Main definitions

* `RuleClass`, `Rules.select` : the three classes and their maps.
* `Rules.Entry`, `Rules.entryOfLine` : what a line says.
* `Rules.acceptedEntries` : the log of a class.
* `Rules.WellFiled` : every rule is filed under the class and the key that its members name.
* `JsonParser.StrictAboutTail` : what the loader relies on in `json::parse` behind a closing brace.

## Main results

* `Rules.loadLines_spec` : the store after any sequence of lines.
* `Rules.loadRuleFromString_indented_iff` : when indentation and a trailing comment are harmless.
-/

namespace AnanicyCpp

/-- The classes of rules, in the order in which the loader tries them. -/
inductive RuleClass where
  | program
  | type
  | cgroup
deriving DecidableEq

namespace Rules

/-- The map of a class. -/
def select (rules : Rules) : RuleClass → SortedMap String JsonValue
  | .program => rules.programRules
  | .type => rules.typeRules
  | .cgroup => rules.cgroupRules

/-- What an accepted line says. -/
structure Entry where
  cls : RuleClass
  key : String
  rule : JsonValue

/-- The store after an entry has been filed. -/
def assign (rules : Rules) (entry : Entry) : Rules :=
  match entry.cls with
  | .program => { rules with programRules := rules.programRules.insert entry.key entry.rule }
  | .type => { rules with typeRules := rules.typeRules.insert entry.key entry.rule }
  | .cgroup => { rules with cgroupRules := rules.cgroupRules.insert entry.key entry.rule }

/-- The entry of a parsed rule: its first string among `name`, `type` and `cgroup`. -/
def fileUnder (rule : JsonValue) : Option Entry :=
  match rule.val.stringMember "name", rule.val.stringMember "type",
      rule.val.stringMember "cgroup" with
  | some key, _, _ => some ⟨.program, key, rule⟩
  | none, some key, _ => some ⟨.type, key, rule⟩
  | none, none, some key => some ⟨.cgroup, key, rule⟩
  | none, none, none => none

/-- The parsed rule of a line. -/
def parsedLine (parse : JsonParser) (line : Text) : Option JsonValue :=
  if isInvalidStr line then none else (cleanLine line).bind parse

/-- The entry of a line; a rejected line has none. -/
def entryOfLine (parse : JsonParser) (line : Text) : Option Entry :=
  (parsedLine parse line).bind fileUnder

/-- The keys and rules of one class that a sequence of lines assigns, in order. -/
def acceptedEntries (parse : JsonParser) (cls : RuleClass) (lines : List Text) :
    List (String × JsonValue) :=
  ((lines.filterMap (entryOfLine parse)).filter fun e => e.cls = cls).map fun e => (e.key, e.rule)

/-- Every rule is filed under the class and the key that its own members name. -/
structure WellFiled (rules : Rules) : Prop where
  program : ∀ k v, rules.programRules.lookup k = some v → v.val.find? "name" = some (.string k)
  type : ∀ k v, rules.typeRules.lookup k = some v →
    v.val.find? "type" = some (.string k) ∧ ∀ s, v.val.find? "name" ≠ some (.string s)
  cgroup : ∀ k v, rules.cgroupRules.lookup k = some v →
    v.val.find? "cgroup" = some (.string k) ∧ (∀ s, v.val.find? "name" ≠ some (.string s)) ∧
      ∀ s, v.val.find? "type" ≠ some (.string s)

/-- The second store has the first one's entries, except for one key of one map. -/
def SetsOneKey (before after : Rules) : Prop :=
  ∃ cls key rule, (after.select cls).lookup key = some rule ∧
    ∀ cls' key', ¬(cls' = cls ∧ key' = key) →
      (after.select cls').lookup key' = (before.select cls').lookup key'

/-! ### One line -/

theorem storeRule_eq (rules : Rules) (rule : JsonValue) :
    rules.storeRule rule =
      match fileUnder rule with
      | none => (false, rules)
      | some entry => (true, rules.assign entry) := by
  unfold storeRule fileUnder
  cases rule.val.stringMember "name" with
  | some key => rfl
  | none =>
    cases rule.val.stringMember "type" with
    | some key => rfl
    | none => cases rule.val.stringMember "cgroup" <;> rfl

/-- The loader rejects a line without an entry and files the entry of any other line. -/
theorem loadRuleFromString_eq (parse : JsonParser) (rules : Rules) (line : Text) :
    rules.loadRuleFromString parse line =
      match entryOfLine parse line with
      | none => (false, rules)
      | some entry => (true, rules.assign entry) := by
  unfold loadRuleFromString entryOfLine parsedLine
  split_ifs with hinvalid
  · rfl
  · cases hclean : cleanLine line with
    | none => rfl
    | some clean =>
      cases hrule : parse clean with
      | none => simp [hrule]
      | some rule => simp [hrule, storeRule_eq]

theorem select_assign (rules : Rules) (entry : Entry) (cls : RuleClass) :
    (rules.assign entry).select cls =
      if entry.cls = cls then (rules.select cls).insert entry.key entry.rule
      else rules.select cls := by
  obtain ⟨cls', key, rule⟩ := entry
  cases cls <;> cases cls' <;> rfl

theorem setsOneKey_assign (rules : Rules) (entry : Entry) :
    SetsOneKey rules (rules.assign entry) := by
  refine ⟨entry.cls, entry.key, entry.rule, by simp [select_assign], fun cls' key' hne => ?_⟩
  rw [select_assign]
  split_ifs with hcls
  · exact SortedMap.lookup_insert_of_ne _ (fun hkey => hne ⟨hcls.symm, hkey⟩) _
  · rfl

theorem stringMember_eq_some_iff {v : Json} {key s : String} :
    v.stringMember key = some s ↔ v.find? key = some (.string s) := by
  unfold Json.stringMember
  split <;> simp_all

theorem stringMember_eq_none_iff {v : Json} {key : String} :
    v.stringMember key = none ↔ ∀ s, v.find? key ≠ some (.string s) := by
  simp only [ne_eq, ← stringMember_eq_some_iff, Option.eq_none_iff_forall_ne_some]

/-- A rule is filed by its name, else by its type, else by its cgroup. -/
theorem fileUnder_cases {rule : JsonValue} {entry : Entry} (h : fileUnder rule = some entry) :
    (∃ key, entry = ⟨.program, key, rule⟩ ∧ rule.val.find? "name" = some (.string key)) ∨
    (∃ key, entry = ⟨.type, key, rule⟩ ∧ rule.val.find? "type" = some (.string key) ∧
      ∀ s, rule.val.find? "name" ≠ some (.string s)) ∨
    ∃ key, entry = ⟨.cgroup, key, rule⟩ ∧ rule.val.find? "cgroup" = some (.string key) ∧
      (∀ s, rule.val.find? "name" ≠ some (.string s)) ∧
        ∀ s, rule.val.find? "type" ≠ some (.string s) := by
  rw [fileUnder] at h
  split at h
  · rename_i key hname
    exact Or.inl ⟨key, (Option.some.inj h).symm, stringMember_eq_some_iff.mp hname⟩
  · rename_i key hname htype
    exact Or.inr (Or.inl ⟨key, (Option.some.inj h).symm, stringMember_eq_some_iff.mp htype,
      stringMember_eq_none_iff.mp hname⟩)
  · rename_i key hname htype hcgroup
    exact Or.inr (Or.inr ⟨key, (Option.some.inj h).symm, stringMember_eq_some_iff.mp hcgroup,
      stringMember_eq_none_iff.mp hname, stringMember_eq_none_iff.mp htype⟩)
  · exact absurd h (by simp)

/-! ### A sequence of lines -/

theorem loadLines_append (parse : JsonParser) (rules : Rules) (lines lines' : List Text) :
    rules.loadLines parse (lines ++ lines') =
      (rules.loadLines parse lines).loadLines parse lines' :=
  List.foldl_append

theorem acceptedEntries_append (parse : JsonParser) (cls : RuleClass) (lines lines' : List Text) :
    acceptedEntries parse cls (lines ++ lines') =
      acceptedEntries parse cls lines ++ acceptedEntries parse cls lines' := by
  simp [acceptedEntries]

theorem acceptedEntries_cons (parse : JsonParser) (cls : RuleClass) (line : Text)
    (lines : List Text) :
    acceptedEntries parse cls (line :: lines) =
      acceptedEntries parse cls [line] ++ acceptedEntries parse cls lines :=
  acceptedEntries_append parse cls [line] lines

theorem mem_acceptedEntries_iff {parse : JsonParser} {cls : RuleClass} {lines : List Text}
    {key : String} {rule : JsonValue} :
    (key, rule) ∈ acceptedEntries parse cls lines ↔
      ∃ line ∈ lines, entryOfLine parse line = some ⟨cls, key, rule⟩ := by
  constructor
  · intro h
    obtain ⟨entry, hentry, heq⟩ := List.mem_map.mp h
    obtain ⟨hmem, hcls⟩ := List.mem_filter.mp hentry
    obtain ⟨line, hline, hsays⟩ := List.mem_filterMap.mp hmem
    obtain ⟨rfl, rfl⟩ := Prod.mk.inj heq
    obtain rfl := of_decide_eq_true hcls
    exact ⟨line, hline, hsays⟩
  · rintro ⟨line, hline, hsays⟩
    refine List.mem_map.mpr ⟨⟨cls, key, rule⟩, List.mem_filter.mpr ⟨?_, by simp⟩, rfl⟩
    exact List.mem_filterMap.mpr ⟨line, hline, hsays⟩

theorem select_loadRuleFromString (parse : JsonParser) (rules : Rules) (line : Text)
    (cls : RuleClass) :
    ((rules.loadRuleFromString parse line).2).select cls =
      (rules.select cls).insertMany (acceptedEntries parse cls [line]) := by
  rw [loadRuleFromString_eq]
  unfold acceptedEntries
  cases h : entryOfLine parse line with
  | none => simp [h]
  | some entry =>
    by_cases hcls : entry.cls = cls <;> simp [h, hcls, select_assign, SortedMap.insertMany]

/-- **The store is the log of its entries.** The map of each class results from the assignments
that the accepted lines of the class make, in order. -/
theorem select_loadLines (parse : JsonParser) (rules : Rules) (lines : List Text)
    (cls : RuleClass) :
    (rules.loadLines parse lines).select cls =
      (rules.select cls).insertMany (acceptedEntries parse cls lines) := by
  induction lines generalizing rules with
  | nil => rfl
  | cons line lines ih =>
      rw [acceptedEntries_cons, SortedMap.insertMany_append, ← select_loadRuleFromString]
      exact ih _

theorem lookup_loadLines_empty (parse : JsonParser) (lines : List Text) (cls : RuleClass)
    (key : String) :
    ((empty.loadLines parse lines).select cls).lookup key =
      lastAssigned key (acceptedEntries parse cls lines) := by
  rw [select_loadLines, SortedMap.lookup_insertMany]
  cases cls <;> exact Option.or_none

theorem exists_entry_of_lookup {parse : JsonParser} {lines : List Text} {cls : RuleClass}
    {key : String} {rule : JsonValue}
    (h : ((empty.loadLines parse lines).select cls).lookup key = some rule) :
    ∃ line ∈ lines, entryOfLine parse line = some ⟨cls, key, rule⟩ := by
  rw [lookup_loadLines_empty] at h
  exact mem_acceptedEntries_iff.mp (mem_of_lastAssigned h)

theorem fileUnder_of_entryOfLine {parse : JsonParser} {line : Text} {entry : Entry}
    (h : entryOfLine parse line = some entry) : fileUnder entry.rule = some entry := by
  obtain ⟨rule, -, hfile⟩ := Option.bind_eq_some_iff.mp h
  have hrule : entry.rule = rule := by
    rcases fileUnder_cases hfile with ⟨key, rfl, -⟩ | ⟨key, rfl, -⟩ | ⟨key, rfl, -⟩ <;> rfl
  rwa [hrule]

/-- Every store that lines can build is well filed. -/
theorem wellFiled_loadLines (parse : JsonParser) (lines : List Text) :
    WellFiled (empty.loadLines parse lines) := by
  have hfile (cls : RuleClass) (key : String) (rule : JsonValue)
      (h : ((empty.loadLines parse lines).select cls).lookup key = some rule) :
      fileUnder rule = some ⟨cls, key, rule⟩ := by
    obtain ⟨line, -, hentry⟩ := exists_entry_of_lookup h
    exact fileUnder_of_entryOfLine hentry
  constructor
  · intro k v h
    rcases fileUnder_cases (hfile .program k v h) with ⟨key, hentry, hname⟩ | ⟨_, hentry, _⟩ |
      ⟨_, hentry, _⟩ <;> cases hentry
    exact hname
  · intro k v h
    rcases fileUnder_cases (hfile .type k v h) with ⟨_, hentry, _⟩ | ⟨key, hentry, htype⟩ |
      ⟨_, hentry, _⟩ <;> cases hentry
    exact htype
  · intro k v h
    rcases fileUnder_cases (hfile .cgroup k v h) with ⟨_, hentry, _⟩ | ⟨_, hentry, _⟩ |
      ⟨key, hentry, hcgroup⟩ <;> cases hentry
    exact hcgroup

/-- **The store after any sequence of lines.** A call that returns `false` leaves the store as it
is, and one that returns `true` sets one key of one map; every rule is filed under the class and
the key that its members name; a key holds the rule of the last accepted line of that class with
that key; and the size is the number of distinct names of accepted program rules. -/
theorem loadLines_spec (parse : JsonParser) (lines : List Text) :
    (∀ before line after, lines = before ++ line :: after →
      let store := empty.loadLines parse before
      let call := store.loadRuleFromString parse line
      (call.1 = true ↔ (entryOfLine parse line).isSome) ∧
      (call.1 = false → call.2 = store) ∧ (call.1 = true → SetsOneKey store call.2)) ∧
    WellFiled (empty.loadLines parse lines) ∧
    (∀ cls key, ((empty.loadLines parse lines).select cls).lookup key =
      lastAssigned key (acceptedEntries parse cls lines)) ∧
    (empty.loadLines parse lines).size =
      ((acceptedEntries parse .program lines).map Prod.fst).toFinset.card := by
  refine ⟨fun before line after _ => ?_, wellFiled_loadLines parse lines,
    lookup_loadLines_empty parse lines, ?_⟩
  · intro store call
    have hcall : call = _ := loadRuleFromString_eq parse store line
    rw [hcall]
    cases entryOfLine parse line with
    | none => simp
    | some entry => simp [setsOneKey_assign]
  · have hkeys := congrArg SortedMap.keys (select_loadLines parse empty lines .program)
    rw [SortedMap.keys_insertMany] at hkeys
    change (empty.loadLines parse lines).programRules.size = _
    rw [SortedMap.size_eq_card_keys]
    exact congrArg Finset.card (hkeys.trans (Finset.empty_union _))

end Rules

/-! ### Indentation and trailing comments -/

/-- The indentation of a line: spaces and tabs. -/
def IsIndent (s : Text) : Prop := ∀ c ∈ s, c ∈ [' ', '\t']

/-- A text that starts with a brace and whose only closing brace is its last character. -/
def IsBraced (text : Text) : Prop :=
  ∃ body : Text, text = '{' :: (body ++ ['}']) ∧ '}' ∉ body

/-- What the loader relies on in `json::parse` behind the closing brace of a text: blanks are
skipped, and a `#` is an unexpected token after a complete value, because comments are not part of
JSON. -/
structure JsonParser.StrictAboutTail (parse : JsonParser) : Prop where
  blanks : ∀ text tail, IsBraced text → IsBlank tail → parse (text ++ tail) = parse text
  hash : ∀ text tail rest, IsBraced text → IsBlank tail → (parse text).isSome →
    parse (text ++ (tail ++ '#' :: rest)) = none

/-- The parser of a single text: blanks behind it are skipped and every other text is an error. It
stands in for `json::parse` where a statement needs the value of one text only. -/
def JsonParser.only (text : Text) (rule : JsonValue) : JsonParser :=
  fun s => if s.rdropWhile isJsonSpace = text then some rule else none

theorem JsonParser.strictAboutTail_only (text : Text) (rule : JsonValue) :
    (JsonParser.only text rule).StrictAboutTail := by
  refine ⟨fun t tail _ htail => ?_, fun t tail rest _ _ hsome => ?_⟩
  · have hblank : ∀ c ∈ tail.reverse, isJsonSpace c = true :=
      fun c hc => htail c (List.mem_reverse.mp hc)
    rw [JsonParser.only, JsonParser.only, List.rdropWhile, List.rdropWhile, List.reverse_append,
      List.dropWhile_append_of_pos hblank]
  · have ht : t.rdropWhile isJsonSpace = text := by
      by_contra h
      rw [JsonParser.only, if_neg h] at hsome
      simp at hsome
    have hle : text.length ≤ t.length := ht ▸ (t.rdropWhile_prefix isJsonSpace).length_le
    have hlt : t.length < ((t ++ (tail ++ '#' :: rest)).rdropWhile isJsonSpace).length := by
      rw [← List.append_assoc, Text.rdropWhile_append_cons (by decide)]
      simp only [List.length_append, List.length_cons]
      omega
    refine if_neg fun h => ?_
    rw [h] at hlt
    omega

theorem IsIndent.notMem {s : Text} (h : IsIndent s) {c : Char} (hc : c ∉ [' ', '\t']) : c ∉ s :=
  fun hmem => hc (h c hmem)

theorem IsIndent.isBlank {s : Text} (h : IsIndent s) : IsBlank s := by
  intro c hc
  have hmem : c = ' ' ∨ c = '\t' := by simpa using h c hc
  rcases hmem with rfl | rfl <;> rfl

theorem IsBlank.notMem {s : Text} (h : IsBlank s) {c : Char}
    (hc : isJsonSpace c = false) : c ∉ s :=
  fun hmem => Bool.false_ne_true (hc.symm.trans (h c hmem))

theorem IsBlank.take {s : Text} (h : IsBlank s) (n : ℕ) : IsBlank (s.take n) :=
  fun c hc => h c (List.mem_of_mem_take hc)

namespace Rules

/-- The cut of an indented line: the rule and as many characters of the tail as the line is
indented by. -/
theorem cleanLine_indented {p text : Text} (hp : IsIndent p) (ht : IsBraced text) (tail : Text) :
    cleanLine (p ++ text ++ tail) = some (text ++ tail.take p.length) := by
  obtain ⟨body, rfl, hbody⟩ := ht
  have hopen : Text.findFirstOf '{' (p ++ '{' :: (body ++ ['}']) ++ tail) = some p.length := by
    rw [List.append_assoc]
    exact Text.findFirstOf_append_cons (hp.notMem (by decide)) _
  have hclose : Text.findFirstOf '}' (p ++ '{' :: (body ++ ['}']) ++ tail) =
      some (p.length + (body.length + 1)) := by
    have hsplit : p ++ '{' :: (body ++ ['}']) ++ tail = (p ++ '{' :: body) ++ '}' :: tail := by
      simp
    have hnot : '}' ∉ p ++ '{' :: body := by
      simp only [List.mem_append, List.mem_cons, not_or]
      exact ⟨hp.notMem (by decide), by decide, hbody⟩
    rw [hsplit, Text.findFirstOf_append_cons hnot]
    simp
  have hdrop : (p ++ '{' :: (body ++ ['}']) ++ tail).drop p.length =
      '{' :: (body ++ ['}']) ++ tail := by
    rw [List.append_assoc, List.drop_left]
  have hlength : p.length + (body.length + 1) + 1 = ('{' :: (body ++ ['}'])).length + p.length := by
    simp only [List.length_cons, List.length_append, List.length_nil]
    omega
  simp only [cleanLine, hopen, hclose, hdrop, hlength, Text.take_append_add]

/-- No line is invalid that starts with blanks and a brace. -/
theorem isInvalidStr_blank {p : Text} (hp : IsBlank p) (rest : Text) :
    isInvalidStr (p ++ '{' :: rest) = false := by
  induction p with
  | nil => simp [isInvalidStr, isCommentStr]
  | cons c p ih =>
      have hrest := ih fun d hd => hp d (List.mem_cons_of_mem _ hd)
      have hc : c = ' ' ∨ c = '\t' ∨ c = '\n' ∨ c = '\r' := by
        simpa [isJsonSpace] using hp c List.mem_cons_self
      rcases hc with rfl | rfl | rfl | rfl
      · simpa [isInvalidStr, isCommentStr] using hrest
      · simp [isInvalidStr, isCommentStr]
      · simp [isInvalidStr, isCommentStr]
      · simp [isInvalidStr, isCommentStr]

theorem isInvalidStr_indented {p text : Text} (hp : IsIndent p) (ht : IsBraced text) (tail : Text) :
    isInvalidStr (p ++ text ++ tail) = false := by
  obtain ⟨body, rfl, -⟩ := ht
  rw [List.append_assoc]
  exact isInvalidStr_blank hp.isBlank _

theorem parsedLine_indented (parse : JsonParser) {p text : Text} (hp : IsIndent p)
    (ht : IsBraced text) (tail : Text) :
    parsedLine parse (p ++ text ++ tail) = parse (text ++ tail.take p.length) := by
  rw [parsedLine, isInvalidStr_indented hp ht, cleanLine_indented hp ht]
  rfl

theorem parsedLine_braced (parse : JsonParser) {text : Text} (ht : IsBraced text) :
    parsedLine parse text = parse text := by
  simpa using parsedLine_indented parse (p := []) (fun _ h => by simp at h) ht []

/-- A tail of blanks, possibly followed by a comment, is blank up to the first `#`. -/
theorem take_tail_cases {tail : Text}
    (htail : IsBlank tail ∨ ∃ blanks comment, IsBlank blanks ∧ tail = blanks ++ '#' :: comment)
    (n : ℕ) :
    (IsBlank (tail.take n) ∧ '#' ∉ tail.take n) ∨
      ∃ blanks rest, IsBlank blanks ∧ tail.take n = blanks ++ '#' :: rest := by
  rcases htail with hblank | ⟨blanks, comment, hblank, rfl⟩
  · exact Or.inl ⟨hblank.take n, (hblank.take n).notMem (by decide)⟩
  · rcases Nat.lt_or_ge blanks.length n with hn | hn
    · obtain ⟨k, rfl⟩ := Nat.exists_eq_add_of_lt hn
      exact Or.inr ⟨blanks, comment.take k, hblank, by
        rw [Nat.add_assoc, Text.take_append_add, List.take_succ_cons]⟩
    · rw [List.take_append_of_le_length hn]
      exact Or.inl ⟨hblank.take n, (hblank.take n).notMem (by decide)⟩

/-- **When indentation and a trailing comment are harmless.** For a rule text between blanks and an
optional comment, the call has the result and the store of the call on the bare text exactly when
no `#` stands among as many characters behind the closing brace as the line is indented by, or
when the rule has no class and both calls reject it. The parser receives the bare text exactly
when there is no indentation or nothing behind the text. -/
theorem loadRuleFromString_indented_iff {parse : JsonParser} (hparse : parse.StrictAboutTail)
    (rules : Rules) {p text tail : Text} {rule : JsonValue} (hp : IsIndent p) (ht : IsBraced text)
    (hrule : parse text = some rule)
    (htail : IsBlank tail ∨ ∃ blanks comment, IsBlank blanks ∧ tail = blanks ++ '#' :: comment) :
    (rules.loadRuleFromString parse (p ++ text ++ tail) = rules.loadRuleFromString parse text ↔
      '#' ∉ tail.take p.length ∨ fileUnder rule = none) ∧
    (cleanLine (p ++ text ++ tail) = some text ↔ p = [] ∨ tail = []) := by
  have hbare : entryOfLine parse text = fileUnder rule := by
    rw [entryOfLine, parsedLine_braced parse ht, hrule]
    rfl
  constructor
  · rw [loadRuleFromString_eq, loadRuleFromString_eq, hbare, entryOfLine,
      parsedLine_indented parse hp ht]
    rcases take_tail_cases htail p.length with ⟨hblank, hhash⟩ | ⟨blanks, rest, hblank, htake⟩
    · rw [hparse.blanks text _ ht hblank, hrule]
      simp [hhash]
    · rw [htake, hparse.hash text blanks rest ht hblank (by simp [hrule])]
      cases fileUnder rule <;> simp
  · rw [cleanLine_indented hp ht]
    simp [List.take_eq_nil_iff, List.length_eq_zero_iff]

/-- The text `{"name":"a"}` and its value. -/
def sampleText : Text := "\x7b\"name\":\"a\"\x7d".toList

def sampleRule : JsonValue := ⟨.object [("name", .string "a")], by decide⟩

theorem isBraced_sampleText : IsBraced sampleText :=
  ⟨"\"name\":\"a\"".toList, by decide, by decide⟩

/-- One space of indentation and a comment directly behind the brace. -/
theorem loadRuleFromString_indented_iff_sample :
    (empty.loadRuleFromString (JsonParser.only sampleText sampleRule)
        ([' '] ++ sampleText ++ "# x".toList) =
      empty.loadRuleFromString (JsonParser.only sampleText sampleRule) sampleText ↔
        '#' ∉ ("# x".toList).take [' '].length ∨ fileUnder sampleRule = none) ∧
    (cleanLine ([' '] ++ sampleText ++ "# x".toList) = some sampleText ↔
      [' '] = [] ∨ "# x".toList = []) :=
  loadRuleFromString_indented_iff (JsonParser.strictAboutTail_only sampleText sampleRule) empty
    (by simp [IsIndent]) isBraced_sampleText (if_pos (by decide +kernel))
    (Or.inr ⟨[], " x".toList, fun _ h => by simp at h, by decide⟩)

/-- The loader does not ignore indentation and trailing comments: on ` {"name":"a"}# x` the text
handed to the parser ends with the `#`. -/
theorem not_forall_loadRuleFromString_indented :
    ¬ ∀ (parse : JsonParser) (rules : Rules) (p text tail : Text) (rule : JsonValue),
      parse.StrictAboutTail → IsIndent p → IsBraced text → parse text = some rule →
      (IsBlank tail ∨ ∃ blanks comment, IsBlank blanks ∧ tail = blanks ++ '#' :: comment) →
      rules.loadRuleFromString parse (p ++ text ++ tail) =
        rules.loadRuleFromString parse text := by
  intro h
  have hsame := h (JsonParser.only sampleText sampleRule) empty [' '] sampleText "# x".toList
    sampleRule (JsonParser.strictAboutTail_only _ _) (by simp [IsIndent])
    isBraced_sampleText (if_pos (by decide +kernel))
    (Or.inr ⟨[], " x".toList, fun _ h => by simp at h, by decide⟩)
  have hresult : (empty.loadRuleFromString (JsonParser.only sampleText sampleRule)
      ([' '] ++ sampleText ++ "# x".toList)).1 = true := hsame ▸ by decide +kernel
  revert hresult
  decide +kernel

end Rules

end AnanicyCpp
