import AnanicyCpp.Config
import AnanicyCpp.Library.InputStream
import AnanicyCpp.Rules.Loading

/-!
# Rules files and the rules directory

`load_rules_from_file` reads a file line by line, `load_rules_from_directory` walks a directory and
loads the files whose extension the configuration asks for, and the constructor does this on an
empty store. The traversal has no order of its own, so a directory is given in the order in which
one traversal visits it.

A rules file is meant to be a list of rules among comments and blank lines. The loader agrees with
this reading up to one case: it looks for the `#` behind spaces only, so the rule text of a comment
that is indented with a tab is loaded (`Rules.loadRulesFromFile_eq_iff`). The order of the lines
does not matter as long as no class and key is set twice (`Rules.loadLines_perm`).

## Main definitions

* `Rules.loadRulesFromFile`, `Rules.loadRulesFromDirectory`, `Rules.construct` : the loader.
* `Rules.directoryLines` : the lines that a traversal hands to the loader.
* `Rules.isRuleLine` : neither blank nor a comment.

## Main results

* `Rules.construct_eq` : the store of the constructor, from the lines of the directory.
* `Rules.loadRulesFromFile_eq_iff` : when comments and blank lines have no effect.
* `Rules.loadLines_perm` : the order of the lines.
-/

namespace AnanicyCpp

/-- An entry that `recursive_directory_iterator` visits. A file that cannot be opened has no
content. -/
inductive DirectoryEntry where
  | directory
  | file (filename : Text) (content : Option Text)
deriving DecidableEq

/-- `path.extension()`: the part from the last dot on, unless that dot is the first character. -/
def extension (filename : Text) : Text :=
  if filename = ['.', '.'] then []
  else
    match filename.rdropWhile (· != '.') with
    | [] | [_] => []
    | _ => '.' :: filename.rtakeWhile (· != '.')

namespace Rules

/-! ### Loading files -/

/-- `load_rules_from_file` -/
def loadRulesFromFile (parse : JsonParser) (rules : Rules) (content : Option Text) : Rules :=
  (InputStream.openFile content).whileGood
    (fun rules line => (rules.loadRuleFromString parse line).2) [] rules

/-- `is_valid_file` -/
def isValidFile (config : Config) (fileExt : Text) : Bool :=
  (config.cgroupLoad && fileExt == ".cgroups".toList) ||
    (config.typeLoad && fileExt == ".types".toList) ||
    (config.ruleLoad && fileExt == ".rules".toList)

/-- The body of the loop over the directory. -/
def loadEntry (parse : JsonParser) (config : Config) (rules : Rules) : DirectoryEntry → Rules
  | .directory => rules
  | .file filename content =>
      if isValidFile config (extension filename) then rules.loadRulesFromFile parse content
      else rules

/-- `load_rules_from_directory` -/
def loadRulesFromDirectory (parse : JsonParser) (config : Config) (rules : Rules)
    (dir : List DirectoryEntry) : Rules :=
  dir.foldl (fun rules entry => rules.loadEntry parse config entry) rules

/-- The constructor; a directory that does not exist leaves the store empty. -/
def construct (parse : JsonParser) (config : Config) : Option (List DirectoryEntry) → Rules
  | none => empty
  | some dir => empty.loadRulesFromDirectory parse config dir

/-! ### The lines of a directory -/

/-- The lines that a file contributes. -/
def entryLines (config : Config) : DirectoryEntry → List Text
  | .file filename (some content) =>
      if isValidFile config (extension filename) then content.splitOn '\n' else []
  | _ => []

/-- The lines that a directory contributes, in the order of the traversal. -/
def directoryLines (config : Config) (dir : Option (List DirectoryEntry)) : List Text :=
  (dir.getD []).flatMap (entryLines config)

/-- A file contributes the pieces between its line feeds, each once. -/
theorem loadRulesFromFile_some (parse : JsonParser) (rules : Rules) (content : Text) :
    rules.loadRulesFromFile parse (some content) =
      rules.loadLines parse (content.splitOn '\n') :=
  InputStream.whileGood_openFile _ content [] rules

theorem loadRulesFromFile_none (parse : JsonParser) (rules : Rules) :
    rules.loadRulesFromFile parse none = rules :=
  InputStream.whileGood_openFile_none _ [] rules

theorem loadEntry_eq (parse : JsonParser) (config : Config) (rules : Rules)
    (entry : DirectoryEntry) :
    rules.loadEntry parse config entry = rules.loadLines parse (entryLines config entry) := by
  match entry with
  | .directory => rfl
  | .file filename none =>
    simp only [loadEntry, loadRulesFromFile_none, ite_self]
    rfl
  | .file filename (some content) =>
    simp only [loadEntry, entryLines, loadRulesFromFile_some]
    split_ifs <;> rfl

/-- A directory is loaded line by line. -/
theorem loadRulesFromDirectory_eq (parse : JsonParser) (config : Config) (rules : Rules)
    (dir : List DirectoryEntry) :
    rules.loadRulesFromDirectory parse config dir =
      rules.loadLines parse (directoryLines config (some dir)) := by
  induction dir generalizing rules with
  | nil => rfl
  | cons entry dir ih =>
      have hlines : directoryLines config (some (entry :: dir)) =
          entryLines config entry ++ directoryLines config (some dir) := List.flatMap_cons
      rw [hlines, loadLines_append, ← loadEntry_eq]
      exact ih _

/-- **The store of the constructor.** -/
theorem construct_eq (parse : JsonParser) (config : Config)
    (dir : Option (List DirectoryEntry)) :
    construct parse config dir = empty.loadLines parse (directoryLines config dir) := by
  cases dir with
  | none => rfl
  | some dir => exact loadRulesFromDirectory_eq parse config empty dir

/-! ### Comments and blank lines -/

/-- A line that is meant as a rule: its first character other than space and tab exists and is not
a `#`. -/
def isRuleLine (line : Text) : Bool :=
  match line.dropWhile Text.isTabOrSpace with
  | [] => false
  | c :: _ => c != '#'

/-- What a file says under a class and a key: its last assignment, else what the store has. -/
def valueAfter (parse : JsonParser) (rules : Rules) (lines : List Text) (cls : RuleClass)
    (key : String) : Option JsonValue :=
  (lastAssigned key (acceptedEntries parse cls lines)).or ((rules.select cls).lookup key)

theorem lookup_loadLines (parse : JsonParser) (rules : Rules) (lines : List Text)
    (cls : RuleClass) (key : String) :
    ((rules.loadLines parse lines).select cls).lookup key =
      valueAfter parse rules lines cls key := by
  rw [select_loadLines, SortedMap.lookup_insertMany, valueAfter]

/-- A store is determined by the lookups in its three maps. -/
theorem ext_lookup {rules rules' : Rules}
    (h : ∀ cls key, (rules.select cls).lookup key = (rules'.select cls).lookup key) :
    rules = rules' := by
  obtain ⟨programRules, typeRules, cgroupRules⟩ := rules
  obtain ⟨programRules', typeRules', cgroupRules'⟩ := rules'
  obtain rfl : programRules = programRules' := SortedMap.ext_lookup (h .program)
  obtain rfl : typeRules = typeRules' := SortedMap.ext_lookup (h .type)
  obtain rfl : cgroupRules = cgroupRules' := SortedMap.ext_lookup (h .cgroup)
  rfl

/-- The line sets the key of the class. -/
def Sets (parse : JsonParser) (cls : RuleClass) (key : String) (line : Text) : Prop :=
  ∃ rule, entryOfLine parse line = some ⟨cls, key, rule⟩

theorem lastAssigned_acceptedEntries_eq_none_iff {parse : JsonParser} {cls : RuleClass}
    {lines : List Text} {key : String} :
    lastAssigned key (acceptedEntries parse cls lines) = none ↔
      ∀ line ∈ lines, ¬Sets parse cls key line := by
  rw [← Option.not_isSome_iff_eq_none, isSome_lastAssigned_iff]
  constructor
  · rintro h line hline ⟨rule, hsays⟩
    exact h (List.mem_map.mpr ⟨(key, rule), mem_acceptedEntries_iff.mpr ⟨line, hline, hsays⟩, rfl⟩)
  · intro h hmem
    obtain ⟨⟨_, rule⟩, hrule, rfl⟩ := List.mem_map.mp hmem
    obtain ⟨line, hline, hsays⟩ := mem_acceptedEntries_iff.mp hrule
    exact h line hline ⟨rule, hsays⟩

/-- The last line that sets a key decides its value. -/
theorem valueAfter_append_cons {parse : JsonParser} (rules : Rules) (before : List Text)
    {line : Text} {after : List Text} {entry : Entry} (hline : entryOfLine parse line = some entry)
    (hafter : ∀ line ∈ after, ¬Sets parse entry.cls entry.key line) :
    valueAfter parse rules (before ++ line :: after) entry.cls entry.key = some entry.rule := by
  have hnone := lastAssigned_acceptedEntries_eq_none_iff.mpr hafter
  have hone : acceptedEntries parse entry.cls [line] = [(entry.key, entry.rule)] := by
    simp [acceptedEntries, hline]
  rw [valueAfter, acceptedEntries_append, acceptedEntries_cons, lastAssigned_append,
    lastAssigned_append, hnone, hone, lastAssigned_singleton]
  simp

/-- Lines that do not set a key leave its value. -/
theorem valueAfter_append_of_not_sets {parse : JsonParser} (rules : Rules) (before : List Text)
    {after : List Text} {cls : RuleClass} {key : String}
    (hafter : ∀ line ∈ after, ¬Sets parse cls key line) :
    valueAfter parse rules (before ++ after) cls key = valueAfter parse rules before cls key := by
  have hnone := lastAssigned_acceptedEntries_eq_none_iff.mpr hafter
  rw [valueAfter, acceptedEntries_append, lastAssigned_append, hnone, Option.none_or, valueAfter]

/-- Either no line sets the key, or one of them is the last to do so. -/
theorem exists_last_sets (parse : JsonParser) (cls : RuleClass) (key : String)
    (lines : List Text) :
    (∀ line ∈ lines, ¬Sets parse cls key line) ∨
    ∃ before line after rule, lines = before ++ line :: after ∧
      entryOfLine parse line = some ⟨cls, key, rule⟩ ∧
        ∀ line ∈ after, ¬Sets parse cls key line := by
  induction lines with
  | nil => exact Or.inl fun _ h => absurd h List.not_mem_nil
  | cons line lines ih =>
      rcases ih with hnone | ⟨before, last, after, rule, rfl, hsays, hafter⟩
      · by_cases hline : Sets parse cls key line
        · obtain ⟨rule, hsays⟩ := hline
          exact Or.inr ⟨[], line, lines, rule, rfl, hsays, hnone⟩
        · exact Or.inl (List.forall_mem_cons.mpr ⟨hline, hnone⟩)
      · exact Or.inr ⟨line :: before, last, after, rule, rfl, hsays, hafter⟩

/-- **When comments have no effect.** A file has the effect of its rule lines, each applied once and
in order, exactly when each comment that the loader takes for a rule is harmless: a later line sets
the same key of the same class, or the rule lines before it and the starting store already give
that key the same rule. -/
theorem loadRulesFromFile_eq_iff (parse : JsonParser) (rules : Rules) (content : Text) :
    rules.loadRulesFromFile parse (some content) =
      rules.loadLines parse ((content.splitOn '\n').filter isRuleLine) ↔
    ∀ before comment after entry, content.splitOn '\n' = before ++ comment :: after →
      isRuleLine comment = false → entryOfLine parse comment = some entry →
      (∃ line ∈ after, Sets parse entry.cls entry.key line) ∨
        valueAfter parse rules (before.filter isRuleLine) entry.cls entry.key =
          some entry.rule := by
  rw [loadRulesFromFile_some]
  generalize content.splitOn '\n' = lines
  have hfilter {after : List Text} {cls : RuleClass} {key : String}
      (h : ∀ line ∈ after, ¬Sets parse cls key line) :
      ∀ line ∈ after.filter isRuleLine, ¬Sets parse cls key line :=
    fun line hline => h line (List.mem_of_mem_filter hline)
  constructor
  · rintro hload before comment after entry rfl hcomment hentry
    by_cases hlater : ∃ line ∈ after, Sets parse entry.cls entry.key line
    · exact Or.inl hlater
    · have hafter : ∀ line ∈ after, ¬Sets parse entry.cls entry.key line :=
        fun line hline hsets => hlater ⟨line, hline, hsets⟩
      have hkept := valueAfter_append_of_not_sets rules (before.filter isRuleLine) (hfilter hafter)
      have hvalue := congrArg (fun store => (store.select entry.cls).lookup entry.key) hload
      simp only [lookup_loadLines] at hvalue
      rw [valueAfter_append_cons rules before hentry hafter, List.filter_append, List.filter_cons,
        if_neg (by simp [hcomment]), hkept] at hvalue
      exact Or.inr hvalue.symm
  · intro h
    refine ext_lookup fun cls key => ?_
    rw [lookup_loadLines, lookup_loadLines]
    rcases exists_last_sets parse cls key lines with
      hnone | ⟨before, line, after, rule, rfl, hsays, hafter⟩
    · have hfull := valueAfter_append_of_not_sets rules [] hnone
      have hkept := valueAfter_append_of_not_sets rules [] (hfilter hnone)
      exact hfull.trans hkept.symm
    · have hfull := valueAfter_append_cons rules before hsays hafter
      rw [hfull, List.filter_append, List.filter_cons]
      cases hline : isRuleLine line with
      | true => exact (valueAfter_append_cons rules _ hsays (hfilter hafter)).symm
      | false =>
        rcases h before line after _ rfl hline hsays with ⟨later, hmem, hsets⟩ | hvalue
        · exact absurd hsets (hafter later hmem)
        · exact ((valueAfter_append_of_not_sets rules _ (hfilter hafter)).trans hvalue).symm

/-- Comments have an effect: a rule behind a tab and a `#` is loaded. -/
theorem not_forall_loadRulesFromFile :
    ¬ ∀ (parse : JsonParser) (rules : Rules) (content : Text),
      rules.loadRulesFromFile parse (some content) =
        rules.loadLines parse ((content.splitOn '\n').filter isRuleLine) := by
  intro h
  have hload := h (JsonParser.only sampleText sampleRule) empty ("\t# ".toList ++ sampleText)
  rw [loadRulesFromFile_some] at hload
  have hlookup := congrArg (fun store => ((store.select .program).lookup "a").isSome) hload
  simp only [lookup_loadLines] at hlookup
  revert hlookup
  decide +kernel

/-! ### The order of the lines -/

/-- The class and the key that an entry sets. -/
def Entry.place (entry : Entry) : RuleClass × String := (entry.cls, entry.key)

theorem nodup_keys_acceptedEntries {parse : JsonParser} {lines : List Text}
    (h : ((lines.filterMap (entryOfLine parse)).map Entry.place).Nodup) (cls : RuleClass) :
    ((acceptedEntries parse cls lines).map Prod.fst).Nodup := by
  have hclass := h.of_map.filter (fun e => e.cls = cls)
  rw [acceptedEntries, List.map_map]
  refine (List.nodup_map_iff_inj_on hclass).mpr fun e he e' he' hkey => ?_
  obtain ⟨hmem, hcls⟩ := List.mem_filter.mp he
  obtain ⟨hmem', hcls'⟩ := List.mem_filter.mp he'
  have hplace : e.place = e'.place :=
    Prod.ext ((of_decide_eq_true hcls).trans (of_decide_eq_true hcls').symm) hkey
  exact List.inj_on_of_nodup_map h hmem hmem' hplace

theorem acceptedEntries_perm (parse : JsonParser) {lines lines' : List Text}
    (h : lines.Perm lines') (cls : RuleClass) :
    (acceptedEntries parse cls lines).Perm (acceptedEntries parse cls lines') :=
  ((h.filterMap _).filter _).map _

/-- The store does not depend on the order of lines that set different places. -/
theorem loadLines_eq_of_perm (parse : JsonParser) {lines lines' : List Text}
    (h : ((lines.filterMap (entryOfLine parse)).map Entry.place).Nodup)
    (hperm : lines.Perm lines') (rules : Rules) :
    rules.loadLines parse lines' = rules.loadLines parse lines := by
  refine ext_lookup fun cls key => ?_
  rw [lookup_loadLines, lookup_loadLines, valueAfter, valueAfter,
    lastAssigned_perm (nodup_keys_acceptedEntries h cls) (acceptedEntries_perm parse hperm cls)]

/-- Loading the same lines once more changes nothing, whatever they set. -/
theorem loadLines_loadLines (parse : JsonParser) (rules : Rules) (lines : List Text) :
    (rules.loadLines parse lines).loadLines parse lines = rules.loadLines parse lines := by
  refine ext_lookup fun cls key => ?_
  rw [lookup_loadLines, valueAfter, lookup_loadLines, valueAfter]
  cases lastAssigned key (acceptedEntries parse cls lines) <;> simp

/-- **The order of the lines does not matter.** When no two accepted lines set the same key of the
same class, every permutation gives the same result of `get_rule` for every name and the same size,
and a second load changes nothing. -/
theorem loadLines_perm (parse : JsonParser) {lines lines' : List Text}
    (h : ((lines.filterMap (entryOfLine parse)).map Entry.place).Nodup)
    (hperm : lines.Perm lines') (rules : Rules) :
    (∀ name, (rules.loadLines parse lines').getRule name =
      (rules.loadLines parse lines).getRule name) ∧
    (rules.loadLines parse lines').size = (rules.loadLines parse lines).size ∧
    (rules.loadLines parse lines).loadLines parse lines = rules.loadLines parse lines ∧
    (rules.loadLines parse lines).loadLines parse lines' = rules.loadLines parse lines := by
  have hsame := loadLines_eq_of_perm parse h hperm rules
  have hagain := loadLines_loadLines parse rules lines
  refine ⟨fun name => by rw [hsame], by rw [hsame], hagain, ?_⟩
  rw [loadLines_eq_of_perm parse h hperm, hagain]

/-- The text `{"type":"t"}` and its value. -/
def sampleTypeText : Text := "\x7b\"type\":\"t\"\x7d".toList

def sampleTypeRule : JsonValue := ⟨.object [("type", .string "t")], by decide⟩

/-- The parser of one program rule and one type rule. -/
def sampleParser : JsonParser := fun s =>
  (JsonParser.only sampleText sampleRule s).or (JsonParser.only sampleTypeText sampleTypeRule s)

/-- A type rule in front of a program rule and behind it. -/
theorem loadLines_perm_sample :
    (∀ name, (empty.loadLines sampleParser [sampleTypeText, sampleText]).getRule name =
      (empty.loadLines sampleParser [sampleText, sampleTypeText]).getRule name) ∧
    (empty.loadLines sampleParser [sampleTypeText, sampleText]).size =
      (empty.loadLines sampleParser [sampleText, sampleTypeText]).size ∧
    (empty.loadLines sampleParser [sampleText, sampleTypeText]).loadLines sampleParser
        [sampleText, sampleTypeText] =
      empty.loadLines sampleParser [sampleText, sampleTypeText] ∧
    (empty.loadLines sampleParser [sampleText, sampleTypeText]).loadLines sampleParser
        [sampleTypeText, sampleText] =
      empty.loadLines sampleParser [sampleText, sampleTypeText] :=
  loadLines_perm sampleParser (by decide +kernel) (List.Perm.swap _ _ []) empty

/-- Two traversals of a directory fill the same store. -/
theorem construct_perm (parse : JsonParser) (config : Config) {dir dir' : List DirectoryEntry}
    (h : (((directoryLines config (some dir)).filterMap (entryOfLine parse)).map
      Entry.place).Nodup) (hperm : dir.Perm dir') :
    construct parse config (some dir') = construct parse config (some dir) := by
  rw [construct_eq, construct_eq]
  exact loadLines_eq_of_perm parse h (hperm.flatMap_right _) empty

end Rules

end AnanicyCpp
