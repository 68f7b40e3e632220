import AnanicyCpp.ArgumentParser

/-!
# The names in a parameter

What a parameter that is examined as an option does depends on its names and on the declarations,
and the loop changes only values. The declarations of a parser are its arguments without their
values, so what is said of them holds at every turn of the loop.

## Main definitions

* `ArgumentParser.declarations` : the arguments without their values.
* `ArgumentParser.valueNames` : how many names in a parameter take a value.
* `ArgumentParser.skipAfter` : how many parameters are still to be skipped behind a list.

## Main results

* `ArgumentParser.ParseState.declarations_examine` : the loop keeps the declarations.
* `ArgumentParser.ParseState.parseFrom_cons` : one turn of the loop.
* `ArgumentParser.ParseState.exists_parseFrom_append` : the loop over the first part of a list.
-/

namespace AnanicyCpp

/-- An argument without its value. -/
def Argument.unset (arg : Argument) : Argument := { arg with value := none }

@[simp] theorem Argument.unset_setValueAt (id : ℕ) (value : Text) (arg : Argument) :
    (arg.setValueAt id value).unset = arg.unset := by
  unfold setValueAt
  split_ifs <;> rfl

namespace ArgumentParser

/-! ### Declarations -/

/-- What has been declared. -/
def declarations (parser : ArgumentParser) : List Argument := parser.map Argument.unset

theorem declarations_setValue (parser : ArgumentParser) (id : ℕ) (value : Text) :
    (parser.setValue id value).declarations = parser.declarations := by
  rw [declarations, setValue, List.map_map, declarations]
  exact List.map_congr_left fun arg _ => arg.unset_setValueAt id value

theorem shortArg_declarations (parser : ArgumentParser) (c : Char) :
    shortArg parser.declarations c = (parser.shortArg c).map Argument.unset := by
  simp only [shortArg, declarations, List.filter_map, Function.comp_def, List.getLast?_map]
  rfl

theorem longArg_declarations (parser : ArgumentParser) (name : Text) :
    longArg parser.declarations name = (parser.longArg name).map Argument.unset := by
  simp only [longArg, declarations, List.filter_map, Function.comp_def, List.getLast?_map]
  rfl

/-- The name belongs to an option that takes a value. -/
def takesValue (arg : Option Argument) : Bool := arg.any fun arg => !arg.isFlag

theorem takesValue_unset (arg : Option Argument) :
    takesValue (arg.map Argument.unset) = takesValue arg := by
  cases arg <;> rfl

/-- How many of the names in a parameter belong to options that take a value. -/
def valueNames (parser : ArgumentParser) (param : Text) : ℕ :=
  match param with
  | '-' :: '-' :: paramName => (takesValue (parser.longArg paramName)).toNat
  | '-' :: cluster => cluster.countP fun c => takesValue (parser.shortArg c)
  | _ => 0

theorem valueNames_declarations (parser : ArgumentParser) (param : Text) :
    valueNames parser.declarations param = parser.valueNames param := by
  unfold valueNames
  simp only [shortArg_declarations, longArg_declarations, takesValue_unset]

section Congr

variable {parser parser' : ArgumentParser} (h : parser'.declarations = parser.declarations)

include h

theorem takesValue_shortArg_congr (c : Char) :
    takesValue (parser'.shortArg c) = takesValue (parser.shortArg c) := by
  rw [← takesValue_unset, ← shortArg_declarations, h, shortArg_declarations, takesValue_unset]

theorem valueNames_congr (param : Text) : parser'.valueNames param = parser.valueNames param := by
  rw [← valueNames_declarations, h, valueNames_declarations]

end Congr

/-- How many parameters are still to be skipped behind a list, where each option that takes a value
skips one. -/
def skipAfter (parser : ArgumentParser) : ℕ → List Text → ℕ
  | skip, [] => skip
  | skip + 1, _ :: params => parser.skipAfter skip params
  | 0, param :: params => parser.skipAfter (parser.valueNames param) params

theorem skipAfter_congr {parser parser' : ArgumentParser}
    (h : parser'.declarations = parser.declarations) (skip : ℕ) (params : List Text) :
    parser'.skipAfter skip params = parser.skipAfter skip params := by
  induction params generalizing skip with
  | nil => rfl
  | cons param params ih =>
    cases skip with
    | succ skip => exact ih skip
    | zero =>
      rw [skipAfter, skipAfter, valueNames_congr h, ih]

/-! ### The kinds of parameters -/

/-- A parameter is a long option, a cluster of short ones, or no option. -/
theorem param_cases (param : Text) :
    (∃ paramName, param = '-' :: '-' :: paramName) ∨
    (∃ cluster, param = '-' :: cluster ∧ ∀ paramName, cluster ≠ '-' :: paramName) ∨
    ∀ cluster, param ≠ '-' :: cluster := by
  by_cases hoption : ∃ cluster, param = '-' :: cluster
  · obtain ⟨cluster, rfl⟩ := hoption
    by_cases hlong : ∃ paramName, cluster = '-' :: paramName
    · obtain ⟨paramName, rfl⟩ := hlong
      exact Or.inl ⟨paramName, rfl⟩
    · exact Or.inr (Or.inl ⟨cluster, rfl, not_exists.mp hlong⟩)
  · exact Or.inr (Or.inr (not_exists.mp hoption))

theorem valueNames_cluster (parser : ArgumentParser) {cluster : Text}
    (h : ∀ paramName, cluster ≠ '-' :: paramName) :
    parser.valueNames ('-' :: cluster) =
      cluster.countP fun c => takesValue (parser.shortArg c) := by
  rw [valueNames]
  exact fun paramName heq => h paramName heq

theorem valueNames_positional (parser : ArgumentParser) {param : Text}
    (h : ∀ cluster, param ≠ '-' :: cluster) : parser.valueNames param = 0 := by
  rw [valueNames]
  · exact fun paramName heq => h _ heq
  · exact h

/-- An option is unknown, a flag, or one that takes a value, with or without a parameter behind
it. -/
@[elab_as_elim]
theorem option_cases {P : Option Argument → Option Text → Prop} (unknown : ∀ value, P none value)
    (flag : ∀ arg : Argument, arg.isFlag → ∀ value, P (some arg) value)
    (missing : ∀ arg : Argument, ¬arg.isFlag → P (some arg) none)
    (given : ∀ arg : Argument, ¬arg.isFlag → ∀ value, P (some arg) (some value))
    (arg : Option Argument) (value : Option Text) : P arg value := by
  cases arg with
  | none => exact unknown value
  | some arg =>
    by_cases hflag : arg.isFlag
    · exact flag arg hflag value
    · cases value with
      | none => exact missing arg hflag
      | some value => exact given arg hflag value

namespace ParseState

section Kinds

variable (s : ParseState)

theorem examine_cluster {cluster : Text} (h : ∀ paramName, cluster ≠ '-' :: paramName)
    (value : Option Text) : s.examine ('-' :: cluster) value = s.giveCluster value cluster := by
  rw [examine]
  exact fun paramName heq => h paramName heq

theorem examine_positional {param : Text} (h : ∀ cluster, param ≠ '-' :: cluster)
    (value : Option Text) : s.examine param value = (s.givePositional param, 0) := by
  rw [examine]
  · exact fun paramName heq => h _ heq
  · exact h

variable {arg : Argument} (name : Text)

theorem giveOption_flag (hflag : arg.isFlag) (value : Option Text) :
    s.giveOption (some arg) name value =
      ({ s with parser := s.parser.setValue arg.id "true".toList }, 0) := by
  simp only [giveOption, if_pos hflag]

theorem giveOption_value (hflag : ¬arg.isFlag) (value : Text) :
    s.giveOption (some arg) name (some value) =
      ({ s with parser := s.parser.setValue arg.id value }, 1) := by
  simp only [giveOption, if_neg hflag]

theorem giveOption_missing (hflag : ¬arg.isFlag) :
    s.giveOption (some arg) name none = (s.fail (missingValue name), 0) := by
  simp only [giveOption, if_neg hflag]

/-- An option reports an error, or it sets a value. -/
theorem giveOption_cases (arg : Option Argument) (value : Option Text) :
    (∃ message, (s.giveOption arg name value).1 = s.fail message) ∨
    ∃ a set, arg = some a ∧
      (s.giveOption arg name value).1 = { s with parser := s.parser.setValue a.id set } := by
  cases arg, value using option_cases with
  | unknown value => exact Or.inl ⟨_, rfl⟩
  | flag arg hflag value =>
    exact Or.inr ⟨arg, _, rfl, congrArg Prod.fst (giveOption_flag s name hflag value)⟩
  | missing arg hflag => exact Or.inl ⟨_, congrArg Prod.fst (giveOption_missing s name hflag)⟩
  | given arg hflag value =>
    exact Or.inr ⟨arg, _, rfl, congrArg Prod.fst (giveOption_value s name hflag value)⟩

end Kinds

/-! ### One turn -/

section Declarations

variable (s : ParseState) (value : Option Text)

theorem declarations_giveOption (arg : Option Argument) (name : Text) :
    (s.giveOption arg name value).1.parser.declarations = s.parser.declarations := by
  rcases giveOption_cases s name arg value with ⟨message, hfail⟩ | ⟨a, set, -, hset⟩
  · rw [hfail]
    rfl
  · rw [hset]
    exact declarations_setValue ..

theorem declarations_giveCluster (cluster : Text) :
    (s.giveCluster value cluster).1.parser.declarations = s.parser.declarations := by
  induction cluster generalizing s with
  | nil => rfl
  | cons c cluster ih => rw [giveCluster, ih, declarations_giveOption]

theorem declarations_givePositional (param : Text) :
    (s.givePositional param).parser.declarations = s.parser.declarations := by
  unfold givePositional
  split
  · exact declarations_setValue ..
  · rfl

/-- The loop changes only values. -/
theorem declarations_examine (param : Text) :
    (s.examine param value).1.parser.declarations = s.parser.declarations := by
  unfold examine
  split
  · exact declarations_giveOption ..
  · exact declarations_giveCluster ..
  · exact declarations_givePositional ..

end Declarations

/-- An option takes a value where there is one to take. -/
theorem giveOption_snd (s : ParseState) (arg : Option Argument) (name : Text)
    (value : Option Text) :
    (s.giveOption arg name value).2 = if value.isSome then (takesValue arg).toNat else 0 := by
  cases arg, value using option_cases with
  | unknown value => cases value <;> rfl
  | flag arg hflag value =>
    rw [giveOption_flag s name hflag]
    simp [takesValue, hflag]
  | missing arg hflag =>
    rw [giveOption_missing s name hflag]
    rfl
  | given arg hflag value =>
    rw [giveOption_value s name hflag]
    simp [takesValue, hflag]

theorem giveCluster_snd (s : ParseState) (value : Option Text) (cluster : Text) :
    (s.giveCluster value cluster).2 = if value.isSome then
      cluster.countP fun c => takesValue (s.parser.shortArg c) else 0 := by
  induction cluster generalizing s with
  | nil => cases value <;> rfl
  | cons c cluster ih =>
    have hrest := takesValue_shortArg_congr
      (declarations_giveOption s value (s.parser.shortArg c) [c])
    rw [giveCluster, giveOption_snd, ih, List.countP_cons]
    simp only [hrest]
    cases value with
    | none => rfl
    | some value =>
      simp only [Option.isSome_some, if_true]
      rw [Nat.add_comm]
      cases takesValue (s.parser.shortArg c) <;> rfl

theorem examine_snd (s : ParseState) (param : Text) (value : Option Text) :
    (s.examine param value).2 = if value.isSome then s.parser.valueNames param else 0 := by
  rcases param_cases param with ⟨paramName, rfl⟩ | ⟨cluster, rfl, hcluster⟩ | hpositional
  · exact giveOption_snd ..
  · rw [examine_cluster s hcluster, giveCluster_snd, valueNames_cluster s.parser hcluster]
  · rw [examine_positional s hpositional, valueNames_positional s.parser hpositional]
    cases value <;> rfl

/-- One turn of the loop. Behind the last parameter there is nothing to skip. -/
theorem parseFrom_cons (s : ParseState) (param : Text) (params : List Text) :
    s.parseFrom 0 (param :: params) =
      (s.examine param params.head?).1.parseFrom (s.parser.valueNames param) params := by
  rw [parseFrom, examine_snd]
  cases params with
  | nil => simp only [parseFrom]
  | cons value params => rfl

/-! ### Parameters that take no value -/

theorem giveOption_of_not_takesValue (s : ParseState) {arg : Option Argument}
    (h : takesValue arg = false) (name : Text) (value : Option Text) :
    s.giveOption arg name value = s.giveOption arg name none := by
  cases arg with
  | none => rfl
  | some arg =>
    have hflag : arg.isFlag = true := by simpa [takesValue] using h
    rw [giveOption_flag s name hflag, giveOption_flag s name hflag]

theorem giveCluster_of_not_takesValue (s : ParseState) {cluster : Text}
    (h : ∀ c ∈ cluster, takesValue (s.parser.shortArg c) = false) (value : Option Text) :
    s.giveCluster value cluster = s.giveCluster none cluster := by
  induction cluster generalizing s with
  | nil => rfl
  | cons c cluster ih =>
    rw [List.forall_mem_cons] at h
    have hfirst := giveOption_of_not_takesValue s h.1 [c] value
    have hrest := takesValue_shortArg_congr
      (declarations_giveOption s none (s.parser.shortArg c) [c])
    simp only [giveCluster, hfirst]
    rw [ih _ fun d hd => (hrest d).trans (h.2 d hd)]

/-- A parameter without such a name does not look at the next one. -/
theorem examine_of_valueNames_eq_zero (s : ParseState) {param : Text}
    (h : s.parser.valueNames param = 0) (value : Option Text) :
    s.examine param value = s.examine param none := by
  rcases param_cases param with ⟨paramName, rfl⟩ | ⟨cluster, rfl, hcluster⟩ | hpositional
  · have hflag : takesValue (s.parser.longArg paramName) = false := by simpa [valueNames] using h
    exact giveOption_of_not_takesValue s hflag paramName value
  · rw [valueNames_cluster s.parser hcluster, List.countP_eq_zero] at h
    rw [examine_cluster s hcluster, examine_cluster s hcluster]
    refine giveCluster_of_not_takesValue s (fun c hc => ?_) value
    simpa using h c hc
  · rw [examine_positional s hpositional, examine_positional s hpositional]

/-! ### The first part of a list -/

section Positionals

variable (s : ParseState) (value : Option Text)

theorem positionalArgs_giveOption (arg : Option Argument) (name : Text) :
    (s.giveOption arg name value).1.positionalArgs = s.positionalArgs := by
  rcases giveOption_cases s name arg value with ⟨message, hfail⟩ | ⟨a, set, -, hset⟩
  · rw [hfail, fail]
  · rw [hset]

theorem positionalArgs_giveCluster (cluster : Text) :
    (s.giveCluster value cluster).1.positionalArgs = s.positionalArgs := by
  induction cluster generalizing s with
  | nil => rfl
  | cons c cluster ih => rw [giveCluster, ih, positionalArgs_giveOption]

theorem positionalArgs_givePositional (param : Text) :
    (s.givePositional param).positionalArgs = s.positionalArgs.tail := by
  unfold givePositional
  split
  · next hargs => rw [hargs]; rfl
  · next hargs => rw [fail, hargs]; rfl

/-- Positional arguments are only taken off the queue. -/
theorem suffix_positionalArgs_examine (param : Text) :
    (s.examine param value).1.positionalArgs <:+ s.positionalArgs := by
  rcases param_cases param with ⟨paramName, rfl⟩ | ⟨cluster, rfl, hcluster⟩ | hpositional
  · exact (positionalArgs_giveOption ..).symm ▸ List.suffix_rfl
  · rw [examine_cluster s hcluster]
    exact (positionalArgs_giveCluster ..).symm ▸ List.suffix_rfl
  · rw [examine_positional s hpositional, positionalArgs_givePositional]
    exact List.tail_suffix _

end Positionals

/-- **The loop over the first part of a list.** Where no option of the first part is still to take a
value, the rest is examined from a state that does not depend on the rest. -/
theorem exists_parseFrom_append (s : ParseState) (skip : ℕ) (before : List Text)
    (h : s.parser.skipAfter skip before = 0) :
    ∃ s' : ParseState, s'.parser.declarations = s.parser.declarations ∧
      s'.positionalArgs <:+ s.positionalArgs ∧
      ∀ after, s.parseFrom skip (before ++ after) = s'.parseFrom 0 after := by
  induction before generalizing s skip with
  | nil =>
    obtain rfl : skip = 0 := h
    exact ⟨s, rfl, List.suffix_rfl, fun _ => rfl⟩
  | cons param before ih =>
    cases skip with
    | succ skip =>
      obtain ⟨s', hdeclarations, hargs, hparse⟩ := ih s skip h
      exact ⟨s', hdeclarations, hargs, fun after => hparse after⟩
    | zero =>
      -- What is looked up in front of the turn is part of `before`, or it does not matter.
      have hlook : ∀ after, (s.examine param (before ++ after).head?).1 =
          (s.examine param before.head?).1 := by
        intro after
        by_cases hnames : s.parser.valueNames param = 0
        · exact congrArg Prod.fst ((examine_of_valueNames_eq_zero s hnames _).trans
            (examine_of_valueNames_eq_zero s hnames _).symm)
        · cases before with
          | nil => exact absurd h hnames
          | cons value before => rfl
      have hdeclarations := declarations_examine s before.head? param
      obtain ⟨s', hdeclarations', hargs, hparse⟩ :=
        ih (s.examine param before.head?).1 (s.parser.valueNames param) (by
          rw [skipAfter_congr hdeclarations]
          exact h)
      refine ⟨s', hdeclarations'.trans hdeclarations,
        hargs.trans (suffix_positionalArgs_examine s _ param), fun after => ?_⟩
      rw [List.cons_append, parseFrom_cons, hlook, hparse]

end ParseState

end ArgumentParser

end AnanicyCpp
