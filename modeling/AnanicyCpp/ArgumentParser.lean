import AnanicyCpp.Library.Numeral
import AnanicyCpp.Library.Text
import Mathlib.Algebra.GroupWithZero.Nat

/-!
# The argument parser

`argument.cpp` and `argument_parser.cpp`. A parser is the list of its declared arguments in the
order of their ids, starting with the positional argument `command`, which takes the name of the
program. `parse_args` goes over the parameters once. Positional arguments take what is no option, in
the order of their declaration; an option that is no flag takes the next parameter. All options of a
cluster of short options that take a value take the same next parameter, but each of them skips one
parameter. An error does not end the loop, and the last one is reported.

The description of an argument is only printed, and it is left out.

## Main definitions

* `Argument`, `Argument.addName` : an argument, and the effect of giving it a name.
* `ArgumentParser.addArgument` : a declaration.
* `ArgumentParser.parseArgs` : the loop over the parameters.
* `ArgumentParser.getArg`, `ArgumentParser.isSet`, `ArgumentParser.valueOf` : the values after it.
* `ArgumentParser.positionalParams` : the parameters that are no options and no values of options.

## Main results

* `ArgumentParser.valueOf_parseArgs` : which parameter a positional argument gets.
-/

namespace AnanicyCpp

/-- The `type_index` of an argument. -/
inductive ValueType where
  | bool
  | string
  | uint32
  | uint64
deriving DecidableEq

/-- `argument` -/
structure Argument where
  id : ℕ
  name : Text
  shortNames : List Char
  longNames : List Text
  value : Option Text
  type : ValueType
  isPositional : Bool
  isFlag : Bool
deriving DecidableEq

namespace Argument

def undefinedName : Text := "<undefined>".toList

/-- `argument()` -/
def new (id : ℕ) : Argument := ⟨id, undefinedName, [], [], none, .bool, false, true⟩

/-- The first name of an argument is the one it is looked up by. -/
def keepName (arg : Argument) (actualName : Text) : Argument :=
  if arg.name = [] ∨ arg.name = undefinedName then { arg with name := actualName } else arg

/-- `argument::name`: a name without a dash makes the argument positional, one dash makes a short
name and two dashes a long one. An empty name is a `runtime_error`. -/
def addName (arg : Argument) : Text → Except String Argument
  | [] => .error "name can't be empty"
  | '-' :: '-' :: longName =>
      .ok ({ arg with longNames := arg.longNames ++ [longName] }.keepName longName)
  | '-' :: shortName =>
      let c := shortName.headD Text.nul
      .ok ({ arg with shortNames := arg.shortNames ++ [c] }.keepName [c])
  | nameValue => .ok ({ arg with isPositional := true }.keepName nameValue)

/-- `argument::type` -/
def setType (arg : Argument) (type : ValueType) : Argument := { arg with type, isFlag := false }

/-- `set_value`, for the argument with the id. -/
def setValueAt (id : ℕ) (value : Text) (arg : Argument) : Argument :=
  if arg.id = id then { arg with value := some value } else arg

section SetValueAt

variable (id : ℕ) (value : Text) (arg : Argument)

@[simp] theorem id_setValueAt : (arg.setValueAt id value).id = arg.id := by
  unfold setValueAt; split_ifs <;> rfl

@[simp] theorem name_setValueAt : (arg.setValueAt id value).name = arg.name := by
  unfold setValueAt; split_ifs <;> rfl

@[simp] theorem shortNames_setValueAt :
    (arg.setValueAt id value).shortNames = arg.shortNames := by
  unfold setValueAt; split_ifs <;> rfl

@[simp] theorem longNames_setValueAt : (arg.setValueAt id value).longNames = arg.longNames := by
  unfold setValueAt; split_ifs <;> rfl

@[simp] theorem isPositional_setValueAt :
    (arg.setValueAt id value).isPositional = arg.isPositional := by
  unfold setValueAt; split_ifs <;> rfl

@[simp] theorem isFlag_setValueAt : (arg.setValueAt id value).isFlag = arg.isFlag := by
  unfold setValueAt; split_ifs <;> rfl

end SetValueAt

end Argument

/-- The arguments in the order of their ids. -/
abbrev ArgumentParser := List Argument

namespace ArgumentParser

/-- The next value of `argument::_id`. -/
def nextId (parser : ArgumentParser) : ℕ := parser.length

/-- The constructor: the positional argument `command`. -/
def new : ArgumentParser :=
  [{ (Argument.new 0).setType .string with name := "command".toList, isPositional := true }]

/-- `add_argument()` with its names and its type. -/
def addArgument (parser : ArgumentParser) (names : List Text) (type : Option ValueType) :
    Except String ArgumentParser := do
  let arg ← names.foldlM Argument.addName (Argument.new parser.nextId)
  pure (parser ++ [type.elim arg arg.setType])

/-! ### Parsing -/

/-- `short_args`: a name that is declared twice belongs to the later argument. -/
def shortArg (parser : ArgumentParser) (c : Char) : Option Argument :=
  (parser.filter fun arg => !arg.isPositional && arg.shortNames.contains c).getLast?

/-- `long_args` -/
def longArg (parser : ArgumentParser) (name : Text) : Option Argument :=
  (parser.filter fun arg => !arg.isPositional && arg.longNames.contains name).getLast?

/-- `m_args[id].set_value(value)` -/
def setValue (parser : ArgumentParser) (id : ℕ) (value : Text) : ArgumentParser :=
  parser.map (Argument.setValueAt id value)

/-- The arguments, the ids of the positional ones that have no value yet, and the last error. -/
structure ParseState where
  parser : ArgumentParser
  positionalArgs : List ℕ
  error : Option Text
deriving DecidableEq

namespace ParseState

def init (parser : ArgumentParser) : ParseState :=
  ⟨parser, (parser.filter (·.isPositional)).map (·.id), none⟩

def fail (s : ParseState) (message : Text) : ParseState := { s with error := some message }

def unknownArgument (name : Text) : Text := "Unknown argument ".toList ++ name ++ ['!']

def missingValue (name : Text) : Text :=
  "Expected argument for parameter '".toList ++ name ++ "', none were found!".toList

def superfluous (param : Text) : Text :=
  "Argument '".toList ++ param ++ "' does not exist!".toList

/-- What an option does that was found, or was not, under its name: the state after it, and the
number of parameters that it skips. -/
def giveOption (s : ParseState) (arg : Option Argument) (name : Text) (value : Option Text) :
    ParseState × ℕ :=
  match arg with
  | none => (s.fail (unknownArgument name), 0)
  | some arg =>
    if arg.isFlag then ({ s with parser := s.parser.setValue arg.id "true".toList }, 0)
    else
      match value with
      | some value => ({ s with parser := s.parser.setValue arg.id value }, 1)
      | none => (s.fail (missingValue name), 0)

/-- A cluster of short options. The value was looked up in front of the cluster. -/
def giveCluster (value : Option Text) : ParseState → Text → ParseState × ℕ
  | s, [] => (s, 0)
  | s, c :: cluster =>
    let first := s.giveOption (s.parser.shortArg c) [c] value
    let rest := giveCluster value first.1 cluster
    (rest.1, first.2 + rest.2)

/-- A parameter that is no option. -/
def givePositional (s : ParseState) (param : Text) : ParseState :=
  match s.positionalArgs with
  | id :: positionalArgs =>
      { s with parser := s.parser.setValue id param, positionalArgs := positionalArgs }
  | [] => s.fail (superfluous param)

/-- The body of the loop. -/
def examine (s : ParseState) (param : Text) (value : Option Text) : ParseState × ℕ :=
  match param with
  | '-' :: '-' :: paramName => s.giveOption (s.parser.longArg paramName) paramName value
  | '-' :: cluster => s.giveCluster value cluster
  | param => (s.givePositional param, 0)

/-- The loop, with the number of parameters that are still to be skipped. -/
def parseFrom (s : ParseState) : ℕ → List Text → ParseState
  | _, [] => s
  | skip + 1, _ :: params => s.parseFrom skip params
  | 0, param :: params =>
    let next := s.examine param params.head?
    next.1.parseFrom next.2 params

end ParseState

/-- `parse_args`: the arguments with their values, and the error. -/
def parseArgs (parser : ArgumentParser) (params : List Text) : ArgumentParser × Option Text :=
  let s := (ParseState.init parser).parseFrom 0 params
  (s.parser, s.error)

/-! ### Values -/

/-- `get_arg`: the first argument with the name. -/
def getArg (parser : ArgumentParser) (name : Text) : Option Argument :=
  parser.find? fun arg => arg.name == name

/-- The conversion of `parser[name]` to `bool`. -/
def isSet (parser : ArgumentParser) (name : Text) : Bool :=
  match parser.getArg name with
  | some arg => arg.type == .bool && arg.value == some "true".toList
  | none => false

/-- The conversion of `parser[name]` to `std::optional<std::string>`. -/
def valueOf (parser : ArgumentParser) (name : Text) : Option Text :=
  (parser.getArg name).bind (·.value)

/-! ### Positional arguments -/

/-- The parameters that an option takes. -/
def valueCount (arg : Option Argument) (params : List Text) : ℕ :=
  if arg.any (fun arg => !arg.isFlag) && !params.isEmpty then 1 else 0

/-- The parameters that are no options and no values of options. -/
def positionalParams (parser : ArgumentParser) : ℕ → List Text → List Text
  | _, [] => []
  | skip + 1, _ :: params => parser.positionalParams skip params
  | 0, param :: params =>
    match param with
    | '-' :: '-' :: paramName =>
        parser.positionalParams (valueCount (parser.longArg paramName) params) params
    | '-' :: cluster =>
        parser.positionalParams (cluster.map fun c => valueCount (parser.shortArg c) params).sum
          params
    | param => param :: parser.positionalParams 0 params

section SetValue

variable (parser : ArgumentParser) (id : ℕ) (value : Text)

theorem shortArg_setValue (c : Char) :
    (parser.setValue id value).shortArg c =
      (parser.shortArg c).map (Argument.setValueAt id value) := by
  simp only [shortArg, setValue, List.filter_map, Function.comp_def, List.getLast?_map,
    Argument.isPositional_setValueAt, Argument.shortNames_setValueAt]

theorem longArg_setValue (name : Text) :
    (parser.setValue id value).longArg name =
      (parser.longArg name).map (Argument.setValueAt id value) := by
  simp only [longArg, setValue, List.filter_map, Function.comp_def, List.getLast?_map,
    Argument.isPositional_setValueAt, Argument.longNames_setValueAt]

theorem getArg_setValue (name : Text) :
    (parser.setValue id value).getArg name =
      (parser.getArg name).map (Argument.setValueAt id value) := by
  simp only [getArg, setValue, List.find?_map, Function.comp_def, Argument.name_setValueAt]

theorem valueCount_map (arg : Option Argument) (params : List Text) :
    valueCount (arg.map (Argument.setValueAt id value)) params = valueCount arg params := by
  simp only [valueCount, Option.any_map, Argument.isFlag_setValueAt]

/-- The values do not matter for which parameters are positional. -/
theorem positionalParams_setValue (skip : ℕ) (params : List Text) :
    (parser.setValue id value).positionalParams skip params =
      parser.positionalParams skip params := by
  fun_induction parser.positionalParams skip params with
  | case1 => rw [positionalParams]
  | case2 skip param params ih => rw [positionalParams, ih]
  | case3 params paramName ih => rw [positionalParams, longArg_setValue, valueCount_map, ih]
  | case4 params cluster hcluster ih =>
    rw [positionalParams]
    · simp only [shortArg_setValue, valueCount_map]
      exact ih
    · exact hcluster
  | case5 params param hlong hshort ih =>
    rw [positionalParams, ih] <;> assumption

end SetValue

section Declared

variable {parser : ArgumentParser}

theorem mem_of_shortArg {c : Char} {arg : Argument} (h : parser.shortArg c = some arg) :
    arg ∈ parser ∧ arg.isPositional = false := by
  obtain ⟨hmem, hdeclared⟩ := List.mem_filter.mp (List.mem_of_getLast? h)
  exact ⟨hmem, by simp_all⟩

theorem mem_of_longArg {name : Text} {arg : Argument} (h : parser.longArg name = some arg) :
    arg ∈ parser ∧ arg.isPositional = false := by
  obtain ⟨hmem, hdeclared⟩ := List.mem_filter.mp (List.mem_of_getLast? h)
  exact ⟨hmem, by simp_all⟩

end Declared

/-- The name belongs to a positional argument with the id, and no option has this id. -/
structure IsPositional (parser : ArgumentParser) (name : Text) (id : ℕ) : Prop where
  id_getArg : (parser.getArg name).map (·.id) = some id
  option_ne : ∀ arg ∈ parser, arg.isPositional = false → arg.id ≠ id

namespace IsPositional

variable {parser : ArgumentParser} {name : Text} {id : ℕ}

theorem setValue (h : parser.IsPositional name id) (id' : ℕ) (value : Text) :
    (parser.setValue id' value).IsPositional name id where
  id_getArg := by
    rw [getArg_setValue, Option.map_map]
    simpa [Function.comp_def] using h.id_getArg
  option_ne arg harg hoption := by
    obtain ⟨arg, hmem, rfl⟩ := List.mem_map.mp harg
    rw [Argument.isPositional_setValueAt] at hoption
    rw [Argument.id_setValueAt]
    exact h.option_ne arg hmem hoption

theorem valueOf_setValue (h : parser.IsPositional name id) (id' : ℕ) (value : Text) :
    (parser.setValue id' value).valueOf name =
      if id' = id then some value else parser.valueOf name := by
  obtain ⟨arg, harg, hid⟩ := Option.map_eq_some_iff.mp h.id_getArg
  rw [valueOf, getArg_setValue, valueOf, harg, ← hid]
  simp only [Option.map_some, Option.bind_some, Argument.setValueAt, eq_comm (a := id')]
  split_ifs <;> rfl

theorem ne_of_shortArg (h : parser.IsPositional name id) {c : Char} {arg : Argument}
    (harg : parser.shortArg c = some arg) : arg.id ≠ id := by
  obtain ⟨hmem, hoption⟩ := mem_of_shortArg harg
  exact h.option_ne arg hmem hoption

theorem ne_of_longArg (h : parser.IsPositional name id) {longName : Text} {arg : Argument}
    (harg : parser.longArg longName = some arg) : arg.id ≠ id := by
  obtain ⟨hmem, hoption⟩ := mem_of_longArg harg
  exact h.option_ne arg hmem hoption

end IsPositional

namespace ParseState

/-- What an option leaves alone. -/
structure SamePositionals (name : Text) (id : ℕ) (s s' : ParseState) : Prop where
  positionalArgs : s'.positionalArgs = s.positionalArgs
  isPositional : s'.parser.IsPositional name id
  valueOf : s'.parser.valueOf name = s.parser.valueOf name
  positionalParams : ∀ skip params,
    s'.parser.positionalParams skip params = s.parser.positionalParams skip params
  valueCount : ∀ c params,
    valueCount (s'.parser.shortArg c) params = valueCount (s.parser.shortArg c) params

variable {name : Text} {id : ℕ}

namespace SamePositionals

theorem refl {s : ParseState} (h : s.parser.IsPositional name id) : SamePositionals name id s s :=
  ⟨rfl, h, rfl, fun _ _ => rfl, fun _ _ => rfl⟩

theorem fail {s : ParseState} (h : s.parser.IsPositional name id) (message : Text) :
    SamePositionals name id s (s.fail message) :=
  ⟨rfl, h, rfl, fun _ _ => rfl, fun _ _ => rfl⟩

theorem trans {s s' s'' : ParseState} (h : SamePositionals name id s s')
    (h' : SamePositionals name id s' s'') : SamePositionals name id s s'' where
  positionalArgs := h'.positionalArgs.trans h.positionalArgs
  isPositional := h'.isPositional
  valueOf := h'.valueOf.trans h.valueOf
  positionalParams skip params :=
    (h'.positionalParams skip params).trans (h.positionalParams skip params)
  valueCount c params := (h'.valueCount c params).trans (h.valueCount c params)

theorem setValue {s : ParseState} (h : s.parser.IsPositional name id) {id' : ℕ} (hid : id' ≠ id)
    (value : Text) :
    SamePositionals name id s { s with parser := s.parser.setValue id' value } where
  positionalArgs := rfl
  isPositional := h.setValue id' value
  valueOf := by rw [h.valueOf_setValue, if_neg hid]
  positionalParams := positionalParams_setValue s.parser id' value
  valueCount c params := by rw [shortArg_setValue, valueCount_map]

end SamePositionals

theorem samePositionals_giveOption {s : ParseState} (h : s.parser.IsPositional name id)
    {arg : Option Argument} (harg : ∀ a, arg = some a → a.id ≠ id) (optionName : Text)
    (params : List Text) :
    SamePositionals name id s (s.giveOption arg optionName params.head?).1 ∧
    (s.giveOption arg optionName params.head?).2 = valueCount arg params := by
  cases arg with
  | none => exact ⟨.fail h _, rfl⟩
  | some arg =>
    have hid := harg arg rfl
    by_cases hflag : arg.isFlag
    · simp only [giveOption, if_pos hflag]
      exact ⟨.setValue h hid _, by simp [valueCount, hflag]⟩
    · cases params with
      | nil =>
        simp only [giveOption, if_neg hflag, List.head?_nil]
        exact ⟨.fail h _, by simp [valueCount]⟩
      | cons value params =>
        simp only [giveOption, if_neg hflag, List.head?_cons]
        exact ⟨.setValue h hid _, by simp [valueCount, hflag]⟩

theorem samePositionals_giveCluster (params : List Text) (cluster : Text) {s : ParseState}
    (h : s.parser.IsPositional name id) :
    SamePositionals name id s (s.giveCluster params.head? cluster).1 ∧
    (s.giveCluster params.head? cluster).2 =
      (cluster.map fun c => valueCount (s.parser.shortArg c) params).sum := by
  induction cluster generalizing s with
  | nil => exact ⟨.refl h, rfl⟩
  | cons c cluster ih =>
    obtain ⟨hfirst, hcount⟩ := samePositionals_giveOption h
      (fun _ => h.ne_of_shortArg) [c] params
    obtain ⟨hrest, hsum⟩ := ih hfirst.isPositional
    refine ⟨hfirst.trans hrest, ?_⟩
    simp only [giveCluster, hcount, hsum, hfirst.valueCount, List.map_cons, List.sum_cons]

/-- The parameter that the positional argument with the id gets. -/
def given (positionalArgs : List ℕ) (id : ℕ) (params : List Text) : Option Text :=
  (positionalArgs.zip params).lookup id

theorem given_eq_none {positionalArgs : List ℕ} (h : id ∉ positionalArgs) (params : List Text) :
    given positionalArgs id params = none := by
  refine List.lookup_eq_none_iff.mpr fun p hp => bne_iff_ne.mpr ?_
  rintro rfl
  exact h (List.of_mem_zip hp).1

theorem given_cons (id' : ℕ) (positionalArgs : List ℕ) (param : Text) (params : List Text) :
    given (id' :: positionalArgs) id (param :: params) =
      if id' = id then some param else given positionalArgs id params := by
  rw [given, List.zip_cons_cons, List.lookup_cons, given]
  by_cases hid : id' = id
  · simp [hid]
  · have hbeq : (id == id') = false := beq_eq_false_iff_ne.mpr (Ne.symm hid)
    rw [hbeq, if_neg hid]

/-- A parameter that is no option goes to the next positional argument. -/
theorem given_givePositional {s : ParseState} (h : s.parser.IsPositional name id)
    (hnodup : s.positionalArgs.Nodup) (param : Text) (params : List Text) :
    (given (s.givePositional param).positionalArgs id params).or
        ((s.givePositional param).parser.valueOf name) =
      (given s.positionalArgs id (param :: params)).or (s.parser.valueOf name) := by
  cases hargs : s.positionalArgs with
  | nil =>
    simp only [givePositional, hargs]
    rw [given_eq_none (by simp [fail, hargs]), given_eq_none (by simp)]
    rfl
  | cons id' positionalArgs =>
    rw [hargs, List.nodup_cons] at hnodup
    simp only [givePositional, hargs]
    rw [h.valueOf_setValue, given_cons]
    split_ifs with hid
    · subst hid
      rw [given_eq_none hnodup.1]
      rfl
    · rfl

/-- What such a parameter leaves alone. -/
theorem givePositional_spec {s : ParseState} (h : s.parser.IsPositional name id)
    (hnodup : s.positionalArgs.Nodup) (param : Text) :
    (s.givePositional param).parser.IsPositional name id ∧
    (s.givePositional param).positionalArgs.Nodup ∧
    ∀ skip params, (s.givePositional param).parser.positionalParams skip params =
      s.parser.positionalParams skip params := by
  cases hargs : s.positionalArgs with
  | nil =>
    simp only [givePositional, hargs]
    exact ⟨h, hnodup, fun _ _ => rfl⟩
  | cons id' positionalArgs =>
    rw [hargs, List.nodup_cons] at hnodup
    simp only [givePositional, hargs]
    exact ⟨h.setValue id' param, hnodup.2, positionalParams_setValue s.parser id' param⟩

/-- Parameters that are no options go to the positional arguments in the order of their
declaration. -/
theorem valueOf_parseFrom {s : ParseState} (h : s.parser.IsPositional name id)
    (hnodup : s.positionalArgs.Nodup) (skip : ℕ) (params : List Text) :
    (s.parseFrom skip params).parser.valueOf name =
      (given s.positionalArgs id (s.parser.positionalParams skip params)).or
        (s.parser.valueOf name) := by
  induction params generalizing s skip with
  | nil => simp [parseFrom, positionalParams, given]
  | cons param params ih =>
    cases skip with
    | succ skip => rw [parseFrom, ih h hnodup, positionalParams]
    | zero =>
      -- After an option: nothing that the induction hypothesis speaks of has changed.
      have hoption : ∀ {next : ParseState × ℕ} {count : ℕ},
          SamePositionals name id s next.1 ∧ next.2 = count →
          (next.1.parseFrom next.2 params).parser.valueOf name =
            (given s.positionalArgs id (s.parser.positionalParams count params)).or
              (s.parser.valueOf name) := by
        rintro next count ⟨hnext, rfl⟩
        rw [ih hnext.isPositional (hnext.positionalArgs ▸ hnodup), hnext.positionalArgs,
          hnext.positionalParams, hnext.valueOf]
      rw [parseFrom]
      unfold examine
      split
      · rw [positionalParams]
        exact hoption (samePositionals_giveOption h (fun _ => h.ne_of_longArg) _ params)
      · next cluster hcluster =>
        rw [positionalParams]
        · exact hoption (samePositionals_giveCluster params cluster h)
        · exact hcluster
      · next hlong hshort =>
        obtain ⟨hpositional, hnodup', hparams⟩ := givePositional_spec h hnodup param
        rw [positionalParams]
        · rw [ih hpositional hnodup', hparams, given_givePositional h hnodup]
        · exact hlong
        · exact hshort

end ParseState

/-- Which parameter a positional argument gets: the one at its place among those that are no options
and no values of options. -/
theorem valueOf_parseArgs {parser : ArgumentParser} {name : Text} {id : ℕ}
    (h : parser.IsPositional name id) (hvalue : parser.valueOf name = none)
    (hnodup : (ParseState.init parser).positionalArgs.Nodup) (params : List Text) :
    (parser.parseArgs params).1.valueOf name =
      ParseState.given (ParseState.init parser).positionalArgs id
        (parser.positionalParams 0 params) := by
  rw [parseArgs, ParseState.valueOf_parseFrom h hnodup]
  simp only [ParseState.init, hvalue, Option.or_none]

end ArgumentParser

end AnanicyCpp
