import AnanicyCpp.ArgumentParser.Tokens
import Mathlib.Data.List.Nodup

/-!
# Flags among the parameters

A flag takes no parameter, and what the other options and the positional arguments get does not
depend on where flags stand. The state of `parse_args` in which a flag is set is followed beside the
state in which it is not: the loop takes the same turns from both.

## Main definitions

* `ArgumentParser.DistinctNames` : no two arguments have a name in common.
* `ArgumentParser.ParseState.flagged` : the state in which an argument is set to `true`.
* `ArgumentParser.ParseState.OnlyFlag` : the id of an argument that takes nothing else.
* `ArgumentParser.positionals` : the positional arguments in the order of their declaration.

## Main results

* `ArgumentParser.ParseState.parseFrom_flagged` : the loop from a state in which the flag is set.
* `ArgumentParser.ParseState.positionals_parseFrom` : what the positional arguments get.
* `ArgumentParser.parseArgs_insert_flag` : a flag can be given anywhere.
-/

namespace AnanicyCpp

/-- Two values can be set in either order, unless they are different values of one argument. -/
theorem Argument.setValueAt_comm {id id' : ℕ} {value value' : Text}
    (h : id = id' → value = value') (arg : Argument) :
    (arg.setValueAt id value).setValueAt id' value' =
      (arg.setValueAt id' value').setValueAt id value := by
  simp only [setValueAt]
  split_ifs with hid hid' hid'
  · rw [h (hid.symm.trans hid')]
  · rfl
  · rfl
  · rfl

namespace ArgumentParser

theorem setValue_comm (parser : ArgumentParser) {id id' : ℕ} {value value' : Text}
    (h : id = id' → value = value') :
    (parser.setValue id value).setValue id' value' =
      (parser.setValue id' value').setValue id value := by
  simp only [setValue, List.map_map]
  exact List.map_congr_left fun arg _ => arg.setValueAt_comm h

/-- No two arguments have a name in common. -/
def DistinctNames (parser : ArgumentParser) : Prop :=
  ∀ arg ∈ parser, ∀ arg' ∈ parser, arg ≠ arg' →
    (∀ c ∈ arg.shortNames, c ∉ arg'.shortNames) ∧ ∀ name ∈ arg.longNames, name ∉ arg'.longNames

/-- A long name finds the option that has been declared with it. -/
theorem DistinctNames.longArg {parser : ArgumentParser} (h : parser.DistinctNames) {arg : Argument}
    (harg : arg ∈ parser) (hoption : arg.isPositional = false) {name : Text}
    (hname : name ∈ arg.longNames) : parser.longArg name = some arg := by
  have hmem : arg ∈ parser.filter fun arg => !arg.isPositional && arg.longNames.contains name :=
    List.mem_filter.mpr ⟨harg, by simp [hoption, hname]⟩
  cases hlast : parser.longArg name with
  | none => exact absurd (List.getLast?_eq_none_iff.mp hlast) (List.ne_nil_of_mem hmem)
  | some last =>
    obtain ⟨hmem', hdeclared⟩ := List.mem_filter.mp (List.mem_of_getLast? hlast)
    have hname' : name ∈ last.longNames := by simp_all
    by_contra hne
    exact (h arg harg last hmem' fun heq => hne (heq ▸ rfl)).2 name hname hname'

section Ids

variable {parser : ArgumentParser}

theorem map_id_congr {parser' : ArgumentParser}
    (h : parser'.declarations = parser.declarations) :
    parser'.map (·.id) = parser.map (·.id) := by
  have hids : ∀ parser : ArgumentParser, parser.declarations.map (·.id) = parser.map (·.id) :=
    fun parser => List.map_map
  rw [← hids, h, hids]

theorem eq_of_id_eq (hids : (parser.map (·.id)).Nodup) {arg arg' : Argument} (harg : arg ∈ parser)
    (harg' : arg' ∈ parser) (heq : arg.id = arg'.id) : arg = arg' :=
  List.inj_on_of_nodup_map hids harg harg' heq

/-- The positional arguments in the order of their declaration. -/
def positionals (parser : ArgumentParser) : List Argument := parser.filter (·.isPositional)

theorem ne_of_mem_positionals (hids : (parser.map (·.id)).Nodup) {arg : Argument}
    (harg : arg ∈ parser) (hoption : arg.isPositional = false) :
    ∀ p ∈ parser.positionals, p.id ≠ arg.id := by
  intro p hp heq
  obtain ⟨hp, hpositional⟩ := List.mem_filter.mp hp
  rw [eq_of_id_eq hids hp harg heq, hoption] at hpositional
  exact Bool.false_ne_true hpositional

end Ids

namespace ParseState

/-! ### A flag that is set -/

/-- The state in which the argument with the id is `true`. -/
def flagged (s : ParseState) (id : ℕ) : ParseState :=
  { s with parser := s.parser.setValue id "true".toList }

/-- Only flags have the id. -/
structure OnlyFlag (s : ParseState) (id : ℕ) : Prop where
  isFlag : ∀ arg ∈ s.parser.declarations, arg.id = id → arg.isFlag = true
  not_mem : id ∉ s.positionalArgs

namespace OnlyFlag

variable {s s' : ParseState} {id : ℕ}

theorem of_declarations (h : s.OnlyFlag id)
    (hdeclarations : s'.parser.declarations = s.parser.declarations)
    (hargs : s'.positionalArgs <:+ s.positionalArgs) : s'.OnlyFlag id where
  isFlag := hdeclarations ▸ h.isFlag
  not_mem hmem := h.not_mem (hargs.subset hmem)

theorem isFlag_of_mem (h : s.OnlyFlag id) {arg : Argument} (harg : arg ∈ s.parser)
    (hid : arg.id = id) : arg.isFlag = true :=
  h.isFlag arg.unset (List.mem_map_of_mem harg) hid

end OnlyFlag

variable {s : ParseState} {id : ℕ} (value : Option Text)

/-- The steps of an option are the same, where the flag is set. -/
theorem giveOption_flagged {arg : Option Argument}
    (hflag : ∀ a, arg = some a → a.id = id → a.isFlag = true) (name : Text) :
    (s.flagged id).giveOption (arg.map (Argument.setValueAt id "true".toList)) name value =
      ((s.giveOption arg name value).1.flagged id, (s.giveOption arg name value).2) := by
  cases arg with
  | none => rfl
  | some arg =>
    rw [Option.map_some]
    by_cases harg : arg.isFlag
    · have harg' : (arg.setValueAt id "true".toList).isFlag := by
        rw [Argument.isFlag_setValueAt]
        exact harg
      rw [giveOption_flag _ name harg, giveOption_flag _ name harg', Argument.id_setValueAt]
      simp only [flagged]
      rw [setValue_comm s.parser fun _ => rfl]
    · have harg' : ¬(arg.setValueAt id "true".toList).isFlag := by
        rw [Argument.isFlag_setValueAt]
        exact harg
      have hid : arg.id ≠ id := fun hid => harg (hflag arg rfl hid)
      cases value with
      | none =>
        rw [giveOption_missing _ name harg, giveOption_missing _ name harg']
        rfl
      | some value =>
        rw [giveOption_value _ name harg, giveOption_value _ name harg', Argument.id_setValueAt]
        simp only [flagged]
        rw [setValue_comm s.parser fun heq => absurd heq.symm hid]

theorem giveCluster_flagged (h : s.OnlyFlag id) (cluster : Text) :
    (s.flagged id).giveCluster value cluster =
      ((s.giveCluster value cluster).1.flagged id, (s.giveCluster value cluster).2) := by
  induction cluster generalizing s with
  | nil => rfl
  | cons c cluster ih =>
    have hfirst := @giveOption_flagged s id value (s.parser.shortArg c)
      (fun _ ha => h.isFlag_of_mem (mem_of_shortArg ha).1) [c]
    have hrest : (s.giveOption (s.parser.shortArg c) [c] value).1.OnlyFlag id :=
      h.of_declarations (declarations_giveOption s value _ [c])
        ((positionalArgs_giveOption s value _ [c]).symm ▸ List.suffix_rfl)
    have hname : (s.flagged id).parser.shortArg c =
        (s.parser.shortArg c).map (Argument.setValueAt id "true".toList) :=
      shortArg_setValue ..
    rw [giveCluster, hname, hfirst, ih hrest, giveCluster]

theorem givePositional_flagged (h : s.OnlyFlag id) (param : Text) :
    (s.flagged id).givePositional param = (s.givePositional param).flagged id := by
  cases hpositional : s.positionalArgs with
  | nil =>
    simp only [givePositional, hpositional, flagged, fail]
  | cons id' positionalArgs =>
    have hid : id ≠ id' := fun heq => h.not_mem (hpositional ▸ heq ▸ List.mem_cons_self)
    simp only [givePositional, hpositional, flagged]
    rw [setValue_comm s.parser fun heq => absurd heq hid]

theorem examine_flagged (h : s.OnlyFlag id) (param : Text) :
    (s.flagged id).examine param value =
      ((s.examine param value).1.flagged id, (s.examine param value).2) := by
  rcases param_cases param with ⟨paramName, rfl⟩ | ⟨cluster, rfl, hcluster⟩ | hpositional
  · have hname : (s.flagged id).parser.longArg paramName =
        (s.parser.longArg paramName).map (Argument.setValueAt id "true".toList) :=
      longArg_setValue ..
    rw [examine, hname]
    exact giveOption_flagged value (fun _ ha => h.isFlag_of_mem (mem_of_longArg ha).1) paramName
  · rw [examine_cluster _ hcluster, examine_cluster _ hcluster, giveCluster_flagged value h]
  · rw [examine_positional _ hpositional, examine_positional _ hpositional,
      givePositional_flagged h]

/-- **The loop from a state in which the flag is set** takes the same turns. -/
theorem parseFrom_flagged (h : s.OnlyFlag id) (skip : ℕ) (params : List Text) :
    (s.flagged id).parseFrom skip params = (s.parseFrom skip params).flagged id := by
  induction params generalizing s skip with
  | nil => simp only [parseFrom]
  | cons param params ih =>
    cases skip with
    | succ skip => exact ih h skip
    | zero =>
      have hnext : (s.examine param params.head?).1.OnlyFlag id :=
        h.of_declarations (declarations_examine s _ param) (suffix_positionalArgs_examine s _ param)
      rw [parseFrom, examine_flagged _ h, parseFrom, ih hnext]

end ParseState

/-! ### Positional arguments -/

theorem positionals_setValue (parser : ArgumentParser) (id : ℕ) (value : Text) :
    (parser.setValue id value).positionals = setValue parser.positionals id value := by
  simp only [positionals, setValue, List.filter_map, Function.comp_def,
    Argument.isPositional_setValueAt]

theorem setValue_of_forall_ne {parser : ArgumentParser} {id : ℕ}
    (h : ∀ arg ∈ parser, arg.id ≠ id) (value : Text) : parser.setValue id value = parser :=
  (List.map_congr_left fun arg harg => if_neg (h arg harg)).trans (List.map_id' _)

/-- A parameter that is no option. -/
def nonOption (param : Text) : List Text :=
  if param.head? = some '-' then [] else [param]

theorem nonOption_of_positional {param : Text} (h : ∀ cluster, param ≠ '-' :: cluster) :
    nonOption param = [param] := by
  refine if_neg fun hhead => ?_
  obtain ⟨cluster, hcluster⟩ := List.head?_eq_some_iff.mp hhead
  exact h cluster hcluster

theorem valueCount_eq (arg : Option Argument) (params : List Text) :
    valueCount arg params = if params.head?.isSome then (takesValue arg).toNat else 0 := by
  unfold valueCount takesValue
  cases params with
  | nil => simp
  | cons value params =>
    cases arg.any fun arg => !arg.isFlag <;> rfl

theorem sum_valueCount (parser : ArgumentParser) (cluster : Text) (params : List Text) :
    (cluster.map fun c => valueCount (parser.shortArg c) params).sum =
      if params.head?.isSome then cluster.countP fun c => takesValue (parser.shortArg c)
      else 0 := by
  induction cluster with
  | nil => simp
  | cons c cluster ih =>
    rw [List.map_cons, List.sum_cons, ih, valueCount_eq, List.countP_cons]
    split_ifs with hsome htakes <;> simp_all [Nat.add_comm]

/-- The first parameter is positional unless it is an option, and what it skips is not. -/
theorem positionalParams_cons (parser : ArgumentParser) (param : Text) (params : List Text) :
    parser.positionalParams 0 (param :: params) =
      nonOption param ++ parser.positionalParams (parser.valueNames param) params := by
  -- Behind the last parameter there is nothing to skip.
  have hlast : ∀ count, parser.positionalParams (if params.head?.isSome then count else 0) params =
      parser.positionalParams count params := by
    intro count
    cases params with
    | nil => simp only [positionalParams]
    | cons value params => rfl
  rcases param_cases param with ⟨paramName, rfl⟩ | ⟨cluster, rfl, hcluster⟩ | hpositional
  · rw [positionalParams, valueCount_eq, hlast]
    rfl
  · rw [valueNames_cluster parser hcluster, positionalParams]
    · rw [sum_valueCount, hlast]
      rfl
    · exact fun paramName heq => hcluster paramName heq
  · rw [valueNames_positional parser hpositional, nonOption_of_positional hpositional,
      positionalParams]
    · rfl
    · exact fun paramName heq => hpositional _ heq
    · exact hpositional

theorem positionalParams_congr {parser parser' : ArgumentParser}
    (h : parser'.declarations = parser.declarations) (skip : ℕ) (params : List Text) :
    parser'.positionalParams skip params = parser.positionalParams skip params := by
  induction params generalizing skip with
  | nil => simp only [positionalParams]
  | cons param params ih =>
    cases skip with
    | succ skip => exact ih skip
    | zero => rw [positionalParams_cons, positionalParams_cons, valueNames_congr h, ih]

/-- Where no option of the first part is still to take a value, the parts have their own. -/
theorem positionalParams_append (parser : ArgumentParser) {skip : ℕ} {before : List Text}
    (h : parser.skipAfter skip before = 0) (after : List Text) :
    parser.positionalParams skip (before ++ after) =
      parser.positionalParams skip before ++ parser.positionalParams 0 after := by
  induction before generalizing skip with
  | nil =>
    obtain rfl : skip = 0 := h
    simp only [positionalParams, List.nil_append]
  | cons param before ih =>
    cases skip with
    | succ skip => exact ih h
    | zero =>
      rw [skipAfter] at h
      rw [List.cons_append, positionalParams_cons, positionalParams_cons, ih h, List.append_assoc]

/-- The arguments with the ids get the parameters, one after the other. -/
def fill (args : ArgumentParser) (ids : List ℕ) (params : List Text) : ArgumentParser :=
  (ids.zip params).foldl (fun args given => args.setValue given.1 given.2) args

theorem fill_cons (arg : Argument) (args : ArgumentParser) {ids : List ℕ} (h : arg.id ∉ ids)
    (params : List Text) : fill (arg :: args) ids params = arg :: args.fill ids params := by
  induction ids generalizing args params with
  | nil => rfl
  | cons id ids ih =>
    rw [List.mem_cons, not_or] at h
    cases params with
    | nil => rfl
    | cons param params =>
      have hfirst : setValue (arg :: args) id param = arg :: args.setValue id param := by
        rw [setValue, List.map_cons, Argument.setValueAt, if_neg h.1]
        rfl
      rw [fill, List.zip_cons_cons, List.foldl_cons, hfirst]
      exact ih _ h.2 params

/-- The k-th argument gets the k-th parameter, if there is one. -/
theorem getElem?_fill {args : ArgumentParser} (h : (args.map (·.id)).Nodup) (params : List Text)
    (k : ℕ) :
    (args.fill (args.map (·.id)) params)[k]? =
      args[k]?.map fun arg => { arg with value := params[k]?.or arg.value } := by
  induction args generalizing params k with
  | nil => rfl
  | cons arg args ih =>
    rw [List.map_cons, List.nodup_cons] at h
    cases params with
    | nil => simp [fill]
    | cons param params =>
      have hrest : setValue args arg.id param = args :=
        setValue_of_forall_ne
          (fun arg' harg' heq => h.1 (List.mem_map.mpr ⟨arg', harg', heq⟩)) param
      have hfirst : setValue (arg :: args) arg.id param =
          { arg with value := some param } :: args := by
        rw [setValue, List.map_cons, Argument.setValueAt, if_pos rfl]
        exact congrArg _ hrest
      rw [fill, List.map_cons, List.zip_cons_cons, List.foldl_cons, hfirst]
      have hcons := fill_cons { arg with value := some param } args h.1 params
      rw [fill] at hcons
      rw [hcons]
      cases k with
      | zero => rfl
      | succ k => exact ih h.2 params k

namespace ParseState

variable (s : ParseState) (value : Option Text)

theorem positionals_giveOption (hids : (s.parser.map (·.id)).Nodup) {arg : Option Argument}
    (h : ∀ a, arg = some a → a ∈ s.parser ∧ a.isPositional = false) (name : Text) :
    (s.giveOption arg name value).1.parser.positionals = s.parser.positionals := by
  rcases giveOption_cases s name arg value with ⟨message, hfail⟩ | ⟨a, set, ha, hset⟩
  · rw [hfail]
    rfl
  · obtain ⟨hmem, hoption⟩ := h a ha
    rw [hset]
    exact (positionals_setValue ..).trans
      (setValue_of_forall_ne (ne_of_mem_positionals hids hmem hoption) set)

theorem positionals_giveCluster (hids : (s.parser.map (·.id)).Nodup) (cluster : Text) :
    (s.giveCluster value cluster).1.parser.positionals = s.parser.positionals := by
  induction cluster generalizing s with
  | nil => rfl
  | cons c cluster ih =>
    have hids' : ((s.giveOption (s.parser.shortArg c) [c] value).1.parser.map (·.id)).Nodup := by
      rw [map_id_congr (declarations_giveOption s value _ [c])]
      exact hids
    rw [giveCluster, ih _ hids', positionals_giveOption s value hids fun _ => mem_of_shortArg]

/-- One turn gives its parameter to the next positional argument, unless it is an option. -/
theorem fill_examine (hids : (s.parser.map (·.id)).Nodup) (param : Text) (params : List Text) :
    fill (s.examine param value).1.parser.positionals (s.examine param value).1.positionalArgs
        params =
      fill s.parser.positionals s.positionalArgs (nonOption param ++ params) := by
  rcases param_cases param with ⟨paramName, rfl⟩ | ⟨cluster, rfl, hcluster⟩ | hpositional
  · rw [examine, positionals_giveOption s value hids fun _ => mem_of_longArg,
      positionalArgs_giveOption]
    rfl
  · rw [examine_cluster s hcluster, positionals_giveCluster s value hids,
      positionalArgs_giveCluster]
    rfl
  · rw [examine_positional s hpositional, nonOption_of_positional hpositional]
    cases hargs : s.positionalArgs with
    | nil => simp only [givePositional, hargs, fail, fill, List.zip_nil_left]
    | cons id positionalArgs =>
      simp only [givePositional, hargs]
      rw [positionals_setValue]
      rfl

/-- **What the positional arguments get**: the parameters that are no options and no values of
options, one after the other. -/
theorem positionals_parseFrom (hids : (s.parser.map (·.id)).Nodup) (skip : ℕ)
    (params : List Text) :
    (s.parseFrom skip params).parser.positionals =
      fill s.parser.positionals s.positionalArgs (s.parser.positionalParams skip params) := by
  induction params generalizing s skip with
  | nil => simp only [parseFrom, positionalParams, fill, List.zip_nil_right, List.foldl_nil]
  | cons param params ih =>
    cases skip with
    | succ skip => exact ih s hids skip
    | zero =>
      have hdeclarations := declarations_examine s params.head? param
      have hids' : ((s.examine param params.head?).1.parser.map (·.id)).Nodup := by
        rw [map_id_congr hdeclarations]
        exact hids
      rw [parseFrom_cons, ih _ hids', positionalParams_congr hdeclarations,
        fill_examine s _ hids, positionalParams_cons]

end ParseState

/-- The k-th positional argument gets the k-th parameter that is no option and no value of one. -/
theorem getElem?_positionals_parseArgs {parser : ArgumentParser}
    (hids : (parser.map (·.id)).Nodup) (params : List Text) (k : ℕ) :
    (parser.parseArgs params).1.positionals[k]? = parser.positionals[k]?.map fun arg =>
      { arg with value := (parser.positionalParams 0 params)[k]?.or arg.value } := by
  rw [parseArgs, ParseState.positionals_parseFrom _ hids]
  exact getElem?_fill (hids.sublist (List.filter_sublist.map _)) _ k

/-! ### The flag anywhere -/

/-- Where each parameter takes at most one value, and the last one none, nothing is to be skipped
behind them. -/
theorem skipAfter_eq_zero {parser : ArgumentParser} {before : List Text}
    (hvalues : ∀ param ∈ before, parser.valueNames param ≤ 1)
    (hlast : ∀ param ∈ before.getLast?, parser.valueNames param = 0) {skip : ℕ} (hskip : skip ≤ 1)
    (hempty : before = [] → skip = 0) : parser.skipAfter skip before = 0 := by
  induction before generalizing skip with
  | nil => exact hempty rfl
  | cons param before ih =>
    rw [List.forall_mem_cons] at hvalues
    have hlast' : ∀ param ∈ before.getLast?, parser.valueNames param = 0 := by
      intro param' hparam'
      refine hlast param' ?_
      rw [List.getLast?_cons, Option.mem_def.mp hparam']
      rfl
    cases skip with
    | succ skip => exact ih hvalues.2 hlast' (by omega) fun _ => by omega
    | zero =>
      refine ih hvalues.2 hlast' hvalues.1 fun hnil => hlast param ?_
      rw [hnil]
      rfl

/-- A flag can be set where the loop looks at the next parameter. -/
theorem examine_flag {s : ParseState} {f : Argument} {flagName : Text}
    (hlong : (s.parser.longArg flagName).map Argument.unset = some f.unset)
    (hflag : f.isFlag = true) (value : Option Text) :
    (s.examine ('-' :: '-' :: flagName) value).1 = s.flagged f.id ∧
    s.parser.valueNames ('-' :: '-' :: flagName) = 0 := by
  obtain ⟨arg, harg, hunset⟩ := Option.map_eq_some_iff.mp hlong
  have hid : arg.id = f.id := by
    change arg.unset.id = f.unset.id
    rw [hunset]
  have hargFlag : arg.isFlag = true := by
    change arg.unset.isFlag = true
    rw [hunset]
    exact hflag
  constructor
  · rw [ParseState.examine, harg, ParseState.giveOption_flag s flagName hargFlag, hid]
    rfl
  · rw [valueNames, harg]
    simp [takesValue, hargFlag]

theorem onlyFlag_init {parser : ArgumentParser} (hids : (parser.map (·.id)).Nodup) {f : Argument}
    (hf : f ∈ parser) (hoption : f.isPositional = false) (hflag : f.isFlag = true) :
    (ParseState.init parser).OnlyFlag f.id where
  isFlag arg harg hid := by
    obtain ⟨declared, hdeclared, rfl⟩ := List.mem_map.mp harg
    rw [eq_of_id_eq hids hdeclared hf hid]
    exact hflag
  not_mem hmem := by
    obtain ⟨arg, harg, hid⟩ := List.mem_map.mp hmem
    exact ne_of_mem_positionals hids hf hoption arg harg hid

/-- **A flag can be given anywhere.** Let the arguments have different ids, which are the keys of
their map, and no name in common, and let no parameter take two values. Where `--f` is put at the
start or behind a parameter that takes no value, the error of `parse_args` is the same, the flag is
set, all other arguments have the same values, and the same parameters are positional; in every list
the k-th of these goes to the k-th positional argument. -/
theorem parseArgs_insert_flag {parser : ArgumentParser} (hids : (parser.map (·.id)).Nodup)
    (hnames : parser.DistinctNames) {f : Argument} (hf : f ∈ parser)
    (hoption : f.isPositional = false) (hflag : f.isFlag = true) {flagName : Text}
    (hname : flagName ∈ f.longNames) {before after : List Text}
    (hvalues : ∀ param ∈ before ++ after, parser.valueNames param ≤ 1)
    (hplace : ∀ param ∈ before.getLast?, parser.valueNames param = 0) :
    (parser.parseArgs (before ++ ('-' :: '-' :: flagName) :: after)).2 =
        (parser.parseArgs (before ++ after)).2 ∧
    (parser.parseArgs (before ++ ('-' :: '-' :: flagName) :: after)).1 =
        (parser.parseArgs (before ++ after)).1.setValue f.id "true".toList ∧
    parser.positionalParams 0 (before ++ ('-' :: '-' :: flagName) :: after) =
        parser.positionalParams 0 (before ++ after) ∧
    ∀ (params : List Text) (k : ℕ),
      (parser.parseArgs params).1.positionals[k]? = parser.positionals[k]?.map fun arg =>
        { arg with value := (parser.positionalParams 0 params)[k]?.or arg.value } := by
  have hskip : parser.skipAfter 0 before = 0 :=
    skipAfter_eq_zero (fun param hparam => hvalues param (List.mem_append_left _ hparam)) hplace
      (Nat.zero_le 1) fun _ => rfl
  have hlong : parser.longArg flagName = some f := hnames.longArg hf hoption hname
  have honly := onlyFlag_init hids hf hoption hflag
  obtain ⟨s, hdeclarations, hargs, hparse⟩ :=
    ParseState.exists_parseFrom_append (ParseState.init parser) 0 before hskip
  have hlong' : (s.parser.longArg flagName).map Argument.unset = some f.unset := by
    rw [← longArg_declarations, hdeclarations, longArg_declarations]
    exact congrArg _ hlong
  have hinsert : (ParseState.init parser).parseFrom 0
      (before ++ ('-' :: '-' :: flagName) :: after) =
        ((ParseState.init parser).parseFrom 0 (before ++ after)).flagged f.id := by
    obtain ⟨hexamine, hzero⟩ := examine_flag hlong' hflag after.head?
    rw [hparse, hparse, ParseState.parseFrom_cons, hexamine, hzero,
      ParseState.parseFrom_flagged (honly.of_declarations hdeclarations hargs)]
  refine ⟨?_, ?_, ?_, fun params k => getElem?_positionals_parseArgs hids params k⟩
  · rw [parseArgs, hinsert, parseArgs]
    rfl
  · rw [parseArgs, hinsert, parseArgs]
    rfl
  · have hzero : parser.valueNames ('-' :: '-' :: flagName) = 0 := by
      rw [valueNames, hlong]
      simp [takesValue, hflag]
    rw [positionalParams_append parser hskip, positionalParams_append parser hskip,
      positionalParams_cons, hzero]
    rfl

/-- A parser with a flag, an option that takes a value and a positional argument. -/
def flagAndValue : ArgumentParser :=
  new ++ [{ Argument.new 1 with name := ['f'], longNames := [['f']] },
    { (Argument.new 2).setType .string with name := ['c'], shortNames := ['c'] },
    { Argument.new 3 with name := ['a'], isPositional := true }]

theorem distinctNames_flagAndValue : flagAndValue.DistinctNames := by
  simp [DistinctNames, flagAndValue, new, Argument.new, Argument.setType]

/-- The flag behind the value of `-c`. -/
theorem parseArgs_insert_flag_sample :
    (flagAndValue.parseArgs [['p'], ['-', 'c'], ['v'], ['-', '-', 'f'], ['a']]).1 =
      (flagAndValue.parseArgs [['p'], ['-', 'c'], ['v'], ['a']]).1.setValue 1 "true".toList :=
  (@parseArgs_insert_flag flagAndValue (by decide) distinctNames_flagAndValue
    { Argument.new 1 with name := ['f'], longNames := [['f']] } (by decide) rfl rfl ['f']
    (by decide) [['p'], ['-', 'c'], ['v']] [['a']] (by decide) (by decide)).2.1

end ArgumentParser

end AnanicyCpp
