import AnanicyCpp.ArgumentParser.Flags

/-!
# Writing a command line

Which values can a command line give to the arguments, without an error? A flag can be set, and an
option can get any text at all, also one that starts with a dash. The positional arguments take what
they get in the order of their declaration, so those that have a value come first, and there is no
way to give one of them a text that starts with a dash. Every choice of values within these bounds
has a command line, which is written down from it (`ArgumentParser.parseArgs_render`).

## Main definitions

* `ArgumentParser.Spells`, `ArgumentParser.render` : the text for an option, and a command line for
  a choice of values.
* `Argument.Allowed`, `ArgumentParser.FilledInOrder` : the bounds.

## Main results

* `ArgumentParser.parseArgs_render` : the command line gives the values that it was written for.
* `ArgumentParser.exists_parseArgs_iff` : the choices of values that have a command line.
-/

namespace AnanicyCpp

/-- A value that a command line can give to the argument. -/
structure Argument.Allowed (arg : Argument) : Prop where
  positional : arg.isPositional = true → ∀ value, arg.value = some value → value.head? ≠ some '-'
  flag : arg.isPositional = false → arg.isFlag = true → ∀ value, arg.value = some value →
    value = "true".toList

theorem Argument.unset_of_eq_none {arg : Argument} (h : arg.value = none) : arg.unset = arg := by
  rw [unset, ← h]

namespace ArgumentParser

/-- Positional arguments with a value come before those without. -/
def FilledInOrder (parser : ArgumentParser) : Prop :=
  parser.positionals.Pairwise fun arg arg' => arg'.value.isSome → arg.value.isSome

/-- The text stands for the option: a long name behind two dashes, or a short name behind one. A
short name that is a dash itself would start a long one. -/
def Spells (parser : ArgumentParser) (option : Text) (arg : Argument) : Prop :=
  (∃ name, option = '-' :: '-' :: name ∧ parser.longArg name = some arg) ∨
    ∃ c, c ≠ '-' ∧ option = ['-', c] ∧ parser.shortArg c = some arg

/-- The parameters for one argument; `spell` says how its option is written. -/
def renderArgument (spell : Argument → Text) (arg : Argument) : List Text :=
  match arg.value with
  | none => []
  | some value =>
    if arg.isPositional then [value]
    else if arg.isFlag then [spell arg.unset]
    else [spell arg.unset, value]

/-- The parameters for a choice of values. -/
def render (spell : Argument → Text) (wanted : ArgumentParser) : List Text :=
  wanted.flatMap (renderArgument spell)

/-! ### From values to a command line -/

/-- A value is set at its place. -/
theorem setValue_append_cons {before after : ArgumentParser} {arg : Argument}
    (hids : ((before ++ arg :: after).map (·.id)).Nodup) (value : Text) :
    setValue (before ++ arg :: after) arg.id value =
      before ++ { arg with value := some value } :: after := by
  rw [List.map_append, List.map_cons, List.nodup_middle, List.nodup_cons, ← List.map_append] at hids
  have hne : ∀ other ∈ before ++ after, other.id ≠ arg.id :=
    fun other hother heq => hids.1 (heq ▸ List.mem_map_of_mem hother)
  rw [setValue, List.map_append, List.map_cons, ← setValue, ← setValue,
    setValue_of_forall_ne fun other hother => hne other (List.mem_append_left _ hother),
    setValue_of_forall_ne fun other hother => hne other (List.mem_append_right _ hother),
    Argument.setValueAt, if_pos rfl]

namespace ParseState

variable {parser : ArgumentParser} {s : ParseState}

/-- The text of an option finds its argument, whatever values have been set. -/
theorem exists_examine_eq_giveOption {option : Text} {arg : Argument}
    (h : Spells parser option arg) (hs : s.parser.declarations = parser.declarations)
    (value : Option Text) : ∃ a name, a.unset = arg.unset ∧
      s.examine option value = s.giveOption (some a) name value := by
  rcases h with ⟨name, rfl, hlong⟩ | ⟨c, hc, rfl, hshort⟩
  · have hfound : (s.parser.longArg name).map Argument.unset = some arg.unset := by
      rw [← longArg_declarations, hs, longArg_declarations, hlong, Option.map_some]
    obtain ⟨a, ha, hunset⟩ := Option.map_eq_some_iff.mp hfound
    exact ⟨a, name, hunset, by rw [examine, ha]⟩
  · have hfound : (s.parser.shortArg c).map Argument.unset = some arg.unset := by
      rw [← shortArg_declarations, hs, shortArg_declarations, hshort, Option.map_some]
    obtain ⟨a, ha, hunset⟩ := Option.map_eq_some_iff.mp hfound
    refine ⟨a, [c], hunset, ?_⟩
    rw [examine_cluster s fun name heq => hc (List.cons.inj heq).1, giveCluster, ha]
    rfl

/-- The parameters of an option set its value. -/
theorem parseFrom_option {spell : Argument → Text} {arg : Argument} {value : Text}
    (hoption : arg.isPositional = false) (hvalue : arg.value = some value)
    (hallowed : arg.Allowed) (hspell : Spells parser (spell arg.unset) arg.unset)
    (hs : s.parser.declarations = parser.declarations) (rest : List Text) :
    s.parseFrom 0 (renderArgument spell arg ++ rest) =
      { s with parser := s.parser.setValue arg.id value }.parseFrom 0 rest := by
  have hid {a : Argument} (h : a.unset = arg.unset.unset) : a.id = arg.id := by
    change a.unset.id = arg.unset.unset.id
    rw [h]
  have hisFlag {a : Argument} (h : a.unset = arg.unset.unset) : a.isFlag = arg.isFlag := by
    change a.unset.isFlag = arg.unset.unset.isFlag
    rw [h]
  by_cases hflag : arg.isFlag
  · obtain ⟨a, name, hunset, hexamine⟩ := exists_examine_eq_giveOption hspell hs rest.head?
    rw [giveOption_flag s name (by rw [hisFlag hunset, hflag]), hid hunset,
      ← hallowed.flag hoption hflag value hvalue] at hexamine
    simp only [renderArgument, hvalue, hoption, Bool.false_eq_true, if_false, if_pos hflag,
      List.cons_append, List.nil_append, parseFrom, hexamine]
  · obtain ⟨a, name, hunset, hexamine⟩ := exists_examine_eq_giveOption hspell hs (some value)
    rw [giveOption_value s name (by rw [hisFlag hunset]; exact hflag), hid hunset] at hexamine
    simp only [renderArgument, hvalue, hoption, Bool.false_eq_true, if_false, if_neg hflag,
      List.cons_append, List.nil_append, parseFrom, List.head?_cons, hexamine]

/-- The parameter of a positional argument goes to it when its turn has come. -/
theorem parseFrom_positional {spell : Argument → Text} {arg : Argument} {value : Text}
    (hpositional : arg.isPositional = true) (hvalue : arg.value = some value)
    (hallowed : arg.Allowed) {ids : List ℕ} (hargs : s.positionalArgs = arg.id :: ids)
    (rest : List Text) :
    s.parseFrom 0 (renderArgument spell arg ++ rest) =
      { s with parser := s.parser.setValue arg.id value, positionalArgs := ids }.parseFrom 0
        rest := by
  have hdash : ∀ cluster, value ≠ '-' :: cluster := fun cluster heq =>
    hallowed.positional hpositional value hvalue (heq ▸ rfl)
  simp only [renderArgument, hvalue, hpositional, if_true, List.cons_append, List.nil_append,
    parseFrom, examine_positional s hdash, givePositional, hargs]

/-- **The loop over a written command line.** `before` has been set, and the parameters for `after`
are to come. -/
theorem parseFrom_render {spell : Argument → Text}
    (hspell : ∀ arg ∈ parser, arg.isPositional = false → Spells parser (spell arg) arg)
    (hunset : parser.declarations = parser) {before after : ArgumentParser}
    (hdeclarations : declarations (before ++ after) = parser)
    (hids : (parser.map (·.id)).Nodup) (hallowed : ∀ arg ∈ after, arg.Allowed)
    (horder : FilledInOrder after) (hs : s.parser = before ++ declarations after)
    (hargs : (∃ arg ∈ positionals after, arg.value.isSome) →
      s.positionalArgs = (positionals after).map (·.id)) (herror : s.error = none) :
    ∃ ids, s.parseFrom 0 (render spell after) = ⟨before ++ after, ids, none⟩ := by
  induction after generalizing s before with
  | nil =>
    refine ⟨s.positionalArgs, ?_⟩
    rw [show s.parseFrom 0 (render spell []) = s by simp only [render, List.flatMap_nil, parseFrom],
      ← herror, ← show s.parser = before ++ [] from hs]
  | cons arg after ih =>
    obtain ⟨harg, hafter⟩ := List.forall_mem_cons.mp hallowed
    have hnext : declarations ((before ++ [arg]) ++ after) = parser := by
      rw [List.append_assoc]
      exact hdeclarations
    have hmem : arg.unset ∈ parser := by
      rw [← hdeclarations]
      exact List.mem_map_of_mem (by simp)
    have hdeclared : s.parser.declarations = parser.declarations := by
      rw [hs, hunset, ← hdeclarations, declarations, List.map_append, declarations, List.map_map,
        declarations, List.map_append]
      rfl
    -- setting the value puts the argument behind those that have been set
    have hset (value : Text) (hvalue : arg.value = some value) :
        s.parser.setValue arg.id value = (before ++ [arg]) ++ declarations after := by
      have hnodup : ((before ++ arg.unset :: declarations after).map (·.id)).Nodup := by
        have hsame : declarations (before ++ arg.unset :: declarations after) =
            parser.declarations := by
          rw [← hdeclared, hs]
          rfl
        rw [map_id_congr hsame]
        exact hids
      have hself : { arg.unset with value := some value } = arg := by
        rw [← hvalue, Argument.unset]
      rw [hs, show declarations (arg :: after) = arg.unset :: declarations after from rfl,
        show arg.id = arg.unset.id from rfl, setValue_append_cons hnodup, hself,
        List.append_assoc, List.singleton_append]
    have hrender : render spell (arg :: after) =
        renderArgument spell arg ++ render spell after := List.flatMap_cons
    have horder' : FilledInOrder after :=
      horder.sublist ((List.sublist_cons_self arg after).filter _)
    have hoption (h : arg.isPositional = false) : positionals (arg :: after) = positionals after :=
      List.filter_cons_of_neg (by rw [h]; exact Bool.false_ne_true)
    have htaken (h : arg.isPositional = true) :
        positionals (arg :: after) = arg :: positionals after := List.filter_cons_of_pos h
    rw [hrender, List.append_cons]
    cases hvalue : arg.value with
    | none =>
      have hnil : renderArgument spell arg = [] := by rw [renderArgument, hvalue]
      rw [hnil, List.nil_append]
      refine ih hnext hafter horder' (hs.trans ?_) (fun hfilled => ?_) herror
      · rw [declarations, List.map_cons, Argument.unset_of_eq_none hvalue, List.append_assoc]
        rfl
      · obtain ⟨filled, hmem', hsome⟩ := hfilled
        have hnot : arg.isPositional = false := by
          by_contra hpositional
          rw [FilledInOrder, htaken (by simpa using hpositional), List.pairwise_cons] at horder
          have hempty := horder.1 filled hmem' hsome
          rw [hvalue] at hempty
          cases hempty
        rw [hoption hnot] at hargs
        exact hargs ⟨filled, hmem', hsome⟩
    | some value =>
      cases hpositional : arg.isPositional with
      | false =>
        rw [hoption hpositional] at hargs
        rw [parseFrom_option hpositional hvalue harg (hspell arg.unset hmem hpositional) hdeclared]
        exact ih hnext hafter horder' (hset value hvalue) hargs herror
      | true =>
        rw [htaken hpositional] at hargs
        rw [parseFrom_positional hpositional hvalue harg
          (hargs ⟨arg, List.mem_cons_self, by rw [hvalue]; rfl⟩)]
        exact ih hnext hafter horder' (hset value hvalue) (fun _ => rfl) herror

end ParseState

/-- **The command line gives the values that it was written for**, without an error. -/
theorem parseArgs_render {parser wanted : ArgumentParser} {spell : Argument → Text}
    (hids : (parser.map (·.id)).Nodup) (hunset : parser.declarations = parser)
    (hspell : ∀ arg ∈ parser, arg.isPositional = false → Spells parser (spell arg) arg)
    (hwanted : wanted.declarations = parser) (hallowed : ∀ arg ∈ wanted, arg.Allowed)
    (horder : FilledInOrder wanted) : parser.parseArgs (render spell wanted) = (wanted, none) := by
  have hpositionals : parser.positionals.map (·.id) = wanted.positionals.map (·.id) := by
    rw [← hwanted, positionals, declarations, List.filter_map, List.map_map]
    rfl
  obtain ⟨ids, hparse⟩ := @ParseState.parseFrom_render parser (.init parser) spell hspell hunset []
    wanted hwanted hids hallowed horder hwanted.symm (fun _ => hpositionals) rfl
  rw [parseArgs, hparse]
  rfl

/-! ### From a command line to values -/

/-- No flag has a value but `true`. -/
def FlagsTrue (parser : ArgumentParser) : Prop :=
  ∀ arg ∈ parser, arg.isPositional = false → arg.isFlag = true → ∀ value,
    arg.value = some value → value = "true".toList

theorem FlagsTrue.setValue {parser : ArgumentParser} (h : parser.FlagsTrue) {id : ℕ} {value : Text}
    (hid : ∀ arg ∈ parser, arg.id = id → arg.isPositional = false → arg.isFlag = true →
      value = "true".toList) : FlagsTrue (parser.setValue id value) := by
  intro arg harg hoption hflag text htext
  obtain ⟨arg, hmem, rfl⟩ := List.mem_map.mp harg
  rw [Argument.isPositional_setValueAt] at hoption
  rw [Argument.isFlag_setValueAt] at hflag
  by_cases heq : arg.id = id
  · rw [Argument.setValueAt, if_pos heq] at htext
    rw [← Option.some.inj htext]
    exact hid arg hmem heq hoption hflag
  · rw [Argument.setValueAt, if_neg heq] at htext
    exact h arg hmem hoption hflag text htext

namespace ParseState

variable {s : ParseState} {parser : ArgumentParser}

theorem declarations_parseFrom (s : ParseState) (skip : ℕ) (params : List Text) :
    (s.parseFrom skip params).parser.declarations = s.parser.declarations := by
  induction params generalizing s skip with
  | nil => simp only [parseFrom]
  | cons param params ih =>
    cases skip with
    | succ skip => exact ih s skip
    | zero => rw [parseFrom, ih, declarations_examine]

/-- The ids are different, those that wait for a parameter belong to positional arguments, and flags
are `true`. -/
structure Sound (s : ParseState) : Prop where
  nodup : (s.parser.map (·.id)).Nodup
  positional : ∀ arg ∈ s.parser, arg.id ∈ s.positionalArgs → arg.isPositional = true
  flags : s.parser.FlagsTrue

theorem Sound.of_declarations {s' : ParseState} (hs : s.Sound)
    (hdeclarations : s'.parser.declarations = s.parser.declarations)
    (hargs : s'.positionalArgs <:+ s.positionalArgs) (hflags : s'.parser.FlagsTrue) : s'.Sound where
  nodup := by
    rw [map_id_congr hdeclarations]
    exact hs.nodup
  positional arg harg hid := by
    have hmem : arg.unset ∈ s.parser.declarations :=
      hdeclarations ▸ List.mem_map_of_mem harg
    obtain ⟨declared, hdeclared, heq⟩ := List.mem_map.mp hmem
    have hpositional := hs.positional declared hdeclared
    change declared.unset.id ∈ _ → declared.unset.isPositional = true at hpositional
    rw [heq] at hpositional
    exact hpositional (hargs.subset hid)
  flags := hflags

theorem Sound.flagsTrue_giveOption (hs : s.Sound) {arg : Option Argument}
    (harg : ∀ a, arg = some a → a ∈ s.parser) (name : Text) (value : Option Text) :
    (s.giveOption arg name value).1.parser.FlagsTrue := by
  cases arg, value using option_cases with
  | unknown value => exact hs.flags
  | flag arg hflag value =>
    rw [giveOption_flag s name hflag]
    exact hs.flags.setValue fun _ _ _ _ _ => rfl
  | missing arg hflag =>
    rw [giveOption_missing s name hflag]
    exact hs.flags
  | given arg hflag value =>
    rw [giveOption_value s name hflag]
    refine hs.flags.setValue fun other hother hid _ hother' => absurd hother' ?_
    rw [eq_of_id_eq hs.nodup hother (harg arg rfl) hid]
    exact hflag

theorem Sound.giveOption (hs : s.Sound) {arg : Option Argument}
    (harg : ∀ a, arg = some a → a ∈ s.parser) (name : Text) (value : Option Text) :
    (s.giveOption arg name value).1.Sound :=
  hs.of_declarations (declarations_giveOption s value arg name)
    ((positionalArgs_giveOption s value arg name).symm ▸ List.suffix_rfl)
    (hs.flagsTrue_giveOption harg name value)

theorem Sound.giveCluster (hs : s.Sound) (cluster : Text) (value : Option Text) :
    (s.giveCluster value cluster).1.Sound := by
  induction cluster generalizing s with
  | nil => exact hs
  | cons c cluster ih => exact ih (hs.giveOption (fun _ ha => (mem_of_shortArg ha).1) [c] value)

theorem Sound.examine (hs : s.Sound) (param : Text) (value : Option Text) :
    (s.examine param value).1.Sound := by
  rcases param_cases param with ⟨paramName, rfl⟩ | ⟨cluster, rfl, hcluster⟩ | hpositional
  · exact hs.giveOption (fun _ ha => (mem_of_longArg ha).1) paramName value
  · rw [examine_cluster s hcluster]
    exact hs.giveCluster cluster value
  · refine hs.of_declarations (declarations_examine s value param)
      (suffix_positionalArgs_examine s value param) ?_
    rw [examine_positional s hpositional]
    cases hargs : s.positionalArgs with
    | nil =>
      simp only [givePositional, hargs]
      exact hs.flags
    | cons id ids =>
      simp only [givePositional, hargs]
      refine hs.flags.setValue fun arg harg hid hoption _ => ?_
      rw [hs.positional arg harg (by rw [hargs, hid]; exact List.mem_cons_self)] at hoption
      cases hoption

theorem Sound.parseFrom (hs : s.Sound) (skip : ℕ) (params : List Text) :
    (s.parseFrom skip params).Sound := by
  induction params generalizing s skip with
  | nil => simpa only [ParseState.parseFrom] using hs
  | cons param params ih =>
    cases skip with
    | succ skip => exact ih hs skip
    | zero => exact ih (hs.examine param params.head?) _

theorem sound_init (hids : (parser.map (·.id)).Nodup) (hunset : parser.declarations = parser) :
    (init parser).Sound where
  nodup := hids
  positional arg harg hid := by
    obtain ⟨p, hp, hpid⟩ := List.mem_map.mp hid
    obtain ⟨hp, hpositional⟩ := List.mem_filter.mp hp
    rw [← eq_of_id_eq hids hp harg hpid, hpositional]
  flags arg harg _ _ value hvalue := by
    change arg ∈ parser at harg
    rw [← hunset] at harg
    obtain ⟨declared, -, rfl⟩ := List.mem_map.mp harg
    cases hvalue

end ParseState

theorem head?_ne_of_mem_positionalParams (parser : ArgumentParser) (skip : ℕ) {params : List Text}
    {param : Text} (h : param ∈ parser.positionalParams skip params) : param.head? ≠ some '-' := by
  induction params generalizing skip with
  | nil => simp only [positionalParams, List.not_mem_nil] at h
  | cons first params ih =>
    cases skip with
    | succ skip => exact ih skip h
    | zero =>
      rw [positionalParams_cons, List.mem_append] at h
      rcases h with hfirst | hrest
      · unfold nonOption at hfirst
        split_ifs at hfirst with hdash
        · cases hfirst
        · rw [List.mem_singleton.mp hfirst]
          exact hdash
      · exact ih _ hrest

/-- The k-th positional argument has the k-th parameter for it, if there is one. -/
theorem value_of_getElem?_positionals {parser : ArgumentParser} (hids : (parser.map (·.id)).Nodup)
    (hunset : parser.declarations = parser) (params : List Text) {k : ℕ} {arg : Argument}
    (h : (parser.parseArgs params).1.positionals[k]? = some arg) :
    arg.value = (parser.positionalParams 0 params)[k]? := by
  rw [getElem?_positionals_parseArgs hids] at h
  obtain ⟨declared, hdeclared, rfl⟩ := Option.map_eq_some_iff.mp h
  have hmem : declared ∈ parser := List.mem_of_mem_filter (List.mem_of_getElem? hdeclared)
  rw [← hunset] at hmem
  obtain ⟨arg, -, rfl⟩ := List.mem_map.mp hmem
  exact Option.or_none

/-- **What a command line can say.** Let no argument have a value at first, let the ids be
different, and let every option have a text that stands for it. A choice of values is what some
command line gives without an error exactly when it keeps the declarations, flags are `true` or not
set, no positional argument has a text that starts with a dash, and those with a value come
first. -/
theorem exists_parseArgs_iff {parser wanted : ArgumentParser} (hids : (parser.map (·.id)).Nodup)
    (hunset : parser.declarations = parser)
    (hspelled : ∀ arg ∈ parser, arg.isPositional = false → ∃ option, Spells parser option arg) :
    (∃ params, parser.parseArgs params = (wanted, none)) ↔
      wanted.declarations = parser ∧ (∀ arg ∈ wanted, arg.Allowed) ∧ FilledInOrder wanted := by
  constructor
  · rintro ⟨params, hparse⟩
    have hwanted : (parser.parseArgs params).1 = wanted := congrArg Prod.fst hparse
    have hsound := (ParseState.sound_init hids hunset).parseFrom 0 params
    have hvalue {k : ℕ} {arg : Argument} (h : wanted.positionals[k]? = some arg) :
        arg.value = (parser.positionalParams 0 params)[k]? :=
      value_of_getElem?_positionals hids hunset params (hwanted ▸ h)
    refine ⟨?_, fun arg harg => ⟨fun hpositional value htext => ?_, ?_⟩, ?_⟩
    · rw [← hwanted]
      exact (ParseState.declarations_parseFrom (.init parser) 0 params).trans hunset
    · obtain ⟨k, hk⟩ := List.mem_iff_getElem?.mp (List.mem_filter.mpr ⟨harg, hpositional⟩)
      rw [hvalue hk] at htext
      exact head?_ne_of_mem_positionalParams parser 0 (List.mem_of_getElem? htext)
    · rw [← hwanted] at harg
      exact hsound.flags arg harg
    · refine List.pairwise_iff_getElem.mpr fun i j hi hj hij hsome => ?_
      rw [hvalue (List.getElem?_eq_getElem hj)] at hsome
      rw [hvalue (List.getElem?_eq_getElem hi)]
      have hlt : j < (parser.positionalParams 0 params).length := by simpa using hsome
      simpa using hij.trans hlt
  · rintro ⟨hwanted, hallowed, horder⟩
    choose! spell hspell using hspelled
    exact ⟨_, parseArgs_render hids hunset hspell hwanted hallowed horder⟩

/-- A flag, an option whose value starts with a dash, and the name of the program. -/
def sampleWanted : ArgumentParser :=
  ((flagAndValue.setValue 0 ['p']).setValue 1 "true".toList).setValue 2 ['-', 'f']

theorem exists_parseArgs_iff_sample :
    ∃ params, flagAndValue.parseArgs params = (sampleWanted, none) := by
  have hspelled : ∀ arg ∈ flagAndValue, arg.isPositional = false →
      ∃ option, Spells flagAndValue option arg := by
    intro arg harg hoption
    simp only [flagAndValue, new, List.mem_append, List.mem_cons, List.not_mem_nil, or_false]
      at harg
    rcases harg with rfl | rfl | rfl | rfl
    · cases hoption
    · exact ⟨['-', '-', 'f'], .inl ⟨['f'], rfl, by decide⟩⟩
    · exact ⟨['-', 'c'], .inr ⟨'c', by decide, rfl, by decide⟩⟩
    · cases hoption
  have hdash : ∀ arg ∈ sampleWanted, arg.isPositional = true →
      ∀ value ∈ arg.value, value.head? ≠ some '-' := by decide
  have htrue : ∀ arg ∈ sampleWanted, arg.isPositional = false → arg.isFlag = true →
      ∀ value ∈ arg.value, value = "true".toList := by decide
  have horder : List.Pairwise (fun arg arg' : Argument => arg'.value.isSome → arg.value.isSome)
      sampleWanted.positionals := by decide
  exact (exists_parseArgs_iff (by decide) (by decide) hspelled).mpr
    ⟨by decide, fun arg harg => ⟨hdash arg harg, htrue arg harg⟩, horder⟩

end ArgumentParser

end AnanicyCpp
