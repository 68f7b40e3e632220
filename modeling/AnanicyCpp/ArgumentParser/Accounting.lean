import AnanicyCpp.ArgumentParser.Tokens

/-!
# What each parameter is used for

`parse_args` with an account of its parameters: an examined parameter has one use for each of its
names, or goes to a positional argument, and a skipped one is the value of the options that have
taken it. Carrying out the uses gives the arguments that the loop leaves. The options of a cluster
all take the same parameter and each of them skips one, and a lone dash has no name at all.

## Main definitions

* `ArgumentParser.Use`, `ArgumentParser.Account` : the uses of a name, and of a parameter.
* `ArgumentParser.accounts`, `ArgumentParser.replay` : the accounts of all parameters, and what they
  say of the arguments.
* `ArgumentParser.Account.Once` : the parameter is used once.
* `ArgumentParser.SingleValued` : no examined parameter is a lone dash or takes two values.

## Main results

* `ArgumentParser.ParseState.parser_parseFrom` : the accounts are what the loop does.
* `ArgumentParser.ParseState.error_parseFrom_eq_none` : an error is a use that is not accepted.
* `ArgumentParser.accounts_once_iff` : when each parameter is used once.
-/

namespace AnanicyCpp

namespace ArgumentParser

/-- What a name in an option, or a parameter that is no option, is used for. -/
inductive Use where
  | flag (id : ℕ)
  | takes (id : ℕ)
  | missing (id : ℕ)
  | unknown
  | positional (id : ℕ)
  | superfluous
deriving DecidableEq

namespace Use

/-- A use that is no error. -/
def accepted : Use → Bool
  | flag _ | takes _ | positional _ => true
  | missing _ | unknown | superfluous => false

/-- The option that takes the next parameter. -/
def taker? : Use → Option ℕ
  | takes id => some id
  | _ => none

/-- What the use sets, for the parameter and the next one. -/
def carryOut (param : Text) (value : Option Text) (parser : ArgumentParser) : Use → ArgumentParser
  | flag id => parser.setValue id "true".toList
  | takes id => parser.setValue id (value.getD [])
  | positional id => parser.setValue id param
  | missing _ | unknown | superfluous => parser

theorem carryOut_of_not_accepted {use : Use} (h : ¬use.accepted) (param : Text)
    (value : Option Text) (parser : ArgumentParser) : use.carryOut param value parser = parser := by
  cases use with
  | flag _ | takes _ | positional _ => exact absurd rfl h
  | missing _ | unknown | superfluous => rfl

end Use

/-- A parameter is examined, or it is skipped because some options have taken it. -/
inductive Account where
  | examined (uses : List Use)
  | skipped (takenBy : List ℕ)
deriving DecidableEq

/-- No use of the parameter is an error. -/
def Account.Accepted : Account → Prop
  | .examined uses => ∀ use ∈ uses, use.accepted = true
  | .skipped _ => True

/-- The parameter is an option whose names are all declared, and has a name, or it is the value of
one positional argument, or the value of one option. -/
def Account.Once : Account → Prop
  | .examined uses =>
      (uses ≠ [] ∧ ∀ use ∈ uses, ∃ id, use = .flag id ∨ use = .takes id) ∨
        ∃ id, uses = [.positional id]
  | .skipped takenBy => ∃ id, takenBy = [id]

namespace ParseState

/-- The use of a name that was found, or was not. -/
def optionUse (arg : Option Argument) (value : Option Text) : Use :=
  match arg with
  | none => .unknown
  | some arg =>
    if arg.isFlag then .flag arg.id
    else
      match value with
      | some _ => .takes arg.id
      | none => .missing arg.id

/-- The uses of a parameter that is examined. -/
def uses (s : ParseState) (param : Text) (value : Option Text) : List Use :=
  match param with
  | '-' :: '-' :: paramName => [optionUse (s.parser.longArg paramName) value]
  | '-' :: cluster => cluster.map fun c => optionUse (s.parser.shortArg c) value
  | _ =>
    match s.positionalArgs with
    | id :: _ => [.positional id]
    | [] => [.superfluous]

/-- The accounts of the parameters that the loop still has to go over; the next one has been taken
by the given options. -/
def accountFrom (s : ParseState) : ℕ → List ℕ → List Text → List Account
  | _, _, [] => []
  | skip + 1, takenBy, _ :: params => .skipped takenBy :: s.accountFrom skip [] params
  | 0, _, param :: params =>
    let next := s.examine param params.head?
    let uses := s.uses param params.head?
    .examined uses :: next.1.accountFrom next.2 (uses.filterMap Use.taker?) params

end ParseState

/-- The accounts of all parameters of `parse_args`. -/
def accounts (parser : ArgumentParser) (params : List Text) : List Account :=
  (ParseState.init parser).accountFrom 0 [] params

/-- The arguments after the uses of the examined parameters have been carried out. -/
def replay : ArgumentParser → List Text → List Account → ArgumentParser
  | parser, param :: params, .examined uses :: accounts =>
      replay (uses.foldl (Use.carryOut param params.head?) parser) params accounts
  | parser, _ :: params, .skipped _ :: accounts => replay parser params accounts
  | parser, _, _ => parser

theorem replay_nil (parser : ArgumentParser) (accounts : List Account) :
    replay parser [] accounts = parser := by
  cases accounts <;> rfl

/-- No examined parameter is a lone dash or has two names that take a value. -/
def SingleValued (parser : ArgumentParser) : ℕ → List Text → Prop
  | _, [] => True
  | skip + 1, _ :: params => parser.SingleValued skip params
  | 0, param :: params =>
      param ≠ ['-'] ∧ parser.valueNames param ≤ 1 ∧
        parser.SingleValued (parser.valueNames param) params

theorem singleValued_congr {parser parser' : ArgumentParser}
    (h : parser'.declarations = parser.declarations) (skip : ℕ) (params : List Text) :
    parser'.SingleValued skip params ↔ parser.SingleValued skip params := by
  induction params generalizing skip with
  | nil => rfl
  | cons param params ih =>
    cases skip with
    | succ skip => exact ih skip
    | zero => rw [SingleValued, SingleValued, valueNames_congr h, ih]

namespace ParseState

variable (s : ParseState) (param : Text) (value : Option Text)

/-! ### The accounts are what the loop does -/

section OptionUse

variable {arg : Argument}

theorem optionUse_flag (hflag : arg.isFlag) : optionUse (some arg) value = .flag arg.id := by
  simp only [optionUse, if_pos hflag]

theorem optionUse_value (hflag : ¬arg.isFlag) (value : Text) :
    optionUse (some arg) (some value) = .takes arg.id := by
  simp only [optionUse, if_neg hflag]

theorem optionUse_missing (hflag : ¬arg.isFlag) : optionUse (some arg) none = .missing arg.id := by
  simp only [optionUse, if_neg hflag]

end OptionUse

theorem optionUse_unset (arg : Option Argument) :
    optionUse (arg.map Argument.unset) value = optionUse arg value := by
  cases arg <;> rfl

theorem optionUse_shortArg_congr {parser parser' : ArgumentParser}
    (h : parser'.declarations = parser.declarations) (c : Char) :
    optionUse (parser'.shortArg c) value = optionUse (parser.shortArg c) value := by
  rw [← optionUse_unset, ← shortArg_declarations, h, shortArg_declarations, optionUse_unset]

theorem uses_cluster {cluster : Text} (h : ∀ paramName, cluster ≠ '-' :: paramName) :
    s.uses ('-' :: cluster) value =
      cluster.map fun c => optionUse (s.parser.shortArg c) value := by
  rw [uses]
  exact fun paramName heq => h paramName heq

theorem uses_positional {param : Text} (h : ∀ cluster, param ≠ '-' :: cluster) :
    s.uses param value = [(s.positionalArgs.head?.map Use.positional).getD .superfluous] := by
  rw [uses]
  · cases s.positionalArgs <;> rfl
  · exact fun paramName heq => h _ heq
  · exact h

/-- An option carries out its use, or reports an error where the use is not accepted. -/
theorem exists_giveOption_eq (arg : Option Argument) (name : Text) :
    ∃ message, (s.giveOption arg name value).1 =
      if (optionUse arg value).accepted then
        { s with parser := (optionUse arg value).carryOut param value s.parser }
      else s.fail message := by
  cases arg, value using option_cases with
  | unknown value => exact ⟨_, rfl⟩
  | flag arg hflag value =>
    rw [giveOption_flag s name hflag, optionUse_flag value hflag]
    exact ⟨[], rfl⟩
  | missing arg hflag =>
    rw [giveOption_missing s name hflag, optionUse_missing hflag]
    exact ⟨_, rfl⟩
  | given arg hflag value =>
    rw [giveOption_value s name hflag, optionUse_value hflag]
    exact ⟨[], rfl⟩

theorem parser_giveOption (arg : Option Argument) (name : Text) :
    (s.giveOption arg name value).1.parser =
      (optionUse arg value).carryOut param value s.parser := by
  obtain ⟨message, hgive⟩ := exists_giveOption_eq s param value arg name
  rw [hgive]
  split_ifs with haccepted
  · rfl
  · exact (Use.carryOut_of_not_accepted haccepted param value s.parser).symm

theorem parser_giveCluster (cluster : Text) :
    (s.giveCluster value cluster).1.parser =
      (cluster.map fun c => optionUse (s.parser.shortArg c) value).foldl
        (Use.carryOut param value) s.parser := by
  induction cluster generalizing s with
  | nil => rfl
  | cons c cluster ih =>
    have hrest := optionUse_shortArg_congr value
      (declarations_giveOption s value (s.parser.shortArg c) [c])
    rw [giveCluster, ih, List.map_cons, List.foldl_cons, ← parser_giveOption s param value _ [c]]
    simp only [hrest]

theorem parser_givePositional :
    (s.givePositional param).parser =
      ((s.positionalArgs.head?.map Use.positional).getD .superfluous).carryOut param value
        s.parser := by
  unfold givePositional
  split
  · next hargs => rw [hargs]; rfl
  · next hargs => rw [hargs]; rfl

/-- One turn carries out the uses of its parameter. -/
theorem parser_examine :
    (s.examine param value).1.parser =
      (s.uses param value).foldl (Use.carryOut param value) s.parser := by
  rcases param_cases param with ⟨paramName, rfl⟩ | ⟨cluster, rfl, hcluster⟩ | hpositional
  · exact parser_giveOption ..
  · rw [examine_cluster s hcluster, uses_cluster s value hcluster]
    exact parser_giveCluster ..
  · rw [examine_positional s hpositional, uses_positional s value hpositional]
    exact parser_givePositional ..

/-- **The accounts are what the loop does.** Carrying them out gives the arguments after it. -/
theorem parser_parseFrom (skip : ℕ) (takenBy : List ℕ) (params : List Text) :
    (s.parseFrom skip params).parser =
      replay s.parser params (s.accountFrom skip takenBy params) := by
  induction params generalizing s skip takenBy with
  | nil => rw [parseFrom, accountFrom, replay_nil]
  | cons param params ih =>
    cases skip with
    | succ skip => rw [parseFrom, accountFrom, replay, ih]
    | zero => rw [parseFrom, accountFrom, replay, ih, parser_examine]

theorem length_accountFrom (skip : ℕ) (takenBy : List ℕ) (params : List Text) :
    (s.accountFrom skip takenBy params).length = params.length := by
  induction params generalizing s skip takenBy with
  | nil => rfl
  | cons param params ih =>
    cases skip with
    | succ skip => rw [accountFrom, List.length_cons, ih, List.length_cons]
    | zero => rw [accountFrom, List.length_cons, ih, List.length_cons]

/-! ### Errors -/

theorem error_giveOption (arg : Option Argument) (name : Text) :
    (s.giveOption arg name value).1.error = none ↔
      s.error = none ∧ (optionUse arg value).accepted = true := by
  obtain ⟨message, hgive⟩ := exists_giveOption_eq s [] value arg name
  rw [hgive]
  split_ifs with haccepted
  · exact (and_iff_left haccepted).symm
  · exact iff_of_false (Option.some_ne_none message) fun h => haccepted h.2

theorem error_giveCluster (cluster : Text) :
    (s.giveCluster value cluster).1.error = none ↔
      s.error = none ∧
        ∀ c ∈ cluster, (optionUse (s.parser.shortArg c) value).accepted = true := by
  induction cluster generalizing s with
  | nil => simp [giveCluster]
  | cons c cluster ih =>
    have hrest := optionUse_shortArg_congr value
      (declarations_giveOption s value (s.parser.shortArg c) [c])
    rw [giveCluster, ih, error_giveOption, List.forall_mem_cons, and_assoc]
    simp only [hrest]

theorem error_givePositional :
    (s.givePositional param).error = none ↔ s.error = none ∧
      ((s.positionalArgs.head?.map Use.positional).getD .superfluous).accepted = true := by
  unfold givePositional
  split
  · next hargs =>
    rw [hargs]
    exact (and_iff_left rfl).symm
  · next hargs =>
    rw [hargs]
    exact iff_of_false nofun fun h => Bool.false_ne_true h.2

theorem error_examine :
    (s.examine param value).1.error = none ↔
      s.error = none ∧ ∀ use ∈ s.uses param value, use.accepted = true := by
  rcases param_cases param with ⟨paramName, rfl⟩ | ⟨cluster, rfl, hcluster⟩ | hpositional
  · exact (error_giveOption ..).trans (by rw [uses, List.forall_mem_singleton])
  · rw [examine_cluster s hcluster, uses_cluster s value hcluster, error_giveCluster,
      List.forall_mem_map]
  · rw [examine_positional s hpositional, uses_positional s value hpositional,
      error_givePositional, List.forall_mem_singleton]

/-- **An error is a use that is not accepted.** -/
theorem error_parseFrom_eq_none (skip : ℕ) (takenBy : List ℕ) (params : List Text) :
    (s.parseFrom skip params).error = none ↔
      s.error = none ∧ ∀ account ∈ s.accountFrom skip takenBy params, account.Accepted := by
  induction params generalizing s skip takenBy with
  | nil => simp [parseFrom, accountFrom]
  | cons param params ih =>
    cases skip with
    | succ skip =>
      rw [parseFrom, accountFrom, ih s skip [], List.forall_mem_cons, Account.Accepted,
        and_iff_right trivial]
    | zero => rw [parseFrom, accountFrom, ih, error_examine, List.forall_mem_cons, and_assoc]; rfl

/-! ### When each parameter is used once -/

/-- A name whose use is accepted is a flag, or takes the next parameter. -/
theorem exists_of_accepted {arg : Option Argument}
    (h : (optionUse arg value).accepted = true) :
    ∃ id, optionUse arg value = .flag id ∨ optionUse arg value = .takes id := by
  cases arg, value using option_cases with
  | unknown value => exact absurd h Bool.false_ne_true
  | flag arg hflag value => exact ⟨arg.id, Or.inl (optionUse_flag value hflag)⟩
  | missing arg hflag =>
    rw [optionUse_missing hflag] at h
    exact absurd h Bool.false_ne_true
  | given arg hflag value => exact ⟨arg.id, Or.inr (optionUse_value hflag value)⟩

/-- Without an error, an examined parameter is used, unless it is a lone dash. -/
theorem once_examined_iff (h : ∀ use ∈ s.uses param value, use.accepted = true) :
    (Account.examined (s.uses param value)).Once ↔ param ≠ ['-'] := by
  rcases param_cases param with ⟨paramName, rfl⟩ | ⟨cluster, rfl, hcluster⟩ | hpositional
  · have hname := exists_of_accepted value (h _ List.mem_cons_self)
    exact iff_of_true (Or.inl ⟨List.cons_ne_nil _ _, List.forall_mem_singleton.mpr hname⟩) nofun
  · rw [uses_cluster s value hcluster] at h ⊢
    cases cluster with
    | nil =>
      refine iff_of_false ?_ fun hne => hne rfl
      rintro (⟨hne, -⟩ | ⟨id, hid⟩)
      · exact hne rfl
      · exact nomatch hid
    | cons c cluster =>
      refine iff_of_true (Or.inl ⟨List.cons_ne_nil _ _, ?_⟩) nofun
      rw [List.forall_mem_map] at h ⊢
      exact fun c hc => exists_of_accepted value (h c hc)
  · rw [uses_positional s value hpositional] at h ⊢
    rw [List.forall_mem_singleton] at h
    refine iff_of_true (Or.inr ?_) (hpositional [])
    cases hargs : s.positionalArgs with
    | nil =>
      rw [hargs] at h
      exact absurd h Bool.false_ne_true
    | cons id positionalArgs => exact ⟨id, rfl⟩

/-- A name takes the next parameter, where there is one, exactly when its option takes a value. -/
theorem isSome_taker_optionUse (arg : Option Argument) (value : Text) :
    (optionUse arg (some value)).taker?.isSome = takesValue arg := by
  cases arg with
  | none => rfl
  | some arg =>
    by_cases hflag : arg.isFlag
    · rw [optionUse_flag (some value) hflag]
      simp [Use.taker?, takesValue, hflag]
    · rw [optionUse_value hflag value]
      simp [Use.taker?, takesValue, hflag]

theorem length_takers (value : Text) :
    ((s.uses param (some value)).filterMap Use.taker?).length = s.parser.valueNames param := by
  rw [List.length_filterMap_eq_countP]
  rcases param_cases param with ⟨paramName, rfl⟩ | ⟨cluster, rfl, hcluster⟩ | hpositional
  · rw [uses, valueNames, List.countP_singleton, isSome_taker_optionUse]
    cases takesValue (s.parser.longArg paramName) <;> rfl
  · rw [uses_cluster s _ hcluster, valueNames_cluster s.parser hcluster, List.countP_map]
    exact List.countP_congr fun c _ => by
      rw [Function.comp_apply, isSome_taker_optionUse]
  · rw [uses_positional s _ hpositional, valueNames_positional s.parser hpositional]
    cases s.positionalArgs <;> rfl

theorem not_takesValue_of_accepted {arg : Option Argument}
    (h : (optionUse arg none).accepted = true) : takesValue arg = false := by
  cases arg with
  | none => rfl
  | some arg =>
    by_cases hflag : arg.isFlag
    · simp [takesValue, hflag]
    · rw [optionUse_missing hflag] at h
      exact absurd h Bool.false_ne_true

/-- Without an error, a parameter that takes a value is not the last one. -/
theorem valueNames_eq_zero_of_accepted (h : ∀ use ∈ s.uses param none, use.accepted = true) :
    s.parser.valueNames param = 0 := by
  rcases param_cases param with ⟨paramName, rfl⟩ | ⟨cluster, rfl, hcluster⟩ | hpositional
  · rw [valueNames, not_takesValue_of_accepted (h _ List.mem_cons_self)]
    rfl
  · rw [uses_cluster s none hcluster, List.forall_mem_map] at h
    rw [valueNames_cluster s.parser hcluster, List.countP_eq_zero]
    exact fun c hc => by rw [not_takesValue_of_accepted (h c hc)]; exact Bool.false_ne_true
  · exact valueNames_positional s.parser hpositional

/-- A parameter that has been taken is used once when one option has taken it. -/
theorem once_skipped_iff (takenBy : List ℕ) : (Account.skipped takenBy).Once ↔ takenBy.length = 1 :=
  List.length_eq_one_iff.symm

theorem forall_once_iff {skip : ℕ} (hskip : skip ≤ 1) {takenBy : List ℕ}
    (hlength : takenBy.length = skip) {params : List Text}
    (herror : (s.parseFrom skip params).error = none) :
    (∀ account ∈ s.accountFrom skip takenBy params, account.Once) ↔
      s.parser.SingleValued skip params := by
  induction params generalizing s skip takenBy with
  | nil => simp [accountFrom, SingleValued]
  | cons param params ih =>
    cases skip with
    | succ skip =>
      obtain rfl : skip = 0 := by omega
      rw [accountFrom, List.forall_mem_cons, once_skipped_iff, and_iff_right hlength, SingleValued]
      exact ih s (Nat.zero_le 1) rfl herror
    | zero =>
      have haccepted : ∀ use ∈ s.uses param params.head?, use.accepted = true := by
        have hall := ((error_parseFrom_eq_none s 0 takenBy (param :: params)).mp herror).2
        rw [accountFrom, List.forall_mem_cons] at hall
        exact hall.1
      rw [accountFrom, List.forall_mem_cons, once_examined_iff s param _ haccepted, SingleValued]
      refine and_congr_right fun _ => ?_
      rw [parseFrom] at herror
      cases params with
      | nil =>
        have hnames := valueNames_eq_zero_of_accepted s param haccepted
        simp [accountFrom, SingleValued, hnames]
      | cons value params =>
        have htakers := length_takers s param value
        have hcount : (s.examine param (some value)).2 = s.parser.valueNames param :=
          examine_snd s param (some value)
        rw [List.head?_cons] at herror ⊢
        by_cases hnames : s.parser.valueNames param ≤ 1
        · rw [and_iff_right hnames, ← hcount, ← singleValued_congr (declarations_examine s _ param)]
          exact ih _ (hcount ▸ hnames) (htakers.trans hcount.symm) herror
        · -- several options have taken the next parameter
          obtain ⟨skip, hsucc⟩ : ∃ skip, s.parser.valueNames param = skip + 1 :=
            Nat.exists_eq_succ_of_ne_zero (by omega)
          refine iff_of_false (fun hall => ?_) fun hboth => hnames hboth.1
          rw [hcount, hsucc, accountFrom, List.forall_mem_cons, once_skipped_iff, htakers] at hall
          omega

end ParseState

/-- **When each parameter is used once.** There is an account for each parameter, and carrying them
out gives the arguments after `parse_args`. When no error is reported, each parameter is an option
whose names are declared, or the value of one positional argument or of one option, exactly when no
parameter that is examined is a lone dash or has two names that take a value. -/
theorem accounts_once_iff {parser : ArgumentParser} {params : List Text}
    (herror : (parser.parseArgs params).2 = none) :
    (parser.accounts params).length = params.length ∧
    (parser.parseArgs params).1 = replay parser params (parser.accounts params) ∧
    ((∀ account ∈ parser.accounts params, account.Once) ↔ parser.SingleValued 0 params) :=
  ⟨ParseState.length_accountFrom _ 0 [] params, ParseState.parser_parseFrom _ 0 [] params,
    ParseState.forall_once_iff _ (Nat.zero_le 1) rfl herror⟩

/-- A parser with two options that take a value. -/
def twoValueOptions : ArgumentParser :=
  new ++ [{ (Argument.new 1).setType .string with name := ['a'], shortNames := ['a'] },
    { (Argument.new 2).setType .string with name := ['b'], shortNames := ['b'] }]

example : (do
    let parser ← new.addArgument [['-', 'a']] (some .string)
    parser.addArgument [['-', 'b']] (some .string)) = .ok twoValueOptions :=
  rfl

theorem accounts_once_iff_sample :
    let params : List Text := [['p'], ['-', 'a'], ['v'], ['-', 'b'], ['w']]
    (twoValueOptions.accounts params).length = 5 ∧
    (twoValueOptions.parseArgs params).1 =
        replay twoValueOptions params (twoValueOptions.accounts params) ∧
    ((∀ account ∈ twoValueOptions.accounts params, account.Once) ↔
      twoValueOptions.SingleValued 0 params) :=
  accounts_once_iff (by decide)

/-- Both options of `-ab` take `v`, and `w` is skipped. -/
theorem not_forall_accounts_once :
    ¬∀ (parser : ArgumentParser) (params : List Text), (parser.parseArgs params).2 = none →
      ∀ account ∈ parser.accounts params, account.Once := by
  intro h
  have hskipped : Account.skipped [] ∈
      twoValueOptions.accounts [['p'], ['-', 'a', 'b'], ['v'], ['w']] := by decide
  obtain ⟨id, hid⟩ :=
    h twoValueOptions [['p'], ['-', 'a', 'b'], ['v'], ['w']] (by decide) _ hskipped
  exact nomatch hid

end ArgumentParser

end AnanicyCpp
