import AnanicyCpp.ArgumentParser
import AnanicyCpp.Library.Fallible

/-!
# The start of the program

`main` up to the point where it has created the singleton, after which it listens for processes and
starts the `Worker`. Each step before that point may end the program. An action that is none of
`start`, `dump` and `debug` is only logged (`main_start_iff`).

What the other parts of the program do on the way (the configuration file, the rules, the shared
memory) is given with the environment. What is printed is left out.

## Main definitions

* `declareArguments`, `declaredArguments`, `parsed`, `action` : the arguments that `main` declares,
  and their values.
* `Environment`, `Ending` : what `main` finds, and how it ends.
* `main` : `main` up to the creation of the singleton.
* `ReachesActions` : the program gets to the choice of the action.

## Main results

* `valueOf_action` : the action is the second positional parameter.
* `main_eq_ok_iff` : when the program goes on.
* `main_start_iff` : when it goes on for the action `start` only.
-/

namespace AnanicyCpp

/-! ### The arguments -/

/-- The declarations at the head of `main`. -/
def declareArguments (bpf : Bool) : Except String ArgumentParser := do
  let parser ← ArgumentParser.new.addArgument ["--verbose".toList, "-v".toList] none
  let parser ← parser.addArgument ["--help".toList, "-h".toList] none
  let parser ← parser.addArgument ["--version".toList] none
  let parser ← parser.addArgument ["--force-remove-semaphore".toList] none
  let parser ← parser.addArgument ["--reload".toList] none
  let parser ← parser.addArgument ["--benchmark".toList] none
  let parser ← parser.addArgument ["--benchmark-count".toList] (some .uint32)
  let parser ←
    if bpf then parser.addArgument ["--bpf-min-us".toList] (some .uint64) else pure parser
  let parser ← parser.addArgument ["--manual-scanning".toList, "--manualscanning".toList] none
  let parser ← parser.addArgument ["action".toList] none
  parser.addArgument ["sub-action".toList] none

/-- No declaration throws. -/
theorem isSome_declareArguments (bpf : Bool) : (declareArguments bpf).toOption.isSome := by
  cases bpf <;> decide +kernel

def declaredArguments (bpf : Bool) : ArgumentParser :=
  (declareArguments bpf).toOption.get (isSome_declareArguments bpf)

/-- The arguments after `parse_args`, and its error. -/
def parsed (bpf : Bool) (argv : List Text) : ArgumentParser × Option Text :=
  (declaredArguments bpf).parseArgs argv

/-! ### `main` -/

/-- What `main` finds: the user, and what the parts of the program that it calls do. -/
structure Environment where
  uid : UInt32
  /-- `SingletonProcess::remove` -/
  remove : Bool
  /-- `try_open` -/
  tryOpen : Bool
  /-- `try_create`: no instance is running. -/
  tryCreate : Bool
  /-- `Config` with `show` and `loglevel` -/
  config : Except StdException Unit
  /-- `set_priority` and `check_freq`, for `--manual-scanning` -/
  manualScanning : Except StdException Unit
  /-- `Rules` -/
  rules : Except StdException Unit
  /-- What `dump` and `debug` print. -/
  print : Except StdException Unit

/-- How the program ends before the singleton is created: with an exit status, or with an exception
that nobody catches. -/
inductive Ending where
  | exitSuccess
  | exitFailure
  | terminate
deriving DecidableEq

/-- An exception that leaves `main`. -/
def uncaught {α : Type} (result : Except StdException α) : Except Ending α :=
  result.mapError fun _ => .terminate

/-- The branches for `--help`, `--version`, `--force-remove-semaphore` and `--reload`, and the one
for an error of the parser. -/
def answerOptions (env : Environment) (argc : ℕ) (parser : ArgumentParser) (err : Option Text) :
    Except Ending Unit := do
  if err.isSome then throw .exitFailure
  if parser.isSet "help".toList || decide (argc < 2) then throw .exitSuccess
  if parser.isSet "version".toList then throw .exitSuccess
  if parser.isSet "force-remove-semaphore".toList then
    throw (if env.remove then .exitSuccess else .exitFailure)
  if parser.isSet "reload".toList then
    throw (if env.tryOpen then .exitSuccess else .exitFailure)

/-- `parser["benchmark-count"].value<uint32_t>()`: what `stoull` returns is narrowed. -/
def benchmarkCount (parser : ArgumentParser) : Except StdException (Option UInt32) :=
  match parser.valueOf "benchmark-count".toList with
  | some value => (stoull value).map fun n => some n.toUInt32
  | none => .ok none

/-- From the configuration to the rules. -/
def prepare (env : Environment) (parser : ArgumentParser) : Except Ending (Option UInt32) := do
  uncaught env.config
  let count ← uncaught (benchmarkCount parser)
  if parser.isSet "manual-scanning".toList then uncaught env.manualScanning
  uncaught env.rules
  pure count

def dumpActions : List Text :=
  ["rules".toList, "types".toList, "cgroups".toList, "proc".toList, "autogroup".toList]

def dump (env : Environment) (subAction : Option Text) : Except Ending Unit := do
  match subAction with
  | none => throw .exitFailure
  | some subAction =>
    if subAction ∈ dumpActions then uncaught env.print else throw .exitFailure
  throw .exitSuccess

def debug (env : Environment) (subAction : Option Text) : Except Ending Unit := do
  match subAction with
  | none => throw .exitFailure
  | some subAction => if subAction = "cgroups".toList then uncaught env.print
  throw .exitSuccess

/-- The choice of the action. The last branch logs the action and goes on. -/
def chooseAction (env : Environment) (action subAction : Option Text) : Except Ending Unit :=
  match action with
  | none => throw .exitFailure
  | some action =>
    if action = "start".toList then pure ()
    else if action = "dump".toList then dump env subAction
    else if action = "debug".toList then debug env subAction
    else pure ()

/-- The privileges, and the singleton. -/
def createSingleton (env : Environment) : Except Ending Unit := do
  if env.uid > 0 then throw .exitFailure
  if !env.tryCreate then throw .exitFailure

/-- `main` up to the creation of the singleton. It goes on with the number of processes after which
it stops. -/
def main (bpf : Bool) (env : Environment) (argv : List Text) :
    Except Ending (Option UInt32) := do
  let parser := (parsed bpf argv).1
  answerOptions env argv.length parser (parsed bpf argv).2
  let count ← prepare env parser
  chooseAction env (parser.valueOf "action".toList) (parser.valueOf "sub-action".toList)
  createSingleton env
  pure count

/-! ### When the program goes on -/

/-- The value that is parsed for the positional argument `action`. -/
def action (bpf : Bool) (argv : List Text) : Option Text :=
  (parsed bpf argv).1.valueOf "action".toList

/-- The actions that `main` knows. -/
def knownActions : List Text := ["start".toList, "dump".toList, "debug".toList]

/-- The program gets to the choice of the action: the parameters are parsed, none of the options
asks for something else, and nothing throws. -/
structure ReachesActions (bpf : Bool) (env : Environment) (argv : List Text) : Prop where
  error : (parsed bpf argv).2 = none
  help : (parsed bpf argv).1.isSet "help".toList = false
  argc : 2 ≤ argv.length
  version : (parsed bpf argv).1.isSet "version".toList = false
  forceRemove : (parsed bpf argv).1.isSet "force-remove-semaphore".toList = false
  reload : (parsed bpf argv).1.isSet "reload".toList = false
  config : env.config = .ok ()
  benchmarkCount : ∃ count, benchmarkCount (parsed bpf argv).1 = .ok count
  manualScanning :
    (parsed bpf argv).1.isSet "manual-scanning".toList = true → env.manualScanning = .ok ()
  rules : env.rules = .ok ()

theorem answerOptions_eq_ok_iff {env : Environment} {argc : ℕ} {parser : ArgumentParser}
    {err : Option Text} :
    answerOptions env argc parser err = .ok () ↔
      err = none ∧ parser.isSet "help".toList = false ∧ 2 ≤ argc ∧
      parser.isSet "version".toList = false ∧
      parser.isSet "force-remove-semaphore".toList = false ∧
      parser.isSet "reload".toList = false := by
  simp only [answerOptions, Fallible.throw_bind, Fallible.guard_eq_ok_iff,
    Fallible.pure_eq_ok_iff, Option.isSome_eq_false_iff, Option.isNone_iff_eq_none,
    Bool.or_eq_true, decide_eq_true_eq, not_or, Bool.not_eq_true, not_lt, and_true, and_assoc]

theorem prepare_eq_ok_iff {env : Environment} {parser : ArgumentParser} {count : Option UInt32} :
    prepare env parser = .ok count ↔
      env.config = .ok () ∧ benchmarkCount parser = .ok count ∧
      (parser.isSet "manual-scanning".toList = true → env.manualScanning = .ok ()) ∧
      env.rules = .ok () := by
  rw [prepare, Fallible.unit_bind_eq_ok_iff, Fallible.bind_eq_ok_iff]
  simp only [Fallible.when_eq_ok_iff, Fallible.unit_bind_eq_ok_iff, uncaught,
    Fallible.mapError_eq_ok_iff, Fallible.pure_eq_ok_iff]
  constructor
  · rintro ⟨hconfig, a, ha, hscanning, hrules, rfl⟩
    exact ⟨hconfig, ha, hscanning, hrules⟩
  · rintro ⟨hconfig, hcount, hscanning, hrules⟩
    exact ⟨hconfig, count, hcount, hscanning, hrules, rfl⟩

theorem dump_ne_ok (env : Environment) (subAction : Option Text) : dump env subAction ≠ .ok () := by
  intro h
  cases subAction with
  | none => exact Fallible.throw_eq_ok_iff.mp h
  | some subAction =>
    simp only [dump, Fallible.throw_bind] at h
    split_ifs at h
    exact Fallible.throw_eq_ok_iff.mp (Fallible.unit_bind_eq_ok_iff.mp h).2

theorem debug_ne_ok (env : Environment) (subAction : Option Text) :
    debug env subAction ≠ .ok () := by
  intro h
  cases subAction with
  | none => exact Fallible.throw_eq_ok_iff.mp h
  | some subAction => exact Fallible.throw_eq_ok_iff.mp (Fallible.when_eq_ok_iff.mp h).2

/-- The choice of the action goes on for `start`, and for every action that is not known. -/
theorem chooseAction_eq_ok_iff {env : Environment} {action subAction : Option Text} :
    chooseAction env action subAction = .ok () ↔
      action = some "start".toList ∨ ∃ a, action = some a ∧ a ∉ knownActions := by
  cases action with
  | none => exact iff_of_false Fallible.throw_eq_ok_iff.mp (by simp)
  | some action =>
    simp only [chooseAction, Option.some.injEq, exists_eq_left', knownActions, List.mem_cons,
      List.not_mem_nil, or_false, not_or]
    split_ifs with hstart hdump hdebug
    · exact iff_of_true rfl (Or.inl hstart)
    · exact iff_of_false (dump_ne_ok env subAction) fun h => h.elim hstart fun h => h.2.1 hdump
    · exact iff_of_false (debug_ne_ok env subAction) fun h => h.elim hstart fun h => h.2.2 hdebug
    · exact iff_of_true rfl (Or.inr ⟨hstart, hdump, hdebug⟩)

theorem createSingleton_eq_ok_iff {env : Environment} :
    createSingleton env = .ok () ↔ env.uid = 0 ∧ env.tryCreate = true := by
  have huid : ¬env.uid > 0 ↔ env.uid = 0 := by
    rw [gt_iff_lt, UInt32.lt_iff_toNat_lt, ← UInt32.toNat_inj]
    exact Nat.not_lt.trans Nat.le_zero
  simp only [createSingleton, Fallible.throw_bind, Fallible.guard_eq_ok_iff,
    Fallible.pure_eq_ok_iff, Bool.not_eq_true', Bool.not_eq_false, and_true, huid]

/-- **When the program goes on.** Everything before the choice of the action lets it pass, the
action is `start` or is not known, the user is root, and no other instance is running. -/
theorem main_eq_ok_iff {bpf : Bool} {env : Environment} {argv : List Text}
    {count : Option UInt32} :
    main bpf env argv = .ok count ↔
      ReachesActions bpf env argv ∧ benchmarkCount (parsed bpf argv).1 = .ok count ∧
      (action bpf argv = some "start".toList ∨
        ∃ a, action bpf argv = some a ∧ a ∉ knownActions) ∧
      env.uid = 0 ∧ env.tryCreate = true := by
  rw [main, Fallible.unit_bind_eq_ok_iff, Fallible.bind_eq_ok_iff, answerOptions_eq_ok_iff]
  simp only [Fallible.unit_bind_eq_ok_iff, prepare_eq_ok_iff, chooseAction_eq_ok_iff,
    createSingleton_eq_ok_iff, Fallible.pure_eq_ok_iff, ← action.eq_def]
  constructor
  · rintro ⟨⟨herror, hhelp, hargc, hversion, hremove, hreload⟩, a,
      ⟨hconfig, hcount, hscanning, hrules⟩, haction, hsingleton, rfl⟩
    exact ⟨⟨herror, hhelp, hargc, hversion, hremove, hreload, hconfig, ⟨count, hcount⟩, hscanning,
      hrules⟩, hcount, haction, hsingleton⟩
  · rintro ⟨h, hcount, haction, hsingleton⟩
    exact ⟨⟨h.error, h.help, h.argc, h.version, h.forceRemove, h.reload⟩, count,
      ⟨h.config, hcount, h.manualScanning, h.rules⟩, haction, hsingleton, rfl⟩

theorem isPositional_action (bpf : Bool) :
    (declaredArguments bpf).IsPositional "action".toList (if bpf then 10 else 9) := by
  cases bpf with
  | false => exact ⟨by decide +kernel, by decide +kernel⟩
  | true => exact ⟨by decide +kernel, by decide +kernel⟩

theorem positionalArgs_declaredArguments (bpf : Bool) :
    (ArgumentParser.ParseState.init (declaredArguments bpf)).positionalArgs =
      if bpf then [0, 10, 11] else [0, 9, 10] := by
  cases bpf <;> decide +kernel

theorem valueOf_declaredArguments (bpf : Bool) :
    (declaredArguments bpf).valueOf "action".toList = none := by
  cases bpf <;> decide +kernel

/-- **The action.** It is the second parameter, after the name of the program, that is no option and
no value of an option, wherever the options stand. -/
theorem valueOf_action (bpf : Bool) (argv : List Text) :
    action bpf argv = ((declaredArguments bpf).positionalParams 0 argv)[1]? := by
  have hnodup : (ArgumentParser.ParseState.init (declaredArguments bpf)).positionalArgs.Nodup := by
    rw [positionalArgs_declaredArguments]
    cases bpf <;> decide
  rw [action, parsed, ArgumentParser.valueOf_parseArgs (isPositional_action bpf)
    (valueOf_declaredArguments bpf) hnodup, positionalArgs_declaredArguments]
  rcases (declaredArguments bpf).positionalParams 0 argv with _ | ⟨command, _ | ⟨value, params⟩⟩ <;>
    cases bpf <;> rfl

/-- **When the program goes on for `start` only.** For every command line, the program goes on only
without an error of the parser and for the action `start`, unless it gets to the choice of the
action with one that is not known, as root and with no other instance. -/
theorem main_start_iff (bpf : Bool) (env : Environment) (argv : List Text) :
    (∀ count, main bpf env argv = .ok count →
      (parsed bpf argv).2 = none ∧ action bpf argv = some "start".toList) ↔
    ¬(ReachesActions bpf env argv ∧ (∃ a, action bpf argv = some a ∧ a ∉ knownActions) ∧
      env.uid = 0 ∧ env.tryCreate = true) := by
  simp only [main_eq_ok_iff]
  constructor
  · rintro h ⟨hreaches, ⟨a, ha, hunknown⟩, hsingleton⟩
    obtain ⟨count, hcount⟩ := hreaches.benchmarkCount
    obtain ⟨-, hstart⟩ := h count ⟨hreaches, hcount, Or.inr ⟨a, ha, hunknown⟩, hsingleton⟩
    obtain rfl := Option.some.inj (ha.symm.trans hstart)
    exact hunknown List.mem_cons_self
  · rintro h count ⟨hreaches, -, haction, hsingleton⟩
    refine ⟨hreaches.error, haction.resolve_right fun hunknown => ?_⟩
    exact h ⟨hreaches, hunknown, hsingleton⟩

/-- An environment in which nothing fails. -/
def quiet : Environment := ⟨0, true, true, true, .ok (), .ok (), .ok (), .ok ()⟩

/-- `main` does not only go on for the action `start`: an action that is not known is logged, and
the daemon starts. -/
theorem not_forall_main_start :
    ¬ ∀ (bpf : Bool) (env : Environment) (argv : List Text), env.uid = 0 → env.tryCreate = true →
      ∀ count, main bpf env argv = .ok count →
        (parsed bpf argv).2 = none ∧ action bpf argv = some "start".toList := by
  intro h
  have hmain : (main false quiet ["ananicy-cpp-ng".toList, "strat".toList]).isOk = true := by
    decide +kernel
  have haction : action false ["ananicy-cpp-ng".toList, "strat".toList] ≠ some "start".toList := by
    decide +kernel
  obtain ⟨count, hcount⟩ := Fallible.exists_eq_ok_of_isOk hmain
  exact haction (h false quiet _ rfl rfl count hcount).2

end AnanicyCpp
