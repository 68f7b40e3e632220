import AnanicyCpp.Rules.Directory
import AnanicyCpp.Rules.Inheritance
import AnanicyCpp.Singleton.Reload

/-!
# What a reload request covers

`--reload` is described as `Reload configuration/rules`. The daemon reads its configuration and
then its rules at the start, and the callback that `main` hands to the reader of the messages is
`conf.reload()`: it overlays the configuration file on the configuration and leaves the rules alone.
A request is therefore honoured as far as the files still say about every program what they said at
the start (`Callback.everyStep_fresh_iff`).

What a list of lines says about a program is `Rules.effectiveRule`, in terms of the log of the lines
and without a store.

## Main definitions

* `Rules.effectiveRule` : what a list of lines says about a program.
* `Callback.State`, `Callback.step` : edits of the files, requests, and the daemon.
* `Callback.Fresh` : the daemon answers like a store that is constructed anew.

## Main results

* `Rules.getRule_loadLines` : a store answers what its lines say.
* `Callback.everyStep_fresh_iff` : when a request covers the rules.
-/

namespace AnanicyCpp

namespace Rules

/-- What a list of lines says about a program: its last rule, which inherits from the last type rule
of the type it names. -/
def effectiveRule (parse : JsonParser) (lines : List Text) (name : String) :
    Except TypeError Json :=
  match lastAssigned name (acceptedEntries parse .program lines) with
  | none => .ok .null
  | some rule =>
    match rule.val.find? "type" with
    | none => .ok rule.val
    | some type => do
      let key ← type.getString
      match lastAssigned key (acceptedEntries parse .type lines) with
      | none => pure rule.val
      | some typeRule => pure (inherit rule.val typeRule.val)

/-- **A store answers what its lines say.** -/
theorem getRule_loadLines (parse : JsonParser) (lines : List Text) (name : String) :
    (empty.loadLines parse lines).getRule name = effectiveRule parse lines name := by
  have hprogram := lookup_loadLines_empty parse lines .program name
  have htype := lookup_loadLines_empty parse lines .type
  simp only [select] at hprogram htype
  rw [getRule, effectiveRule, hprogram]
  cases lastAssigned name (acceptedEntries parse .program lines) with
  | none => rfl
  | some rule =>
    cases hkind : rule.val.find? "type" with
    | none => simp only [hkind]
    | some type =>
      simp only [hkind]
      cases type.getString with
      | error e => rfl
      | ok key =>
        simp only [mergedWithType, htype, bind, Except.bind]
        cases lastAssigned key (acceptedEntries parse .type lines) with
        | none => rfl
        | some typeRule => exact congrArg _ (mergePatch_mergePatch rule.property typeRule.property)

end Rules

namespace Callback

/-- The two places that the daemon reads from, what it holds of them, and the segment. `reloaded`
tells whether the callback under way has called `conf.reload()`. -/
structure State where
  configFile : Option Text
  directory : Option (List DirectoryEntry)
  conf : Config
  rules : Rules
  segment : Singleton.Reload.State
  reloaded : Bool

/-- An edit of the configuration file or of the rules directory, a client's `--reload`, a step of
the reader of the messages, or the body of its callback. -/
inductive Act where
  | editConfig (content : Option Text)
  | editRules (dir : Option (List DirectoryEntry))
  | request (attached : Bool)
  | reader (a : Singleton.ReaderAct)
  | reloadConf
deriving DecidableEq

section

variable (parse : JsonParser) (supported : Bool)

/-- The daemon after `main` has started the reader. -/
def init (configFile : Option Text) (directory : Option (List DirectoryEntry))
    (leftover : Bool) : State where
  configFile := configFile
  directory := directory
  conf := Config.construct supported configFile
  rules := Rules.construct parse (Config.construct supported configFile) directory
  segment := Singleton.Reload.init leftover
  reloaded := false

/-- A file that is gone is read as an empty one. The callback returns after its only statement. -/
def step (s : State) : Act → Option State
  | .editConfig content => some { s with configFile := content }
  | .editRules dir => some { s with directory := dir }
  | .request attached =>
      (Singleton.Reload.step s.segment (.tryWrite attached)).map fun segment =>
        { s with segment := segment }
  | .reloadConf =>
      if s.segment.reader = .calling ∧ s.reloaded = false then
        some { s with
          conf := s.conf.reload supported (s.configFile.getD []), reloaded := true }
      else none
  | .reader a =>
      if a = .endCallback ∧ s.reloaded = false then none
      else (Singleton.Reload.step s.segment (.reader a)).map fun segment =>
        { s with segment := segment, reloaded := s.reloaded && a != .endCallback }

/-- For every name the daemon answers like a store that is constructed from the current directory
under the current configuration. -/
def Fresh (s : State) : Prop :=
  ∀ name, s.rules.getRule name = (Rules.construct parse s.conf s.directory).getRule name

/-- A property of the state that each finished callback leaves. -/
def AfterCallback (P : State → Prop) (s : State) (a : Act) : Prop :=
  a = .reader .endCallback → ∀ t, step supported s a = some t → P t

/-- The lines that the directory contributes under the current configuration. -/
def State.lines (s : State) : List Text := Rules.directoryLines s.conf s.directory

/-- Two lists of lines say the same about every program. -/
def SaySame (lines lines' : List Text) : Prop :=
  ∀ name, Rules.effectiveRule parse lines name = Rules.effectiveRule parse lines' name

variable {parse supported}

theorem fresh_iff (s : State) :
    Fresh parse s ↔
      ∀ name, s.rules.getRule name = Rules.effectiveRule parse s.lines name := by
  refine forall_congr' fun name => ?_
  rw [Rules.construct_eq, Rules.getRule_loadLines, State.lines]

/-- A step of the reader changes neither the files nor what the daemon holds of them. -/
theorem step_reader {s t : State} {a : Singleton.ReaderAct}
    (h : step supported s (.reader a) = some t) :
    t.rules = s.rules ∧ t.conf = s.conf ∧ t.directory = s.directory := by
  simp only [step] at h
  split_ifs at h with hend
  obtain ⟨segment, -, rfl⟩ := Option.map_eq_some_iff.mp h
  exact ⟨rfl, rfl, rfl⟩

/-- No step loads rules. -/
theorem rules_step {s t : State} {a : Act} (h : step supported s a = some t) :
    t.rules = s.rules := by
  cases a with
  | reader a => exact (step_reader h).1
  | editConfig content =>
    obtain rfl := Option.some.inj h
    rfl
  | editRules dir =>
    obtain rfl := Option.some.inj h
    rfl
  | request attached =>
    simp only [step] at h
    obtain ⟨segment, -, rfl⟩ := Option.map_eq_some_iff.mp h
    rfl
  | reloadConf =>
    simp only [step] at h
    split_ifs at h with hcalling
    obtain rfl := Option.some.inj h
    rfl

/-- A run keeps the rules of the start, so the daemon goes on to say what the files said then. -/
theorem getRule_run {configFile : Option Text} {directory : Option (List DirectoryEntry)}
    {leftover : Bool} {acts : List Act} {s : State}
    (hrun : Transition.run (step supported)
      (init parse supported configFile directory leftover) acts = some s) (name : String) :
    s.rules.getRule name = Rules.effectiveRule parse
      (init parse supported configFile directory leftover).lines name := by
  have hrules : s.rules = (init parse supported configFile directory leftover).rules :=
    Transition.run_invariant
      (fun s => s.rules = (init parse supported configFile directory leftover).rules)
      (fun _ _ _ _ hs h => (rules_step h).trans hs) rfl hrun
  rw [hrules, ← Rules.getRule_loadLines, State.lines, ← Rules.construct_eq]
  rfl

/-- **When a request covers the rules.** In every run, after each callback `get_rule` answers for
every name like a store that is constructed from the current directory under the current
configuration, exactly when at the end of each callback the files say about every program what they
said at the start. -/
theorem everyStep_fresh_iff (configFile : Option Text)
    (directory : Option (List DirectoryEntry)) (leftover : Bool) (acts : List Act) :
    Transition.EveryStep (step supported) (AfterCallback supported (Fresh parse))
      (init parse supported configFile directory leftover) acts ↔
    Transition.EveryStep (step supported)
      (fun s a => a = .reader .endCallback →
        SaySame parse (init parse supported configFile directory leftover).lines s.lines)
      (init parse supported configFile directory leftover) acts := by
  rw [Transition.everyStep_iff, Transition.everyStep_iff]
  refine forall₅_congr fun before a after s t => forall₃_congr fun hacts hrun ha => ?_
  refine forall_congr' fun hend => ?_
  subst hend
  obtain ⟨hsame, hconf, hdirectory⟩ := step_reader ha
  have hlines : t.lines = s.lines := by rw [State.lines, State.lines, hconf, hdirectory]
  constructor
  · intro h name
    have hfresh := (fresh_iff t).mp (h t ha) name
    rw [hsame, hlines] at hfresh
    exact (getRule_run hrun name).symm.trans hfresh
  · intro h t' ht'
    obtain rfl : t = t' := Option.some.inj (ha.symm.trans ht')
    refine (fresh_iff t).mpr fun name => ?_
    rw [hsame, hlines]
    exact (getRule_run hrun name).trans (h name)

/-- A rule is added to the directory, and a request is made. -/
def sampleActs : List Act :=
  [.editRules (some [.file "a.rules".toList (some Rules.sampleText)]), .request true,
    .reader .testStop, .reader .testByte, .reader .compare, .reader .beginCallback, .reloadConf]

/-- The daemon at the end of the callback, in front of the return. -/
def sampleEnd : State where
  configFile := none
  directory := some [.file "a.rules".toList (some Rules.sampleText)]
  conf := (Config.construct true none).reload true []
  rules := Rules.construct (JsonParser.only Rules.sampleText Rules.sampleRule)
    (Config.construct true none) none
  segment := ⟨Singleton.requested, .calling⟩
  reloaded := true

theorem run_sampleActs :
    Transition.run (step true) (init (JsonParser.only Rules.sampleText Rules.sampleRule) true none
      none false) sampleActs = some sampleEnd := rfl

/-- A request does not cover the rules: a rule that was added to the directory is not found. -/
theorem not_forall_fresh :
    ¬ ∀ (parse : JsonParser) (supported : Bool) (configFile : Option Text)
      (directory : Option (List DirectoryEntry)) (leftover : Bool) (acts : List Act),
      Transition.EveryStep (step supported) (AfterCallback supported (Fresh parse))
        (init parse supported configFile directory leftover) acts := by
  intro h
  have hall := Transition.everyStep_iff.mp
    (h (JsonParser.only Rules.sampleText Rules.sampleRule) true none none false
      (sampleActs ++ [.reader .endCallback]))
  have hfresh := hall sampleActs _ [] _ _ rfl run_sampleActs rfl rfl _ rfl
  have hvalue := (fresh_iff _).mp hfresh "a"
  have hold := getRule_run run_sampleActs "a"
  have hnull := congrArg (fun rule => rule.toOption.map Json.isNull) (hold.symm.trans hvalue)
  revert hnull
  decide +kernel

end

end Callback

end AnanicyCpp
