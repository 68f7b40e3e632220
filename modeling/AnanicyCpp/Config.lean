import AnanicyCpp.Library.SortedMap
import AnanicyCpp.Library.Text
import Mathlib.Data.String.Basic

/-!
# The configuration

`config.cpp`: a map from keys to texts, filled with defaults by the constructor and overlaid with
the lines `key = value` of the configuration file. `reload` overlays the file on whatever the map
holds at that moment, and the constructor does the same on the defaults. Whether the kernel
supports latency nice is a parameter, constant over a run.

A live configuration and a restarted one therefore agree exactly when the keys that have left the
file were last set to their defaults (`Config.live_eq_restart_iff`).

## Main definitions

* `Config`, `Config.get`, `Config.checkRule` : the map and its readers.
* `Config.assignments` : what a file says.
* `Config.construct`, `Config.reload` : the constructor and the overlay.
* `Config.live` : a constructor call followed by reloads.
* `Config.observable` : the maps that another thread can find, between any two assignments.

## Main results

* `Config.get_reload`, `Config.get_live` : the value of a key after one reload and after a run.
* `Config.live_eq_restart_iff` : when a live configuration agrees with a restarted one.
* `Config.observable_latnice_off_iff` : when latency nice is never on without the kernel.
-/

namespace AnanicyCpp

/-- The configuration map. -/
structure Config where
  config : SortedMap String String

namespace Config

/-! ### Reading a configuration -/

/-- `get(key)` -/
def get (c : Config) (key : String) : Option String :=
  c.config.lookup key

/-- `check_rule`: a present key is on when its text is `true`, an absent one has the default. -/
def checkRule (c : Config) (ruleName : String) (defaultValue : Bool) : Bool :=
  match c.get ruleName with
  | some value => value == "true"
  | none => defaultValue

def applyNice (c : Config) : Bool := c.checkRule "apply_nice" true
def applyLatnice (c : Config) : Bool := c.checkRule "apply_latnice" true
def applySched (c : Config) : Bool := c.checkRule "apply_sched" true
def applyIonice (c : Config) : Bool := c.checkRule "apply_ionice" true
def applyOomScoreAdj (c : Config) : Bool := c.checkRule "apply_oom_score_adj" true

def cgroupLoad (c : Config) : Bool := c.checkRule "cgroup_load" true
def typeLoad (c : Config) : Bool := c.checkRule "type_load" true
def ruleLoad (c : Config) : Bool := c.checkRule "rule_load" true

/-- The key is `apply_cgroup`, without a plural and without a default entry. -/
def applyCgroups (c : Config) : Bool := c.checkRule "apply_cgroup" true

def cgroupRealtimeWorkaround (c : Config) : Bool :=
  c.checkRule "cgroup_realtime_workaround" true

/-! ### Filling a configuration -/

/-- `default_config` -/
def defaultConfig : List (String × String) :=
  [("apply_nice", "true"), ("apply_sched", "true"), ("apply_ionice", "true"),
    ("apply_oom_score_adj", "true"), ("apply_latnice", "true"), ("log_applied_rule", "false"),
    ("cgroup_load", "true"), ("type_load", "true"), ("rule_load", "true"),
    ("cgroup_realtime_workaround", "true"), ("loglevel", "info"), ("check_freq", "60")]

/-- The answer of `test_latnice_support`. -/
def latniceSupportStatus (supported : Bool) : String :=
  if supported then "true" else "false"

/-- Remove spaces at both ends; a text of spaces only is returned as it is. -/
def trim (str : Text) : Text :=
  if str.all (· == ' ') then str else Text.strip ' ' str

/-- What a line assigns: the part in front of the first `=` and a non-empty part behind it. The
second `getline` fails on a line without `=` and on one that ends with its first `=`. -/
def assignmentOfLine (line : Text) : Option (String × String) :=
  match line.dropWhile (· != '=') with
  | '=' :: c :: value =>
      some (String.ofList (trim (line.takeWhile (· != '='))), String.ofList (trim (c :: value)))
  | _ => none

/-- The assignments that a file makes, in order. -/
def assignments (content : Text) : List (String × String) :=
  (Text.getlines content).filterMap assignmentOfLine

/-- `reload`: overlay the file, then switch latency nice off where the kernel does not have it. -/
def reload (supported : Bool) (content : Text) (c : Config) : Config :=
  let overlaid := c.config.insertMany (assignments content)
  if supported then ⟨overlaid⟩
  else ⟨overlaid.insert "apply_latnice" (latniceSupportStatus supported)⟩

/-- The map that the constructor starts from. -/
def initial (supported : Bool) : Config :=
  ⟨(SortedMap.empty.insertMany defaultConfig).insert "apply_latnice"
    (latniceSupportStatus supported)⟩

/-- The constructor. Without a file it keeps the defaults and writes them to the path. -/
def construct (supported : Bool) : Option Text → Config
  | none => initial supported
  | some content => (initial supported).reload supported content

/-- The configuration of a process that was started on the first content and has reloaded once
after each later one. -/
def live (supported : Bool) : List Text → Config
  | [] => construct supported none
  | first :: later =>
      later.foldl (fun c content => c.reload supported content) (construct supported (some first))

/-! ### The value of a key -/

/-- The key that the kernel decides, whatever the file says. -/
def Overridden (supported : Bool) (key : String) : Prop :=
  supported = false ∧ key = "apply_latnice"

instance (supported : Bool) (key : String) : Decidable (Overridden supported key) :=
  inferInstanceAs (Decidable (_ ∧ _))

/-- The value of a key after one reload. -/
theorem get_reload (supported : Bool) (content : Text) (c : Config) (key : String) :
    (c.reload supported content).get key =
      if Overridden supported key then some "false"
      else (lastAssigned key (assignments content)).or (c.get key) := by
  unfold reload get Overridden
  cases supported with
  | true => simp [SortedMap.lookup_insertMany]
  | false =>
    by_cases hkey : key = "apply_latnice"
    · simp [hkey, latniceSupportStatus]
    · simp [hkey, SortedMap.lookup_insert, SortedMap.lookup_insertMany]

/-- The value of a key after a list of reloads: the last assignment of all files wins. -/
theorem get_foldl_reload (supported : Bool) (contents : List Text) (c : Config) (key : String)
    (hc : Overridden supported key → c.get key = some "false") :
    (contents.foldl (fun c content => c.reload supported content) c).get key =
      if Overridden supported key then some "false"
      else (lastAssigned key (contents.flatMap assignments)).or (c.get key) := by
  induction contents generalizing c with
  | nil => by_cases h : Overridden supported key <;> simp [h, hc]
  | cons content contents ih =>
      have hnext : Overridden supported key →
          (c.reload supported content).get key = some "false" := fun h => by
        rw [get_reload, if_pos h]
      rw [List.foldl_cons, ih _ hnext, get_reload, List.flatMap_cons, lastAssigned_append]
      split_ifs
      · rfl
      · exact (Option.or_assoc ..).symm

/-- The value of a key in a live configuration. -/
theorem get_live (supported : Bool) {contents : List Text} (hne : contents ≠ []) (key : String) :
    (live supported contents).get key =
      if Overridden supported key then some "false"
      else (lastAssigned key (contents.flatMap assignments)).or ((initial supported).get key) := by
  cases contents with
  | nil => exact absurd rfl hne
  | cons first later =>
      have hfirst : Overridden supported key →
          (construct supported (some first)).get key = some "false" := fun h => by
        rw [construct, get_reload, if_pos h]
      rw [live, get_foldl_reload supported later _ key hfirst, construct, get_reload,
        List.flatMap_cons, lastAssigned_append]
      split_ifs
      · rfl
      · exact (Option.or_assoc ..).symm

theorem get_construct_some (supported : Bool) (content : Text) (key : String) :
    (construct supported (some content)).get key =
      if Overridden supported key then some "false"
      else (lastAssigned key (assignments content)).or ((initial supported).get key) :=
  get_reload supported content (initial supported) key

theorem get_initial (supported : Bool) {key : String} (h : ¬Overridden supported key) :
    (initial supported).get key = lastAssigned key defaultConfig := by
  unfold initial get
  rw [SortedMap.lookup_insert, SortedMap.lookup_insertMany, SortedMap.lookup_empty,
    Option.or_none]
  split_ifs with hkey
  · have hs : supported = true := by
      by_contra hs
      exact h ⟨by simpa using hs, hkey⟩
    rw [hs, hkey]
    decide
  · rfl

/-- **When a live configuration agrees with a restarted one.** After any history of file contents
the two agree on every key exactly when each key that the last content does not set, other than
one the kernel decides, was last set to its default by the earlier contents, if at all. -/
theorem live_eq_restart_iff (supported : Bool) (earlier : List Text) (last : Text) :
    (∀ key, (live supported (earlier ++ [last])).get key =
      (construct supported (some last)).get key) ↔
    ∀ key value, ¬Overridden supported key → lastAssigned key (assignments last) = none →
      lastAssigned key (earlier.flatMap assignments) = some value →
      lastAssigned key defaultConfig = some value := by
  have hlive (key : String) := get_live supported (List.append_ne_nil_of_right_ne_nil earlier
    (List.cons_ne_nil last [])) key
  constructor
  · intro h key value hkey hlast hearlier
    have hagree := h key
    rw [hlive, get_construct_some, if_neg hkey, if_neg hkey, List.flatMap_append,
      lastAssigned_append] at hagree
    simpa [hlast, hearlier, get_initial supported hkey] using hagree.symm
  · intro h key
    rw [hlive, get_construct_some]
    split_ifs with hkey
    · rfl
    · rw [List.flatMap_append, lastAssigned_append]
      cases hlast : lastAssigned key (assignments last) with
      | some value => simp [hlast]
      | none =>
        cases hearlier : lastAssigned key (earlier.flatMap assignments) with
        | none => simp [hlast]
        | some value =>
          simp [hlast, get_initial supported hkey, h key value hkey hlast hearlier]

/-- A live reload and a restart do not always agree: after `apply_nice=false` has left the file,
the live configuration still has it off. -/
theorem not_forall_live_eq_restart :
    ¬ ∀ (supported : Bool) (earlier : List Text) (last : Text) (key : String),
      (live supported (earlier ++ [last])).get key =
        (construct supported (some last)).get key := by
  intro h
  have hagree := h true ["apply_nice=false\n".toList] [] "apply_nice"
  revert hagree
  decide +kernel

/-! ### What another thread can find -/

/-- The assignments of a call of `reload`, in order. The last one, where there is one, is that of
the kernel. -/
def reloadAssignments (supported : Bool) (content : Text) : List (String × String) :=
  assignments content ++
    if supported then [] else [("apply_latnice", latniceSupportStatus supported)]

/-- The maps in front of, between and behind a list of assignments. -/
def assignStates (c : Config) : List (String × String) → List Config
  | [] => [c]
  | e :: l => c :: assignStates ⟨c.config.insert e.1 e.2⟩ l

/-- The maps that can be found while a configuration reloads once for each content. -/
def observable (supported : Bool) : Config → List Text → List Config
  | c, [] => [c]
  | c, content :: later =>
      c.assignStates (reloadAssignments supported content) ++
        observable supported (c.reload supported content) later

/-- The assignments together are the reload. -/
theorem reload_eq_insertMany (supported : Bool) (content : Text) (c : Config) :
    c.reload supported content = ⟨c.config.insertMany (reloadAssignments supported content)⟩ := by
  rw [reloadAssignments, SortedMap.insertMany_append]
  cases supported <;> rfl

theorem getLast?_assignStates (c : Config) (l : List (String × String)) :
    (c.assignStates l).getLast? = some ⟨c.config.insertMany l⟩ := by
  induction l generalizing c with
  | nil => rfl
  | cons e l ih =>
      rw [assignStates, List.getLast?_cons, ih]
      rfl

/-- The key has a value that meets a condition. -/
def SetTo (key : String) (Q : String → Prop) (c : Config) : Prop :=
  ∃ value, c.get key = some value ∧ Q value

/-- Latency nice is set, and it is off. -/
def LatniceOff (c : Config) : Prop := ∃ value, c.get "apply_latnice" = some value ∧ value ≠ "true"

theorem applyLatnice_eq_false_iff {c : Config} : c.applyLatnice = false ↔ LatniceOff c := by
  rw [applyLatnice, checkRule, LatniceOff]
  cases c.get "apply_latnice" <;> simp

section SetTo

variable {key : String} {Q : String → Prop} {c : Config}

theorem setTo_assign_iff (hc : SetTo key Q c) (e : String × String) :
    SetTo key Q ⟨c.config.insert e.1 e.2⟩ ↔ (e.1 = key → Q e.2) := by
  rw [SetTo, get, SortedMap.lookup_insert]
  by_cases hkey : key = e.1
  · rw [if_pos hkey]
    simp [hkey]
  · rw [if_neg hkey]
    exact iff_of_true hc fun h => absurd h.symm hkey

/-- While assignments are made to a map in which the key meets the condition, it meets the condition
all the time exactly when all values that are assigned to it do. -/
theorem forall_assignStates_iff (hc : SetTo key Q c) (l : List (String × String)) :
    (∀ c' ∈ c.assignStates l, SetTo key Q c') ↔ ∀ e ∈ l, e.1 = key → Q e.2 := by
  induction l generalizing c with
  | nil => simpa [assignStates] using hc
  | cons e l ih =>
      rw [assignStates, List.forall_mem_cons, List.forall_mem_cons, and_iff_right hc]
      by_cases he : e.1 = key → Q e.2
      · rw [ih ((setTo_assign_iff hc e).mpr he), and_iff_right he]
      · -- the state behind this assignment is the first that does not meet the condition
        have hhead : (⟨c.config.insert e.1 e.2⟩ : Config) ∈
            assignStates ⟨c.config.insert e.1 e.2⟩ l := by
          cases l <;> exact List.mem_cons_self
        exact iff_of_false (fun hall => he ((setTo_assign_iff hc e).mp (hall _ hhead)))
          fun hall => he hall.1

theorem setTo_insertMany (hc : SetTo key Q c) {l : List (String × String)}
    (h : ∀ e ∈ l, e.1 = key → Q e.2) : SetTo key Q ⟨c.config.insertMany l⟩ :=
  (forall_assignStates_iff hc l).mpr h _ (List.mem_of_getLast? (getLast?_assignStates c l))

/-- The same while a configuration reloads any number of times. -/
theorem forall_observable_iff (supported : Bool) (hc : SetTo key Q c) (later : List Text) :
    (∀ c' ∈ c.observable supported later, SetTo key Q c') ↔
      ∀ content ∈ later, ∀ e ∈ reloadAssignments supported content, e.1 = key → Q e.2 := by
  induction later generalizing c with
  | nil => simpa [observable] using hc
  | cons content later ih =>
      rw [observable, List.forall_mem_append, forall_assignStates_iff hc, List.forall_mem_cons]
      refine and_congr_right fun hcontent => ih ?_
      rw [reload_eq_insertMany]
      exact setTo_insertMany hc hcontent

end SetTo

/-- Without kernel support the constructor and every reload leave latency nice off. -/
theorem latniceOff_reload (content : Text) (c : Config) : LatniceOff (c.reload false content) :=
  ⟨"false", by rw [get_reload, if_pos ⟨rfl, rfl⟩], by decide⟩

theorem latniceOff_construct (first : Option Text) : LatniceOff (construct false first) := by
  cases first with
  | none => exact ⟨"false", by decide, by decide⟩
  | some content => exact latniceOff_reload content (initial false)

/-- The kernel's own assignment is harmless. -/
theorem forall_reloadAssignments_latnice_iff (content : Text) :
    (∀ e ∈ reloadAssignments false content, e.1 = "apply_latnice" → e.2 ≠ "true") ↔
      ("apply_latnice", "true") ∉ assignments content := by
  have hmem : ("apply_latnice", "true") ∈ reloadAssignments false content ↔
      ("apply_latnice", "true") ∈ assignments content := by
    simp [reloadAssignments, latniceSupportStatus]
  rw [← hmem]
  exact ⟨fun h hon => h _ hon rfl rfl, fun h e he hkey hvalue => h (hkey ▸ hvalue ▸ he)⟩

/-- **When latency nice is never on.** On a kernel without it, a thread that reads the configuration
between any two assignments of any number of reloads finds latency nice off every time exactly when
none of the contents that are read by a reload sets it to `true`. The content that the constructor
reads does not matter. -/
theorem observable_latnice_off_iff (first : Option Text) (later : List Text) :
    (∀ c ∈ (construct false first).observable false later, c.applyLatnice = false) ↔
      ∀ content ∈ later, ("apply_latnice", "true") ∉ assignments content := by
  simp only [applyLatnice_eq_false_iff, ← forall_reloadAssignments_latnice_iff]
  exact forall_observable_iff false (latniceOff_construct first) later

/-- Latency nice can be found on: the file asks for it, and the kernel's answer is stored after
that. -/
theorem not_forall_observable_latnice_off :
    ¬ ∀ (first : Option Text) (later : List Text),
      ∀ c ∈ (construct false first).observable false later, c.applyLatnice = false := by
  intro h
  have hoff := h none ["apply_latnice=true\n".toList]
  revert hoff
  decide +kernel

end Config

end AnanicyCpp
