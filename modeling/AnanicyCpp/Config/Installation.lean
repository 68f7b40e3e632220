import AnanicyCpp.Config.Print
import AnanicyCpp.Library.Transition

/-!
# The configuration file of an installation

The first start finds no file and writes its configuration to the path, with the answer that the
kernel gave about latency nice. Every later start and reload reads this file. So the configuration
depends on two kernels, the one of the first start and the one that runs: latency nice is on if both
have it, and everything else has its default (`Config.Installation.running_of_run`). On a kernel
that has got latency nice since the first start, it stays off.

The file sets every key, so that here a reload and a restart agree, unlike in general
(`Config.live_eq_restart_iff`).

## Main definitions

* `Config.Installation`, `Config.Installation.step` : the kernel, the file and the daemon.

## Main results

* `Config.reload_written` : what a written file does to a configuration.
* `Config.Installation.running_of_run` : the configuration of the daemon.
-/

namespace AnanicyCpp

namespace Config

/-- Whether the kernel has latency nice, the file at the path, and the configuration of the daemon
if it runs. -/
structure Installation where
  latnice : Bool
  file : Option Text
  running : Option Config

namespace Installation

/-- What can happen. `start` is given the text of the time, the order of the entries, and the number
of characters that reach a new file, or nothing if it cannot be opened; `edit` is what others do to
the file. -/
inductive Act where
  | boot (latnice : Bool)
  | start (now : Text) (items : List (String × String)) (written : Option ℕ)
  | reload
  | stop
  | edit (file : Option Text)
deriving DecidableEq

/-- A step. The constructor writes the file when there is none; a missing file is read like an empty
one by a reload. -/
def step (i : Installation) : Act → Option Installation
  | .boot latnice => some { i with latnice, running := none }
  | .start now items written =>
      match i.running, i.file with
      | some _, _ => none
      | none, some content => some { i with running := construct i.latnice (some content) }
      | none, none =>
          if items.Perm (initial i.latnice).config.entries then
            some { i with
              file := written.map fun n => (configString now items).take n
              running := construct i.latnice none }
          else none
  | .reload => i.running.map fun c =>
      { i with running := c.reload i.latnice (i.file.getD []) }
  | .stop => some { i with running := none }
  | .edit file => some { i with file }

end Installation

/-! ### A written file -/

theorem printable_initial (latnice : Bool) : (initial latnice).Printable latnice := by
  cases latnice
  · exact ⟨by decide +kernel, List.forall_iff_forall_mem.mp (by decide +kernel),
      List.forall_iff_forall_mem.mp (by decide +kernel), fun _ => by decide +kernel⟩
  · exact ⟨by decide +kernel, List.forall_iff_forall_mem.mp (by decide +kernel),
      List.forall_iff_forall_mem.mp (by decide +kernel), fun h => by cases h⟩

theorem get_initial_eq (latnice : Bool) (key : String) : (initial latnice).get key =
    if key = "apply_latnice" then some (latniceSupportStatus latnice)
    else lastAssigned key defaultConfig := by
  rw [initial, get, SortedMap.lookup_insert, SortedMap.lookup_insertMany, SortedMap.lookup_empty,
    Option.or_none]

/-- The last assignment of a list of the entries is the entry. -/
theorem lastAssigned_of_perm {c : Config} {items : List (String × String)}
    (hitems : items.Perm c.config.entries) (key : String) : lastAssigned key items = c.get key := by
  have hnodup : (c.config.entries.map Prod.fst).Nodup := c.config.sorted.nodup_keys
  rw [← lastAssigned_perm hnodup hitems.symm]
  ext value
  rw [lastAssigned_eq_some_iff hnodup, get, SortedMap.mem_entries_iff]

theorem ext_get {c c' : Config} (h : ∀ key, c.get key = c'.get key) : c = c' := by
  obtain ⟨config⟩ := c
  obtain ⟨config'⟩ := c'
  obtain rfl : config = config' := SortedMap.ext_lookup h
  rfl

/-- **A written file.** Whatever the kernel of the configuration is, a reload of the file brings it
to the defaults with the latency nice that both the file and the kernel have. -/
theorem reload_written {content : Text} {filed : Bool}
    (hcontent : (assignments content).Perm (initial filed).config.entries)
    (latnice latnice' : Bool) :
    (initial latnice').reload latnice content = initial (filed && latnice) := by
  refine ext_get fun key => ?_
  rw [get_reload, lastAssigned_of_perm hcontent]
  simp only [get_initial_eq, Overridden]
  by_cases hkey : key = "apply_latnice"
  · cases latnice <;> cases filed <;> simp [hkey, latniceSupportStatus]
  · simp [hkey]

namespace Installation

variable {i j : Installation}

/-- The file sets every key, and the daemon has the latency nice that both the file and the kernel
have. -/
structure Written (filed : Bool) (i : Installation) : Prop where
  file : ∃ content, i.file = some content ∧
    (assignments content).Perm (initial filed).config.entries
  running : ∀ c, i.running = some c → c = initial (filed && i.latnice)

theorem Written.step {filed : Bool} {a : Act} (hi : Written filed i) (ha : ∀ file, a ≠ .edit file)
    (h : Installation.step i a = some j) : Written filed j := by
  obtain ⟨⟨content, hfile, hcontent⟩, hrunning⟩ := hi
  cases a with
  | boot latnice =>
    obtain rfl := Option.some.inj h
    exact ⟨⟨content, hfile, hcontent⟩, fun c hc => by cases hc⟩
  | start now items written =>
    rw [Installation.step, hfile] at h
    cases hrun : i.running with
    | some c =>
      rw [hrun] at h
      cases h
    | none =>
      rw [hrun] at h
      obtain rfl := Option.some.inj h
      refine ⟨⟨content, rfl, hcontent⟩, fun c hc => ?_⟩
      obtain rfl := Option.some.inj hc
      exact reload_written hcontent i.latnice i.latnice
  | reload =>
    obtain ⟨c, hc, rfl⟩ := Option.map_eq_some_iff.mp h
    refine ⟨⟨content, hfile, hcontent⟩, fun c' hc' => ?_⟩
    obtain rfl := Option.some.inj hc'
    rw [hrunning c hc, hfile]
    exact reload_written hcontent i.latnice _
  | stop =>
    obtain rfl := Option.some.inj h
    exact ⟨⟨content, hfile, hcontent⟩, fun c hc => by cases hc⟩
  | edit file => exact absurd rfl (ha file)

/-- The first start writes such a file. -/
theorem written_start {now : Text} {items : List (String × String)} {n : ℕ} (hnow : '=' ∉ now)
    (hfile : i.file = none) (hn : (configString now items).length ≤ n)
    (h : Installation.step i (.start now items (some n)) = some j) :
    Written i.latnice j := by
  rw [Installation.step, hfile] at h
  cases hrun : i.running with
  | some c =>
    rw [hrun] at h
    cases h
  | none =>
    rw [hrun] at h
    obtain ⟨hitems, rfl⟩ := Option.ite_none_right_eq_some.mp h |>.imp_right Option.some.inj
    refine ⟨⟨configString now items, ?_, ?_⟩, fun c hc => ?_⟩
    · exact congrArg some (List.take_of_length_le hn)
    · rwa [assignments_configString (printable_initial i.latnice) hitems hnow]
    · obtain rfl := Option.some.inj hc
      exact congrArg initial (Bool.and_self _).symm

/-- **The configuration of the daemon.** Let a start find no file and write it, and let nobody edit
the file. After any further starts, reloads and boots of other kernels, a daemon that runs has the
default configuration, with latency nice if both the kernel of that start and the present one have
it. -/
theorem running_of_run {now : Text} {items : List (String × String)} {n : ℕ} {acts : List Act}
    (hnow : '=' ∉ now) (hfile : i.file = none) (hn : (configString now items).length ≤ n)
    (hrun : Transition.run step i (.start now items (some n) :: acts) = some j)
    (hedits : ∀ file, .edit file ∉ acts) {c : Config} (hc : j.running = some c) :
    c = initial (i.latnice && j.latnice) := by
  obtain ⟨k, hstart, hrest⟩ := Transition.run_cons_eq_some_iff.mp hrun
  have hk := written_start hnow hfile hn hstart
  have hj : Written i.latnice j :=
    Transition.run_invariant (Written i.latnice)
      (fun _ a ha _ hs h => hs.step (fun file h' => hedits file (h' ▸ ha)) h) hk hrest
  exact hj.running c hc

/-- The kernel has got latency nice since the first start, and latency nice stays off. -/
theorem running_of_run_sample : ∃ j c, Transition.run step ⟨false, none, none⟩
      [.start "12:00:00".toList (initial false).config.entries.reverse (some 1000), .stop,
        .boot true, .start [] [] none, .reload] = some j ∧
    j.running = some c ∧ c.applyLatnice = false := by
  obtain ⟨j, hrun, hlatnice, hrunning⟩ : ∃ j ∈ Transition.run step ⟨false, none, none⟩
      [.start "12:00:00".toList (initial false).config.entries.reverse (some 1000), .stop,
        .boot true, .start [] [] none, .reload], j.latnice = true ∧ j.running.isSome := by
    decide +kernel
  obtain ⟨c, hc⟩ := Option.isSome_iff_exists.mp hrunning
  refine ⟨j, c, hrun, hc, ?_⟩
  rw [running_of_run (by decide) rfl (by decide +kernel) hrun (by simp) hc]
  rfl

end Installation

end Config

end AnanicyCpp
