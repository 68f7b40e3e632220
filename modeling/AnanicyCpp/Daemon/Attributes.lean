import AnanicyCpp.Daemon
import AnanicyCpp.Worker.Settings
import Mathlib.Data.List.DropRight

/-!
# The attributes at rest

The purpose of the daemon: when everything has come to rest, a process has the attributes that the
rule of its name sets. This holds of a process whose name the listener has told or is going to, in
every run of the daemon, on a kernel whose answers depend on the call only
(`Daemon.attributes_of_run`).

The kernel announces a new thread like a new process, and the worker then sets attributes of all
threads of its process once more. So an attribute may be set again by an entry behind the last one
of the process. It has the value of the rule if no such entry gives it another one, in particular
if these entries are of processes that share no thread with it
(`Daemon.undisturbed_of_owns`).

## Main definitions

* `Daemon.Undisturbed` : no later entry gives the attribute another value.

## Main results

* `Daemon.attributes_of_run` : the attributes of a process at rest.
-/

namespace AnanicyCpp

namespace Daemon

open Netlink (Listener)

variable {σ : Type} {P : Platform σ} {view : σ → Attributes} {R : Responses} {rules : Rules}
  {config : Config} {entries : List Process} {pid : Pid} {name : String}

/-- No entry behind the last one of the process gives the attribute another value. -/
def Undisturbed (R : Responses) (rules : Rules) (config : Config) (entries : List Process)
    (pid : Pid) (attr : Attr) (v : attr.Value) : Prop :=
  ∀ p ∈ entries.rtakeWhile (·.pid ≠ pid), ∀ w,
    Worker.entrySettings R rules config p attr = some w → w = v

/-- Entries of processes that share no thread with the process leave its attributes alone. -/
theorem undisturbed_of_owns {owner : Pid → Pid} (hpid : Worker.Owns R owner pid)
    (howns : ∀ p ∈ entries.rtakeWhile (·.pid ≠ pid), Worker.Owns R owner p.pid) {rule : Json}
    {attr : Attr} {v : attr.Value} (hset : Worker.settings R config rule pid attr = some v) :
    Undisturbed R rules config entries pid attr v := by
  intro p hp w hw
  have howner : owner attr.holder = pid :=
    Worker.owner_holder_of_settings hpid config rule (by rw [hset]; exact Option.some_ne_none v)
  have hother : p.pid = owner attr.holder :=
    Worker.owner_holder_of_entrySettings (howns p hp) (by rw [hw]; exact Option.some_ne_none w)
  have hne : p.pid ≠ pid := by simpa using List.mem_rtakeWhile_imp hp
  exact absurd (hother.trans howner) hne

/-- The last entry of a process, and the entries behind it. -/
theorem exists_eq_append_of_lastEntry {p : Process} (h : Netlink.lastEntry pid entries = some p) :
    ∃ before, entries = before ++ p :: entries.rtakeWhile (·.pid ≠ pid) := by
  induction entries using List.reverseRecOn with
  | nil => cases h
  | append_singleton entries q ih =>
    by_cases hq : q.pid = pid
    · have hlast : Netlink.lastEntry pid (entries ++ [q]) = some q := by
        subst hq
        exact Netlink.lastEntry_append_self q.pid entries q.name
      obtain rfl : q = p := Option.some.inj (hlast.symm.trans h)
      exact ⟨entries, by rw [List.rtakeWhile_concat_neg _ _ _ (by simp [hq])]⟩
    · have hlast : Netlink.lastEntry pid entries = some p :=
        (Netlink.lastEntry_append_of_ne hq entries q.name).symm.trans h
      obtain ⟨before, hbefore⟩ := ih hlast
      refine ⟨before, ?_⟩
      rw [List.rtakeWhile_concat_pos _ _ _ (by simp [hq]), ← List.cons_append,
        ← List.append_assoc, ← hbefore]

/-- The last entry for a process decides its attributes when everything that was pushed has been
handled. -/
theorem attributes_of_lastEntry (hP : P.Responds view R) {env : σ} {t : Pipeline.State σ}
    (hinv : Pipeline.Inv P.setters rules config env t) (hhandled : Pipeline.handled t = entries)
    (hentry : Netlink.lastEntry pid entries = some ⟨pid, name⟩) :
    ∃ rule, rules.getRule name = .ok rule ∧ ∀ attr v,
      Worker.settings R config rule pid attr = some v →
        Undisturbed R rules config entries pid attr v → (view t.worker.env).get attr = v := by
  subst hhandled
  have hmem : ⟨pid, name⟩ ∈ Pipeline.handled t :=
    List.mem_of_mem_filter (List.mem_of_getLast? hentry)
  -- the name was looked up
  obtain ⟨rule, hrule⟩ : ∃ rule, rules.getRule name = .ok rule := by
    obtain ⟨turn, hturn, hprocess⟩ := List.mem_map.mp hmem
    have hfollows := Pipeline.followsRule_of_drain hinv.drained (by simp [Pipeline.newWorker])
      turn hturn
    exact ⟨turn.rule, by simpa only [hprocess] using hfollows.1⟩
  refine ⟨rule, hrule, fun attr v hv hundisturbed => ?_⟩
  have hset : Worker.entrySettings R rules config ⟨pid, name⟩ attr = some v := by
    rw [Worker.entrySettings, hrule]
    exact hv
  obtain ⟨before, hbefore⟩ := exists_eq_append_of_lastEntry hentry
  have hall : Overwrite.all ((Pipeline.handled t).map
      (Worker.entrySettings R rules config)) attr = some v := by
    rw [hbefore]
    exact Overwrite.all_map_eq_some_of_behind hset hundisturbed
  rw [Worker.get_drain hP hinv.drained, Overwrite.apply, hall]
  rfl

/-- **The attributes at rest.** Consider a state in a run of the daemon from which on the name of a
process stays the same and in which no thread holds an entry with an older one, and let every later
scan of `/proc` list the process. Let the listener have told the name or be going to, as it is
behind an `EXEC` that is not missed, or let the socket fail or a scan of `main` read the process
later on. When everything has come to rest, there is a rule for the name, perhaps the empty one, and
every attribute that it sets, and that no entry behind the last one of the process sets otherwise,
has the value that it sets. -/
theorem attributes_of_run (hP : P.Responds view R) {names : Pid → String} {env : σ}
    {before after : List Act} {s t : State σ}
    (hbefore : Transition.run (step P.setters rules config) (init names env) before = some s)
    (hafter : Transition.run (step P.setters rules config) s after = some t)
    (hfresh : s.listener.Fresh pid name)
    (hlast : ∀ a ∈ after.flatMap Act.ofListener, ¬a.Names pid)
    (hlists : ∀ a ∈ after.flatMap Act.ofListener, a.Lists pid)
    (hheard : s.listener.Heard pid name ∨
      .listener .restart ∈ after ∨ .listener (.readManually pid) ∈ after)
    (hsettled : t.listener.Settled)
    (hidle : t.pipeline.queue = [] ∧ t.pipeline.thread.inHand = []) :
    ∃ rule, rules.getRule name = .ok rule ∧ ∀ attr v,
      Worker.settings R config rule pid attr = some v →
        Undisturbed R rules config t.listener.pushed pid attr v →
          (view t.pipeline.worker.env).get attr = v := by
  obtain ⟨hinv, hhandled, hentry⟩ :=
    handled_of_run hbefore hafter hfresh hlast hlists hheard hsettled hidle
  exact attributes_of_lastEntry hP hinv hhandled hentry

/-- The kernel on which processes 5 and 6 are the threads of process 5. -/
def samplePlatform : Platform Attributes := .reference fun _ => [5, 6]

/-- The process calls `exec`, and then creates a thread, for which the worker sets the nice value of
both threads once more. -/
theorem attributes_of_run_sample : ∃ s t : State Attributes,
    Transition.run (step samplePlatform.setters Worker.sampleRules ⟨.empty⟩)
      (init (fun _ => "sh") Worker.sampleWorker.env) [.listener (.beginScan []),
        .listener (.connect true), .main .startListener, .main .startWorker,
        .listener (.kernel (.exec 5 "a") true), .listener .receive] = some s ∧
    Transition.run (step samplePlatform.setters Worker.sampleRules ⟨.empty⟩) s
      [.listener .read, .listener (.push .listener), .listener (.kernel (.fork 5 6) true),
        .listener .receive, .listener .read, .listener (.push .listener), .worker .test,
        .worker .poll, .worker .lookUp, .worker .apply, .worker .poll, .worker .lookUp,
        .worker .apply, .worker .poll] = some t ∧
    (t.pipeline.worker.env.thread 5).nice = 5 := by
  have hbefore : Transition.run (step samplePlatform.setters Worker.sampleRules ⟨.empty⟩)
      (init (fun _ => "sh") Worker.sampleWorker.env) [.listener (.beginScan []),
        .listener (.connect true), .main .startListener, .main .startWorker,
        .listener (.kernel (.exec 5 "a") true), .listener .receive] = some _ := rfl
  obtain ⟨rule, hrule, hset⟩ := attributes_of_run (responds_reference fun _ => [5, 6]) hbefore
    (show Transition.run (step samplePlatform.setters Worker.sampleRules ⟨.empty⟩) _
      [.listener .read, .listener (.push .listener), .listener (.kernel (.fork 5 6) true),
        .listener .receive, .listener .read, .listener (.push .listener), .worker .test,
        .worker .poll, .worker .lookUp, .worker .apply, .worker .poll, .worker .lookUp,
        .worker .apply, .worker .poll] = some _ from rfl)
    (show Listener.Fresh _ 5 "a" from ⟨rfl, by rintro ⟨⟩ p ⟨⟩⟩)
    (by simp [Act.ofListener, Listener.Act.Names, Netlink.Act.Names])
    (by simp [Act.ofListener, Listener.Act.Lists])
    (.inl (.inr (.inr (.inr ⟨by decide, .inl rfl⟩))))
    ⟨⟨rfl, rfl⟩, rfl, rfl, by rintro ⟨⟩ <;> rfl⟩ ⟨rfl, rfl⟩
  obtain rfl := Except.ok.inj (show Worker.sampleRules.getRule "a" = _ from hrule)
  refine ⟨_, _, rfl, rfl, hset (.nice 5) (5 : Int32) rfl fun p hp w hw => ?_⟩
  obtain rfl : p = ⟨6, "a"⟩ := List.mem_singleton.mp hp
  exact (Option.some.inj hw).symm

end Daemon

end AnanicyCpp
