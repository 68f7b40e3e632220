import AnanicyCpp.Bpf.Listener
import AnanicyCpp.Daemon.Attributes

/-!
# The attributes at rest in the BPF build

The listener of the BPF build pushes to the same queue, from which the same worker polls. A run of
the daemon is a run of the listener and a run of the pipeline that push the same processes in the
same order, whatever the order of the steps of one and of the other is.

## Main results

* `Bpf.attributes_of_runs` : the attributes of a process at rest.
-/

namespace AnanicyCpp

namespace Bpf

variable {σ : Type} {P : Platform σ} {view : σ → Attributes} {R : Responses} {rules : Rules}
  {config : Config} {κ : Type*} [DecidableEq κ]

/-- A name that is no Windows path is written in the same way by a scan and by an event. -/
theorem Listener.Carries.eq_of_not_windows {name : String} {p : Process}
    (h : Listener.Carries name p) (hname : ¬ProcessInfo.IsWindowsPath name.toList) :
    p.name = name := by
  rcases h with h | h
  · exact h
  · rw [h, Events.eventName, (ProcessInfo.windowsName_eq_iff _).mpr hname, String.ofList_toList]

/-- **The attributes at rest.** Consider a state of the listener from which on the name of a process
stays the same, no handler for it starts, and no thread holds an entry with an older name, and let
every later scan of `/proc` list the process. Let the name be told or going to be and no step miss
it, or let an error of a poll or a scan of `main` make up for it. When the listener and the pipeline
have come to rest, there is a rule for the name of the last entry, which is the name of the process
unless this is a Windows path, and every attribute that the rule sets, and that no entry behind this
one sets otherwise, has the value that it sets. -/
theorem attributes_of_runs (hP : P.Responds view R) {l m : Listener κ} {pid : Pid} {name : String}
    {after : List (Listener.Act κ)} (hpid : pid ≠ 0)
    (hlistener : Transition.run Listener.step l after = some m) (hfresh : l.Fresh pid name)
    (hlast : ∀ a ∈ after, ¬a.Concerns pid) (hlists : ∀ a ∈ after, a.Lists pid)
    (hheard : l.Heard pid name ∧
        Transition.EveryStep Listener.step (fun l a => ¬Listener.Missed pid name l a) l after ∨
      .restart ∈ after ∨ .readManually pid ∈ after)
    (hsettled : m.Settled) {env : σ} {acts : List Pipeline.Act} {t : Pipeline.State σ}
    (hpipeline : Transition.run (Pipeline.step P.setters rules config) (Pipeline.init env) acts =
      some t)
    (hpushed : t.pushed = m.processes) (hidle : t.queue = [] ∧ t.thread.inHand = []) :
    ∃ last rule, (¬ProcessInfo.IsWindowsPath name.toList → last = name) ∧
      Netlink.lastEntry pid m.processes = some ⟨pid, last⟩ ∧ rules.getRule last = .ok rule ∧
      ∀ attr v, Worker.settings R config rule pid attr = some v →
        Daemon.Undisturbed R rules config m.processes pid attr v →
          (view t.worker.env).get attr = v := by
  obtain ⟨⟨pid, last⟩, hentry, rfl, hcarries⟩ :=
    Listener.told_of_heard hfresh hpid hlistener hlast hlists hsettled hheard
  have hinv : Pipeline.Inv P.setters rules config env t :=
    Transition.run_invariant (Pipeline.Inv P.setters rules config env)
      (fun _ _ _ _ hs h => hs.step h) (Pipeline.inv_init P.setters rules config env) hpipeline
  have hhandled : Pipeline.handled t = m.processes := by
    rw [← hpushed, hinv.account, hidle.1, hidle.2, List.append_nil, List.append_nil]
  obtain ⟨rule, hrule, hset⟩ := Daemon.attributes_of_lastEntry hP hinv hhandled hentry
  exact ⟨last, rule, hcarries.eq_of_not_windows, hentry, hrule, hset⟩

/-- The process gets the nice value of its rule by the scan behind an error of a poll, and another
process shows up behind it. -/
theorem attributes_of_runs_sample : ∃ (l m : Listener Bool) (t : Pipeline.State Attributes),
    Listener.step Listener.sampleListener (.events (.exec true 5 "a")) = some l ∧
    Transition.run Listener.step l [.restart, .beginScan [5, 7], .scan, .push .listener, .scan,
      .push .listener, .attach .exec, .attach .fork, .connect] = some m ∧
    Transition.run (Pipeline.step (Platform.reference fun pid => [pid]).setters Worker.sampleRules
        ⟨.empty⟩) (Pipeline.init Worker.sampleWorker.env)
      [.main .startListener, .main .startWorker, .event ⟨5, "a"⟩, .event ⟨7, "sh"⟩, .worker .test,
        .worker .poll, .worker .lookUp, .worker .apply, .worker .poll, .worker .lookUp,
        .worker .apply, .worker .poll] = some t ∧
    (t.worker.env.thread 5).nice = 5 := by
  have hexec : Listener.step Listener.sampleListener (.events (.exec true 5 "a")) = some _ := rfl
  obtain ⟨last, rule, hlast, -, hrule, hset⟩ := attributes_of_runs
    (responds_reference fun pid => [pid]) (by decide)
    (show Transition.run Listener.step _ [.restart, .beginScan [5, 7], .scan, .push .listener,
      .scan, .push .listener, .attach .exec, .attach .fork, .connect] = some _ from rfl)
    (show Listener.Fresh _ 5 "a" from ⟨Listener.names_exec hexec, by rintro ⟨⟩ entry ⟨⟩⟩)
    (by simp [Listener.Act.Concerns]) (by simp [Listener.Act.Lists]) (.inr (.inl (by simp)))
    ⟨⟨fun _ => rfl, fun _ => rfl, rfl⟩, rfl, by rintro ⟨⟩ <;> rfl⟩
    (show Transition.run (Pipeline.step (Platform.reference fun pid => [pid]).setters
        Worker.sampleRules ⟨.empty⟩) (Pipeline.init Worker.sampleWorker.env)
      [.main .startListener, .main .startWorker, .event ⟨5, "a"⟩, .event ⟨7, "sh"⟩, .worker .test,
        .worker .poll, .worker .lookUp, .worker .apply, .worker .poll, .worker .lookUp,
        .worker .apply, .worker .poll] = some _ from rfl)
    rfl ⟨rfl, rfl⟩
  obtain rfl : last = "a" := hlast ((ProcessInfo.windowsName_eq_iff _).mp (by decide))
  obtain rfl := Except.ok.inj (show Worker.sampleRules.getRule "a" = _ from hrule)
  have hnice : Worker.settings (.reference fun pid => [pid]) ⟨.empty⟩ Worker.sampleRule.val 5
      (.nice 5) = some (5 : Int32) := rfl
  refine ⟨_, _, _, hexec, rfl, rfl, hset (.nice 5) (5 : Int32) hnice ?_⟩
  refine Daemon.undisturbed_of_owns (Worker.owns_reference (by decide)) (fun p hp => ?_) hnice
  obtain rfl : p = ⟨7, "sh"⟩ := List.mem_singleton.mp hp
  exact Worker.owns_reference (by decide)

end Bpf

end AnanicyCpp
