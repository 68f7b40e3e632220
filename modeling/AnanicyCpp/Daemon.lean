import AnanicyCpp.Netlink.Listener
import AnanicyCpp.Worker.Pipeline

/-!
# The daemon

The listener and the worker together, in the netlink build: the processes of the system, the event
thread, `main` with its scans, the queue and the worker thread, from the constructor of the
`ProcessQueue` on. What the listener pushes goes through the queue of the pipeline, in the thread
that pushes it.

From some state on the name of a process stays the same, and no thread holds an entry with an older
one. When everything has come to rest, the last turn of the worker for this process is for that
name, and makes the calls of its rule, if the listener has told the name or is going to
(`Daemon.lastTurn_of_run`).

## Main definitions

* `Daemon.State`, `Daemon.step` : the daemon.

## Main results

* `Daemon.run_listener`, `Daemon.exists_run_pipeline` : the parts run as they do on their own.
* `Daemon.lastTurn_of_run` : the last turn for a process.
-/

namespace AnanicyCpp

namespace Daemon

open Netlink (Listener)

variable {σ : Type}

structure State (σ : Type) where
  listener : Listener
  pipeline : Pipeline.State σ

inductive Act where
  | listener (a : Listener.Act)
  | main (a : Pipeline.MainAct)
  | worker (a : Pipeline.WorkerAct)
deriving DecidableEq

/-- Whether there is a thread that takes the step. The constructor scans and subscribes in `main`;
everything else of the listener happens in the event thread, beside the scans of `main` in the
service loop. -/
def mayAct (s : Pipeline.State σ) : Listener.Act → Bool
  | .kernel _ _ => true
  | .beginScan _ | .scan | .connect _ | .push .listener =>
      !s.thread.isTerminated && (s.main == .constructing || s.main.listens)
  | .receive | .read | .restart | .stop => !s.thread.isTerminated && s.main.listens
  | .readManually _ | .push .manual => !s.thread.isTerminated && s.main == .serving

/-- The thread that pushes what a step of the listener pushes. -/
def pushAct (main : Pipeline.Main) (a : Listener.Act) (p : Process) : Pipeline.Act :=
  if a = .push .manual ∨ main = .constructing then .scan p else .event p

/-- `main` goes on from the constructor behind the initialisation, which may have failed unnoticed,
does nothing else during a scan, and stops the listener by waiting for the end of the event
thread. -/
def mayProceed (l : Listener) : Pipeline.MainAct → Bool
  | .startListener => l.phase == .handling || l.phase == .ended
  | .stopListener => l.hand .manual == none && l.phase == .ended
  | _ => true

variable (S : Setters σ) (rules : Rules) (config : Config)

/-- A step of the daemon. -/
def step (s : State σ) : Act → Option (State σ)
  | .listener a =>
      if mayAct s.pipeline a then do
        let listener ← s.listener.step a
        let entries := listener.pushed.drop s.listener.pushed.length
        let pipeline ← Transition.run (Pipeline.step S rules config) s.pipeline
          (entries.map (pushAct s.pipeline.main a))
        pure ⟨listener, pipeline⟩
      else none
  | .main a =>
      if mayProceed s.listener a then do
        let pipeline ← Pipeline.step S rules config s.pipeline (.main a)
        pure { s with pipeline }
      else none
  | .worker a => do
      let pipeline ← Pipeline.step S rules config s.pipeline (.worker a)
      pure { s with pipeline }

def init (names : Pid → String) (env : σ) : State σ := ⟨.start names, Pipeline.init env⟩

/-- The part of the listener in a step. -/
def Act.ofListener : Act → List Listener.Act
  | .listener a => [a]
  | _ => []

variable {S rules config}

/-! ### The parts -/

/-- A step of the listener, with the pushes that come from it. -/
theorem step_listener {s t : State σ} {a : Listener.Act}
    (h : step S rules config s (.listener a) = some t) :
    s.listener.step a = some t.listener ∧
      Transition.run (Pipeline.step S rules config) s.pipeline
        ((t.listener.pushed.drop s.listener.pushed.length).map (pushAct s.pipeline.main a)) =
          some t.pipeline := by
  obtain ⟨-, h⟩ := Option.ite_none_right_eq_some.mp h
  obtain ⟨listener, hlistener, h⟩ := Option.bind_eq_some_iff.mp h
  obtain ⟨pipeline, hpipeline, h⟩ := Option.bind_eq_some_iff.mp h
  obtain rfl := Option.some.inj h
  exact ⟨hlistener, hpipeline⟩

/-- A step of `main` or the worker. -/
theorem step_pipeline {s t : State σ} {a : Act} (hlistener : a.ofListener = [])
    (h : step S rules config s a = some t) : t.listener = s.listener ∧
      ∃ b, b.pushes = [] ∧ Pipeline.step S rules config s.pipeline b = some t.pipeline := by
  cases a with
  | listener a => cases hlistener
  | main a =>
    obtain ⟨-, h⟩ := Option.ite_none_right_eq_some.mp h
    obtain ⟨pipeline, hpipeline, h⟩ := Option.bind_eq_some_iff.mp h
    obtain rfl := Option.some.inj h
    exact ⟨rfl, .main a, rfl, hpipeline⟩
  | worker a =>
    obtain ⟨pipeline, hpipeline, h⟩ := Option.bind_eq_some_iff.mp h
    obtain rfl := Option.some.inj h
    exact ⟨rfl, .worker a, rfl, hpipeline⟩

theorem ofListener_cases (a : Act) : (∃ b, a = .listener b) ∨ a.ofListener = [] := by
  cases a with
  | listener b => exact .inl ⟨b, rfl⟩
  | _ => exact .inr rfl

/-- The listener runs as it does on its own. -/
theorem run_listener {s t : State σ} {acts : List Act}
    (hrun : Transition.run (step S rules config) s acts = some t) :
    Transition.run Listener.step s.listener (acts.flatMap Act.ofListener) = some t.listener := by
  refine Transition.run_flatMap State.listener Act.ofListener (fun s a t h => ?_) hrun
  rcases ofListener_cases a with ⟨b, rfl⟩ | hnone
  · exact Transition.run_cons_eq_some_iff.mpr ⟨t.listener, (step_listener h).1, rfl⟩
  · rw [hnone, (step_pipeline hnone h).1]
    rfl

/-- So does the pipeline. -/
theorem exists_run_pipeline {s t : State σ} {acts : List Act}
    (hrun : Transition.run (step S rules config) s acts = some t) :
    ∃ acts', Transition.run (Pipeline.step S rules config) s.pipeline acts' = some t.pipeline := by
  refine Transition.exists_run State.pipeline (fun s a t h => ?_) hrun
  rcases ofListener_cases a with ⟨b, rfl⟩ | hnone
  · exact ⟨_, (step_listener h).2⟩
  · obtain ⟨-, b, -, hb⟩ := step_pipeline hnone h
    exact ⟨[b], Transition.run_cons_eq_some_iff.mpr ⟨t.pipeline, hb, rfl⟩⟩

theorem flatMap_pushAct (main : Pipeline.Main) (a : Listener.Act) (entries : List Process) :
    (entries.map (pushAct main a)).flatMap Pipeline.Act.pushes = entries := by
  have hpushes (p : Process) : (pushAct main a p).pushes = [p] := by
    unfold pushAct
    split_ifs <;> rfl
  induction entries with
  | nil => rfl
  | cons p entries ih => rw [List.map_cons, List.flatMap_cons, ih, hpushes, List.singleton_append]

/-- What the listener pushes goes to the queue. -/
theorem pushed_eq_of_step {s t : State σ} {a : Act}
    (hs : s.pipeline.pushed = s.listener.pushed) (h : step S rules config s a = some t) :
    t.pipeline.pushed = t.listener.pushed := by
  rcases ofListener_cases a with ⟨b, rfl⟩ | hnone
  · obtain ⟨hlistener, hpipeline⟩ := step_listener h
    have hlog := Transition.run_log Pipeline.State.pushed Pipeline.Act.pushes
      (fun _ _ _ h => Pipeline.pushed_step h) hpipeline
    rw [hlog, hs, flatMap_pushAct]
    exact List.prefix_iff_eq_append.mp (Listener.pushed_step hlistener)
  · obtain ⟨hlistener, b, hb, hstep⟩ := step_pipeline hnone h
    rw [hlistener, Pipeline.pushed_step hstep, hb, List.append_nil, hs]

/-! ### The last turn -/

/-- The last turn for a process. -/
def lastTurn (pid : Pid) (turns : List (Worker.Turn σ)) : Option (Worker.Turn σ) :=
  (turns.filter (·.process.pid == pid)).getLast?

theorem map_lastTurn (pid : Pid) (turns : List (Worker.Turn σ)) :
    (lastTurn pid turns).map Worker.Turn.process =
      Netlink.lastEntry pid (turns.map Worker.Turn.process) := by
  rw [lastTurn, Netlink.lastEntry, List.filter_map, List.getLast?_map]
  rfl

/-- When everything has come to rest, the worker has handled what the listener pushed, and last for
the process the name that it has. -/
theorem handled_of_run {names : Pid → String} {env : σ} {before after : List Act} {s t : State σ}
    {pid : Pid} {name : String}
    (hbefore : Transition.run (step S rules config) (init names env) before = some s)
    (hafter : Transition.run (step S rules config) s after = some t)
    (hfresh : s.listener.Fresh pid name)
    (hlast : ∀ a ∈ after.flatMap Act.ofListener, ¬a.Names pid)
    (hlists : ∀ a ∈ after.flatMap Act.ofListener, a.Lists pid)
    (hheard : s.listener.Heard pid name ∨
      .listener .restart ∈ after ∨ .listener (.readManually pid) ∈ after)
    (hsettled : t.listener.Settled)
    (hidle : t.pipeline.queue = [] ∧ t.pipeline.thread.inHand = []) :
    Pipeline.Inv S rules config env t.pipeline ∧
      Pipeline.handled t.pipeline = t.listener.pushed ∧
      Netlink.lastEntry pid t.listener.pushed = some ⟨pid, name⟩ := by
  have hrun := Transition.run_append_eq_some_iff.mpr ⟨s, hbefore, hafter⟩
  have hmem {a : Listener.Act} (ha : .listener a ∈ after) : a ∈ after.flatMap Act.ofListener :=
    List.mem_flatMap.mpr ⟨.listener a, ha, List.mem_singleton.mpr rfl⟩
  have hentry : Netlink.lastEntry pid t.listener.pushed = some ⟨pid, name⟩ :=
    Listener.lastEntry_of_heard hfresh (run_listener hafter) hlast hlists
      (hheard.imp_right (.imp hmem hmem)) hsettled
  have hpushed : t.pipeline.pushed = t.listener.pushed :=
    Transition.run_invariant (fun s => s.pipeline.pushed = s.listener.pushed)
      (fun _ _ _ _ hs h => pushed_eq_of_step hs h) rfl hrun
  obtain ⟨acts, hacts⟩ := exists_run_pipeline hrun
  have hinv : Pipeline.Inv S rules config env t.pipeline :=
    Transition.run_invariant (Pipeline.Inv S rules config env) (fun _ _ _ _ hs h => hs.step h)
      (Pipeline.inv_init S rules config env) hacts
  refine ⟨hinv, ?_, hentry⟩
  rw [← hpushed, hinv.account, hidle.1, hidle.2, List.append_nil, List.append_nil]

/-- **The last turn.** Consider a state in a run of the daemon from which on the name of a process
stays the same and in which no thread holds an entry with an older one, and let every later scan of
`/proc` list the process. Let the listener have told the name or be going to, as it is behind an
`EXEC` that is not missed, or let the socket fail or a scan of `main` read the process later on.
When everything has come to rest, the last turn of the worker for this process is for its name, and
makes the calls of the rule of this name. -/
theorem lastTurn_of_run {names : Pid → String} {env : σ} {before after : List Act} {s t : State σ}
    {pid : Pid} {name : String}
    (hbefore : Transition.run (step S rules config) (init names env) before = some s)
    (hafter : Transition.run (step S rules config) s after = some t)
    (hfresh : s.listener.Fresh pid name)
    (hlast : ∀ a ∈ after.flatMap Act.ofListener, ¬a.Names pid)
    (hlists : ∀ a ∈ after.flatMap Act.ofListener, a.Lists pid)
    (hheard : s.listener.Heard pid name ∨
      .listener .restart ∈ after ∨ .listener (.readManually pid) ∈ after)
    (hsettled : t.listener.Settled)
    (hidle : t.pipeline.queue = [] ∧ t.pipeline.thread.inHand = []) :
    ∃ turn, lastTurn pid t.pipeline.worker.turns = some turn ∧ turn.process = ⟨pid, name⟩ ∧
      Worker.FollowsRule S rules config turn := by
  obtain ⟨hinv, hhandled, hentry⟩ :=
    handled_of_run hbefore hafter hfresh hlast hlists hheard hsettled hidle
  have hturn := map_lastTurn pid t.pipeline.worker.turns
  rw [show t.pipeline.worker.turns.map Worker.Turn.process = t.listener.pushed from hhandled,
    hentry] at hturn
  obtain ⟨turn, hlastTurn, hprocess⟩ := Option.map_eq_some_iff.mp hturn
  refine ⟨turn, hlastTurn, hprocess, ?_⟩
  refine Pipeline.followsRule_of_drain hinv.drained (by simp [Pipeline.newWorker]) turn ?_
  exact List.mem_of_mem_filter (List.mem_of_getLast? hlastTurn)

/-- The process calls `exec` when the daemon listens. A scan of `main` has read it before and pushes
its entry in front of the event thread. -/
theorem lastTurn_of_run_sample : ∃ s t : State Unit,
    Transition.run (step Worker.sampleSetters Worker.sampleRules ⟨.empty⟩)
      (init (fun _ => "sh") ()) [.listener (.beginScan []), .listener (.connect true),
        .main .startListener, .main .startWorker, .listener (.readManually 5),
        .listener (.kernel (.exec 5 "a") true), .listener .receive,
        .listener (.push .manual)] = some s ∧
    Transition.run (step Worker.sampleSetters Worker.sampleRules ⟨.empty⟩) s
      [.listener .read, .listener (.push .listener), .worker .test, .worker .poll, .worker .lookUp,
        .worker .apply, .worker .poll, .worker .lookUp, .worker .apply, .worker .poll] = some t ∧
    ∃ turn, lastTurn 5 t.pipeline.worker.turns = some turn ∧ turn.process = ⟨5, "a"⟩ ∧
      Worker.FollowsRule Worker.sampleSetters Worker.sampleRules ⟨.empty⟩ turn := by
  have hbefore : Transition.run (step Worker.sampleSetters Worker.sampleRules ⟨.empty⟩)
      (init (fun _ => "sh") ()) [.listener (.beginScan []), .listener (.connect true),
        .main .startListener, .main .startWorker, .listener (.readManually 5),
        .listener (.kernel (.exec 5 "a") true), .listener .receive,
        .listener (.push .manual)] = some _ := rfl
  have hturn := lastTurn_of_run hbefore
    (show Transition.run (step Worker.sampleSetters Worker.sampleRules ⟨.empty⟩) _
      [.listener .read, .listener (.push .listener), .worker .test, .worker .poll, .worker .lookUp,
        .worker .apply, .worker .poll, .worker .lookUp, .worker .apply, .worker .poll] = some _
      from rfl) (show Listener.Fresh _ 5 "a" from ⟨rfl, by rintro ⟨⟩ p ⟨⟩⟩)
    (by simp [Act.ofListener, Listener.Act.Names]) (by simp [Act.ofListener, Listener.Act.Lists])
    (.inl (.inr (.inr (.inr ⟨by decide, .inl rfl⟩))))
  exact ⟨_, _, rfl, rfl, hturn ⟨⟨rfl, rfl⟩, rfl, rfl, by rintro ⟨⟩ <;> rfl⟩ ⟨rfl, rfl⟩⟩

end Daemon

end AnanicyCpp
