import AnanicyCpp.Library.Transition
import AnanicyCpp.Worker.Calls

/-!
# The queue between the listener and the worker

Three threads share the process queue: `main`, whose scans push to it, the event thread of the
listener, which pushes too, and the worker, which polls it. This is the program from the constructor
of the `ProcessQueue` to the end of `main`, with the plain build of the queue: `push` and `poll`
hold the mutex, and `poll` gives up only on an empty queue.

Every process that is pushed is handled once and in order, as `Worker.work` handles it, whatever the
threads do in between (`Pipeline.pushes_eq_of_run`). On its way out `main` first stops the listener,
so that nothing is pushed any more, and then asks the worker to stop, which looks at this request
only at the start and when a poll has found the queue empty: a worker that stands there when it is
asked leaves the queue as it is, any other empties it (`Pipeline.handled_of_shutdown`).

The rules and the configuration are those between two reloads.

## Main definitions

* `Pipeline.Main`, `Pipeline.Thread`, `Pipeline.State` : `main`, the thread of the worker, and the
  queue.
* `Pipeline.step` : the steps of the three threads.
* `Pipeline.handled` : the processes for which the worker has gone through a turn.

## Main results

* `Pipeline.pushes_eq_of_run` : nothing is lost, repeated or overtaken.
* `Pipeline.handled_of_shutdown` : the program ends, and what is left in the queue then.
-/

namespace AnanicyCpp

namespace Pipeline

/-! ### The threads -/

/-- The progress of `main`: the constructor of the `ProcessQueue` scans, `start` has created the
event thread, the worker is started and the service loop runs, `stop` has joined the event thread,
the worker is asked to stop, and it is joined. -/
inductive Main where
  | constructing
  | listening
  | serving
  | listenerStopped
  | stopRequested
  | finished
deriving DecidableEq

/-- `main` scans in the constructor of the `ProcessQueue`, and with `--manual-scanning` in its
service loop. -/
def Main.scans : Main → Bool
  | .constructing | .serving => true
  | _ => false

/-- There is an event thread from `start` until `stop` has joined it. -/
def Main.listens : Main → Bool
  | .listening | .serving => true
  | _ => false

/-- There is a worker thread. -/
def Main.hasWorker : Main → Bool
  | .serving | .listenerStopped | .stopRequested => true
  | _ => false

/-- Where the worker thread stands: at the test of its stop token, in `poll`, behind `poll` with a
process, behind `get_rule` with its rule, or behind `work`. An exception of `get_rule` ends the
program. -/
inductive Thread where
  | head
  | polling
  | found (p : Process)
  | applying (p : Process) (rule : Json)
  | returned
  | terminated (p : Process)

def Thread.isTerminated : Thread → Bool
  | .terminated _ => true
  | _ => false

/-- The process that was taken from the queue and whose turn is not over. -/
def Thread.inHand : Thread → List Process
  | .found p | .applying p _ | .terminated p => [p]
  | _ => []

/-- A process that is counted and whose turn is not over. -/
def Thread.counted : Thread → ℕ
  | .applying _ _ => 1
  | _ => 0

/-- `pushed` is what was pushed so far, oldest first. -/
structure State (σ : Type) where
  main : Main
  queue : List Process
  pushed : List Process
  thread : Thread
  worker : Worker σ

inductive MainAct where
  | startListener
  | startWorker
  | stopListener
  | requestStop
  | join
deriving DecidableEq

inductive WorkerAct where
  | test
  | poll
  | lookUp
  | apply
deriving DecidableEq

/-- A scan of `main` and the event thread push; `main` and the worker go on. -/
inductive Act where
  | scan (p : Process)
  | event (p : Process)
  | main (a : MainAct)
  | worker (a : WorkerAct)
deriving DecidableEq

/-- What a step pushes. -/
def Act.pushes : Act → List Process
  | .scan p | .event p => [p]
  | _ => []

variable {σ : Type}

/-- The counter of a `Worker` starts at zero. -/
def newWorker (env : σ) : Worker σ := ⟨0, env, []⟩

def init (env : σ) : State σ := ⟨.constructing, [], [], .head, newWorker env⟩

def State.push (s : State σ) (p : Process) : State σ :=
  { s with queue := s.queue ++ [p], pushed := s.pushed ++ [p] }

/-- `join` waits for the worker thread to return. -/
def mainStep (s : State σ) : MainAct → Option (State σ)
  | .startListener =>
      if s.main = .constructing then some { s with main := .listening } else none
  | .startWorker => if s.main = .listening then some { s with main := .serving } else none
  | .stopListener =>
      if s.main = .serving then some { s with main := .listenerStopped } else none
  | .requestStop =>
      if s.main = .listenerStopped then some { s with main := .stopRequested } else none
  | .join =>
      match s.thread with
      | .returned => if s.main = .stopRequested then some { s with main := .finished } else none
      | _ => none

variable (S : Setters σ) (rules : Rules) (config : Config)

/-- `poll` returns the oldest process, or times out on an empty queue. -/
def poll (s : State σ) : State σ :=
  match s.queue with
  | [] => { s with thread := .head }
  | p :: queue => { s with queue, thread := .found p }

/-- `get_rule`, and the counter. -/
def lookUp (s : State σ) (p : Process) : State σ :=
  match rules.getRule p.name with
  | .ok rule =>
      { s with
        thread := .applying p rule
        worker := { s.worker with processedCount := s.worker.processedCount + 1 } }
  | .error _ => { s with thread := .terminated p }

/-- The rest of the turn. -/
def apply (s : State σ) (p : Process) (rule : Json) : State σ :=
  let turn := Worker.handleProcess S config rule p s.worker.env
  { s with
    thread := .polling
    worker := { s.worker with env := turn.after, turns := s.worker.turns ++ [turn] } }

/-- `work`, one step at a time. -/
def workerStep (s : State σ) (a : WorkerAct) : Option (State σ) :=
  match s.thread, a with
  | .head, .test =>
      some { s with thread := if s.main = .stopRequested then .returned else .polling }
  | .polling, .poll => some (poll s)
  | .found p, .lookUp => some (lookUp rules s p)
  | .applying p rule, .apply => some (apply S config s p rule)
  | _, _ => none

/-- A step of the program, which has no steps once it is terminated. -/
def step (s : State σ) (a : Act) : Option (State σ) :=
  if s.thread.isTerminated then none
  else match a with
    | .scan p => if s.main.scans then some (s.push p) else none
    | .event p => if s.main.listens then some (s.push p) else none
    | .main a => mainStep s a
    | .worker a => if s.main.hasWorker then workerStep S rules config s a else none

/-- The processes of the turns, oldest first. -/
def handled (s : State σ) : List Process := s.worker.turns.map Worker.Turn.process

variable {S rules config}

/-! ### What a step does -/

/-- `main` goes on, and changes nothing else. -/
theorem mainStep_eq {s t : State σ} {a : MainAct} (h : mainStep s a = some t) :
    t = { s with main := t.main } := by
  revert h
  fun_cases mainStep s a <;> intro h <;> cases h <;> rfl

/-- A process is pushed, `main` goes on, or the worker does. -/
theorem step_cases {s t : State σ} {a : Act} (h : step S rules config s a = some t) :
    (∃ p, a.pushes = [p] ∧ (s.main.scans || s.main.listens) = true ∧ t = s.push p) ∨
      (∃ b, a = .main b ∧ mainStep s b = some t) ∨
      ∃ b, a = .worker b ∧ s.main.hasWorker = true ∧
        workerStep S rules config s b = some t := by
  unfold step at h
  obtain ⟨-, h⟩ := Option.ite_none_left_eq_some.mp h
  cases a with
  | scan p =>
    obtain ⟨hmain, ht⟩ := Option.ite_none_right_eq_some.mp h
    exact .inl ⟨p, rfl, by simp [hmain], (Option.some.inj ht).symm⟩
  | event p =>
    obtain ⟨hmain, ht⟩ := Option.ite_none_right_eq_some.mp h
    exact .inl ⟨p, rfl, by simp [hmain], (Option.some.inj ht).symm⟩
  | main b => exact .inr (.inl ⟨b, rfl, h⟩)
  | worker b =>
    obtain ⟨hmain, ht⟩ := Option.ite_none_right_eq_some.mp h
    exact .inr (.inr ⟨b, rfl, hmain, ht⟩)

/-- The test of the stop token, a poll, a lookup, or the calls of a turn. -/
theorem workerStep_cases {s t : State σ} {a : WorkerAct}
    (h : workerStep S rules config s a = some t) :
    s.thread = .head ∧
        t = { s with thread := if s.main = .stopRequested then .returned else .polling } ∨
      s.thread = .polling ∧ t = poll s ∨
      (∃ p, s.thread = .found p ∧ t = lookUp rules s p) ∨
      ∃ p rule, s.thread = .applying p rule ∧ t = apply S config s p rule := by
  revert h
  fun_cases workerStep S rules config s a with
  | case1 hthread => exact fun h => .inl ⟨hthread, (Option.some.inj h).symm⟩
  | case2 hthread => exact fun h => .inr (.inl ⟨hthread, (Option.some.inj h).symm⟩)
  | case3 p hthread =>
    exact fun h => .inr (.inr (.inl ⟨p, hthread, (Option.some.inj h).symm⟩))
  | case4 p rule hthread =>
    exact fun h => .inr (.inr (.inr ⟨p, rule, hthread, (Option.some.inj h).symm⟩))
  | case5 => exact fun h => nomatch h

/-! ### The account -/

/-- What the lookup for the process in hand gave. -/
def Thread.LookedUp (rules : Rules) : Thread → Prop
  | .applying p rule => rules.getRule p.name = .ok rule
  | .terminated p => (rules.getRule p.name).isOk = false
  | _ => True

/-- What was pushed is handled, in hand or in the queue, and the worker is where `Worker.drain` is
with the handled processes. -/
structure Inv (S : Setters σ) (rules : Rules) (config : Config) (env : σ) (s : State σ) : Prop where
  account : s.pushed = handled s ++ s.thread.inHand ++ s.queue
  count : s.worker.processedCount = UInt32.ofNat ((handled s).length + s.thread.counted)
  drained : Worker.drain S rules config (newWorker env) (handled s) =
    .ok ⟨UInt32.ofNat (handled s).length, s.worker.env, s.worker.turns⟩
  lookedUp : s.thread.LookedUp rules

theorem inv_init (S : Setters σ) (rules : Rules) (config : Config) (env : σ) :
    Inv S rules config env (init env) :=
  ⟨rfl, rfl, rfl, trivial⟩

theorem Inv.push {env : σ} {s : State σ} (hs : Inv S rules config env s) (p : Process) :
    Inv S rules config env (s.push p) where
  account := by
    show s.pushed ++ [p] = handled s ++ s.thread.inHand ++ (s.queue ++ [p])
    rw [hs.account, List.append_assoc _ s.queue]
  count := hs.count
  drained := hs.drained
  lookedUp := hs.lookedUp

/-- A thread with nothing in its hands is somewhere else. -/
theorem Inv.of_idle {env : σ} {s : State σ} (hs : Inv S rules config env s) {thread : Thread}
    (hbefore : s.thread.inHand = [] ∧ s.thread.counted = 0)
    (hafter : thread.inHand = [] ∧ thread.counted = 0 ∧ thread.LookedUp rules) :
    Inv S rules config env { s with thread } where
  account := by
    rw [hs.account, hbefore.1, hafter.1]
    rfl
  count := by
    rw [hs.count, hbefore.2, hafter.2.1]
    rfl
  drained := hs.drained
  lookedUp := hafter.2.2

theorem Inv.poll {env : σ} {s : State σ} (hs : Inv S rules config env s)
    (hthread : s.thread = .polling) : Inv S rules config env (poll s) := by
  unfold Pipeline.poll
  split
  · exact hs.of_idle (by simp [hthread, Thread.inHand, Thread.counted]) ⟨rfl, rfl, trivial⟩
  · next p queue hqueue =>
    refine ⟨?_, ?_, hs.drained, trivial⟩
    · rw [hs.account, hthread, hqueue]
      simp [handled, Thread.inHand]
    · rw [hs.count, hthread]
      rfl

theorem Inv.lookUp {env : σ} {s : State σ} (hs : Inv S rules config env s) {p : Process}
    (hthread : s.thread = .found p) : Inv S rules config env (lookUp rules s p) := by
  unfold Pipeline.lookUp
  split
  · next rule hrule =>
    refine ⟨?_, ?_, hs.drained, hrule⟩
    · rw [hs.account, hthread]
      rfl
    · show s.worker.processedCount + 1 = UInt32.ofNat ((handled s).length + 1)
      rw [hs.count, hthread, UInt32.ofNat_add (handled s).length 1]
      rfl
  · next error hrule =>
    refine ⟨?_, ?_, hs.drained, ?_⟩
    · rw [hs.account, hthread]
      rfl
    · rw [hs.count, hthread]
      rfl
    · show (rules.getRule p.name).isOk = false
      rw [hrule]
      rfl

theorem handled_apply (S : Setters σ) (config : Config) (s : State σ) (p : Process) (rule : Json) :
    handled (apply S config s p rule) = handled s ++ [p] :=
  List.map_append

theorem Inv.apply {env : σ} {s : State σ} (hs : Inv S rules config env s) {p : Process}
    {rule : Json} (hthread : s.thread = .applying p rule) :
    Inv S rules config env (apply S config s p rule) := by
  have hrule : rules.getRule p.name = .ok rule := by
    have hlooked : s.thread.LookedUp rules := hs.lookedUp
    rwa [hthread] at hlooked
  have htake : Worker.takeProcess S rules config
      ⟨UInt32.ofNat (handled s).length, s.worker.env, s.worker.turns⟩ p =
      .ok ⟨UInt32.ofNat ((handled s).length + 1),
        (Worker.handleProcess S config rule p s.worker.env).after,
        s.worker.turns ++ [Worker.handleProcess S config rule p s.worker.env]⟩ := by
    simp [Worker.takeProcess, hrule]
  refine ⟨?_, ?_, ?_, trivial⟩
  · rw [handled_apply]
    show s.pushed = handled s ++ [p] ++ [] ++ s.queue
    rw [hs.account, hthread, List.append_nil]
    rfl
  · rw [handled_apply, List.length_append]
    show s.worker.processedCount = UInt32.ofNat ((handled s).length + 1 + 0)
    rw [hs.count, hthread]
    rfl
  · rw [handled_apply, List.length_append]
    unfold Worker.drain
    rw [List.foldlM_append]
    have hdrained := hs.drained
    unfold Worker.drain at hdrained
    rw [hdrained]
    exact bind_pure _ |>.trans htake

theorem Inv.step {env : σ} {s t : State σ} {a : Act} (hs : Inv S rules config env s)
    (h : step S rules config s a = some t) : Inv S rules config env t := by
  rcases step_cases h with ⟨p, -, -, rfl⟩ | ⟨b, -, hmain⟩ | ⟨b, -, -, hworker⟩
  · exact hs.push p
  · rw [mainStep_eq hmain]
    exact ⟨hs.account, hs.count, hs.drained, hs.lookedUp⟩
  · rcases workerStep_cases hworker with ⟨hthread, rfl⟩ | ⟨hthread, rfl⟩ | ⟨p, hthread, rfl⟩ |
      ⟨p, rule, hthread, rfl⟩
    · refine hs.of_idle (by simp [hthread, Thread.inHand, Thread.counted]) ?_
      split_ifs <;> exact ⟨rfl, rfl, trivial⟩
    · exact hs.poll hthread
    · exact hs.lookUp hthread
    · exact hs.apply hthread

/-- The turns are for the rules of the names, and make their calls. -/
theorem followsRule_of_drain {w w' : Worker σ} {polled : List Process}
    (hdrain : Worker.drain S rules config w polled = .ok w')
    (hw : ∀ turn ∈ w.turns, Worker.FollowsRule S rules config turn) :
    ∀ turn ∈ w'.turns, Worker.FollowsRule S rules config turn := by
  unfold Worker.drain at hdrain
  induction polled generalizing w with
  | nil =>
    obtain rfl : w = w' := Except.ok.inj hdrain
    exact hw
  | cons p polled ih =>
    rw [List.foldlM_cons] at hdrain
    obtain ⟨w₁, htake, hrest⟩ := Fallible.bind_eq_ok_iff.mp hdrain
    obtain ⟨rule, hrule, hw₁⟩ := Fallible.bind_eq_ok_iff.mp htake
    obtain rfl := Except.ok.inj hw₁
    refine ih hrest fun turn hturn => ?_
    rcases List.mem_append.mp hturn with hturn | hturn
    · exact hw turn hturn
    · obtain rfl := List.mem_singleton.mp hturn
      exact ⟨hrule, Worker.makesLongestPrefix_handleProcess S config rule p w.env⟩

theorem pushed_step {s t : State σ} {a : Act} (h : step S rules config s a = some t) :
    t.pushed = s.pushed ++ a.pushes := by
  rcases step_cases h with ⟨p, hp, -, rfl⟩ | ⟨b, rfl, hmain⟩ | ⟨b, rfl, -, hworker⟩
  · rw [hp]
    rfl
  · rw [mainStep_eq hmain]
    exact (List.append_nil s.pushed).symm
  · rw [show (Act.worker b).pushes = [] from rfl, List.append_nil]
    rcases workerStep_cases hworker with ⟨-, rfl⟩ | ⟨-, rfl⟩ | ⟨p, -, rfl⟩ | ⟨p, rule, -, rfl⟩
    · rfl
    · unfold poll
      split <;> rfl
    · unfold lookUp
      split <;> rfl
    · rfl

/-- **The account.** Whatever `main`, the event thread and the worker do in between, every process
that was pushed is handled once and in order, in hand, or in the queue; the worker has done exactly
what `Worker.work` does with the handled processes, whatever its rounds were; and its counter is
their number, with the one whose rule is being applied. -/
theorem pushes_eq_of_run {env : σ} {acts : List Act} {s : State σ}
    (hrun : Transition.run (step S rules config) (init env) acts = some s) :
    acts.flatMap Act.pushes = handled s ++ s.thread.inHand ++ s.queue ∧
      (∀ rounds : List (List Process), rounds.flatten = handled s →
        ∃ w, Worker.work S rules config (newWorker env) rounds = .ok w ∧
          w.env = s.worker.env ∧ w.turns = s.worker.turns) ∧
      s.worker.processedCount = UInt32.ofNat ((handled s).length + s.thread.counted) := by
  have hs : Inv S rules config env s :=
    Transition.run_invariant (Inv S rules config env) (fun _ _ _ _ hs h => hs.step h)
      (inv_init S rules config env) hrun
  have hpushed : s.pushed = acts.flatMap Act.pushes :=
    Transition.run_log State.pushed Act.pushes (fun _ _ _ h => pushed_step h) hrun
  refine ⟨hpushed.symm.trans hs.account, fun rounds hrounds => ?_, hs.count⟩
  refine ⟨⟨UInt32.ofNat (handled s).length, s.worker.env, s.worker.turns⟩, ?_, rfl, rfl⟩
  rw [Worker.work_eq_drain, hrounds]
  exact hs.drained

abbrev sampleStep : State Unit → Act → Option (State Unit) :=
  step Worker.sampleSetters Worker.sampleRules ⟨.empty⟩

/-- The second process comes while the first one is in hand. -/
theorem pushes_eq_of_run_sample : ∃ s, Transition.run sampleStep (init ()) [.main .startListener,
      .event ⟨1, "a"⟩, .main .startWorker, .worker .test, .worker .poll, .event ⟨2, "b"⟩,
      .worker .lookUp, .worker .apply] = some s ∧
    [⟨1, "a"⟩, ⟨2, "b"⟩] = handled s ++ s.thread.inHand ++ s.queue ∧
    (∀ rounds : List (List Process), rounds.flatten = handled s →
      ∃ w, Worker.work Worker.sampleSetters Worker.sampleRules ⟨.empty⟩ (newWorker ()) rounds =
          .ok w ∧ w.env = s.worker.env ∧ w.turns = s.worker.turns) ∧
    s.worker.processedCount = UInt32.ofNat ((handled s).length + s.thread.counted) ∧
    handled s = [⟨1, "a"⟩] := by
  refine ⟨_, rfl, ?_⟩
  obtain ⟨haccount, hwork, hcount⟩ := pushes_eq_of_run (S := Worker.sampleSetters)
    (show Transition.run sampleStep (init ()) [.main .startListener, .event ⟨1, "a"⟩,
      .main .startWorker, .worker .test, .worker .poll, .event ⟨2, "b"⟩, .worker .lookUp,
      .worker .apply] = some _ from rfl)
  exact ⟨haccount, hwork, hcount, rfl⟩

/-! ### The shutdown -/

/-- What the worker will have handled when it returns, once it is asked to stop. -/
def settled (s : State σ) : List Process :=
  match s.thread with
  | .head | .returned => handled s
  | _ => s.pushed

/-- How many steps are left to the thread, with an empty queue. -/
def Thread.remaining : Thread → ℕ
  | .terminated _ => 0
  | .returned => 1
  | .head => 2
  | .polling => 3
  | .applying _ _ => 4
  | .found _ => 5

/-- How many steps are left once the worker is asked to stop. -/
def remaining (s : State σ) : ℕ :=
  if s.main = .finished ∨ s.thread.isTerminated then 0
  else 3 * s.queue.length + s.thread.remaining

/-- The worker is asked to stop, and `main` waits for it or has ended. -/
structure Leaving (S : Setters σ) (rules : Rules) (config : Config) (env : σ)
    (pushed fate : List Process) (s : State σ) : Prop where
  inv : Inv S rules config env s
  main : s.main = .stopRequested ∨ s.main = .finished ∧ s.thread = .returned
  pushed : s.pushed = pushed
  settled : settled s = fate

theorem mainStep_of_stopRequested {s t : State σ} {a : MainAct} (hmain : s.main = .stopRequested)
    (h : mainStep s a = some t) : s.thread = .returned ∧ t = { s with main := .finished } := by
  revert h
  fun_cases mainStep s a <;> intro h <;> cases h <;> simp_all

theorem mainStep_of_finished {s : State σ} (hmain : s.main = .finished) (a : MainAct) :
    mainStep s a = none := by
  fun_cases mainStep s a <;> simp_all

/-- The steps of the worker once it is asked to stop. -/
theorem Leaving.workerStep {env : σ} {pushed fate : List Process} {s t : State σ} {a : WorkerAct}
    (hs : Leaving S rules config env pushed fate s) (hmain : s.main = .stopRequested)
    (h : workerStep S rules config s a = some t) :
    t.main = .stopRequested ∧ t.pushed = pushed ∧ Pipeline.settled t = fate ∧
      remaining t < remaining s := by
  have hsettled : Pipeline.settled s = fate := hs.settled
  have haccount := hs.inv.account
  have hpushed := hs.pushed
  rcases workerStep_cases h with ⟨hthread, rfl⟩ | ⟨hthread, rfl⟩ | ⟨p, hthread, rfl⟩ |
    ⟨p, rule, hthread, rfl⟩
  · rw [if_pos hmain]
    refine ⟨hmain, hpushed, ?_, ?_⟩
    · rw [← hsettled]
      simp [Pipeline.settled, hthread, handled]
    · simp [remaining, hmain, hthread, Thread.isTerminated, Thread.remaining]
  · rw [Pipeline.settled, hthread] at hsettled
    unfold poll
    split
    · next hqueue =>
      refine ⟨hmain, hpushed, ?_, ?_⟩
      · rw [← hsettled]
        show handled s = s.pushed
        simp [haccount, hthread, hqueue, Thread.inHand]
      · simp [remaining, hmain, hthread, Thread.isTerminated, Thread.remaining, hqueue]
    · next p queue hqueue =>
      refine ⟨hmain, hpushed, hsettled, ?_⟩
      simp only [remaining, hmain, hthread, Thread.isTerminated, Thread.remaining, hqueue,
        List.length_cons, reduceCtorEq, Bool.false_eq_true, or_self, ite_false]
      omega
  · rw [Pipeline.settled, hthread] at hsettled
    unfold lookUp
    split
    · refine ⟨hmain, hpushed, hsettled, ?_⟩
      simp [remaining, hmain, hthread, Thread.isTerminated, Thread.remaining]
    · refine ⟨hmain, hpushed, hsettled, ?_⟩
      simp [remaining, hmain, hthread, Thread.isTerminated, Thread.remaining]
  · rw [Pipeline.settled, hthread] at hsettled
    refine ⟨hmain, hpushed, hsettled, ?_⟩
    simp [remaining, apply, hmain, hthread, Thread.isTerminated, Thread.remaining]

theorem Leaving.step {env : σ} {pushed fate : List Process} {s t : State σ} {a : Act}
    (hs : Leaving S rules config env pushed fate s) (h : step S rules config s a = some t) :
    Leaving S rules config env pushed fate t ∧ remaining t < remaining s := by
  have hinv : Inv S rules config env t := hs.inv.step h
  rcases hs.main with hmain | ⟨hmain, -⟩
  · rcases step_cases h with ⟨p, -, hpush, -⟩ | ⟨b, -, hb⟩ | ⟨b, -, -, hb⟩
    · rw [hmain] at hpush
      cases hpush
    · obtain ⟨hthread, rfl⟩ := mainStep_of_stopRequested hmain hb
      refine ⟨⟨hinv, .inr ⟨rfl, hthread⟩, hs.pushed, hs.settled⟩, ?_⟩
      simp [remaining, hmain, hthread, Thread.isTerminated, Thread.remaining]
    · obtain ⟨hmain, hpushed, hsettled, hless⟩ := hs.workerStep hmain hb
      exact ⟨⟨hinv, .inl hmain, hpushed, hsettled⟩, hless⟩
  · rcases step_cases h with ⟨p, -, hpush, -⟩ | ⟨b, -, hb⟩ | ⟨b, -, hworker, -⟩
    · rw [hmain] at hpush
      cases hpush
    · rw [mainStep_of_finished hmain b] at hb
      cases hb
    · rw [hmain] at hworker
      cases hworker

/-- Only the end of the program has no step behind it. -/
theorem Leaving.stuck_iff {env : σ} {pushed fate : List Process} {s : State σ}
    (hs : Leaving S rules config env pushed fate s) :
    (∀ a, Pipeline.step S rules config s a = none) ↔
      s.main = .finished ∨ s.thread.isTerminated = true := by
  constructor
  · intro hstuck
    by_contra hnot
    obtain ⟨hmain, hterminated⟩ := not_or.mp hnot
    have hmain : s.main = .stopRequested := hs.main.resolve_right fun h => hmain h.1
    cases hthread : s.thread with
    | head => simpa [Pipeline.step, hmain, hthread, Thread.isTerminated, Main.hasWorker,
        Pipeline.workerStep] using hstuck (.worker .test)
    | polling => simpa [Pipeline.step, hmain, hthread, Thread.isTerminated, Main.hasWorker,
        Pipeline.workerStep] using hstuck (.worker .poll)
    | found p => simpa [Pipeline.step, hmain, hthread, Thread.isTerminated, Main.hasWorker,
        Pipeline.workerStep] using hstuck (.worker .lookUp)
    | applying p rule => simpa [Pipeline.step, hmain, hthread, Thread.isTerminated, Main.hasWorker,
        Pipeline.workerStep] using hstuck (.worker .apply)
    | returned => simpa [Pipeline.step, hmain, hthread, Thread.isTerminated, mainStep]
        using hstuck (.main .join)
    | terminated p => exact hterminated (by rw [hthread]; rfl)
  · intro hend a
    cases h : Pipeline.step S rules config s a with
    | none => rfl
    | some t =>
      have hless : remaining t < remaining s := (hs.step h).2
      rw [show remaining s = 0 from if_pos hend] at hless
      exact absurd hless (Nat.not_lt_zero _)

/-- **The shutdown.** Once `main` has asked the worker to stop, nothing is pushed any more, every
run ends after a bounded number of steps, and it ends with the end of `main`, unless an exception of
`get_rule` ends the program. The worker has then handled everything that was pushed, except that a
worker that stood at the test of its stop token has left the queue as it was. -/
theorem handled_of_shutdown {env : σ} {before after : List Act} {s t : State σ}
    (hbefore : Transition.run (step S rules config) (init env) before = some s)
    (hstop : s.main = .stopRequested)
    (hafter : Transition.run (step S rules config) s after = some t) :
    after.length + remaining t ≤ remaining s ∧ t.pushed = s.pushed ∧
      ((∀ a, step S rules config t a = none) ↔
        t.main = .finished ∨ t.thread.isTerminated = true) ∧
      (t.main = .finished → handled t = settled s) := by
  have hs : Leaving S rules config env s.pushed (settled s) s := by
    refine ⟨?_, .inl hstop, rfl, rfl⟩
    exact Transition.run_invariant (Inv S rules config env) (fun _ _ _ _ hs h => hs.step h)
      (inv_init S rules config env) hbefore
  have ht : Leaving S rules config env s.pushed (settled s) t :=
    Transition.run_invariant _ (fun _ _ _ _ hs h => (hs.step h).1) hs hafter
  refine ⟨?_, ht.pushed, ht.stuck_iff, fun hend => ?_⟩
  · exact Transition.run_measure (Leaving S rules config env s.pushed (settled s)) remaining
      (fun _ _ _ _ hs h => hs.step h) hs hafter
  · have hthread : t.thread = .returned := by
      rcases ht.main with hmain | ⟨-, hthread⟩
      · rw [hmain] at hend
        cases hend
      · exact hthread
    have hsettled := ht.settled
    rw [settled, hthread] at hsettled
    exact hsettled

/-- The worker is in a poll when it is asked to stop, and handles the process. -/
theorem handled_of_shutdown_sample : ∃ s t,
    Transition.run sampleStep (init ()) [.main .startListener, .main .startWorker, .worker .test,
      .event ⟨1, "a"⟩, .main .stopListener, .main .requestStop] = some s ∧
    Transition.run sampleStep s [.worker .poll, .worker .lookUp, .worker .apply, .worker .poll,
      .worker .test, .main .join] = some t ∧
    t.main = .finished ∧ remaining s = 6 ∧ handled t = [⟨1, "a"⟩] := by
  refine ⟨_, _, rfl, rfl, rfl, rfl, ?_⟩
  exact (handled_of_shutdown (S := Worker.sampleSetters)
    (show Transition.run sampleStep (init ()) [.main .startListener, .main .startWorker,
      .worker .test, .event ⟨1, "a"⟩, .main .stopListener, .main .requestStop] = some _ from rfl)
    rfl (show Transition.run sampleStep _ [.worker .poll, .worker .lookUp, .worker .apply,
      .worker .poll, .worker .test, .main .join] = some _ from rfl)).2.2.2 rfl

/-- A worker that has found the queue empty just before leaves the process. -/
example : (Transition.run sampleStep (init ()) [.main .startListener, .main .startWorker,
    .worker .test, .worker .poll, .event ⟨1, "a"⟩, .main .stopListener, .main .requestStop,
    .worker .test, .main .join]).map (fun s => (handled s, s.queue)) = some ([], [⟨1, "a"⟩]) := rfl

end Pipeline

end AnanicyCpp
