import Mathlib.Data.Nat.Notation

/-!
# The life of a process queue

`ProcessQueue::stop` is `noexcept`. It asks the event thread to stop and joins it, unless a stop was
requested before; the destructor calls it again. A queue that was never started has an event thread
without a stop state, so nothing seems to have been requested, and the `join` throws: the program
terminates (`ProcessQueue.lifecycle_isOk_iff`). This is the path that `main` takes when the queue
could not be initialised.

## Main definitions

* `JThread` : a `std::jthread`, with the calls that `ProcessQueue` makes.
* `ProcessQueue.stop`, `ProcessQueue.lifecycle` : the calls on a queue from its construction to its
  destruction.

## Main results

* `ProcessQueue.lifecycle_isOk_iff` : no exception leaves `stop` exactly when the queue was started.
-/

namespace AnanicyCpp

/-- A `std::jthread`: default constructed, with a thread, or with a thread that was joined. The stop
state stays after a join. -/
inductive JThread where
  | none
  | running (stopRequested : Bool)
  | joined (stopRequested : Bool)
deriving DecidableEq

namespace JThread

/-- `get_stop_token().stop_requested()`; there is nothing to ask without a stop state. -/
def stopRequested : JThread → Bool
  | .none => false
  | .running stopRequested => stopRequested
  | .joined stopRequested => stopRequested

def requestStop : JThread → JThread
  | .none => .none
  | .running _ => .running true
  | .joined _ => .joined true

/-- What `join` throws: `std::system_error` with `std::errc::invalid_argument`. -/
inductive Exception where
  | invalidArgument
deriving DecidableEq

/-- `join`, which throws when the thread is not joinable. -/
def join : JThread → Except Exception JThread
  | .running stopRequested => .ok (.joined stopRequested)
  | _ => .error .invalidArgument

end JThread

/-- A process queue: its status, its event thread, and whether the program of the back end has been
destroyed. -/
structure ProcessQueue where
  status : Bool
  eventThread : JThread
  programDestroyed : Bool
deriving DecidableEq

namespace ProcessQueue

/-- The constructor; `init` clears the status when the program cannot be initialised. -/
def construct (initialized : Bool) : ProcessQueue := ⟨initialized, .none, false⟩

def start (queue : ProcessQueue) : ProcessQueue := { queue with eventThread := .running false }

/-- `stop`, and the exception that leaves it. -/
def stop (queue : ProcessQueue) : Except JThread.Exception ProcessQueue := do
  let eventThread ←
    if !queue.eventThread.stopRequested then queue.eventThread.requestStop.join
    else pure queue.eventThread
  return { queue with eventThread, programDestroyed := true }

/-- Several calls of `stop`. -/
def stopTimes : ℕ → ProcessQueue → Except JThread.Exception ProcessQueue
  | 0, queue => pure queue
  | n + 1, queue => do stopTimes n (← queue.stop)

/-- Construction, a call of `start` or none, calls of `stop`, and the destructor. -/
def lifecycle (initialized started : Bool) (stops : ℕ) : Except JThread.Exception ProcessQueue := do
  let queue := construct initialized
  let queue := if started then queue.start else queue
  (← stopTimes stops queue).stop

/-- A queue that was stopped has an event thread that was joined. -/
theorem stop_of_joined {queue : ProcessQueue} (h : queue.eventThread = .joined true) :
    queue.stop = .ok { queue with programDestroyed := true } := by
  rw [stop, h]
  rfl

theorem stop_of_running {queue : ProcessQueue} (h : queue.eventThread = .running false) :
    queue.stop = .ok { queue with eventThread := .joined true, programDestroyed := true } := by
  rw [stop, h]
  rfl

/-- Without a thread there is nothing to join. -/
theorem stop_of_none {queue : ProcessQueue} (h : queue.eventThread = .none) :
    queue.stop = .error .invalidArgument := by
  rw [stop, h]
  rfl

/-- The event thread of a started queue runs until the first `stop`, and is joined from then on. -/
def Started (queue : ProcessQueue) : Prop :=
  queue.eventThread = .running false ∨ queue.eventThread = .joined true

theorem Started.stop {queue : ProcessQueue} (h : queue.Started) :
    ∃ queue' : ProcessQueue, queue.stop = .ok queue' ∧ queue'.Started := by
  rcases h with h | h
  · exact ⟨_, stop_of_running h, .inr rfl⟩
  · exact ⟨_, stop_of_joined h, .inr h⟩

theorem Started.stopTimes {queue : ProcessQueue} (h : queue.Started) (n : ℕ) :
    ∃ queue', stopTimes n queue = .ok queue' ∧ queue'.Started := by
  induction n generalizing queue with
  | zero => exact ⟨queue, rfl, h⟩
  | succ n ih =>
    obtain ⟨queue', hstop, hqueue'⟩ := h.stop
    rw [ProcessQueue.stopTimes, hstop]
    exact ih hqueue'

/-- **The life of a queue.** For every outcome of the initialisation and every number of calls of
`stop`, no exception leaves `stop`, the one in the destructor included, if and only if the queue was
started. -/
theorem lifecycle_isOk_iff (initialized started : Bool) (stops : ℕ) :
    (lifecycle initialized started stops).isOk ↔ started = true := by
  cases started with
  | true =>
    obtain ⟨queue, hstops, hqueue⟩ :=
      Started.stopTimes (show (construct initialized).start.Started from .inl rfl) stops
    obtain ⟨queue', hstop, -⟩ := hqueue.stop
    have hlife : lifecycle initialized true stops = .ok queue' := by
      rw [lifecycle, if_pos rfl, hstops]
      exact hstop
    rw [hlife]
    exact iff_of_true rfl rfl
  | false =>
    have hnone : (construct initialized).stop = .error .invalidArgument := stop_of_none rfl
    have hlife : lifecycle initialized false stops = .error .invalidArgument := by
      cases stops with
      | zero => exact hnone
      | succ n =>
        rw [lifecycle, if_neg Bool.false_ne_true, ProcessQueue.stopTimes, hnone]
        rfl
    rw [hlife]
    exact iff_of_false Bool.false_ne_true Bool.false_ne_true

/-- `main` with a queue that could not be initialised. -/
theorem not_forall_lifecycle_isOk :
    ¬∀ initialized started stops, (lifecycle initialized started stops).isOk := by
  intro h
  exact absurd (h false false 0) (by decide)

end ProcessQueue

end AnanicyCpp
