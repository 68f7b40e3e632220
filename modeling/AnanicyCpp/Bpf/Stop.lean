import AnanicyCpp.Library.Transition
import Mathlib.Tactic.ByContra
import Mathlib.Tactic.SplitIfs

/-!
# Stopping the event thread

The event thread of the BPF back end polls until `g_exiting` is set, and restarts after an error
unless its stop token says otherwise. `stop` sets `g_exiting` first and requests the stop
afterwards; a restart sets `g_exiting` and clears it again. When a restart clears it between the two
steps of `stop`, and the thread is back in its polling loop before the stop is requested, nothing
will end the loop. In every other case it ends (`Bpf.Stop.always_noticed`,
`Bpf.Stop.lost_of_not_seen`).

## Main definitions

* `Bpf.Stop.Thread`, `Bpf.Stop.Main` : where the event thread and the caller of `stop` stand.
* `Bpf.Stop.step` : their steps.
* `Bpf.Stop.Noticed` : once the stop is requested, the thread does not find `g_exiting` cleared at
  the head of its loop.
* `Bpf.Stop.Seen` : the thread does not enter its loop with a `g_exiting` that `stop` has set and a
  restart has cleared.

## Main results

* `Bpf.Stop.always_noticed` : no request to stop is lost in a run with that condition.
* `Bpf.Stop.lost_of_not_seen` : without it, one can be.
-/

namespace AnanicyCpp

namespace Bpf

namespace Stop

/-- Where the event thread stands: at the head of the loop in `start`, at the head of the loop in
`handle_events`, in the poll, behind `handle_events` after an error, in front of the store of
`true`, of `destroy`, of the scan, of the store of `false` and of `initialize`, or at its end. -/
inductive Thread where
  | outerHead
  | head
  | polling
  | failed
  | setting
  | destroying
  | scanning
  | clearing
  | initializing
  | ended
deriving DecidableEq

inductive ThreadAct where
  | testStop
  | testExiting
  | poll (isError : Bool)
  | testAgain
  | setExiting
  | destroy
  | fullScan
  | clearExiting
  | initializeProgram
deriving DecidableEq

/-- A step of the event thread, with the value of `g_exiting` after it. A poll that is interrupted
counts as one that succeeds, and an initialisation that fails goes on like one that succeeds. -/
def Thread.step (exiting stopRequested : Bool) : Thread → ThreadAct → Option (Thread × Bool)
  | .outerHead, .testStop => some (if stopRequested then .ended else .head, exiting)
  | .head, .testExiting => some (if exiting then .ended else .polling, exiting)
  | .polling, .poll isError => some (if isError then .failed else .head, exiting)
  | .failed, .testAgain => some (if stopRequested then .ended else .setting, exiting)
  | .setting, .setExiting => some (.destroying, true)
  | .destroying, .destroy => some (.scanning, exiting)
  | .scanning, .fullScan => some (.clearing, exiting)
  | .clearing, .clearExiting => some (.initializing, false)
  | .initializing, .initializeProgram => some (.outerHead, exiting)
  | _, _ => none

/-- Where the caller of `stop` stands: outside, behind the store to `g_exiting`, in front of
`request_stop`, in the join, or in front of `destroy`. -/
inductive Main where
  | outside
  | stored
  | requesting
  | joining
  | destroying
deriving DecidableEq

inductive MainAct where
  | setExiting
  | testStop
  | requestStop
  | join
  | destroy
deriving DecidableEq

structure State where
  exiting : Bool
  stopRequested : Bool
  thread : Thread
  main : Main
deriving DecidableEq

/-- After `start`. -/
def init : State := ⟨false, false, .outerHead, .outside⟩

/-- A step of `stop`, which may be called again. -/
def mainStep (s : State) : MainAct → Option State
  | .setExiting =>
      if s.main = .outside then some { s with exiting := true, main := .stored } else none
  | .testStop =>
      if s.main = .stored then
        some { s with main := if s.stopRequested then .destroying else .requesting }
      else none
  | .requestStop =>
      if s.main = .requesting then some { s with stopRequested := true, main := .joining } else none
  | .join =>
      if s.main = .joining ∧ s.thread = .ended then some { s with main := .destroying } else none
  | .destroy => if s.main = .destroying then some { s with main := .outside } else none

inductive Act where
  | thread (a : ThreadAct)
  | main (a : MainAct)
deriving DecidableEq

def step (s : State) : Act → Option State
  | .thread a =>
      (s.thread.step s.exiting s.stopRequested a).map fun next =>
        { s with thread := next.1, exiting := next.2 }
  | .main a => mainStep s a

/-- Once the stop is requested, the thread is not at the head of `handle_events` with `g_exiting`
cleared. -/
def Noticed (s : State) : Prop :=
  s.stopRequested = true → ¬(s.thread = .head ∧ s.exiting = false)

/-- `stop` has stored to `g_exiting` and not requested the stop yet. -/
def Main.announcing : Main → Bool
  | .stored | .requesting => true
  | _ => false

/-- The thread does not pass the head of its outer loop while `stop` is between its store to
`g_exiting` and its request and the store has been overwritten. -/
def Seen (s : State) (a : Act) : Prop :=
  a = .thread .testStop → s.main.announcing = true → s.exiting = true

/-- In the loop of `handle_events`. -/
def Thread.inLoop : Thread → Bool
  | .head | .polling => true
  | _ => false

/-- In the loop the thread still has the sign that a `stop` has given. -/
def Inv (s : State) : Prop :=
  s.stopRequested = true ∨ s.main.announcing = true → s.thread.inLoop = true → s.exiting = true

/-- The thread takes the sign into the loop, and leaves it alone there. -/
theorem inLoop_step {exiting exiting' stopRequested : Bool} {thread thread' : Thread}
    {a : ThreadAct} (h : thread.step exiting stopRequested a = some (thread', exiting'))
    (hloop : thread'.inLoop = true) :
    exiting' = exiting ∧ (thread.inLoop = true ∨ a = .testStop ∧ stopRequested = false) := by
  revert h
  fun_cases Thread.step exiting stopRequested thread a <;> rintro ⟨⟩
  · cases stopRequested
    · exact ⟨rfl, .inr ⟨rfl, rfl⟩⟩
    · cases hloop
  · exact ⟨rfl, .inl rfl⟩
  · exact ⟨rfl, .inl rfl⟩
  · cases stopRequested <;> cases hloop
  all_goals cases hloop

theorem Inv.step_thread {s t : State} {a : ThreadAct} (hs : Inv s) (hC : Seen s (.thread a))
    (h : step s (.thread a) = some t) : Inv t := by
  obtain ⟨next, hnext, rfl⟩ := Option.map_eq_some_iff.mp h
  rintro hstop hloop
  obtain ⟨hsame, hin | ⟨rfl, hnot⟩⟩ := inLoop_step hnext hloop
  · exact hsame.trans (hs hstop hin)
  · rcases hstop with hstop | hstop
    · exact absurd (hnot.symm.trans hstop) Bool.noConfusion
    · exact hsame.trans (hC rfl hstop)

theorem Inv.step_main {s t : State} {a : MainAct} (hs : Inv s) (h : mainStep s a = some t) :
    Inv t := by
  revert h
  fun_cases mainStep s a <;> rintro ⟨⟩
  · exact fun _ _ => rfl
  · next hmain =>
    refine fun _ hloop => hs (.inr ?_) hloop
    rw [hmain]
    rfl
  · next hmain =>
    refine fun _ hloop => hs (.inr ?_) hloop
    rw [hmain]
    rfl
  · rintro (hstop | hstop) hloop
    · exact hs (.inl hstop) hloop
    · cases hstop
  · rintro (hstop | hstop) hloop
    · exact hs (.inl hstop) hloop
    · cases hstop

theorem Inv.step {s t : State} {a : Act} (hs : Inv s) (hC : Seen s a)
    (h : step s a = some t) : Inv t := by
  cases a with
  | thread a => exact hs.step_thread hC h
  | main a => exact hs.step_main h

/-- **Stopping the event thread.** In every run of the event thread with any number of calls of
`stop` in which the thread does not pass the head of its outer loop while a `stop` is between its
store to `g_exiting` and its request and a restart has overwritten the store, the thread is never at
the head of `handle_events` with `g_exiting` cleared once the stop is requested. -/
theorem always_noticed (acts : List Act) (hseen : Transition.EveryStep step Seen init acts) :
    Transition.Always step Noticed init acts := by
  refine Transition.always_of_invariant Inv ?_ (fun _ _ _ hs hC h => hs.step hC h) ?_ hseen
  · rintro s hs hstop ⟨hhead, hexiting⟩
    have hset := hs (.inl hstop) (by rw [hhead]; rfl)
    exact Bool.noConfusion (hexiting.symm.trans hset)
  · rintro (h | h) <;> cases h

theorem always_noticed_sample : Transition.Always step Noticed init
    [.thread .testStop, .thread .testExiting, .main .setExiting, .thread (.poll true),
      .thread .testAgain, .main .testStop, .main .requestStop, .thread .setExiting,
      .thread .destroy, .thread .fullScan, .thread .clearExiting, .thread .initializeProgram,
      .thread .testStop, .main .join, .main .destroy] :=
  always_noticed _ <|
    .cons rfl (fun _ h => by cases h) <| .cons rfl (by simp [Seen]) <|
    .cons rfl (by simp [Seen]) <| .cons rfl (by simp [Seen]) <| .cons rfl (by simp [Seen]) <|
    .cons rfl (by simp [Seen]) <| .cons rfl (by simp [Seen]) <| .cons rfl (by simp [Seen]) <|
    .cons rfl (by simp [Seen]) <| .cons rfl (by simp [Seen]) <| .cons rfl (by simp [Seen]) <|
    .cons rfl (by simp [Seen]) <| .cons rfl (fun _ h => by cases h) <|
    .cons rfl (by simp [Seen]) <| .cons rfl (by simp [Seen]) trivial

/-- A restart clears `g_exiting` after `stop` has set it, and the thread polls again. -/
theorem not_forall_always_noticed : ¬∀ acts, Transition.Always step Noticed init acts := by
  intro h
  have hnoticed := (h [.thread .testStop, .thread .testExiting, .thread (.poll true),
    .thread .testAgain, .thread .setExiting, .thread .destroy, .thread .fullScan,
    .main .setExiting, .thread .clearExiting, .thread .initializeProgram, .thread .testStop,
    .main .testStop, .main .requestStop]).last rfl
  exact hnoticed rfl ⟨rfl, rfl⟩

/-- A stop that was requested is followed by the join, and the join by the end of the thread. -/
def Joins (s : State) : Prop :=
  s.stopRequested = true → s.main = .joining ∨ s.thread = .ended

theorem Joins.step {s t : State} {a : Act} (hs : Joins s) (h : step s a = some t) : Joins t := by
  cases a with
  | thread a =>
    obtain ⟨next, hnext, rfl⟩ := Option.map_eq_some_iff.mp h
    intro hstop
    rcases hs hstop with hmain | hthread
    · exact .inl hmain
    · rw [hthread] at hnext
      cases a <;> cases hnext
  | main a =>
    have hother : s.main ≠ .joining → s.stopRequested = true → s.thread = .ended :=
      fun hmain hstop => (hs hstop).resolve_left hmain
    revert h
    rw [Stop.step]
    fun_cases mainStep s a <;> rintro ⟨⟩
    · next hmain => exact fun hstop => .inr (hother (by simp [hmain]) hstop)
    · next hmain => exact fun hstop => .inr (hother (by simp [hmain]) hstop)
    · exact fun _ => .inl rfl
    · next hjoin => exact fun _ => .inr hjoin.2
    · next hmain => exact fun hstop => .inr (hother (by simp [hmain]) hstop)

/-- The condition is exact: when it is not met in some run, the request that `stop` goes on to make
is lost. -/
theorem lost_of_not_seen {acts : List Act} {s t : State} {a : Act}
    (hrun : Transition.run step init acts = some s) (h : step s a = some t) (hnot : ¬Seen s a) :
    ∃ acts, ¬Transition.Always step Noticed t acts := by
  simp only [Seen, Classical.not_imp, Bool.not_eq_true] at hnot
  obtain ⟨rfl, hannouncing, hexiting⟩ := hnot
  obtain ⟨⟨thread, exiting⟩, hnext, rfl⟩ := Option.map_eq_some_iff.mp h
  have hthread : s.thread = .outerHead := by
    cases hthread : s.thread <;> rw [hthread] at hnext <;> first | rfl | cases hnext
  have hjoins : Joins s := Transition.run_invariant Joins (fun _ _ _ _ hs h => hs.step h)
    (fun h => by cases h) hrun
  have hstop : s.stopRequested = false := by
    by_contra hstop
    rcases hjoins (Bool.not_eq_false _ ▸ hstop) with hmain | hended
    · rw [hmain] at hannouncing
      cases hannouncing
    · cases hthread.symm.trans hended
  obtain ⟨rfl, rfl⟩ : thread = .head ∧ exiting = s.exiting := by
    rw [hstop, hthread] at hnext
    cases hnext
    exact ⟨rfl, rfl⟩
  cases hmain : s.main with
  | requesting =>
    refine ⟨[.main .requestStop], fun hall => ?_⟩
    exact (hall.last rfl) rfl ⟨rfl, hexiting⟩
  | stored =>
    refine ⟨[.main .testStop, .main .requestStop], fun hall => ?_⟩
    have hrun : Transition.run step ⟨s.exiting, s.stopRequested, .head, .stored⟩
        [.main .testStop, .main .requestStop] = some ⟨s.exiting, true, .head, .joining⟩ := by
      simp [Transition.run, step, mainStep, hstop]
    exact (hall.last hrun) rfl ⟨rfl, hexiting⟩
  | _ =>
    rw [hmain] at hannouncing
    cases hannouncing

end Stop

end Bpf

end AnanicyCpp
