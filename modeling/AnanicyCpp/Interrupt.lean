import AnanicyCpp.Library.Transition
import Mathlib.Data.Nat.Notation
import Mathlib.Tactic.ByContra
import Mathlib.Tactic.SplitIfs

/-!
# The shutdown signal

`InterruptHandler::stop` sets a flag and notifies the condition variable on which `main` waits
between two rounds of its service loop. The flag is tested before the lock is taken, the wait has no
predicate, and `stop` takes no lock, so a call of `stop` that ends between the test and the wait is
missed: `main` waits for a whole period although the flag is set
(`Interrupt.everyStep_unmissed`, `Interrupt.missed_of_not_heard`).

## Main definitions

* `Interrupt.Main`, `Interrupt.State` : where `main` stands, the flag, and the calls of `stop`.
* `Interrupt.step` : the service loop, interleaved with any number of calls of `stop`.
* `Interrupt.Unmissed` : `main` does not enter the wait after a call of `stop` has ended.
* `Interrupt.Heard` : no call of `stop` ends between the test of the flag and the wait.

## Main results

* `Interrupt.everyStep_unmissed` : calls that end at other times are not missed.
* `Interrupt.missed_of_not_heard` : a call that ends there can be missed.
-/

namespace AnanicyCpp

namespace Interrupt

/-- Where `main` stands: at the head of the service loop, in front of the lock, with the lock, in
the wait, in the sleep of the benchmark, at the test after it, or behind the loop. -/
inductive Main where
  | head
  | locking
  | locked
  | waiting
  | sleeping
  | retesting
  | left
deriving DecidableEq

/-- The flag, how many calls of `stop` have set it and not notified yet, whether a call has ended,
and `main`. -/
structure State where
  needExit : Bool
  notifying : ℕ
  completed : Bool
  main : Main
deriving DecidableEq

def init : State := ⟨false, 0, false, .head⟩

/-- The two steps of a call of `stop`, and the steps of `main`. `wake` is a notification that has
come, a spurious wakeup, the end of the period or of the sleep; the other reason to leave the loop
is the number of processes. -/
inductive Act where
  | setNeedExit
  | notifyAll
  | test
  | lock
  | enterWait
  | wake
  | retest (countReached : Bool)
deriving DecidableEq

/-- The part of `main`. -/
def Main.step (benchmark needExit : Bool) : Main → Act → Option Main
  | .head, .test => some (if needExit then .left else if benchmark then .sleeping else .locking)
  | .locking, .lock => some .locked
  | .locked, .enterWait => some .waiting
  | .waiting, .wake => some .retesting
  | .sleeping, .wake => some .retesting
  | .retesting, .retest countReached =>
      some (if needExit || benchmark || countReached then .left else .head)
  | _, _ => none

/-- `notify_all` reaches `main` in the wait only. -/
def Main.notified : Main → Main
  | .waiting => .retesting
  | main => main

def step (benchmark : Bool) (s : State) : Act → Option State
  | .setNeedExit => some { s with needExit := true, notifying := s.notifying + 1 }
  | .notifyAll =>
      match s.notifying with
      | 0 => none
      | n + 1 => some { s with notifying := n, completed := true, main := s.main.notified }
  | a => (s.main.step benchmark s.needExit a).map fun main => { s with main }

/-- The wait is entered only while no call of `stop` has ended. -/
def Unmissed (s : State) (a : Act) : Prop := a = .enterWait → s.completed = false

/-- Behind the test of the flag, and not yet in the wait. -/
def Main.between : Main → Bool
  | .locking | .locked => true
  | _ => false

/-- No call of `stop` ends while `main` is between its test and the wait. -/
def Heard (s : State) (a : Act) : Prop := a = .notifyAll → s.main.between = false

/-- A call of `stop` that has gone as far as the flag has set it, and after one that has ended
`main` does not come to the wait. -/
structure Inv (s : State) : Prop where
  notifying : 0 < s.notifying → s.needExit = true
  completed : s.completed = true → s.needExit = true ∧ s.main.between = false

theorem between_notified (main : Main) : main.notified.between = main.between := by
  cases main <;> rfl

/-- With the flag set, `main` does not come between the test and the wait any more. -/
theorem between_step {benchmark : Bool} {main main' : Main} {a : Act}
    (h : main.step benchmark true a = some main') (hmain : main.between = false) :
    main'.between = false := by
  revert h
  fun_cases Main.step benchmark true main a <;> rintro ⟨⟩ <;> first | rfl | cases hmain

theorem step_enterWait {benchmark needExit : Bool} {main main' : Main}
    (h : main.step benchmark needExit .enterWait = some main') : main = .locked := by
  cases main <;> first | rfl | cases h

theorem inv_init : Inv init where
  notifying h := absurd h (Nat.lt_irrefl 0)
  completed h := absurd h Bool.false_ne_true

theorem Inv.step_main {benchmark : Bool} {s t : State} {a : Act} (hs : Inv s)
    (h : (s.main.step benchmark s.needExit a).map (fun main => { s with main }) = some t) :
    Inv t := by
  obtain ⟨main, hmain, rfl⟩ := Option.map_eq_some_iff.mp h
  refine ⟨hs.notifying, fun hcompleted => ?_⟩
  obtain ⟨hexit, hbetween⟩ := hs.completed hcompleted
  rw [hexit] at hmain
  exact ⟨hexit, between_step hmain hbetween⟩

theorem Inv.step {benchmark : Bool} {s t : State} {a : Act} (hs : Inv s) (hC : Heard s a)
    (h : step benchmark s a = some t) : Inv t := by
  cases a with
  | setNeedExit =>
    obtain rfl := Option.some.inj h
    exact ⟨fun _ => rfl, fun hcompleted => ⟨rfl, (hs.completed hcompleted).2⟩⟩
  | notifyAll =>
    simp only [Interrupt.step] at h
    split at h
    · cases h
    · next n hn =>
      obtain rfl := Option.some.inj h
      have hexit : s.needExit = true := hs.notifying (by omega)
      exact ⟨fun _ => hexit, fun _ => ⟨hexit, (between_notified s.main).trans (hC rfl)⟩⟩
  | _ => exact hs.step_main h

/-- **The shutdown signal.** In every run of the service loop with any number of calls of `stop` in
which no call ends while `main` is between its test of the flag and the wait, `main` never enters
the wait after a call has ended. -/
theorem everyStep_unmissed (benchmark : Bool) (acts : List Act)
    (hheard : Transition.EveryStep (step benchmark) Heard init acts) :
    Transition.EveryStep (step benchmark) Unmissed init acts := by
  refine Transition.everyStep_of_invariant Inv (fun _ _ _ hs hC h => hs.step hC h) ?_ inv_init
    hheard
  rintro s a t hs - h rfl
  by_contra hcompleted
  have hbetween := (hs.completed (Bool.not_eq_false _ ▸ hcompleted)).2
  obtain ⟨main, hmain, rfl⟩ := Option.map_eq_some_iff.mp h
  rw [step_enterWait hmain] at hbetween
  cases hbetween

theorem everyStep_unmissed_sample : Transition.EveryStep (step false) Unmissed init
    [.test, .lock, .enterWait, .setNeedExit, .notifyAll, .retest false] :=
  everyStep_unmissed false _ <|
    .cons rfl (by simp [Heard]) <| .cons rfl (by simp [Heard]) <| .cons rfl (by simp [Heard]) <|
    .cons rfl (by simp [Heard]) <| .cons rfl (fun _ => rfl) <| .cons rfl (by simp [Heard]) trivial

/-- The signal comes after the test of the flag. -/
theorem not_forall_everyStep_unmissed :
    ¬∀ benchmark acts, Transition.EveryStep (step benchmark) Unmissed init acts := by
  intro h
  have hunmissed := Transition.everyStep_iff.mp
    (h false [.test, .setNeedExit, .notifyAll, .lock, .enterWait])
    [.test, .setNeedExit, .notifyAll, .lock] _ _ _ _ rfl rfl rfl
  exact Bool.noConfusion (hunmissed rfl)

/-- The condition is exact: a call of `stop` that ends between the test and the wait is missed, if
`main` goes on at once. -/
theorem missed_of_not_heard {benchmark : Bool} {s t : State} {a : Act}
    (h : step benchmark s a = some t) (hnot : ¬Heard s a) :
    ∃ acts, ¬Transition.EveryStep (step benchmark) Unmissed t acts := by
  obtain ⟨rfl, hbetween⟩ := Classical.not_imp.mp hnot
  rw [Bool.not_eq_false] at hbetween
  simp only [step] at h
  split at h
  · cases h
  · next n hn =>
    obtain rfl := Option.some.inj h
    cases hmain : s.main with
    | locked =>
      refine ⟨[.enterWait], fun hall => ?_⟩
      exact Bool.noConfusion ((hall _ rfl).1 rfl)
    | locking =>
      refine ⟨[.lock, .enterWait], fun hall => ?_⟩
      exact Bool.noConfusion (((hall _ rfl).2 _ rfl).1 rfl)
    | _ =>
      rw [hmain] at hbetween
      cases hbetween

end Interrupt

end AnanicyCpp
