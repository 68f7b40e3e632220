import Mathlib.Data.Nat.Notation
import Mathlib.Logic.Function.Basic

/-!
# Resources that are obtained and released

Resources get numbers when they are obtained, and no number is given twice. A pool remembers which
of them are live, and whether one was used or released that was not. A resource that is obtained is
therefore released at most once, and not used after that, as long as the pool is not misused.

## Main definitions

* `Pool`, `Pool.obtain`, `Pool.use`, `Pool.release` : a pool and its operations.

## Main results

* `Pool.use_of_live`, `Pool.misused_release` : a live resource can be used and released.
* `Pool.live_obtain_self` : what is obtained is live.
-/

/-- The resources of one kind. -/
structure Pool where
  next : ℕ
  live : ℕ → Bool
  misused : Bool

namespace Pool

def empty : Pool := ⟨0, fun _ => false, false⟩

def obtain (p : Pool) : ℕ × Pool :=
  (p.next, { p with next := p.next + 1, live := Function.update p.live p.next true })

def use (r : ℕ) (p : Pool) : Pool := { p with misused := p.misused || !p.live r }

def release (r : ℕ) (p : Pool) : Pool :=
  { p with live := Function.update p.live r false, misused := p.misused || !p.live r }

/-- The use of a resource where there is none. -/
def useNull (p : Pool) : Pool := { p with misused := true }

variable {p : Pool} {r : ℕ}

theorem use_of_live (h : p.live r = true) : p.use r = p := by
  rw [use, h, Bool.not_true, Bool.or_false]

theorem misused_release (h : p.live r = true) : (p.release r).misused = p.misused := by
  rw [release, h, Bool.not_true, Bool.or_false]

@[simp]
theorem live_obtain_self : p.obtain.2.live p.obtain.1 = true := Function.update_self ..

end Pool
