import AnanicyCpp.Kernel
import AnanicyCpp.Library.Text
import AnanicyCpp.Queue.Ring

/-!
# The first scan of `/proc`

The constructor of `ProcessQueue` pushes an entry for every process that `/proc` lists. It runs
before `main` creates the worker, so nothing is taken from the queue meanwhile. The plain build of
the queue has room for every scan. In the ring build the push that comes after as many as there are
slots waits for a slot that nobody empties (`Queue.scanCompletes_iff`).

## Main definitions

* `Queue.scanned` : the entries that `full_scan` pushes.
* `Queue.RingScanCompletes`, `Queue.PlainScanCompletes` : the scan in the two builds.

## Main results

* `Queue.ringScanCompletes_iff` : the scan fits into the ring.
* `Queue.scanCompletes_iff` : the scan completes in both builds.
-/

namespace AnanicyCpp

namespace Queue

/-- `isdigit(pid_str[0])` -/
def isNumeric (entry : Text) : Bool := entry.head?.any Char.isDigit

/-- The processes that `full_scan` finds; `command` is `get_command_from_pid`. -/
def scanned (command : Pid → String) (entries : List Text) : List Process :=
  (entries.filter isNumeric).map fun entry => ⟨entry.toInt32, command entry.toInt32⟩

/-- The one producer of the scan. -/
def scanProgram (processes : List Process) (_ : Unit) (number : ℕ) : Process :=
  processes.getD number ⟨0, ""⟩

/-- Every call of `push` of the scan finds its slot empty, in a ring that nobody else uses. -/
def RingScanCompletes (ring : Ring) (processes : List Process) : Prop :=
  (Transition.run (ring.step (scanProgram processes)) Ring.init
    (List.replicate processes.length (Ring.pushCall ())).flatten).isSome

/-- The scan on the plain build. -/
def PlainScanCompletes (processes : List Process) : Prop :=
  (Transition.run (Fifo.step (scanProgram processes)) Fifo.init
    (List.replicate processes.length (.push ()))).isSome

theorem isSome_run_push (program : Unit → ℕ → Process) (count : ℕ) (s : Fifo.State Unit Process) :
    (Transition.run (Fifo.step program) s (List.replicate count (.push ()))).isSome := by
  induction count generalizing s with
  | zero => rfl
  | succ count ih => exact ih _

/-- The scan fits into the ring. -/
theorem ringScanCompletes_iff (ring : Ring) (processes : List Process) :
    RingScanCompletes ring processes ↔ processes.length ≤ ring.capacity := by
  constructor
  · intro h
    by_contra hlt
    obtain ⟨rest, hrest⟩ := Nat.exists_eq_add_of_lt (Nat.lt_of_not_le hlt)
    obtain ⟨t, hrun, hhead, -, -, -, hidle, -, hstored, -⟩ :=
      Ring.exists_run_pushCalls ring (scanProgram processes) Ring.init () le_rfl rfl
        fun k hk => rfl
    -- the ticket after a lap belongs to the first slot again
    have hslot : t.slots (ring.index t.head) ≠ .empty := by
      have hlap : ring.index t.head = ring.index (0 + 0) := by
        rw [ring.index_eq_iff, hhead]
        show (0 + ring.capacity) % _ = _
        rw [Nat.zero_add, Nat.mod_self, Nat.zero_mod]
      have hfirst := hstored 0 ring.capacity_pos
      rw [hlap]
      exact fun hempty => by cases hfirst.symm.trans hempty
    have hwait := Ring.run_pushCall_eq_none (scanProgram processes) hidle hslot
    rw [RingScanCompletes, hrest, Nat.add_assoc, List.replicate_add, List.replicate_succ,
      List.flatten_append, List.flatten_cons, Transition.run_append, hrun, Option.bind_some,
      Transition.run_append, hwait] at h
    cases h
  · intro hle
    obtain ⟨t, hrun, -⟩ := Ring.exists_run_pushCalls ring (scanProgram processes) Ring.init () hle
      rfl fun k hk => rfl
    rw [RingScanCompletes, hrun]
    rfl

/-- **The first scan.** No push of the scan has to wait in either build, for the capacity that the
process queue has, exactly when `/proc` has no more numeric entries than the ring has slots. -/
theorem scanCompletes_iff (command : Pid → String) (entries : List Text) :
    (RingScanCompletes processQueueRing (scanned command entries) ∧
        PlainScanCompletes (scanned command entries)) ↔
      (entries.filter isNumeric).length ≤ 32768 := by
  have hplain : PlainScanCompletes (scanned command entries) := isSome_run_push ..
  have hring := ringScanCompletes_iff processQueueRing (scanned command entries)
  rw [scanned, List.length_map] at hring
  exact ⟨fun h => hring.mp h.1, fun h => ⟨hring.mpr h, hplain⟩⟩

/-- One process more than there are slots. -/
theorem not_forall_scanCompletes :
    ¬∀ (command : Pid → String) (entries : List Text),
      RingScanCompletes processQueueRing (scanned command entries) ∧
        PlainScanCompletes (scanned command entries) := by
  intro h
  have hring := (h (fun _ => "sh") (List.replicate 32769 ['7'])).1
  have hle := (ringScanCompletes_iff ..).mp hring
  have hnumeric : isNumeric ['7'] = true := by decide
  rw [scanned, List.filter_replicate_of_pos hnumeric, List.length_map, List.length_replicate] at hle
  exact absurd hle (by decide)

end Queue

end AnanicyCpp
