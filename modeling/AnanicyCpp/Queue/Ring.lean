import AnanicyCpp.Queue.Capacity
import AnanicyCpp.Queue.Fifo

/-!
# The ring build of the queue

In the experimental build a call of `push` takes a ticket, waits until the slot of the ticket is
`EMPTY`, and fills it; the consumer takes a ticket of its own, waits until its slot is `STORED`, and
empties it. The tickets only say which slot to wait for: nothing keeps a producer from a slot that
another one, with an earlier ticket, is waiting for.

## Main definitions

* `Queue.Slot`, `Queue.Producer`, `Queue.Consumer`, `Queue.Ring.State` : the state of the ring and
  of the threads that use it.
* `Queue.Ring.step` : the atomic steps of `push` and `poll`.
* `Queue.Ring.pushCall`, `Queue.Ring.pollCall` : the steps of a call that does not wait.

## Main results

* `Queue.Ring.turn_unique`, `Queue.Ring.exists_turn` : in each lap every slot has one turn.
* `Queue.Ring.exists_run_pushCalls` : the calls of one producer that is alone.
-/

namespace AnanicyCpp

namespace Queue

variable {ι T : Type*}

/-! ### The threads and the slots -/

/-- The state of a slot, with the element that is in it. -/
inductive Slot (ι T : Type*) where
  | empty
  | storing (x : Element ι T)
  | stored (x : Element ι T)
  | loading (x : Element ι T)
deriving DecidableEq

def Slot.element? : Slot ι T → Option (Element ι T)
  | .empty => none
  | .storing x => some x
  | .stored x => some x
  | .loading x => some x

/-- A producer: outside `push`, in the loop of `do_push_any` with a ticket, or writing into the
slot. -/
inductive Producer (ι T : Type*) where
  | idle
  | waiting (x : Element ι T) (ticket : ℕ)
  | storing (x : Element ι T) (ticket : ℕ)
deriving DecidableEq

/-- The element that a producer has not yet put into a slot. -/
def Producer.pending : Producer ι T → List (Element ι T)
  | .waiting x _ => [x]
  | _ => []

/-- The consumer: outside `poll`, after `wait_for`, after the second test, in the loop of
`do_pop_any` with a ticket, or reading from the slot. -/
inductive Consumer (ι T : Type*) where
  | idle
  | woken
  | popping
  | waiting (ticket : ℕ)
  | loading (x : Element ι T) (ticket : ℕ)
deriving DecidableEq

/-- `was_size`; the difference of the counters is taken for a signed number. -/
def wasSize (head tail : ℕ) : ℕ := (BitVec.ofNat 32 head - BitVec.ofNat 32 tail).toInt.toNat

def wasEmpty (head tail : ℕ) : Bool := wasSize head tail == 0

namespace Ring

/-- The counters and slots, the threads, how many calls of `push` each producer has begun, and what
`poll` has returned. -/
structure State (ι T : Type*) where
  head : ℕ
  tail : ℕ
  slots : ℕ → Slot ι T
  producers : ι → Producer ι T
  begun : ι → ℕ
  consumer : Consumer ι T
  returned : List (Element ι T)

def init : State ι T := ⟨0, 0, fun _ => .empty, fun _ => .idle, fun _ => 0, .idle, []⟩

/-- The atomic steps. A test that fails, of a slot or for the size, is repeated and changes
nothing. -/
inductive Act (ι : Type*) where
  | takeHead (i : ι)
  | startStoring (i : ι)
  | finishStoring (i : ι)
  | wake
  | retest
  | takeTail
  | startLoading
  | finishLoading
deriving DecidableEq

section Steps

variable [DecidableEq ι] (ring : Ring) (program : ι → ℕ → T)

/-- One step of a producer or of the consumer. -/
def step (s : State ι T) : Act ι → Option (State ι T)
  | .takeHead i =>
      match s.producers i with
      | .idle => some { s with
          head := s.head + 1
          begun := Function.update s.begun i (s.begun i + 1)
          producers := Function.update s.producers i
            (.waiting (element program i (s.begun i)) s.head) }
      | _ => none
  | .startStoring i =>
      match s.producers i with
      | .waiting x ticket =>
          match s.slots (ring.index ticket) with
          | .empty => some { s with
              slots := Function.update s.slots (ring.index ticket) (.storing x)
              producers := Function.update s.producers i (.storing x ticket) }
          | _ => none
      | _ => none
  | .finishStoring i =>
      match s.producers i with
      | .storing x ticket => some { s with
          slots := Function.update s.slots (ring.index ticket) (.stored x)
          producers := Function.update s.producers i .idle }
      | _ => none
  | .wake =>
      match s.consumer with
      | .idle => if wasEmpty s.head s.tail then none else some { s with consumer := .woken }
      | _ => none
  | .retest =>
      match s.consumer with
      | .woken =>
          some { s with consumer := if wasEmpty s.head s.tail then .idle else .popping }
      | _ => none
  | .takeTail =>
      match s.consumer with
      | .popping => some { s with tail := s.tail + 1, consumer := .waiting s.tail }
      | _ => none
  | .startLoading =>
      match s.consumer with
      | .waiting ticket =>
          match s.slots (ring.index ticket) with
          | .stored x => some { s with
              slots := Function.update s.slots (ring.index ticket) (.loading x)
              consumer := .loading x ticket }
          | _ => none
      | _ => none
  | .finishLoading =>
      match s.consumer with
      | .loading x ticket => some { s with
          slots := Function.update s.slots (ring.index ticket) .empty
          consumer := .idle
          returned := s.returned ++ [x] }
      | _ => none

end Steps

/-! ### Steps -/

section Cases

variable [DecidableEq ι] {ring : Ring} {program : ι → ℕ → T} {s t : State ι T} {i : ι}

theorem step_takeHead (h : ring.step program s (.takeHead i) = some t) :
    s.producers i = .idle ∧ t = { s with
      head := s.head + 1
      begun := Function.update s.begun i (s.begun i + 1)
      producers := Function.update s.producers i
        (.waiting (element program i (s.begun i)) s.head) } := by
  simp only [step] at h
  split at h
  · next hi => exact ⟨hi, (Option.some.inj h).symm⟩
  · cases h

theorem step_startStoring (h : ring.step program s (.startStoring i) = some t) :
    ∃ x ticket, s.producers i = .waiting x ticket ∧ s.slots (ring.index ticket) = .empty ∧
      t = { s with
        slots := Function.update s.slots (ring.index ticket) (.storing x)
        producers := Function.update s.producers i (.storing x ticket) } := by
  simp only [step] at h
  split at h
  · next x ticket hi =>
    split at h
    · next hslot => exact ⟨x, ticket, hi, hslot, (Option.some.inj h).symm⟩
    · cases h
  · cases h

theorem step_finishStoring (h : ring.step program s (.finishStoring i) = some t) :
    ∃ x ticket, s.producers i = .storing x ticket ∧ t = { s with
      slots := Function.update s.slots (ring.index ticket) (.stored x)
      producers := Function.update s.producers i .idle } := by
  simp only [step] at h
  split at h
  · next x ticket hi => exact ⟨x, ticket, hi, (Option.some.inj h).symm⟩
  · cases h

theorem step_wake (h : ring.step program s .wake = some t) :
    s.consumer = .idle ∧ t = { s with consumer := .woken } := by
  simp only [step] at h
  split at h
  · next hi =>
    split_ifs at h
    exact ⟨hi, (Option.some.inj h).symm⟩
  · cases h

theorem step_retest (h : ring.step program s .retest = some t) :
    s.consumer = .woken ∧
      t = { s with consumer := if wasEmpty s.head s.tail then .idle else .popping } := by
  simp only [step] at h
  split at h
  · next hi => exact ⟨hi, (Option.some.inj h).symm⟩
  · cases h

theorem step_takeTail (h : ring.step program s .takeTail = some t) :
    s.consumer = .popping ∧ t = { s with tail := s.tail + 1, consumer := .waiting s.tail } := by
  simp only [step] at h
  split at h
  · next hi => exact ⟨hi, (Option.some.inj h).symm⟩
  · cases h

theorem step_startLoading (h : ring.step program s .startLoading = some t) :
    ∃ x ticket, s.consumer = .waiting ticket ∧ s.slots (ring.index ticket) = .stored x ∧
      t = { s with
        slots := Function.update s.slots (ring.index ticket) (.loading x)
        consumer := .loading x ticket } := by
  simp only [step] at h
  split at h
  · next ticket hi =>
    split at h
    · next x hslot => exact ⟨x, ticket, hi, hslot, (Option.some.inj h).symm⟩
    · cases h
  · cases h

theorem step_finishLoading (h : ring.step program s .finishLoading = some t) :
    ∃ x ticket, s.consumer = .loading x ticket ∧ t = { s with
      slots := Function.update s.slots (ring.index ticket) .empty
      consumer := .idle
      returned := s.returned ++ [x] } := by
  simp only [step] at h
  split at h
  · next x ticket hi => exact ⟨x, ticket, hi, (Option.some.inj h).symm⟩
  · cases h

end Cases

/-! ### The order of the turns -/

theorem exists_turn (ring : Ring) (start ticket : ℕ) :
    ∃ turn, start ≤ turn ∧ turn < start + ring.capacity ∧ ring.index turn = ring.index ticket := by
  have hpos := ring.capacity_pos
  refine ⟨start + (ticket + ring.capacity * start - start) % ring.capacity, by omega, ?_, ?_⟩
  · have hlt := Nat.mod_lt (ticket + ring.capacity * start - start) hpos
    omega
  · have hle : start ≤ ring.capacity * start := Nat.le_mul_of_pos_left start hpos
    rw [ring.index_eq_iff, Nat.add_mod_mod, ← Nat.add_sub_assoc (by omega), Nat.add_sub_cancel_left,
      Nat.add_mul_mod_self_left]

theorem turn_unique {ring : Ring} (start : ℕ) {turn turn' : ℕ} (hturn : start ≤ turn)
    (hlt : turn < start + ring.capacity) (hturn' : start ≤ turn')
    (hlt' : turn' < start + ring.capacity) (h : ring.index turn = ring.index turn') :
    turn = turn' := by
  have hmod := (ring.index_eq_iff turn turn').mp h
  rcases le_total turn turn' with hle | hle
  · have hzero := Nat.sub_mod_eq_zero_of_mod_eq hmod.symm
    rw [Nat.mod_eq_of_lt (by omega)] at hzero
    omega
  · have hzero := Nat.sub_mod_eq_zero_of_mod_eq hmod
    rw [Nat.mod_eq_of_lt (by omega)] at hzero
    omega

/-! ### Calls without interference -/

/-- The steps of one call of `push` that finds its slot empty. -/
def pushCall (i : ι) : List (Act ι) := [.takeHead i, .startStoring i, .finishStoring i]

/-- The steps of one `poll` that finds an element. -/
def pollCall : List (Act ι) := [.wake, .retest, .takeTail, .startLoading, .finishLoading]

section Calls

variable [DecidableEq ι] {ring : Ring} {program : ι → ℕ → T} {s : State ι T} {i : ι}

/-- A call of `push` that finds its slot empty puts the element there. -/
theorem run_pushCall (hi : s.producers i = .idle) (hslot : s.slots (ring.index s.head) = .empty) :
    Transition.run (ring.step program) s (pushCall i) = some { s with
      head := s.head + 1
      slots := Function.update s.slots (ring.index s.head) (.stored (element program i (s.begun i)))
      producers := Function.update s.producers i .idle
      begun := Function.update s.begun i (s.begun i + 1) } := by
  simp [pushCall, Transition.run, step, hi, hslot]

/-- A call of `push` that finds its slot taken does not come to an end by itself. -/
theorem run_pushCall_eq_none (program : ι → ℕ → T) (hi : s.producers i = .idle)
    (hslot : s.slots (ring.index s.head) ≠ .empty) :
    Transition.run (ring.step program) s (pushCall i) = none := by
  simp only [pushCall, Transition.run, step, hi, Option.bind_some, Function.update_self]
  cases h : s.slots (ring.index s.head) with
  | empty => exact absurd h hslot
  | storing x => rfl
  | stored x => rfl
  | loading x => rfl

/-- A `poll` returns the element that is stored in the slot of the next turn. -/
theorem run_pollCall (program : ι → ℕ → T) {x : Element ι T} (hc : s.consumer = .idle)
    (hempty : wasEmpty s.head s.tail = false) (hslot : s.slots (ring.index s.tail) = .stored x) :
    Transition.run (ring.step program) s pollCall = some { s with
      tail := s.tail + 1
      slots := Function.update s.slots (ring.index s.tail) .empty
      consumer := .idle
      returned := s.returned ++ [x] } := by
  simp [pollCall, Transition.run, step, hc, hempty, hslot]

/-- Several calls of `push` by one producer, with nothing else going on, as far as the slots are
empty. -/
theorem exists_run_pushCalls (ring : Ring) (program : ι → ℕ → T) (s : State ι T) (i : ι) {count : ℕ}
    (hcount : count ≤ ring.capacity) (hi : s.producers i = .idle)
    (hslots : ∀ k < count, s.slots (ring.index (s.head + k)) = .empty) :
    ∃ t, Transition.run (ring.step program) s (List.replicate count (pushCall i)).flatten = some t ∧
      t.head = s.head + count ∧ t.tail = s.tail ∧ t.consumer = s.consumer ∧
      t.returned = s.returned ∧ t.producers i = .idle ∧ t.begun i = s.begun i + count ∧
      (∀ k < count, t.slots (ring.index (s.head + k)) =
        .stored (element program i (s.begun i + k))) ∧
      ∀ slot, (∀ k < count, ring.index (s.head + k) ≠ slot) → t.slots slot = s.slots slot := by
  induction count with
  | zero =>
    exact ⟨s, rfl, rfl, rfl, rfl, rfl, hi, rfl, fun k hk => absurd hk (Nat.not_lt_zero k),
      fun _ _ => rfl⟩
  | succ count ih =>
    obtain ⟨t, hrun, hhead, htail, hc, hreturned, hti, hbegun, hstored, hframe⟩ :=
      ih (by omega) fun k hk => hslots k (by omega)
    have hother : ∀ k < count, ring.index (s.head + k) ≠ ring.index (s.head + count) := by
      intro k hk heq
      have := turn_unique s.head (by omega) (by omega) (by omega) (by omega) heq
      omega
    have hempty : t.slots (ring.index t.head) = .empty := by
      rw [hhead, hframe _ hother, hslots count (by omega)]
    have hcall := Transition.run_append_eq_some_iff.mpr ⟨t, hrun, run_pushCall hti hempty⟩
    rw [← List.flatten_concat, ← List.replicate_succ'] at hcall
    refine ⟨_, hcall, congrArg (· + 1) hhead, htail, hc, hreturned, Function.update_self .., ?_, ?_,
      ?_⟩
    · simp only [Function.update_self, hbegun, Nat.add_assoc]
    · intro k hk
      rcases Nat.lt_succ_iff_lt_or_eq.mp hk with hlt | rfl
      · simp only [hhead, Function.update_of_ne (hother k hlt), hstored k hlt]
      · simp only [hhead, hbegun, Function.update_self]
    · intro slot hslot
      have hlast : slot ≠ ring.index (s.head + count) := (hslot count (by omega)).symm
      simp only [hhead, Function.update_of_ne hlast]
      exact hframe slot fun k hk => hslot k (by omega)

end Calls

end Ring

end Queue

end AnanicyCpp
