import AnanicyCpp.Queue.Agreement
import Mathlib.Algebra.BigOperators.Group.Finset.Basic
import Mathlib.Algebra.Order.BigOperators.Group.Finset
import Mathlib.Data.Fintype.Card
import Mathlib.Data.Nat.Count

/-!
# The progress of the ring

A producer of the ring may wait for a slot that others take in front of it, and the consumer waits
for the one slot of its turn. Out of turn the ring returns the elements of a producer in another
order, but it neither loses nor repeats one (`Queue.Ring.Kept.step`), and it never gets stuck: for
each slot, the tickets that were taken for it are the turns that it has had, the element in it, and
the producers that wait for it (`Queue.Ring.Flow.step`), so the slot that the consumer waits for is
filled, is being filled or can be filled (`Queue.Ring.Stuck.not_waiting`). When no new call of
`push` begins, every run comes to an end, with all threads outside and every element returned
(`Queue.Ring.drained_of_run`).

The size of the queue is computed from 32-bit counters, so there must be fewer than `2 ^ 31` slots
and producers together.

## Main definitions

* `Queue.Ring.Kept` : every element is returned, in the ring, or about to be put there.
* `Queue.Ring.Flow` : the balance of the tickets.
* `Queue.Ring.remaining` : how many steps are left when no new call of `push` begins.
* `Queue.Ring.Stuck`, `Queue.Ring.Drained` : nothing can be done but a new call, and nothing is left
  to be done.

## Main results

* `Queue.Ring.Kept.step`, `Queue.Ring.Flow.step` : the invariants.
* `Queue.Ring.drained_of_run` : the ring drains.
-/

namespace AnanicyCpp

namespace Queue

variable {ι T : Type*}

/-- The steps that are left of a call of `push`. -/
def Producer.remaining : Producer ι T → ℕ
  | .idle => 0
  | .waiting _ _ => 2
  | .storing _ _ => 1

@[simp]
theorem Producer.remaining_idle : (.idle : Producer ι T).remaining = 0 := rfl

@[simp]
theorem Producer.remaining_waiting (x : Element ι T) (ticket : ℕ) :
    (Producer.waiting x ticket).remaining = 2 := rfl

@[simp]
theorem Producer.remaining_storing (x : Element ι T) (ticket : ℕ) :
    (Producer.storing x ticket).remaining = 1 := rfl

/-- The steps that are done of a `poll`. -/
def Consumer.done : Consumer ι T → ℕ
  | .idle => 0
  | .woken => 1
  | .popping => 2
  | .waiting _ => 3
  | .loading _ _ => 4

namespace Ring

/-! ### The owner of a slot -/

/-- A slot that is being written or read belongs to a thread that is at it. -/
def SlotInv (ring : Ring) (s : State ι T) (k : ℕ) : Slot ι T → Prop
  | .storing x => ∃ ticket, s.producers x.producer = .storing x ticket ∧ ring.index ticket = k
  | .loading x => ∃ ticket, s.consumer = .loading x ticket ∧ ring.index ticket = k
  | _ => True

/-- Every slot has its owner. -/
def Owned (ring : Ring) (s : State ι T) : Prop := ∀ k, SlotInv ring s k (s.slots k)

theorem owned_init (ring : Ring) : Owned ring (init : State ι T) := fun _ => trivial

section Owners

variable {ring : Ring} {program : ι → ℕ → T} {s t : State ι T} {i : ι}

/-- A slot keeps its owner when the consumer is at no slot. -/
theorem SlotInv.of_consumer {k : ℕ} {slot : Slot ι T} (h : SlotInv ring s k slot)
    (hproducers : t.producers = s.producers)
    (hc : ∀ x ticket, s.consumer = .loading x ticket → ring.index ticket ≠ k) :
    SlotInv ring t k slot := by
  cases slot with
  | storing x =>
    obtain ⟨ticket, hx, hk⟩ := h
    exact ⟨ticket, hproducers ▸ hx, hk⟩
  | loading x =>
    obtain ⟨ticket, hx, hk⟩ := h
    exact absurd hk (hc x ticket hx)
  | _ => trivial

variable [DecidableEq ι]

/-- A slot keeps its owner when a producer changes that is not at the slot. -/
theorem SlotInv.of_producer {k : ℕ} {slot : Slot ι T} {producer : Producer ι T}
    (h : SlotInv ring s k slot)
    (hproducers : t.producers = Function.update s.producers i producer)
    (hconsumer : t.consumer = s.consumer)
    (hi : ∀ x ticket, s.producers i = .storing x ticket → ring.index ticket ≠ k) :
    SlotInv ring t k slot := by
  cases slot with
  | storing x =>
    obtain ⟨ticket, hx, hk⟩ := h
    have hne : x.producer ≠ i := fun heq => hi x ticket (heq ▸ hx) hk
    exact ⟨ticket, by rwa [hproducers, Function.update_of_ne hne], hk⟩
  | loading x =>
    obtain ⟨ticket, hx, hk⟩ := h
    exact ⟨ticket, hconsumer.trans hx, hk⟩
  | _ => trivial

omit [DecidableEq ι] in
theorem owned_update {k : ℕ} {slot : Slot ι T}
    (hslots : t.slots = Function.update s.slots k slot) (hk : SlotInv ring t k slot)
    (hother : ∀ k', k' ≠ k → SlotInv ring t k' (s.slots k')) : Owned ring t := by
  intro k'
  rw [hslots]
  exact (Function.forall_update_iff s.slots (p := SlotInv ring t)).mpr ⟨hk, hother⟩ k'

theorem Owned.startStoring (hs : Owned ring s) (hthreads : Threads ring s)
    (h : ring.step program s (.startStoring i) = some t) : Owned ring t := by
  obtain ⟨x, ticket, hi, hslot, rfl⟩ := step_startStoring h
  obtain rfl : x.producer = i := by simpa only [hi, ProducerInv] using hthreads.producers i
  refine owned_update rfl ⟨ticket, Function.update_self .., rfl⟩ fun k hk => ?_
  exact (hs k).of_producer rfl rfl fun y ticket' hy => absurd (hi.symm.trans hy) (by simp)

theorem Owned.finishStoring (hs : Owned ring s)
    (h : ring.step program s (.finishStoring i) = some t) : Owned ring t := by
  obtain ⟨x, ticket, hi, rfl⟩ := step_finishStoring h
  refine owned_update rfl trivial fun k hk => (hs k).of_producer rfl rfl fun y ticket' hy => ?_
  obtain ⟨-, rfl⟩ := Producer.storing.inj (hi.symm.trans hy)
  exact Ne.symm hk

theorem Owned.startLoading (hs : Owned ring s)
    (h : ring.step program s .startLoading = some t) : Owned ring t := by
  obtain ⟨x, ticket, hc, hslot, rfl⟩ := step_startLoading h
  refine owned_update rfl ⟨ticket, rfl, rfl⟩ fun k hk => (hs k).of_consumer rfl ?_
  exact fun y ticket' hy => absurd (hc.symm.trans hy) (by simp)

theorem Owned.finishLoading (hs : Owned ring s)
    (h : ring.step program s .finishLoading = some t) : Owned ring t := by
  obtain ⟨x, ticket, hc, rfl⟩ := Ring.step_finishLoading h
  refine owned_update rfl trivial fun k hk => (hs k).of_consumer rfl fun y ticket' hy => ?_
  obtain ⟨-, rfl⟩ := Consumer.loading.inj (hc.symm.trans hy)
  exact Ne.symm hk

/-- Every step leaves every slot with an owner. -/
theorem Owned.step {a : Act ι} (hs : Owned ring s) (hthreads : Threads ring s)
    (h : ring.step program s a = some t) : Owned ring t := by
  cases a with
  | takeHead i =>
    obtain ⟨hi, rfl⟩ := step_takeHead h
    exact fun k => (hs k).of_producer rfl rfl fun _ _ hy => absurd (hi.symm.trans hy) (by simp)
  | startStoring i => exact hs.startStoring hthreads h
  | finishStoring i => exact hs.finishStoring h
  | wake =>
    obtain ⟨hc, rfl⟩ := step_wake h
    exact fun k => (hs k).of_consumer rfl fun _ _ hy => absurd (hc.symm.trans hy) (by simp)
  | retest =>
    obtain ⟨hc, rfl⟩ := Ring.step_retest h
    exact fun k => (hs k).of_consumer rfl fun _ _ hy => absurd (hc.symm.trans hy) (by simp)
  | takeTail =>
    obtain ⟨hc, rfl⟩ := step_takeTail h
    exact fun k => (hs k).of_consumer rfl fun _ _ hy => absurd (hc.symm.trans hy) (by simp)
  | startLoading => exact hs.startLoading h
  | finishLoading => exact hs.finishLoading h

end Owners

/-! ### Every element -/

/-- What was returned, what is in the ring and what is still waiting for its slot are the calls of
each producer, in some order. -/
def Kept [DecidableEq ι] (ring : Ring) (program : ι → ℕ → T) (s : State ι T) : Prop :=
  ∀ i, List.Perm (ofProducer i (s.returned ++ ring.contents s) ++ (s.producers i).pending)
    (elements program i (s.begun i))

section Elements

variable [DecidableEq ι] {ring : Ring} {program : ι → ℕ → T} {s t : State ι T} {i : ι}

theorem kept_init : Kept ring program init := fun i => List.Perm.of_eq (inOrder_init i)

/-- A step that neither takes a ticket nor fills a slot. -/
theorem Kept.of_eq (hs : Kept ring program s) (hbegun : t.begun = s.begun)
    (hpending : ∀ j, (t.producers j).pending = (s.producers j).pending)
    (helements : t.returned ++ ring.contents t = s.returned ++ ring.contents s) :
    Kept ring program t := by
  intro j
  rw [hbegun, hpending, helements]
  exact hs j

theorem Kept.takeHead (hs : Kept ring program s)
    (h : ring.step program s (.takeHead i) = some t) : Kept ring program t := by
  obtain ⟨hi, rfl⟩ := step_takeHead h
  intro j
  have hj := hs j
  by_cases hji : j = i
  · subst hji
    simp only [hi, Producer.pending, List.append_nil] at hj
    simp only [Function.update_self, elements_succ]
    exact hj.append_right _
  · simp only [Function.update_of_ne hji]
    exact hj

theorem Kept.startStoring (hs : Kept ring program s) (hthreads : Threads ring s)
    (h : ring.step program s (.startStoring i) = some t) : Kept ring program t := by
  obtain ⟨x, ticket, hi, hslot, ht⟩ := step_startStoring h
  have hx : x.producer = i := by simpa only [hi, ProducerInv] using hthreads.producers i
  obtain ⟨turn, before, after, -, -, -, hold, hnew, -⟩ :=
    exists_contents_of_fill (t := t) hslot (by rw [ht]; rfl) (by rw [ht])
  have hperm : List.Perm (s.returned ++ (before ++ x :: after))
      (s.returned ++ (before ++ after) ++ [x]) := by
    rw [List.append_assoc]
    exact (List.perm_middle.trans (List.perm_append_singleton x _).symm).append_left _
  have hfilter (j : ι) : List.Perm (ofProducer j (s.returned ++ (before ++ x :: after)))
      (ofProducer j (s.returned ++ (before ++ after)) ++ ofProducer j [x]) := by
    rw [← ofProducer_append]
    exact hperm.filter _
  subst ht
  intro j
  have hj := hs j
  rw [hold] at hj
  rw [hnew]
  by_cases hji : j = i
  · subst hji
    rw [hi, Producer.pending] at hj
    simp only [Function.update_self, Producer.pending, List.append_nil]
    refine (hfilter j).trans ?_
    rw [ofProducer_singleton, if_pos hx]
    exact hj
  · simp only [Function.update_of_ne hji]
    refine ((hfilter j).append_right _).trans ?_
    rw [ofProducer_singleton, if_neg (hx ▸ Ne.symm hji), List.append_nil]
    exact hj

theorem Kept.finishStoring (hs : Kept ring program s) (hthreads : Threads ring s)
    (h : ring.step program s (.finishStoring i) = some t) : Kept ring program t := by
  obtain ⟨x, ticket, hi, ht⟩ := step_finishStoring h
  obtain ⟨-, hslot⟩ : x.producer = i ∧ s.slots (ring.index ticket) = .storing x := by
    simpa only [hi, ProducerInv] using hthreads.producers i
  have hcontents : ring.contents t = ring.contents s :=
    contents_congr (by rw [ht]) (by rw [ht]; rfl) (by rw [hslot]; rfl)
  subst ht
  refine hs.of_eq rfl (fun j => ?_) (by rw [hcontents])
  by_cases hji : j = i
  · subst hji
    simp only [Function.update_self, hi, Producer.pending]
  · simp only [Function.update_of_ne hji]

theorem Kept.startLoading (hs : Kept ring program s)
    (h : ring.step program s .startLoading = some t) : Kept ring program t := by
  obtain ⟨x, ticket, -, hslot, ht⟩ := step_startLoading h
  have hcontents : ring.contents t = ring.contents s :=
    contents_congr (by rw [ht]) (by rw [ht]; rfl) (by rw [hslot]; rfl)
  subst ht
  exact hs.of_eq rfl (fun _ => rfl) (by rw [hcontents])

theorem Kept.finishLoading (hs : Kept ring program s) (hthreads : Threads ring s)
    (h : ring.step program s .finishLoading = some t) : Kept ring program t := by
  obtain ⟨x, -, hslot, ht⟩ := hthreads.step_finishLoading h
  have hturn : t.turn = s.turn + 1 := by rw [ht, State.turn, List.length_append]; rfl
  have hcontents : ring.contents s = x :: ring.contents t :=
    contents_of_empty (by rw [hslot]; rfl) hturn (by rw [ht])
  subst ht
  exact hs.of_eq rfl (fun _ => rfl) (by rw [hcontents]; exact List.append_assoc s.returned [x] _)

/-- **No element is lost.** Every step keeps every element, whatever the order of the turns. -/
theorem Kept.step {a : Act ι} (hs : Kept ring program s) (hthreads : Threads ring s)
    (h : ring.step program s a = some t) : Kept ring program t := by
  cases a with
  | takeHead i => exact hs.takeHead h
  | startStoring i => exact hs.startStoring hthreads h
  | finishStoring i => exact hs.finishStoring hthreads h
  | wake =>
    obtain ⟨-, rfl⟩ := step_wake h
    exact hs
  | retest =>
    obtain ⟨-, rfl⟩ := Ring.step_retest h
    exact hs
  | takeTail =>
    obtain ⟨-, rfl⟩ := step_takeTail h
    exact hs
  | startLoading => exact hs.startLoading h
  | finishLoading => exact hs.finishLoading hthreads h

end Elements

/-! ### The tickets of a slot -/

/-- Whether the producer waits for the slot, as a number. -/
def waitsFor (ring : Ring) (slot : ℕ) : Producer ι T → ℕ
  | .waiting _ ticket => if ring.index ticket = slot then 1 else 0
  | _ => 0

/-- Whether the producer waits, as a number. -/
def waits : Producer ι T → ℕ
  | .waiting _ _ => 1
  | _ => 0

@[simp]
theorem waits_idle : waits (.idle : Producer ι T) = 0 := rfl

@[simp]
theorem waits_waiting (x : Element ι T) (ticket : ℕ) : waits (.waiting x ticket) = 1 := rfl

@[simp]
theorem waits_storing (x : Element ι T) (ticket : ℕ) : waits (.storing x ticket) = 0 := rfl

@[simp]
theorem waitsFor_idle (ring : Ring) (slot : ℕ) :
    waitsFor ring slot (.idle : Producer ι T) = 0 := rfl

@[simp]
theorem waitsFor_waiting (ring : Ring) (slot : ℕ) (x : Element ι T) (ticket : ℕ) :
    waitsFor ring slot (.waiting x ticket) = if ring.index ticket = slot then 1 else 0 := rfl

@[simp]
theorem waitsFor_storing (ring : Ring) (slot : ℕ) (x : Element ι T) (ticket : ℕ) :
    waitsFor ring slot (.storing x ticket) = 0 := rfl

/-- Whether there is an element in the slot, as a number. -/
def occupied : Slot ι T → ℕ
  | .empty => 0
  | _ => 1

/-- A slot that goes on with its element. -/
theorem occupied_update {slots : ℕ → Slot ι T} {k : ℕ} {slot : Slot ι T}
    (h : occupied slot = occupied (slots k)) (k' : ℕ) :
    occupied (Function.update slots k slot k') = occupied (slots k') := by
  by_cases hk : k' = k
  · rw [hk, Function.update_self, h]
  · rw [Function.update_of_ne hk]

/-- How many of the first tickets belong to a slot. -/
def ticketsOf (ring : Ring) (slot count : ℕ) : ℕ :=
  Nat.count (fun ticket => ring.index ticket = slot) count

theorem ticketsOf_succ (ring : Ring) (slot count : ℕ) : ticketsOf ring slot (count + 1) =
    ticketsOf ring slot count + if ring.index count = slot then 1 else 0 :=
  Nat.count_succ ..

/-- An unused ticket is one more for its slot. -/
theorem ticketsOf_lt {ring : Ring} {turn head : ℕ} (h : turn < head) :
    ticketsOf ring (ring.index turn) turn < ticketsOf ring (ring.index turn) head := by
  have hsucc := ticketsOf_succ ring (ring.index turn) turn
  rw [if_pos rfl] at hsucc
  have hmono :
      ticketsOf ring (ring.index turn) (turn + 1) ≤ ticketsOf ring (ring.index turn) head :=
    Nat.count_monotone _ h
  omega

/-- The consumer is busy only when there is something to come. -/
def Ahead (head turn : ℕ) : Consumer ι T → Prop
  | .idle => True
  | _ => turn < head

/-- When one summand changes. -/
theorem sum_update [Fintype ι] [DecidableEq ι] {β : Type*} (f : β → ℕ) (g : ι → β) (i : ι) (b : β) :
    ∑ j, f (Function.update g i b j) + f (g i) = ∑ j, f (g j) + f b := by
  have hsum (h : ι → β) (hh : ∀ j, j ≠ i → h j = g j) :
      ∑ j, f (h j) = f (h i) + ∑ j ∈ Finset.univ.erase i, f (g j) := by
    rw [← Finset.add_sum_erase _ _ (Finset.mem_univ i)]
    congr 1
    exact Finset.sum_congr rfl fun j hj => congrArg f (hh j (Finset.ne_of_mem_erase hj))
  rw [hsum (Function.update g i b) fun j hj => Function.update_of_ne hj .., hsum g fun _ _ => rfl,
    Function.update_self]
  omega

variable [Fintype ι]

/-- For each slot, the tickets that producers have taken are the turns it has had, the element in
it, and the producers that wait for it. -/
structure Flow (ring : Ring) (s : State ι T) : Prop where
  threads : Threads ring s
  tickets : ∀ slot, ticketsOf ring slot s.head =
    ticketsOf ring slot s.turn + occupied (s.slots slot) + ∑ i, waitsFor ring slot (s.producers i)
  total : s.head = s.turn + (ring.contents s).length + ∑ i, waits (s.producers i)
  ahead : Ahead s.head s.turn s.consumer

theorem flow_init (ring : Ring) : Flow ring (init : State ι T) where
  threads := threads_init ring
  tickets slot := by simp [init, State.turn, occupied]
  total := by simp [init, State.turn, contents, Slot.element?]
  ahead := trivial

omit [Fintype ι] in
theorem Ahead.of_le {head head' turn : ℕ} {consumer : Consumer ι T} (h : Ahead head turn consumer)
    (hle : head ≤ head') : Ahead head' turn consumer := by
  cases consumer with
  | idle => trivial
  | _ => exact Nat.lt_of_lt_of_le h hle

section Preservation

variable [DecidableEq ι] {ring : Ring} {program : ι → ℕ → T} {s t : State ι T} {i : ι}

theorem Flow.takeHead (hs : Flow ring s) (h : ring.step program s (.takeHead i) = some t) :
    Flow ring t := by
  have hthreads := hs.threads.step h
  obtain ⟨hi, rfl⟩ := step_takeHead h
  refine ⟨hthreads, fun slot => ?_, ?_, hs.ahead.of_le (Nat.le_succ _)⟩
  · have hsum := sum_update (waitsFor ring slot) s.producers i
      (.waiting (element program i (s.begun i)) s.head)
    have htickets := hs.tickets slot
    have hsucc := ticketsOf_succ ring slot s.head
    simp only [hi, waitsFor_idle, waitsFor_waiting] at hsum
    simp only [State.turn] at htickets ⊢
    omega
  · have hsum := sum_update waits s.producers i (.waiting (element program i (s.begun i)) s.head)
    have htotal := hs.total
    have hcontents : ring.contents { s with
        head := s.head + 1
        begun := Function.update s.begun i (s.begun i + 1)
        producers := Function.update s.producers i
          (.waiting (element program i (s.begun i)) s.head) } = ring.contents s := rfl
    simp only [hi, waits_idle, waits_waiting] at hsum
    simp only [hcontents, State.turn] at htotal ⊢
    omega

theorem Flow.startStoring (hs : Flow ring s)
    (h : ring.step program s (.startStoring i) = some t) : Flow ring t := by
  have hthreads := hs.threads.step h
  obtain ⟨x, ticket, hi, hslot, rfl⟩ := step_startStoring h
  refine ⟨hthreads, fun slot => ?_, ?_, hs.ahead⟩
  · have hsum := sum_update (waitsFor ring slot) s.producers i (.storing x ticket)
    have htickets := hs.tickets slot
    simp only [hi, waitsFor_storing, waitsFor_waiting] at hsum
    simp only [State.turn] at htickets ⊢
    by_cases hsame : ring.index ticket = slot
    · subst hsame
      rw [Function.update_self]
      simp only [hslot, occupied, if_pos] at hsum htickets ⊢
      omega
    · rw [Function.update_of_ne (Ne.symm hsame)]
      rw [if_neg hsame] at hsum
      omega
  · have hsum := sum_update waits s.producers i (.storing x ticket)
    have htotal := hs.total
    obtain ⟨turn, before, after, -, -, -, hold, hnew, -⟩ :=
      exists_contents_of_fill (t := { s with
        slots := Function.update s.slots (ring.index ticket) (.storing x)
        producers := Function.update s.producers i (.storing x ticket) }) hslot rfl rfl
    rw [hold, List.length_append] at htotal
    rw [hnew, List.length_append, List.length_cons]
    simp only [hi, waits_waiting, waits_storing] at hsum
    simp only [State.turn] at htotal ⊢
    omega

theorem Flow.finishStoring (hs : Flow ring s)
    (h : ring.step program s (.finishStoring i) = some t) : Flow ring t := by
  have hthreads := hs.threads.step h
  obtain ⟨x, ticket, hi, rfl⟩ := step_finishStoring h
  obtain ⟨-, hslot⟩ : x.producer = i ∧ s.slots (ring.index ticket) = .storing x := by
    simpa only [hi, ProducerInv] using hs.threads.producers i
  refine ⟨hthreads, fun slot => ?_, ?_, hs.ahead⟩
  · have hsum := sum_update (waitsFor ring slot) s.producers i .idle
    have htickets := hs.tickets slot
    have hoccupied : occupied (Function.update s.slots (ring.index ticket) (.stored x) slot) =
        occupied (s.slots slot) := occupied_update (by rw [hslot]; rfl) slot
    simp only [hi, waitsFor_storing, waitsFor_idle] at hsum
    simp only [State.turn] at htickets ⊢
    omega
  · have hsum := sum_update waits s.producers i .idle
    have htotal := hs.total
    have hcontents : ring.contents { s with
        slots := Function.update s.slots (ring.index ticket) (.stored x)
        producers := Function.update s.producers i .idle } = ring.contents s :=
      contents_congr rfl rfl (by rw [hslot]; rfl)
    simp only [hi, waits_storing, waits_idle] at hsum
    simp only [hcontents, State.turn] at htotal ⊢
    omega

theorem Flow.startLoading (hs : Flow ring s)
    (h : ring.step program s .startLoading = some t) : Flow ring t := by
  have hthreads := hs.threads.step h
  obtain ⟨x, ticket, hc, hslot, rfl⟩ := step_startLoading h
  have hahead : s.turn < s.head := by simpa only [hc, Ahead] using hs.ahead
  refine ⟨hthreads, fun slot => ?_, ?_, hahead⟩
  · have hoccupied : occupied (Function.update s.slots (ring.index ticket) (.loading x) slot) =
        occupied (s.slots slot) := occupied_update (by rw [hslot]; rfl) slot
    simp only [hoccupied]
    exact hs.tickets slot
  · have hcontents : ring.contents { s with
        slots := Function.update s.slots (ring.index ticket) (.loading x)
        consumer := .loading x ticket } = ring.contents s :=
      contents_congr rfl rfl (by rw [hslot]; rfl)
    rw [hcontents]
    exact hs.total

theorem Flow.finishLoading (hs : Flow ring s)
    (h : ring.step program s .finishLoading = some t) : Flow ring t := by
  have hthreads := hs.threads.step h
  obtain ⟨x, -, hslot, rfl⟩ := hs.threads.step_finishLoading h
  have hturn : State.turn { s with
      slots := Function.update s.slots (ring.index s.turn) .empty
      consumer := .idle
      returned := s.returned ++ [x] } = s.turn + 1 := List.length_append
  refine ⟨hthreads, fun slot => ?_, ?_, trivial⟩
  · have htickets := hs.tickets slot
    have hsucc := ticketsOf_succ ring slot s.turn
    simp only [hturn]
    by_cases hsame : ring.index s.turn = slot
    · subst hsame
      rw [Function.update_self]
      simp only [hslot, occupied, if_pos] at htickets hsucc ⊢
      omega
    · rw [Function.update_of_ne (Ne.symm hsame)]
      rw [if_neg hsame] at hsucc
      omega
  · have htotal := hs.total
    have hcontents := contents_of_empty (t := { s with
      slots := Function.update s.slots (ring.index s.turn) .empty
      consumer := .idle
      returned := s.returned ++ [x] }) (x := x) (by rw [hslot]; rfl) hturn rfl
    rw [hcontents, List.length_cons] at htotal
    rw [hturn]
    simp only at htotal ⊢
    omega

/-! ### The size of the queue -/

omit [Fintype ι] [DecidableEq ι] in
/-- As long as the counters are not too far apart, their difference is the size. -/
theorem wasEmpty_eq_false_iff {head tail : ℕ} (hle : tail ≤ head) (hlt : head < tail + 2 ^ 31) :
    wasEmpty head tail = false ↔ tail < head := by
  obtain ⟨size, rfl⟩ := Nat.exists_eq_add_of_le hle
  have hsize : wasSize (tail + size) tail = size := by
    rw [wasSize, BitVec.ofNat_add, BitVec.add_comm, BitVec.add_sub_cancel,
      BitVec.toInt_eq_toNat_bmod, BitVec.toNat_ofNat, Nat.mod_eq_of_lt (by omega),
      Int.bmod_eq_of_le (by omega) (by omega), Int.toNat_natCast]
  rw [wasEmpty, hsize, beq_eq_false_iff_ne]
  omega

omit [DecidableEq ι] in
/-- No more tickets are out than there are slots and producers. -/
theorem Flow.head_le (hs : Flow ring s) : s.head ≤ s.turn + (ring.capacity + Fintype.card ι) := by
  have htotal := hs.total
  have hcontents : (ring.contents s).length ≤ ring.capacity := by
    have hle := List.length_filterMap_le (fun turn => (s.slots (ring.index turn)).element?)
      (List.range' s.turn ring.capacity)
    rwa [List.length_range'] at hle
  have hwaits : ∑ i, waits (s.producers i) ≤ Fintype.card ι * 1 :=
    Finset.sum_le_card_nsmul _ _ 1 fun i _ => by
      cases s.producers i <;> simp
  omega

omit [DecidableEq ι] in
theorem Flow.turn_le (hs : Flow ring s) : s.turn ≤ s.head := by
  have htotal := hs.total
  omega

omit [DecidableEq ι] in
/-- The consumer has the size of the queue right. -/
theorem Flow.wasEmpty_eq_false_iff (hs : Flow ring s)
    (hsmall : ring.capacity + Fintype.card ι < 2 ^ 31) (htail : s.tail = s.turn) :
    wasEmpty s.head s.tail = false ↔ s.turn < s.head := by
  have hhead := hs.head_le
  rw [htail]
  exact Ring.wasEmpty_eq_false_iff hs.turn_le (by omega)

theorem Flow.wake (hs : Flow ring s) (hsmall : ring.capacity + Fintype.card ι < 2 ^ 31)
    (h : ring.step program s .wake = some t) : Flow ring t := by
  have hthreads := hs.threads.step h
  have hempty : wasEmpty s.head s.tail = false := by
    by_contra hne
    obtain ⟨hc, -⟩ := step_wake h
    simp [step, hc, hne] at h
  obtain ⟨hc, rfl⟩ := step_wake h
  have htail : s.tail = s.turn := by simpa only [hc, ConsumerInv] using hs.threads.consumer
  exact ⟨hthreads, hs.tickets, hs.total, (hs.wasEmpty_eq_false_iff hsmall htail).mp hempty⟩

/-- What the consumer has seen to be there is still there at the second test. -/
theorem Flow.step_retest (hs : Flow ring s) (hsmall : ring.capacity + Fintype.card ι < 2 ^ 31)
    (h : ring.step program s .retest = some t) :
    s.consumer = .woken ∧ t = { s with consumer := .popping } := by
  obtain ⟨hc, rfl⟩ := Ring.step_retest h
  have htail : s.tail = s.turn := by simpa only [hc, ConsumerInv] using hs.threads.consumer
  have hahead : s.turn < s.head := by simpa only [hc, Ahead] using hs.ahead
  rw [(hs.wasEmpty_eq_false_iff hsmall htail).mpr hahead]
  exact ⟨hc, rfl⟩

theorem Flow.retest (hs : Flow ring s) (hsmall : ring.capacity + Fintype.card ι < 2 ^ 31)
    (h : ring.step program s .retest = some t) : Flow ring t := by
  have hthreads := hs.threads.step h
  obtain ⟨hc, rfl⟩ := hs.step_retest hsmall h
  have hahead : s.turn < s.head := by simpa only [hc, Ahead] using hs.ahead
  exact ⟨hthreads, hs.tickets, hs.total, hahead⟩

theorem Flow.takeTail (hs : Flow ring s) (h : ring.step program s .takeTail = some t) :
    Flow ring t := by
  have hthreads := hs.threads.step h
  obtain ⟨hc, rfl⟩ := step_takeTail h
  have hahead : s.turn < s.head := by simpa only [hc, Ahead] using hs.ahead
  exact ⟨hthreads, hs.tickets, hs.total, hahead⟩

/-- **The flow.** Every step keeps the balance of the tickets. -/
theorem Flow.step {a : Act ι} (hs : Flow ring s)
    (hsmall : ring.capacity + Fintype.card ι < 2 ^ 31)
    (h : ring.step program s a = some t) : Flow ring t := by
  cases a with
  | takeHead i => exact hs.takeHead h
  | startStoring i => exact hs.startStoring h
  | finishStoring i => exact hs.finishStoring h
  | wake => exact hs.wake hsmall h
  | retest => exact hs.retest hsmall h
  | takeTail => exact hs.takeTail h
  | startLoading => exact hs.startLoading h
  | finishLoading => exact hs.finishLoading h

end Preservation

/-! ### Progress -/

/-- Nothing is under way: every thread is outside, the slots are empty, and of each producer every
element has been returned, once. -/
structure Drained [DecidableEq ι] (ring : Ring) (program : ι → ℕ → T) (s : State ι T) : Prop where
  producers : ∀ i, s.producers i = .idle
  consumer : s.consumer = .idle
  contents : ring.contents s = []
  returned : ∀ i, List.Perm (ofProducer i s.returned) (elements program i (s.begun i))

/-- The steps that are left when no new call of `push` begins: those of the calls that are under
way, and the five of a `poll` for each element. -/
def remaining (s : State ι T) : ℕ :=
  ∑ i, (s.producers i).remaining + (5 * (s.head - s.turn) - s.consumer.done)

/-- What is known of every reachable state. -/
structure Live [DecidableEq ι] (ring : Ring) (program : ι → ℕ → T) (s : State ι T) : Prop where
  flow : Flow ring s
  owned : Owned ring s
  kept : Kept ring program s

section Progress

variable [DecidableEq ι] {ring : Ring} {program : ι → ℕ → T} {s t : State ι T}

theorem live_init : Live ring program init := ⟨flow_init ring, owned_init ring, kept_init⟩

theorem Live.step {a : Act ι} (hs : Live ring program s)
    (hsmall : ring.capacity + Fintype.card ι < 2 ^ 31)
    (h : ring.step program s a = some t) : Live ring program t :=
  ⟨hs.flow.step hsmall h, hs.owned.step hs.flow.threads h, hs.kept.step hs.flow.threads h⟩

omit [DecidableEq ι] in
/-- A slot whose turn has come and that is empty has a producer that waits for it. -/
theorem Flow.exists_waiting (hs : Flow ring s) (hahead : s.turn < s.head)
    (hslot : s.slots (ring.index s.turn) = .empty) :
    ∃ i x ticket, s.producers i = .waiting x ticket ∧ ring.index ticket = ring.index s.turn := by
  have htickets := hs.tickets (ring.index s.turn)
  have hlt :
      ticketsOf ring (ring.index s.turn) s.turn < ticketsOf ring (ring.index s.turn) s.head :=
    ticketsOf_lt hahead
  rw [hslot] at htickets
  have hpos : ∑ i, waitsFor ring (ring.index s.turn) (s.producers i) ≠ 0 := by
    simp only [occupied] at htickets
    omega
  obtain ⟨i, -, hi⟩ := Finset.exists_ne_zero_of_sum_ne_zero hpos
  cases hproducer : s.producers i with
  | waiting x ticket =>
    refine ⟨i, x, ticket, hproducer, ?_⟩
    by_contra hne
    simp [hproducer, hne] at hi
  | _ => simp [hproducer] at hi

omit [DecidableEq ι] in
/-- What is done of a `poll` is less than the five steps of each element that is left. -/
theorem Flow.done_lt (hs : Flow ring s) {consumer : Consumer ι T} (hc : s.consumer = consumer)
    (hbusy : consumer ≠ .idle) : consumer.done < 5 * (s.head - s.returned.length) := by
  have hahead := hs.ahead
  subst hc
  cases hconsumer : s.consumer with
  | idle => exact absurd hconsumer hbusy
  | _ =>
    simp only [hconsumer, Ahead, State.turn, Consumer.done] at hahead ⊢
    omega

/-- Every step but the start of a call is one less. -/
theorem Flow.remaining_lt {a : Act ι} (hs : Flow ring s)
    (hsmall : ring.capacity + Fintype.card ι < 2 ^ 31) (ha : ∀ i, a ≠ .takeHead i)
    (h : ring.step program s a = some t) : remaining t < remaining s := by
  cases a with
  | takeHead i => exact absurd rfl (ha i)
  | startStoring i =>
    obtain ⟨x, ticket, hi, -, rfl⟩ := step_startStoring h
    have hsum := sum_update Producer.remaining s.producers i (.storing x ticket)
    simp only [hi, Producer.remaining_waiting, Producer.remaining_storing] at hsum
    simp only [remaining, State.turn]
    omega
  | finishStoring i =>
    obtain ⟨x, ticket, hi, rfl⟩ := step_finishStoring h
    have hsum := sum_update Producer.remaining s.producers i .idle
    simp only [hi, Producer.remaining_storing, Producer.remaining_idle] at hsum
    simp only [remaining, State.turn]
    omega
  | wake =>
    have hdone := (hs.wake hsmall h).done_lt rfl
    obtain ⟨hc, rfl⟩ := step_wake h
    have hlt := hdone (by simp)
    simp only [remaining, State.turn, hc, Consumer.done] at hlt ⊢
    omega
  | retest =>
    obtain ⟨hc, rfl⟩ := hs.step_retest hsmall h
    have hlt := hs.done_lt hc (by simp)
    simp only [remaining, State.turn, hc, Consumer.done] at hlt ⊢
    omega
  | takeTail =>
    obtain ⟨hc, rfl⟩ := step_takeTail h
    have hlt := hs.done_lt hc (by simp)
    simp only [remaining, State.turn, hc, Consumer.done] at hlt ⊢
    omega
  | startLoading =>
    obtain ⟨x, ticket, hc, -, rfl⟩ := step_startLoading h
    have hlt := hs.done_lt hc (by simp)
    simp only [remaining, State.turn, hc, Consumer.done] at hlt ⊢
    omega
  | finishLoading =>
    obtain ⟨x, ticket, hc, rfl⟩ := Ring.step_finishLoading h
    have hlt := hs.done_lt hc (by simp)
    simp only [remaining, State.turn, hc, Consumer.done, List.length_append,
      List.length_singleton] at hlt ⊢
    omega

/-- Only the start of a call is possible. -/
def Stuck (ring : Ring) (program : ι → ℕ → T) (s : State ι T) : Prop :=
  ∀ a t, ring.step program s a = some t → ∃ i, a = .takeHead i

omit [Fintype ι] in
theorem Stuck.step_eq_none {a : Act ι} (hs : Stuck ring program s) (ha : ∀ i, a ≠ .takeHead i) :
    ring.step program s a = none := by
  rw [Option.eq_none_iff_forall_ne_some]
  intro t h
  obtain ⟨i, rfl⟩ := hs a t h
  exact ha i rfl

omit [Fintype ι] in
/-- A producer that is storing finishes. -/
theorem Stuck.not_storing {i : ι} {x : Element ι T} {ticket : ℕ} (hs : Stuck ring program s) :
    s.producers i ≠ .storing x ticket := by
  intro hi
  have hnone := hs.step_eq_none (a := .finishStoring i) (by simp)
  simp [step, hi] at hnone

omit [Fintype ι] in
theorem Stuck.slots_ne_empty {i : ι} {x : Element ι T} {ticket : ℕ} (hs : Stuck ring program s)
    (hi : s.producers i = .waiting x ticket) : s.slots (ring.index ticket) ≠ .empty := by
  intro hslot
  have hnone := hs.step_eq_none (a := .startStoring i) (by simp)
  simp [step, hi, hslot] at hnone

/-- The consumer never waits in vain. -/
theorem Stuck.not_waiting {ticket : ℕ} (hs : Stuck ring program s) (hlive : Live ring program s) :
    s.consumer ≠ .waiting ticket := by
  intro hc
  have hahead : s.turn < s.head := by simpa only [hc, Ahead] using hlive.flow.ahead
  obtain ⟨-, rfl⟩ : s.tail = s.turn + 1 ∧ ticket = s.turn := by
    simpa only [hc, ConsumerInv] using hlive.flow.threads.consumer
  have hnone := hs.step_eq_none (a := .startLoading) (by simp)
  have howned := hlive.owned (ring.index s.turn)
  cases hslot : s.slots (ring.index s.turn) with
  | empty =>
    obtain ⟨i, x, ticket, hi, hindex⟩ := hlive.flow.exists_waiting hahead hslot
    exact hs.slots_ne_empty hi (hindex ▸ hslot)
  | storing x =>
    rw [hslot] at howned
    obtain ⟨ticket, hi, -⟩ := howned
    exact hs.not_storing hi
  | stored x => simp [step, hc, hslot] at hnone
  | loading x =>
    rw [hslot] at howned
    obtain ⟨ticket, hloading, -⟩ := howned
    exact absurd (hc.symm.trans hloading) (by simp)

theorem Stuck.consumer (hs : Stuck ring program s) (hlive : Live ring program s) :
    s.consumer = .idle := by
  cases hc : s.consumer with
  | idle => rfl
  | woken =>
    have hnone := hs.step_eq_none (a := .retest) (by simp)
    simp [step, hc] at hnone
  | popping =>
    have hnone := hs.step_eq_none (a := .takeTail) (by simp)
    simp [step, hc] at hnone
  | waiting ticket => exact absurd hc (hs.not_waiting hlive)
  | loading x ticket =>
    have hnone := hs.step_eq_none (a := .finishLoading) (by simp)
    simp [step, hc] at hnone

/-- A ring that can only take new calls is drained. -/
theorem Stuck.drained (hs : Stuck ring program s) (hlive : Live ring program s)
    (hsmall : ring.capacity + Fintype.card ι < 2 ^ 31) : Drained ring program s := by
  have hc := hs.consumer hlive
  have htotal := hlive.flow.total
  have hturn : s.turn = s.head := by
    by_contra hne
    have htail : s.tail = s.turn := by
      simpa only [hc, ConsumerInv] using hlive.flow.threads.consumer
    have hempty := (hlive.flow.wasEmpty_eq_false_iff hsmall htail).mpr
      (Nat.lt_of_le_of_ne hlive.flow.turn_le hne)
    have hnone := hs.step_eq_none (a := .wake) (by simp)
    simp [step, hc, hempty] at hnone
  have hcontents : ring.contents s = [] := List.length_eq_zero_iff.mp (by omega)
  have hproducers : ∀ i, s.producers i = .idle := fun i => by
    have hsum : ∑ j, waits (s.producers j) = 0 := by omega
    have hwaits : waits (s.producers i) = 0 := Finset.sum_eq_zero_iff.mp hsum i (Finset.mem_univ i)
    cases hi : s.producers i with
    | idle => rfl
    | waiting x ticket => simp [hi] at hwaits
    | storing x ticket => exact absurd hi hs.not_storing
  refine ⟨hproducers, hc, hcontents, fun i => ?_⟩
  have hkept := hlive.kept i
  simpa only [hproducers i, hcontents, Producer.pending, List.append_nil] using hkept

/-- Once the ring is drained, only a new call can begin. -/
theorem Drained.stuck (hs : Drained ring program s) (hlive : Live ring program s)
    (hsmall : ring.capacity + Fintype.card ι < 2 ^ 31) : Stuck ring program s := by
  intro a t h
  have htotal := hlive.flow.total
  have hturn : s.turn = s.head := by
    have hwaits : ∑ i, waits (s.producers i) = 0 :=
      Finset.sum_eq_zero fun i _ => by rw [hs.producers i, waits_idle]
    rw [hs.contents, List.length_nil] at htotal
    omega
  cases a with
  | takeHead i => exact ⟨i, rfl⟩
  | startStoring i =>
    obtain ⟨x, ticket, hi, -⟩ := step_startStoring h
    exact absurd ((hs.producers i).symm.trans hi) (by simp)
  | finishStoring i =>
    obtain ⟨x, ticket, hi, -⟩ := step_finishStoring h
    exact absurd ((hs.producers i).symm.trans hi) (by simp)
  | wake =>
    have hahead := (hlive.flow.wake hsmall h).ahead
    obtain ⟨-, rfl⟩ := step_wake h
    simp only [Ahead, State.turn] at hahead hturn
    omega
  | retest => exact absurd (hs.consumer.symm.trans (step_retest h).1) (by simp)
  | takeTail => exact absurd (hs.consumer.symm.trans (step_takeTail h).1) (by simp)
  | startLoading =>
    obtain ⟨x, ticket, hc, -⟩ := step_startLoading h
    exact absurd (hs.consumer.symm.trans hc) (by simp)
  | finishLoading =>
    obtain ⟨x, ticket, hc, -⟩ := step_finishLoading h
    exact absurd (hs.consumer.symm.trans hc) (by simp)

/-- **The ring drains.** From every reachable state, in or out of turn, a run in which no new call
of `push` begins comes to an end, and it can go on until every thread is outside and every element
has been returned once. -/
theorem drained_of_run {before after : List (Act ι)}
    (hsmall : ring.capacity + Fintype.card ι < 2 ^ 31)
    (hbefore : Transition.run (ring.step program) init before = some s)
    (hafter : Transition.run (ring.step program) s after = some t)
    (hcalls : ∀ i, .takeHead i ∉ after) :
    after.length + remaining t ≤ remaining s ∧
      (Stuck ring program t ↔ Drained ring program t) := by
  have hs : Live ring program s := Transition.run_invariant (Live ring program)
    (fun _ _ _ _ hs h => hs.step hsmall h) live_init hbefore
  have ht : Live ring program t := Transition.run_invariant (Live ring program)
    (fun _ _ _ _ hs h => hs.step hsmall h) hs hafter
  refine ⟨Transition.run_measure (Live ring program) remaining (fun s a ha t hs h => ?_) hs hafter,
    fun hstuck => hstuck.drained ht hsmall, fun hdrained => hdrained.stuck ht hsmall⟩
  exact ⟨hs.step hsmall h, hs.flow.remaining_lt hsmall (fun i heq => hcalls i (heq ▸ ha)) h⟩

/-- One of two producers has pushed an element. -/
def sampleStored : State (Fin 2) ℕ := { init with
  head := 1
  slots := Function.update (fun _ => .empty) (processQueueRing.index 0)
    (.stored (element (fun _ number => number) 0 0))
  producers := Function.update (fun _ => .idle) 0 .idle
  begun := Function.update (fun _ => 0) 0 1 }

/-- The consumer polls it. -/
theorem drained_of_run_sample : ∃ t : State (Fin 2) ℕ, remaining sampleStored = 5 ∧
    (pollCall : List (Act (Fin 2))).length + remaining t ≤ remaining sampleStored ∧
      (Stuck processQueueRing (fun _ number => number) t ↔
        Drained processQueueRing (fun _ number => number) t) := by
  have hs : Transition.run (processQueueRing.step fun _ number => number) init (pushCall 0) =
      some sampleStored := run_pushCall rfl rfl
  have hslot : sampleStored.slots (processQueueRing.index sampleStored.tail) =
      .stored (element (fun _ number => number) 0 0) := by
    simp [sampleStored, init]
  have ht : Transition.run (processQueueRing.step fun _ number => number) sampleStored pollCall =
      some _ := run_pollCall (fun _ number => number) rfl (by decide) hslot
  exact ⟨_, rfl, drained_of_run (by decide) hs ht (by decide)⟩

end Progress

end Ring

end Queue

end AnanicyCpp
