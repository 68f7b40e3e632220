import AnanicyCpp.Queue.Ring
import Mathlib.Data.List.Pairwise

/-!
# The agreement of the two builds

The consumer of the ring visits the slots in turn, so what is in them at any time has a turn at
which it will be returned, and the values of a producer are returned in order as long as each slot
that it fills has a later turn than those in which its values still lie
(`Queue.Ring.always_agrees`). A producer that waits while others go around the ring breaks this: a
slot that is due early is then filled last, and the builds disagree when the consumer has gone once
around the ring (`Queue.Ring.not_agrees_of_not_turnsInOrder`).

## Main definitions

* `Queue.Ring.contents` : what is in the ring, in the order of the turns.
* `Queue.Ring.TurnsInOrder` : a slot is filled only when its turn comes after the turns of what the
  producer has in the ring.
* `Queue.Ring.Agrees` : what was returned could have been returned by the plain build.
* `Queue.Ring.Threads`, `Queue.Ring.InOrder` : the invariants.

## Main results

* `Queue.Ring.Threads.step` : the threads that have a slot find it as they left it.
* `Queue.Ring.InOrder.step` : what was returned and what is in the ring, in the order of the turns,
  is what the producers pushed, in their order.
* `Queue.Ring.always_agrees` : the agreement of the two builds.
* `Queue.Ring.Due.step` : what is in a slot is returned at the turn of the slot.
* `Queue.Ring.not_agrees_of_not_turnsInOrder` : a slot that is filled out of turn leads to a
  disagreement.
-/

namespace AnanicyCpp

namespace Queue

namespace Ring

variable {ι T : Type*}

section Statements

variable [DecidableEq ι] (ring : Ring) (program : ι → ℕ → T)

/-- The turn that comes next: each turn returns one element. -/
def State.turn (s : State ι T) : ℕ := s.returned.length

/-- The elements in the ring in the order of the turns of their slots, from the next turn on. -/
def contents (s : State ι T) : List (Element ι T) :=
  (List.range' s.turn ring.capacity).filterMap fun turn => (s.slots (ring.index turn)).element?

/-- A producer fills a slot only when the next turn of the slot comes after the next turns of all
slots in which there are elements of the producer. -/
def TurnsInOrder (s : State ι T) : Act ι → Prop
  | .startStoring i =>
      ∀ x ticket, s.producers i = .waiting x ticket →
        ∀ turn turn', s.turn ≤ turn → turn < s.turn + ring.capacity →
          s.turn ≤ turn' → turn' < s.turn + ring.capacity →
          ring.index turn = ring.index ticket →
          ∀ y, (s.slots (ring.index turn')).element? = some y → y.producer = i → turn' < turn
  | _ => True

/-- What was returned, the plain build can return for the same producers: every element was pushed,
none comes twice, and those of a producer come in its order. -/
structure Agrees (s : State ι T) : Prop where
  canReturn : Fifo.CanReturn program s.returned
  pushed : ∀ x ∈ s.returned, ∃ number < s.begun x.producer, x = element program x.producer number
  nodup : s.returned.Nodup
  inOrder : s.returned.Pairwise fun x y => x.producer = y.producer → x.number < y.number

end Statements

/-! ### The contents of the ring -/

/-- Filling one place of a sequence puts its element between those of the earlier and those of the
later places. -/
theorem exists_filterMap_range' {β : Type*} {f g : ℕ → Option β} {start n k : ℕ} {x : β}
    (hk : start ≤ k) (hlt : k < start + n) (hf : f k = none) (hg : g k = some x)
    (hfg : ∀ k', start ≤ k' → k' < start + n → k' ≠ k → g k' = f k') :
    ∃ before after, (List.range' start n).filterMap f = before ++ after ∧
      (List.range' start n).filterMap g = before ++ x :: after ∧
      ∀ y ∈ after, ∃ k', k < k' ∧ k' < start + n ∧ f k' = some y := by
  have hsplit : List.range' start n =
      List.range' start (k - start) ++ k :: List.range' (k + 1) (start + n - k - 1) := by
    have happend := List.range'_append_1 (s := start) (m := k - start) (n := start + n - k)
    rw [show start + (k - start) = k by omega, show k - start + (start + n - k) = n by omega,
      show start + n - k = start + n - k - 1 + 1 by omega, List.range'_succ] at happend
    exact happend.symm
  refine ⟨(List.range' start (k - start)).filterMap f,
    (List.range' (k + 1) (start + n - k - 1)).filterMap f, ?_, ?_, ?_⟩
  · rw [hsplit, List.filterMap_append, List.filterMap_cons_none hf]
  · rw [hsplit, List.filterMap_append, List.filterMap_cons_some hg]
    congr 1
    · refine List.filterMap_congr fun k' hk' => ?_
      have hmem := List.mem_range'_1.mp hk'
      exact hfg k' hmem.1 (by omega) (by omega)
    · congr 1
      refine List.filterMap_congr fun k' hk' => ?_
      have hmem := List.mem_range'_1.mp hk'
      exact hfg k' (by omega) (by omega) (by omega)
  · intro y hy
    obtain ⟨k', hk', hy⟩ := List.mem_filterMap.mp hy
    have hmem := List.mem_range'_1.mp hk'
    exact ⟨k', by omega, by omega, hy⟩

/-- A slot that goes on with its element. -/
theorem contents_congr {ring : Ring} {s t : State ι T} {k : ℕ} {slot : Slot ι T}
    (hslots : t.slots = Function.update s.slots k slot) (hturn : t.turn = s.turn)
    (hslot : slot.element? = (s.slots k).element?) : ring.contents t = ring.contents s := by
  have hsame : ∀ k', (t.slots k').element? = (s.slots k').element? := fun k' => by
    by_cases hk : k' = k
    · rw [hslots, hk, Function.update_self, hslot]
    · rw [hslots, Function.update_of_ne hk]
  simp only [contents, hturn, hsame]

/-- An element that is put into an empty slot comes between those with an earlier and those with a
later turn. -/
theorem exists_contents_of_fill {ring : Ring} {s t : State ι T} {x : Element ι T} {ticket : ℕ}
    (hslot : s.slots (ring.index ticket) = .empty) (hturn : t.turn = s.turn)
    (hslots : t.slots = Function.update s.slots (ring.index ticket) (.storing x)) :
    ∃ turn before after, s.turn ≤ turn ∧ turn < s.turn + ring.capacity ∧
      ring.index turn = ring.index ticket ∧ ring.contents s = before ++ after ∧
      ring.contents t = before ++ x :: after ∧ ∀ y ∈ after, ∃ turn', turn < turn' ∧
        turn' < s.turn + ring.capacity ∧ (s.slots (ring.index turn')).element? = some y := by
  obtain ⟨turn, hle, hlt, hindex⟩ := ring.exists_turn s.turn ticket
  obtain ⟨before, after, hold, hnew, hafter⟩ := exists_filterMap_range'
    (f := fun k => (s.slots (ring.index k)).element?)
    (g := fun k => (t.slots (ring.index k)).element?) (x := x) hle hlt
    (by simp only [hindex, hslot, Slot.element?])
    (by simp only [hslots, hindex, Function.update_self, Slot.element?])
    (fun k hk hk' hne => by
      have hother : ring.index k ≠ ring.index ticket := fun heq =>
        hne (turn_unique _ hk hk' hle hlt (heq.trans hindex.symm))
      simp only [hslots, Function.update_of_ne hother])
  refine ⟨turn, before, after, hle, hlt, hindex, hold, ?_, hafter⟩
  rw [contents, hturn]
  exact hnew

/-- The consumer empties the slot whose turn it is. -/
theorem contents_of_empty {ring : Ring} {s t : State ι T} {x : Element ι T}
    (hslot : (s.slots (ring.index s.turn)).element? = some x) (hturn : t.turn = s.turn + 1)
    (hslots : t.slots = Function.update s.slots (ring.index s.turn) .empty) :
    ring.contents s = x :: ring.contents t := by
  obtain ⟨n, hn⟩ : ∃ n, ring.capacity = n + 1 := Nat.exists_eq_add_one.mpr ring.capacity_pos
  have hlast : ring.index (s.turn + 1 + n) = ring.index s.turn := by
    rw [ring.index_eq_iff, hn, Nat.add_assoc, Nat.add_comm 1 n, Nat.add_mod_right]
  have hrest : ring.contents t =
      (List.range' (s.turn + 1) n).filterMap fun k => (s.slots (ring.index k)).element? := by
    rw [contents, hturn, hn, List.range'_1_concat, List.filterMap_append, hslots]
    simp only [List.filterMap_cons, List.filterMap_nil, hlast, Function.update_self, Slot.element?,
      List.append_nil]
    refine List.filterMap_congr fun k hk => ?_
    have hmem := List.mem_range'_1.mp hk
    have hother : ring.index k ≠ ring.index s.turn := fun heq => by
      have := turn_unique s.turn (by omega) (by omega) le_rfl (by omega) heq
      omega
    rw [Function.update_of_ne hother]
  rw [hrest, contents, hn, List.range'_succ]
  exact List.filterMap_cons_some (f := fun k => (s.slots (ring.index k)).element?) hslot

/-! ### The threads -/

/-- A producer that waits has an element of its own, and one that is storing finds its slot as it
left it. -/
def ProducerInv (ring : Ring) (slots : ℕ → Slot ι T) (i : ι) : Producer ι T → Prop
  | .idle => True
  | .waiting x _ => x.producer = i
  | .storing x ticket => x.producer = i ∧ slots (ring.index ticket) = .storing x

/-- The consumer takes its tickets when their turn comes, and one that is loading finds its slot as
it left it. -/
def ConsumerInv (ring : Ring) (slots : ℕ → Slot ι T) (tail turn : ℕ) : Consumer ι T → Prop
  | .waiting ticket => tail = turn + 1 ∧ ticket = turn
  | .loading x ticket => tail = turn + 1 ∧ ticket = turn ∧ slots (ring.index ticket) = .loading x
  | _ => tail = turn

/-- What holds of the threads in every run. -/
structure Threads (ring : Ring) (s : State ι T) : Prop where
  producers : ∀ i, ProducerInv ring s.slots i (s.producers i)
  consumer : ConsumerInv ring s.slots s.tail s.turn s.consumer

theorem threads_init (ring : Ring) : Threads ring (init : State ι T) where
  producers _ := trivial
  consumer := rfl

/-- A producer does not notice what happens to a slot that it has not taken. -/
theorem ProducerInv.update {ring : Ring} {slots : ℕ → Slot ι T} {i : ι} {producer : Producer ι T}
    {k : ℕ} (slot : Slot ι T) (h : ProducerInv ring slots i producer)
    (hk : ∀ x, x.producer = i → slots k ≠ .storing x) :
    ProducerInv ring (Function.update slots k slot) i producer := by
  cases producer with
  | idle => trivial
  | waiting x ticket => exact h
  | storing x ticket =>
    obtain ⟨hx, hslot⟩ := h
    have hne : ring.index ticket ≠ k := fun heq => hk x hx (heq ▸ hslot)
    exact ⟨hx, (Function.update_of_ne hne ..).trans hslot⟩

/-- The consumer does not notice what happens to a slot that it has not taken. -/
theorem ConsumerInv.update {ring : Ring} {slots : ℕ → Slot ι T} {tail turn : ℕ}
    {consumer : Consumer ι T} {k : ℕ} (slot : Slot ι T)
    (h : ConsumerInv ring slots tail turn consumer) (hk : ∀ x, slots k ≠ .loading x) :
    ConsumerInv ring (Function.update slots k slot) tail turn consumer := by
  cases consumer with
  | loading x ticket =>
    obtain ⟨htail, hticket, hslot⟩ := h
    have hne : ring.index ticket ≠ k := fun heq => hk x (heq ▸ hslot)
    exact ⟨htail, hticket, (Function.update_of_ne hne ..).trans hslot⟩
  | _ => exact h

section Preservation

variable [DecidableEq ι] {ring : Ring} {program : ι → ℕ → T} {s t : State ι T} {i : ι}

/-- The step of one producer. -/
theorem producers_update {slots : ℕ → Slot ι T} {producers : ι → Producer ι T}
    {producer : Producer ι T} (hi : ProducerInv ring slots i producer)
    (hother : ∀ j, j ≠ i → ProducerInv ring slots j (producers j)) (j : ι) :
    ProducerInv ring slots j (Function.update producers i producer j) :=
  (Function.forall_update_iff producers (p := ProducerInv ring slots)).mpr ⟨hi, hother⟩ j

theorem Threads.takeHead (hs : Threads ring s) (h : ring.step program s (.takeHead i) = some t) :
    Threads ring t := by
  obtain ⟨-, rfl⟩ := step_takeHead h
  exact ⟨producers_update (producer_element ..) fun j _ => hs.producers j, hs.consumer⟩

theorem Threads.startStoring (hs : Threads ring s)
    (h : ring.step program s (.startStoring i) = some t) : Threads ring t := by
  obtain ⟨x, ticket, hi, hslot, rfl⟩ := step_startStoring h
  have hx : x.producer = i := by simpa only [hi, ProducerInv] using hs.producers i
  refine ⟨producers_update ⟨hx, Function.update_self ..⟩ fun j _ => (hs.producers j).update _ ?_,
    hs.consumer.update _ ?_⟩
  · simp [hslot]
  · simp [hslot]

theorem Threads.finishStoring (hs : Threads ring s)
    (h : ring.step program s (.finishStoring i) = some t) : Threads ring t := by
  obtain ⟨x, ticket, hi, rfl⟩ := step_finishStoring h
  obtain ⟨hx, hslot⟩ : x.producer = i ∧ s.slots (ring.index ticket) = .storing x := by
    simpa only [hi, ProducerInv] using hs.producers i
  refine ⟨producers_update trivial fun j hji => (hs.producers j).update _ ?_,
    hs.consumer.update _ ?_⟩
  · rintro y rfl heq
    rw [hslot, Slot.storing.injEq] at heq
    exact hji (heq ▸ hx)
  · simp [hslot]

theorem Threads.wake (hs : Threads ring s) (h : ring.step program s .wake = some t) :
    Threads ring t := by
  obtain ⟨hc, rfl⟩ := step_wake h
  have htail : s.tail = s.turn := by simpa only [hc, ConsumerInv] using hs.consumer
  exact ⟨hs.producers, htail⟩

theorem Threads.retest (hs : Threads ring s) (h : ring.step program s .retest = some t) :
    Threads ring t := by
  obtain ⟨hc, rfl⟩ := step_retest h
  have htail : s.tail = s.turn := by simpa only [hc, ConsumerInv] using hs.consumer
  refine ⟨hs.producers, ?_⟩
  show ConsumerInv ring s.slots s.tail s.turn (if _ then _ else _)
  split_ifs
  · exact htail
  · exact htail

theorem Threads.takeTail (hs : Threads ring s) (h : ring.step program s .takeTail = some t) :
    Threads ring t := by
  obtain ⟨hc, rfl⟩ := step_takeTail h
  have htail : s.tail = s.turn := by simpa only [hc, ConsumerInv] using hs.consumer
  exact ⟨hs.producers, congrArg (· + 1) htail, htail⟩

theorem Threads.startLoading (hs : Threads ring s)
    (h : ring.step program s .startLoading = some t) : Threads ring t := by
  obtain ⟨x, ticket, hc, hslot, rfl⟩ := step_startLoading h
  obtain ⟨htail, hticket⟩ : s.tail = s.turn + 1 ∧ ticket = s.turn := by
    simpa only [hc, ConsumerInv] using hs.consumer
  refine ⟨fun j => (hs.producers j).update _ ?_, htail, hticket, Function.update_self ..⟩
  simp [hslot]

/-- The consumer empties the slot whose turn it is. -/
theorem Threads.step_finishLoading (hs : Threads ring s)
    (h : ring.step program s .finishLoading = some t) :
    ∃ x, s.tail = s.turn + 1 ∧ s.slots (ring.index s.turn) = .loading x ∧ t = { s with
      slots := Function.update s.slots (ring.index s.turn) .empty
      consumer := .idle
      returned := s.returned ++ [x] } := by
  obtain ⟨x, ticket, hc, rfl⟩ := Ring.step_finishLoading h
  obtain ⟨htail, rfl, hslot⟩ :
      s.tail = s.turn + 1 ∧ ticket = s.turn ∧ s.slots (ring.index ticket) = .loading x := by
    simpa only [hc, ConsumerInv] using hs.consumer
  exact ⟨x, htail, hslot, rfl⟩

theorem Threads.finishLoading (hs : Threads ring s)
    (h : ring.step program s .finishLoading = some t) : Threads ring t := by
  obtain ⟨x, htail, hslot, rfl⟩ := hs.step_finishLoading h
  refine ⟨fun j => (hs.producers j).update _ ?_, ?_⟩
  · simp [hslot]
  · show s.tail = (s.returned ++ [x]).length
    rw [htail, List.length_append]
    rfl

/-- **The threads.** Every step keeps what holds of the threads. -/
theorem Threads.step {a : Act ι} (hs : Threads ring s) (h : ring.step program s a = some t) :
    Threads ring t := by
  cases a with
  | takeHead i => exact hs.takeHead h
  | startStoring i => exact hs.startStoring h
  | finishStoring i => exact hs.finishStoring h
  | wake => exact hs.wake h
  | retest => exact hs.retest h
  | takeTail => exact hs.takeTail h
  | startLoading => exact hs.startLoading h
  | finishLoading => exact hs.finishLoading h

/-! ### The order of each producer -/

/-- What was returned, what is in the ring and what is still waiting for its slot make up the calls
of each producer. -/
def InOrder (ring : Ring) (program : ι → ℕ → T) (s : State ι T) : Prop :=
  ∀ i, ofProducer i (s.returned ++ ring.contents s) ++ (s.producers i).pending =
    elements program i (s.begun i)

theorem inOrder_init : InOrder ring program init := by
  intro i
  have hempty : ring.contents (init : State ι T) = [] := by simp [contents, init, Slot.element?]
  rw [hempty]
  rfl

theorem InOrder.takeHead (hs : InOrder ring program s)
    (h : ring.step program s (.takeHead i) = some t) : InOrder ring program t := by
  obtain ⟨hi, rfl⟩ := step_takeHead h
  intro j
  have hj := hs j
  by_cases hji : j = i
  · subst hji
    rw [hi] at hj
    simp only [Function.update_self, Producer.pending, elements_succ, ← hj, List.append_nil]
    rfl
  · simp only [Function.update_of_ne hji]
    exact hj

theorem InOrder.startStoring (hs : InOrder ring program s) (hthreads : Threads ring s)
    (hC : ring.TurnsInOrder s (.startStoring i))
    (h : ring.step program s (.startStoring i) = some t) : InOrder ring program t := by
  obtain ⟨x, ticket, hi, hslot, ht⟩ := step_startStoring h
  have hx : x.producer = i := by simpa only [hi, ProducerInv] using hthreads.producers i
  obtain ⟨turn, before, after, hle, hlt, hindex, hold, hnew, hafter⟩ :=
    exists_contents_of_fill (t := t) hslot (by rw [ht]; rfl) (by rw [ht])
  -- nothing that comes after the new element is of the producer
  have hlater : ofProducer i after = [] := ofProducer_eq_nil fun y hy hyi => by
    obtain ⟨turn', hgt, hlt', hy'⟩ := hafter y hy
    have hlt'' := hC x ticket hi turn turn' hle hlt (by omega) hlt' hindex y hy' hyi
    omega
  subst ht
  intro j
  have hj := hs j
  rw [hold] at hj
  rw [hnew]
  by_cases hji : j = i
  · subst hji
    rw [hi] at hj
    simp only [Function.update_self, ofProducer_append, Producer.pending, hlater,
      List.append_nil] at hj ⊢
    rw [← hj, ← List.singleton_append, ofProducer_append, hlater, ofProducer_singleton,
      if_pos hx, List.append_nil, List.append_assoc]
  · simp only [Function.update_of_ne hji, ofProducer_append] at hj ⊢
    rw [← hj, ← List.singleton_append, ofProducer_append, ofProducer_singleton,
      if_neg (hx ▸ Ne.symm hji), List.nil_append]

theorem InOrder.finishStoring (hs : InOrder ring program s) (hthreads : Threads ring s)
    (h : ring.step program s (.finishStoring i) = some t) : InOrder ring program t := by
  obtain ⟨x, ticket, hi, ht⟩ := step_finishStoring h
  obtain ⟨-, hslot⟩ : x.producer = i ∧ s.slots (ring.index ticket) = .storing x := by
    simpa only [hi, ProducerInv] using hthreads.producers i
  have hslots : t.slots = Function.update s.slots (ring.index ticket) (.stored x) := by rw [ht]
  have hcontents : ring.contents t = ring.contents s :=
    contents_congr hslots (by rw [ht]; rfl) (by rw [hslot]; rfl)
  subst ht
  intro j
  rw [hcontents]
  have hj := hs j
  by_cases hji : j = i
  · subst hji
    rw [hi] at hj
    simpa only [Function.update_self, Producer.pending] using hj
  · simpa only [Function.update_of_ne hji] using hj

theorem InOrder.startLoading (hs : InOrder ring program s)
    (h : ring.step program s .startLoading = some t) : InOrder ring program t := by
  obtain ⟨x, ticket, -, hslot, ht⟩ := step_startLoading h
  have hslots : t.slots = Function.update s.slots (ring.index ticket) (.loading x) := by rw [ht]
  have hcontents : ring.contents t = ring.contents s :=
    contents_congr hslots (by rw [ht]; rfl) (by rw [hslot]; rfl)
  subst ht
  intro j
  rw [hcontents]
  exact hs j

theorem InOrder.finishLoading (hs : InOrder ring program s) (hthreads : Threads ring s)
    (h : ring.step program s .finishLoading = some t) : InOrder ring program t := by
  obtain ⟨x, -, hslot, ht⟩ := hthreads.step_finishLoading h
  have hturn : t.turn = s.turn + 1 := by rw [ht, State.turn, List.length_append]; rfl
  have hcontents : ring.contents s = x :: ring.contents t :=
    contents_of_empty (by rw [hslot]; rfl) hturn (by rw [ht])
  intro j
  have hj := hs j
  rw [hcontents, List.append_cons] at hj
  subst ht
  exact hj

/-- **One step.** A step keeps the order of each producer, if a slot that it fills comes after the
elements of its producer. -/
theorem InOrder.step {a : Act ι} (hs : InOrder ring program s) (hthreads : Threads ring s)
    (hC : ring.TurnsInOrder s a) (h : ring.step program s a = some t) :
    InOrder ring program t := by
  cases a with
  | takeHead i => exact hs.takeHead h
  | startStoring i => exact hs.startStoring hthreads hC h
  | finishStoring i => exact hs.finishStoring hthreads h
  | wake =>
    obtain ⟨-, rfl⟩ := step_wake h
    exact hs
  | retest =>
    obtain ⟨-, rfl⟩ := step_retest h
    exact hs
  | takeTail =>
    obtain ⟨-, rfl⟩ := step_takeTail h
    exact hs
  | startLoading => exact hs.startLoading h
  | finishLoading => exact hs.finishLoading hthreads h

/-- The threads, and the order of each producer. -/
structure Inv (ring : Ring) (program : ι → ℕ → T) (s : State ι T) : Prop where
  threads : Threads ring s
  inOrder : InOrder ring program s

theorem inv_init : Inv ring program init := ⟨threads_init ring, inOrder_init⟩

theorem Inv.step {a : Act ι} (hs : Inv ring program s) (hC : ring.TurnsInOrder s a)
    (h : ring.step program s a = some t) : Inv ring program t :=
  ⟨hs.threads.step h, hs.inOrder.step hs.threads hC h⟩

theorem InOrder.isPrefix (hs : InOrder ring program s) (i : ι) :
    ofProducer i s.returned <+: elements program i (s.begun i) := by
  rw [← hs i, ofProducer_append, List.append_assoc]
  exact List.prefix_append ..

theorem InOrder.agrees (hs : InOrder ring program s) : Agrees program s := by
  have hcan : Fifo.CanReturn program s.returned :=
    Fifo.canReturn_iff.mpr fun i => eq_elements_of_isPrefix _ (hs.isPrefix i)
  refine ⟨hcan, fun x hx => ?_, hcan.nodup, hcan.inOrder⟩
  have hmem : x ∈ ofProducer x.producer s.returned := by simpa [ofProducer] using hx
  obtain ⟨number, hlt, heq⟩ := mem_elements.mp ((hs.isPrefix x.producer).subset hmem)
  exact ⟨number, hlt, heq.symm⟩

end Preservation

/-! ### The two builds -/

/-- **Agreement of the builds.** In every run of the ring, with any number of producers and slots,
in which a producer fills a slot only when the consumer comes to it after the slots in which the
producer has elements, what `poll` has returned is at any time a sequence that the plain build can
return for the same producers. -/
theorem always_agrees [DecidableEq ι] (ring : Ring) (program : ι → ℕ → T) (acts : List (Act ι))
    (hturns : Transition.EveryStep (ring.step program) ring.TurnsInOrder init acts) :
    Transition.Always (ring.step program) (Agrees program) init acts :=
  Transition.always_of_invariant (Inv ring program) (fun _ hs => hs.inOrder.agrees)
    (fun _ _ _ hs hC h => hs.step hC h) inv_init hturns

theorem always_agrees_sample :
    Transition.Always (processQueueRing.step fun _ number => number) (Agrees fun _ number => number)
      init (pushCall (0 : Fin 2) ++ pollCall) :=
  always_agrees processQueueRing _ _ (by
    simp [pushCall, pollCall, Transition.EveryStep, TurnsInOrder, step, init, Slot.element?])

/-- One producer takes a ticket and waits; another goes once around the ring and takes the slot. -/
theorem not_forall_always_agrees :
    ¬∀ acts : List (Act (Fin 2)), Transition.Always (processQueueRing.step fun _ number => number)
      (Agrees fun _ number => number) init acts := by
  intro h
  obtain ⟨t, hrun, hhead, htail, hc, hreturned, -, -, hstored, -⟩ :=
    exists_run_pushCalls processQueueRing (fun _ number => number)
      { (init : State (Fin 2) ℕ) with
        head := 1
        begun := Function.update (fun _ => 0) 1 1
        producers := Function.update (fun _ => .idle) 1 (.waiting ⟨1, 0, 0⟩ 0) }
      0 le_rfl rfl fun k hk => rfl
  have hlap : processQueueRing.index t.tail = processQueueRing.index (1 + 32767) := by
    rw [processQueueRing.index_eq_iff, htail]
    rfl
  have hslot := (congrArg t.slots hlap).trans (hstored 32767 (by decide))
  have hempty : wasEmpty t.head t.tail = false := by
    rw [hhead, htail]
    decide
  have hall := Transition.run_append_eq_some_iff.mpr
    ⟨t, hrun, run_pollCall (fun _ number => number) hc hempty hslot⟩
  have hfirst : processQueueRing.step (fun _ number => number) init (.takeHead (1 : Fin 2)) =
      some { (init : State (Fin 2) ℕ) with
        head := 1
        begun := Function.update (fun _ => 0) 1 1
        producers := Function.update (fun _ => .idle) 1 (.waiting ⟨1, 0, 0⟩ 0) } := rfl
  have hagrees := (h _).last (Transition.run_cons_eq_some_iff.mpr ⟨_, hfirst, hall⟩)
  have horder := Fifo.canReturn_iff.mp hagrees.canReturn 0
  simp [hreturned, init, ofProducer, element, elements] at horder

/-! ### Out of turn -/

/-- The element is in the slot of the turn, or the turn is over and has returned it. -/
def Due (ring : Ring) (turn : ℕ) (x : Element ι T) (s : State ι T) : Prop :=
  (s.turn ≤ turn ∧ turn < s.turn + ring.capacity ∧
    (s.slots (ring.index turn)).element? = some x) ∨ s.returned[turn]? = some x

theorem Due.getElem?_returned {ring : Ring} {turn : ℕ} {x : Element ι T} {s : State ι T}
    (h : Due ring turn x s) (hlt : turn < s.turn) : s.returned[turn]? = some x := by
  rcases h with ⟨hle, -⟩ | h
  · omega
  · exact h

theorem element?_update {slots : ℕ → Slot ι T} {k : ℕ} {slot : Slot ι T}
    (h : ∀ x, (slots k).element? = some x → slot.element? = some x) {k' : ℕ} {x : Element ι T}
    (hx : (slots k').element? = some x) : (Function.update slots k slot k').element? = some x := by
  by_cases hk : k' = k
  · subst hk
    rw [Function.update_self]
    exact h x hx
  · rwa [Function.update_of_ne hk]

section Lap

variable [DecidableEq ι] {ring : Ring} {program : ι → ℕ → T} {s t : State ι T}

/-- Only the end of a `poll` takes an element out of its slot. -/
theorem Threads.element?_step {a : Act ι} (hs : Threads ring s)
    (h : ring.step program s a = some t) (ha : a ≠ .finishLoading) :
    t.returned = s.returned ∧
      ∀ k x, (s.slots k).element? = some x → (t.slots k).element? = some x := by
  cases a with
  | takeHead i =>
    obtain ⟨-, rfl⟩ := step_takeHead h
    exact ⟨rfl, fun _ _ => id⟩
  | startStoring i =>
    obtain ⟨y, ticket, -, hslot, rfl⟩ := step_startStoring h
    exact ⟨rfl, fun _ _ => element?_update (by simp [hslot, Slot.element?])⟩
  | finishStoring i =>
    obtain ⟨y, ticket, hi, rfl⟩ := step_finishStoring h
    obtain ⟨-, hslot⟩ : y.producer = i ∧ s.slots (ring.index ticket) = .storing y := by
      simpa only [hi, ProducerInv] using hs.producers i
    exact ⟨rfl, fun _ _ => element?_update (by simp [hslot, Slot.element?])⟩
  | wake =>
    obtain ⟨-, rfl⟩ := step_wake h
    exact ⟨rfl, fun _ _ => id⟩
  | retest =>
    obtain ⟨-, rfl⟩ := step_retest h
    exact ⟨rfl, fun _ _ => id⟩
  | takeTail =>
    obtain ⟨-, rfl⟩ := step_takeTail h
    exact ⟨rfl, fun _ _ => id⟩
  | startLoading =>
    obtain ⟨y, ticket, -, hslot, rfl⟩ := step_startLoading h
    exact ⟨rfl, fun _ _ => element?_update (by simp [hslot, Slot.element?])⟩
  | finishLoading => exact absurd rfl ha

theorem Due.finishLoading {turn : ℕ} {x : Element ι T} (hdue : Due ring turn x s)
    (hs : Threads ring s) (h : ring.step program s .finishLoading = some t) :
    Due ring turn x t := by
  obtain ⟨y, -, hslot, rfl⟩ := hs.step_finishLoading h
  have hturn : (s.returned ++ [y]).length = s.turn + 1 := List.length_append
  rcases hdue with ⟨hle, hlt, hx⟩ | hx
  · rcases Nat.eq_or_lt_of_le hle with rfl | hgt
    · rw [hslot] at hx
      obtain rfl : y = x := Option.some.inj hx
      exact .inr List.getElem?_concat_length
    · have hother : ring.index turn ≠ ring.index s.turn := fun heq => by
        have := turn_unique s.turn hle hlt le_rfl (by omega) heq
        omega
      refine .inl ⟨hturn.trans_le hgt, ?_, ?_⟩
      · show turn < (s.returned ++ [y]).length + ring.capacity
        omega
      · simpa only [Function.update_of_ne hother] using hx
  · exact .inr (List.getElem?_append_left (List.getElem?_eq_some_iff.mp hx).1 ▸ hx)

/-- What is in a slot stays there until its turn, which returns it. -/
theorem Due.step {turn : ℕ} {x : Element ι T} {a : Act ι} (hdue : Due ring turn x s)
    (hs : Threads ring s) (h : ring.step program s a = some t) : Due ring turn x t := by
  by_cases ha : a = .finishLoading
  · subst ha
    exact hdue.finishLoading hs h
  · obtain ⟨hreturned, hslots⟩ := hs.element?_step h ha
    rw [Due, State.turn, hreturned]
    exact hdue.imp_left fun ⟨hle, hlt, hx⟩ => ⟨hle, hlt, hslots _ x hx⟩

/-- The element that is put into a slot out of turn will be returned before one that the producer
has pushed earlier. -/
theorem exists_due_of_not_turnsInOrder {a : Act ι} (hs : Inv ring program s)
    (h : ring.step program s a = some t) (hnot : ¬ring.TurnsInOrder s a) :
    ∃ x y turn turn', turn < turn' ∧ turn' < s.turn + ring.capacity ∧ Due ring turn x t ∧
      Due ring turn' y t ∧ x.producer = y.producer ∧ y.number < x.number := by
  cases a with
  | startStoring i =>
    simp only [TurnsInOrder, not_forall, Nat.not_lt] at hnot
    obtain ⟨x, ticket, hi, turn, turn', hle, hlt, hle', hlt', hindex, y, hy, hyi, hge⟩ := hnot
    obtain ⟨x', ticket', hi', hslot, ht⟩ := step_startStoring h
    obtain ⟨rfl, rfl⟩ : x' = x ∧ ticket' = ticket := by simpa [hi] using hi'.symm
    have hx : x'.producer = i := by simpa only [hi, ProducerInv] using hs.threads.producers i
    have hne : turn ≠ turn' := by
      rintro rfl
      rw [hindex, hslot] at hy
      cases hy
    have hkept := (hs.threads.element?_step h (by simp)).2
    have hturn : t.turn = s.turn := by rw [ht, State.turn, State.turn]
    -- the earlier element is among the calls before the one that is waiting
    have hnumber : y.number < x'.number := by
      have hmem : y ∈ ofProducer i (s.returned ++ ring.contents s) := by
        refine List.mem_filter.mpr ⟨List.mem_append_right _ ?_, by simpa using hyi⟩
        exact List.mem_filterMap.mpr ⟨turn', List.mem_range'_1.mpr ⟨hle', hlt'⟩, hy⟩
      have hpairwise := pairwise_elements program i (s.begun i)
      rw [← hs.inOrder i, hi, List.pairwise_append] at hpairwise
      exact hpairwise.2.2 y hmem x' (List.mem_singleton_self x')
    refine ⟨x', y, turn, turn', by omega, hlt', .inl ⟨hturn ▸ hle, hturn ▸ hlt, ?_⟩,
      .inl ⟨hturn ▸ hle', hturn ▸ hlt', hkept _ y hy⟩, hx.trans hyi.symm, hnumber⟩
    simp only [ht, hindex, Function.update_self, Slot.element?]
  | _ => exact absurd trivial hnot

/-- The condition is exact: once a slot is filled out of turn, the builds disagree when the consumer
has gone once around the ring. -/
theorem not_agrees_of_not_turnsInOrder {before after : List (Act ι)} {a : Act ι} {u : State ι T}
    (hturns : Transition.EveryStep (ring.step program) ring.TurnsInOrder init before)
    (hbefore : Transition.run (ring.step program) init before = some s)
    (h : ring.step program s a = some t) (hnot : ¬ring.TurnsInOrder s a)
    (hafter : Transition.run (ring.step program) t after = some u)
    (hlap : s.turn + ring.capacity ≤ u.turn) : ¬Agrees program u := by
  intro hagrees
  have hs : Inv ring program s :=
    (Transition.always_of_invariant (Inv ring program) (fun _ hs => hs)
      (fun _ _ _ hs hC h => hs.step hC h) inv_init hturns).last hbefore
  obtain ⟨x, y, turn, turn', hlt, hlt', hx, hy, hproducer, hnumber⟩ :=
    exists_due_of_not_turnsInOrder hs h hnot
  obtain ⟨-, hx, hy⟩ := Transition.run_invariant
    (fun s => Threads ring s ∧ Due ring turn x s ∧ Due ring turn' y s)
    (fun _ _ _ _ ⟨hs, hx, hy⟩ h => ⟨hs.step h, hx.step hs h, hy.step hs h⟩)
    ⟨hs.threads.step h, hx, hy⟩ hafter
  obtain ⟨hi, hx⟩ := List.getElem?_eq_some_iff.mp (hx.getElem?_returned (by omega))
  obtain ⟨hj, hy⟩ := List.getElem?_eq_some_iff.mp (hy.getElem?_returned (by omega))
  have horder := List.pairwise_iff_getElem.mp hagrees.inOrder turn turn' hi hj hlt
  rw [hx, hy] at horder
  exact absurd (horder hproducer) (by omega)

end Lap

end Ring

end Queue

end AnanicyCpp
