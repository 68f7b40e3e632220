import AnanicyCpp.Library.Transition
import Mathlib.Data.List.Range
import Mathlib.Data.List.Infix
import Mathlib.Logic.Function.Basic

/-!
# The plain build of the queue

Producers push values and one consumer polls. In the plain build of `synchronized_queue` both
operations hold the mutex, so each of them is one step on a `std::queue`. The values that `poll`
can return are those that come from each producer in the order in which it pushed them, without a
gap (`Queue.Fifo.canReturn_iff`); how the producers follow each other is open.

## Main definitions

* `Queue.Element`, `Queue.element` : a value with the call of `push` it comes from.
* `Queue.Fifo.step` : the plain build.
* `Queue.Fifo.CanReturn` : what `poll` can have returned.

## Main results

* `Queue.Fifo.canReturn_iff` : the sequences that the plain build can return.
-/

namespace AnanicyCpp

namespace Queue

variable {ι T : Type*}

/-- A value, with the producer that pushes it and the number of the call among those of this
producer. -/
structure Element (ι T : Type*) where
  producer : ι
  number : ℕ
  value : T
deriving DecidableEq

/-- The element of a call of `push`, where `program i` are the values that the producer `i` pushes
one after the other. -/
def element (program : ι → ℕ → T) (i : ι) (number : ℕ) : Element ι T :=
  ⟨i, number, program i number⟩

@[simp]
theorem producer_element (program : ι → ℕ → T) (i : ι) (number : ℕ) :
    (element program i number).producer = i := rfl

/-- The elements of the first calls of a producer. -/
def elements (program : ι → ℕ → T) (i : ι) (count : ℕ) : List (Element ι T) :=
  (List.range count).map (element program i)

theorem elements_succ (program : ι → ℕ → T) (i : ι) (count : ℕ) :
    elements program i (count + 1) = elements program i count ++ [element program i count] := by
  rw [elements, elements, List.range_succ, List.map_append, List.map_singleton]

@[simp]
theorem length_elements (program : ι → ℕ → T) (i : ι) (count : ℕ) :
    (elements program i count).length = count := by
  rw [elements, List.length_map, List.length_range]

theorem mem_elements {program : ι → ℕ → T} {i : ι} {count : ℕ} {x : Element ι T} :
    x ∈ elements program i count ↔ ∃ number < count, element program i number = x := by
  simp [elements]

theorem eq_elements_of_isPrefix {program : ι → ℕ → T} {i : ι} (count : ℕ)
    {xs : List (Element ι T)} (h : xs <+: elements program i count) :
    xs = elements program i xs.length := by
  have htake : xs = (elements program i count).take xs.length := List.prefix_iff_eq_take.mp h
  have hle : xs.length ≤ count := by simpa using h.length_le
  rwa [elements, ← List.map_take, List.take_range, Nat.min_eq_left hle] at htake

/-- The calls of a producer are numbered. -/
theorem pairwise_elements (program : ι → ℕ → T) (i : ι) (count : ℕ) :
    (elements program i count).Pairwise (·.number < ·.number) :=
  List.pairwise_map.mpr List.pairwise_lt_range

variable [DecidableEq ι]

/-- The elements of one producer. -/
def ofProducer (i : ι) (xs : List (Element ι T)) : List (Element ι T) :=
  xs.filter (·.producer = i)

theorem ofProducer_append (i : ι) (xs ys : List (Element ι T)) :
    ofProducer i (xs ++ ys) = ofProducer i xs ++ ofProducer i ys :=
  List.filter_append ..

theorem ofProducer_singleton (i : ι) (x : Element ι T) :
    ofProducer i [x] = if x.producer = i then [x] else [] := by
  by_cases h : x.producer = i <;> simp [ofProducer, h]

theorem ofProducer_eq_nil {i : ι} {xs : List (Element ι T)} (h : ∀ x ∈ xs, x.producer ≠ i) :
    ofProducer i xs = [] := by
  simpa [ofProducer] using h

/-! ### The plain build -/

namespace Fifo

/-- The queue, how often each producer has pushed, and what `poll` has returned. -/
structure State (ι T : Type*) where
  queue : List (Element ι T)
  pushed : ι → ℕ
  returned : List (Element ι T)

def init : State ι T := ⟨[], fun _ => 0, []⟩

inductive Act (ι : Type*) where
  | push (i : ι)
  | poll
deriving DecidableEq

/-- A call of `push` or `poll`; a `poll` of the empty queue times out. -/
def step (program : ι → ℕ → T) (s : State ι T) : Act ι → Option (State ι T)
  | .push i =>
      some { s with
        queue := s.queue ++ [element program i (s.pushed i)]
        pushed := Function.update s.pushed i (s.pushed i + 1) }
  | .poll =>
      match s.queue with
      | [] => some s
      | x :: queue => some { s with queue, returned := s.returned ++ [x] }

/-- The sequences that `poll` can return when the producers push the values of `program`. -/
def CanReturn (program : ι → ℕ → T) (returned : List (Element ι T)) : Prop :=
  ∃ acts s, Transition.run (step program) init acts = some s ∧ s.returned = returned

/-- What was pushed is in the queue or was returned, in the order of each producer. -/
def Inv (program : ι → ℕ → T) (s : State ι T) : Prop :=
  ∀ i, ofProducer i (s.returned ++ s.queue) = elements program i (s.pushed i)

theorem Inv.step {program : ι → ℕ → T} {s t : State ι T} {a : Act ι} (h : Inv program s)
    (hstep : step program s a = some t) : Inv program t := by
  intro i
  cases a with
  | push j =>
    obtain rfl := Option.some.inj hstep
    show ofProducer i (s.returned ++ (s.queue ++ [element program j (s.pushed j)])) =
      elements program i (Function.update s.pushed j (s.pushed j + 1) i)
    rw [← List.append_assoc, ofProducer_append, h i, ofProducer_singleton]
    by_cases hij : i = j
    · subst hij
      rw [Function.update_self, elements_succ, producer_element, if_pos rfl]
    · rw [Function.update_of_ne hij, producer_element, if_neg (Ne.symm hij), List.append_nil]
  | poll =>
    cases hqueue : s.queue with
    | nil =>
      obtain rfl : s = t := by simpa [Fifo.step, hqueue] using hstep
      exact h i
    | cons x queue =>
      obtain rfl : { s with queue, returned := s.returned ++ [x] } = t := by
        simpa [Fifo.step, hqueue] using hstep
      simpa [hqueue] using h i

/-- Every sequence that comes from each producer in order can be pushed as it is. -/
theorem exists_run_push {program : ι → ℕ → T} {xs : List (Element ι T)}
    (h : ∀ i, ofProducer i xs = elements program i (ofProducer i xs).length) :
    ∃ acts, Transition.run (step program) init acts =
      some ⟨xs, fun i => (ofProducer i xs).length, []⟩ := by
  induction xs using List.reverseRecOn with
  | nil => exact ⟨[], rfl⟩
  | append_singleton xs x ih =>
    have hprefix : ∀ i, ofProducer i xs = elements program i (ofProducer i xs).length := by
      intro i
      refine eq_elements_of_isPrefix (ofProducer i (xs ++ [x])).length ?_
      rw [← h i, ofProducer_append]
      exact List.prefix_append ..
    have hx : x = element program x.producer (ofProducer x.producer xs).length := by
      have hlast := h x.producer
      rw [ofProducer_append, ofProducer_singleton, if_pos rfl, List.length_append,
        List.length_singleton, elements_succ, ← hprefix] at hlast
      exact List.singleton_inj.mp (List.append_cancel_left hlast)
    obtain ⟨acts, hrun⟩ := ih hprefix
    refine ⟨acts ++ [.push x.producer], ?_⟩
    rw [Transition.run_append, hrun, Option.bind_some, Transition.run_cons]
    show some _ = some _
    simp only [← hx, ofProducer_append, ofProducer_singleton, List.length_append]
    congr 2
    funext i
    by_cases hi : i = x.producer
    · subst hi
      rw [Function.update_self, if_pos rfl, List.length_singleton]
    · rw [Function.update_of_ne hi, if_neg (Ne.symm hi), List.length_nil, Nat.add_zero]

theorem run_poll (program : ι → ℕ → T) (xs : List (Element ι T)) (s : State ι T) :
    Transition.run (step program) { s with queue := xs } (List.replicate xs.length .poll) =
      some { s with queue := [], returned := s.returned ++ xs } := by
  induction xs generalizing s with
  | nil => simp
  | cons x xs ih =>
    rw [List.length_cons, List.replicate_succ, Transition.run_cons]
    show Transition.run (step program) { s with queue := xs, returned := s.returned ++ [x] } _ = _
    simpa using ih { s with returned := s.returned ++ [x] }

/-- **The plain build.** `poll` can return a sequence exactly when it contains of each producer the
elements of its first calls, in their order. -/
theorem canReturn_iff {program : ι → ℕ → T} {returned : List (Element ι T)} :
    CanReturn program returned ↔
      ∀ i, ofProducer i returned = elements program i (ofProducer i returned).length := by
  constructor
  · rintro ⟨acts, s, hrun, rfl⟩ i
    have hinv : Inv program s := Transition.run_invariant (Inv program)
      (fun _ _ _ _ h hstep => h.step hstep) (fun i => rfl) hrun
    refine eq_elements_of_isPrefix (s.pushed i) ?_
    rw [← hinv i, ofProducer_append]
    exact List.prefix_append ..
  · intro h
    obtain ⟨acts, hrun⟩ := exists_run_push h
    have hpoll := run_poll program returned ⟨[], fun i => (ofProducer i returned).length, []⟩
    exact ⟨_, _, Transition.run_append_eq_some_iff.mpr ⟨_, hrun, hpoll⟩, List.nil_append returned⟩

/-- The elements of a producer are returned in the order of its calls. -/
theorem CanReturn.inOrder {program : ι → ℕ → T} {returned : List (Element ι T)}
    (h : CanReturn program returned) :
    returned.Pairwise fun x y => x.producer = y.producer → x.number < y.number := by
  rw [List.pairwise_iff_forall_sublist]
  intro x y hxy hproducer
  have hsub : List.Sublist [x, y]
      (elements program y.producer (ofProducer y.producer returned).length) := by
    rw [← canReturn_iff.mp h y.producer]
    simpa [ofProducer, hproducer] using hxy.filter (·.producer = y.producer)
  exact List.pairwise_iff_forall_sublist.mp (pairwise_elements program y.producer _) hsub

theorem CanReturn.nodup {program : ι → ℕ → T} {returned : List (Element ι T)}
    (h : CanReturn program returned) : returned.Nodup := by
  refine h.inOrder.imp fun {x y} hlt hxy => ?_
  have := hlt (congrArg Element.producer hxy)
  rw [hxy] at this
  exact lt_irrefl _ this

end Fifo

end Queue

end AnanicyCpp
