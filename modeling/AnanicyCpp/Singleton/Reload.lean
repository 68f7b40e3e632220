import AnanicyCpp.Library.Transition
import Mathlib.Data.Nat.Notation
import Mathlib.Tactic.ByContra
import Mathlib.Tactic.SplitIfs

/-!
# The reload message

A client that asks for a reload writes `RELOAD` to the start of a shared memory segment. The daemon
looks at the segment in a loop: when it holds the message, the daemon calls back, and then it zeroes
the segment, whatever it holds. A message is therefore lost when it is written after the callback
has begun, or after a comparison that found none, and before the segment is zeroed; every other
message is followed by a callback (`Singleton.noneLost_of_heeded`).

## Main definitions

* `Singleton.copyN`, `Singleton.stringView` : the operations on the segment.
* `Singleton.Reader`, `Singleton.Reader.step` : the loop of `read_queue`.
* `Singleton.Reload.step` : clients and reader.
* `Singleton.Reload.NoneLost`, `Singleton.Reload.Heeded` : no message is lost, and no message is
  written at a bad time.

## Main results

* `Singleton.Reload.noneLost_of_heeded` : what is not written at a bad time is not lost.
* `Singleton.Reload.heeded_of_noneLost` : what is written at a bad time is lost.
-/

namespace AnanicyCpp

namespace Singleton

/-! ### The segment -/

/-- The bytes of the segment. -/
abbrev Buffer := List UInt8

def sharedMemoryAddrSize : ℕ := 1024

/-- `RELOAD` -/
def reload : List UInt8 := [82, 69, 76, 79, 65, 68]

/-- `std::memset(buffer, '\\0', SHARED_MEMORY_ADDR_SIZE)` -/
def zeroed : Buffer := List.replicate sharedMemoryAddrSize 0

/-- `std::copy_n`; the terminating zero is not copied. -/
def copyN (message : List UInt8) (buffer : Buffer) : Buffer :=
  message ++ buffer.drop message.length

/-- `std::string_view{buffer}` -/
def stringView (buffer : Buffer) : List UInt8 := buffer.takeWhile (· != 0)

/-- What the segment holds after a write. -/
def requested : Buffer := copyN reload zeroed

@[simp]
theorem copyN_requested : copyN reload requested = requested := by
  rw [requested, copyN, copyN, List.drop_left]

theorem stringView_requested : stringView requested = reload := by decide

/-- The segment is clear but for a message. -/
def Clean (buffer : Buffer) : Prop := buffer = zeroed ∨ buffer = requested

theorem Clean.copyN {buffer : Buffer} (h : Clean buffer) : copyN reload buffer = requested := by
  rcases h with rfl | rfl
  · rfl
  · exact copyN_requested

/-- A write that finds the segment, or none. -/
theorem Clean.tryWrite {buffer : Buffer} (h : Clean buffer) (attached : Bool) :
    Clean (if attached then Singleton.copyN reload buffer else buffer) := by
  cases attached
  · exact h
  · exact .inr h.copyN

theorem clean_leftover (leftover : Bool) : Clean (if leftover then requested else zeroed) := by
  cases leftover
  · exact .inl rfl
  · exact .inr rfl

/-! ### The reader -/

/-- Where the reader stands: at the test of the stop token, before it looks for its segment, at the
test of the first byte, asleep, at the comparison, about to call back, in the callback, at the
`memset`, or at its end. -/
inductive Reader where
  | attaching
  | head
  | testing
  | sleeping
  | comparing
  | matched
  | calling
  | clearing
  | returned
deriving DecidableEq

inductive ReaderAct where
  | attach (attached : Bool)
  | testStop
  | testByte
  | wake
  | compare
  | beginCallback
  | endCallback
  | clear
deriving DecidableEq

/-- A step of `read_queue`. -/
def Reader.step (stopRequested : Bool) (buffer : Buffer) :
    Reader → ReaderAct → Option (Reader × Buffer)
  | .attaching, .attach attached => some (if attached then .head else .returned, buffer)
  | .head, .testStop => some (if stopRequested then .returned else .testing, buffer)
  | .testing, .testByte => some (if buffer.head? = some 0 then .sleeping else .comparing, buffer)
  | .sleeping, .wake => some (.comparing, buffer)
  | .comparing, .compare =>
      some (if stringView buffer = reload then .matched else .clearing, buffer)
  | .matched, .beginCallback => some (.calling, buffer)
  | .calling, .endCallback => some (.clearing, buffer)
  | .clearing, .clear => some (.head, zeroed)
  | _, _ => none

/-- Between the begin of a callback, or a comparison that found no message, and the `memset`. -/
def Reader.deaf : Reader → Bool
  | .calling | .clearing => true
  | _ => false

/-- The reader leaves the segment or zeroes it. -/
theorem Clean.reader_step {stop : Bool} {buffer buffer' : Buffer} {reader reader' : Reader}
    {a : ReaderAct} (hbuffer : Clean buffer)
    (h : reader.step stop buffer a = some (reader', buffer')) : Clean buffer' := by
  revert h
  fun_cases Reader.step stop buffer reader a <;> rintro ⟨⟩ <;> first | exact hbuffer | skip
  exact .inl rfl

/-- A reader that will see a message keeps it, unless it calls back. -/
theorem deaf_reader_step {stop : Bool} {buffer buffer' : Buffer} {reader reader' : Reader}
    {a : ReaderAct} (h : reader.step stop buffer a = some (reader', buffer'))
    (hview : stringView buffer = reload) (hdeaf : reader.deaf = false) (ha : a ≠ .beginCallback) :
    reader'.deaf = false ∧ buffer' = buffer := by
  revert h
  fun_cases Reader.step stop buffer reader a <;> rintro ⟨⟩
  · next attached => cases attached <;> exact ⟨rfl, rfl⟩
  · cases stop <;> exact ⟨rfl, rfl⟩
  · split_ifs <;> exact ⟨rfl, rfl⟩
  · exact ⟨rfl, rfl⟩
  · rw [if_pos hview]
    exact ⟨rfl, rfl⟩
  · exact absurd rfl ha
  · cases hdeaf
  · cases hdeaf

/-- A deaf reader stays deaf until it zeroes the segment. -/
theorem deaf_reader_step_of_deaf {stop : Bool} {buffer buffer' : Buffer} {reader reader' : Reader}
    {a : ReaderAct} (h : reader.step stop buffer a = some (reader', buffer'))
    (hdeaf : reader.deaf = true) (ha : a ≠ .clear) : reader'.deaf = true ∧ a ≠ .beginCallback := by
  revert h
  fun_cases Reader.step stop buffer reader a <;> rintro ⟨⟩ <;> cases hdeaf
  · exact ⟨rfl, by simp⟩
  · exact absurd rfl ha

theorem reader_step_clear {stop : Bool} {buffer : Buffer} {reader : Reader}
    {next : Reader × Buffer} (h : reader.step stop buffer .clear = some next) :
    reader = .clearing ∧ next = (.head, zeroed) := by
  cases reader <;> cases h
  exact ⟨rfl, rfl⟩

namespace Reload

structure State where
  buffer : Buffer
  reader : Reader
deriving DecidableEq

/-- The loop starts with a segment that is new, or that was left with a message. -/
def init (leftover : Bool) : State := ⟨if leftover then requested else zeroed, .head⟩

/-- A call of `try_write("RELOAD")`, which returns whether it found the segment, or a step of the
reader. -/
inductive Act where
  | tryWrite (attached : Bool)
  | reader (a : ReaderAct)
deriving DecidableEq

/-- The clients and the loop, which is not asked to stop. -/
def step (s : State) : Act → Option State
  | .tryWrite attached =>
      some { s with buffer := if attached then copyN reload s.buffer else s.buffer }
  | .reader a => (s.reader.step false s.buffer a).map fun next => ⟨next.2, next.1⟩

/-- Between a write and the next time the segment is zeroed, a callback begins. -/
def NoneLost (acts : List Act) : Prop :=
  ∀ before between after, acts = before ++ .tryWrite true :: (between ++ .reader .clear :: after) →
    .reader .beginCallback ∈ between

/-- No message is written while the reader is past its comparison and has begun its callback, if it
has one to make. -/
def Heeded (s : State) : Act → Prop
  | .tryWrite true => s.reader.deaf = false
  | _ => True

/-! ### Messages -/

/-- A message is there, and the reader will see it. -/
def Due (s : State) : Prop := s.buffer = requested ∧ s.reader.deaf = false

theorem step_reader {s t : State} {a : ReaderAct} (h : step s (.reader a) = some t) :
    s.reader.step false s.buffer a = some (t.reader, t.buffer) := by
  obtain ⟨next, hnext, rfl⟩ := Option.map_eq_some_iff.mp h
  exact hnext

theorem clean_step {s t : State} {a : Act} (hs : Clean s.buffer) (h : step s a = some t) :
    Clean t.buffer := by
  cases a with
  | tryWrite attached =>
    obtain rfl := Option.some.inj h
    exact hs.tryWrite attached
  | reader a => exact hs.reader_step (step_reader h)

theorem Due.step {s t : State} {a : Act} (hs : Due s) (ha : a ≠ .reader .beginCallback)
    (h : step s a = some t) : Due t := by
  cases a with
  | tryWrite attached =>
    obtain rfl := Option.some.inj h
    cases attached
    · exact hs
    · exact ⟨(congrArg (copyN reload) hs.1).trans copyN_requested, hs.2⟩
  | reader a =>
    have hview : stringView s.buffer = reload := by rw [hs.1, stringView_requested]
    obtain ⟨hdeaf, hsame⟩ :=
      deaf_reader_step (step_reader h) hview hs.2 fun heq => ha (congrArg _ heq)
    exact ⟨hsame.trans hs.1, hdeaf⟩

/-- A write that the reader does not miss makes a message due. -/
theorem due_of_tryWrite {s t : State} (hs : Clean s.buffer) (hheeded : Heeded s (.tryWrite true))
    (h : step s (.tryWrite true) = some t) : Due t := by
  obtain rfl := Option.some.inj h
  exact ⟨hs.copyN, hheeded⟩

/-- **No request is lost.** In every run of any number of clients with the loop in which each
message is written before the comparison, or after the segment has been zeroed, or while a message
that was found waits for its callback to begin, the loop does not zero the segment after a write
before a callback has begun. -/
theorem noneLost_of_heeded (leftover : Bool) (acts : List Act) (t : State)
    (hrun : Transition.run step (init leftover) acts = some t)
    (hheeded : Transition.EveryStep step Heeded (init leftover) acts) : NoneLost acts := by
  rintro before between after rfl
  by_contra hnone
  obtain ⟨s, s', hbefore, hwrite, hrest⟩ := Transition.run_append_cons_eq_some_iff.mp hrun
  obtain ⟨u, u', hbetween, hclear, -⟩ := Transition.run_append_cons_eq_some_iff.mp hrest
  have hclean : Clean s.buffer := Transition.run_invariant (fun s => Clean s.buffer)
    (fun _ _ _ _ hs h => clean_step hs h) (clean_leftover leftover) hbefore
  have hdue : Due s' := due_of_tryWrite hclean
    (Transition.everyStep_iff.mp hheeded before _ _ s s' rfl hbefore hwrite) hwrite
  have hdue' : Due u := Transition.run_invariant Due
    (fun s a ha t hs h => hs.step (fun heq => hnone (heq ▸ ha)) h) hdue hbetween
  -- nothing that is due is zeroed
  have hreader : u.reader = .clearing := (reader_step_clear (step_reader hclear)).1
  rw [Due, hreader] at hdue'
  exact absurd hdue'.2 (by decide)

theorem noneLost_of_heeded_sample : NoneLost [.tryWrite true, .reader .testStop, .reader .testByte,
    .reader .compare, .tryWrite true, .reader .beginCallback, .reader .endCallback,
    .reader .clear] :=
  noneLost_of_heeded false _ _ rfl <|
    .cons rfl rfl <| .cons rfl trivial <| .cons rfl trivial <| .cons rfl trivial <|
    .cons rfl rfl <| .cons rfl trivial <| .cons rfl trivial <| .cons rfl trivial trivial

/-- The message is written while the callback for an earlier one runs. -/
theorem not_forall_noneLost :
    ¬∀ leftover acts t, Transition.run step (init leftover) acts = some t → NoneLost acts := by
  intro h
  have hlost := h true [.reader .testStop, .reader .testByte, .reader .compare,
    .reader .beginCallback, .tryWrite true, .reader .endCallback, .reader .clear] _ rfl
  have hmem := hlost [.reader .testStop, .reader .testByte, .reader .compare,
    .reader .beginCallback] [.reader .endCallback] [] rfl
  simp at hmem

theorem deaf_step {s t : State} {a : Act} (hs : s.reader.deaf = true) (ha : a ≠ .reader .clear)
    (h : step s a = some t) : t.reader.deaf = true ∧ a ≠ .reader .beginCallback := by
  cases a with
  | tryWrite attached =>
    obtain rfl := Option.some.inj h
    exact ⟨hs, by simp⟩
  | reader a =>
    obtain ⟨hdeaf, hcall⟩ :=
      deaf_reader_step_of_deaf (step_reader h) hs fun heq => ha (congrArg _ heq)
    exact ⟨hdeaf, fun heq => hcall (Act.reader.inj heq)⟩

/-- A deaf reader zeroes the segment before it calls back. -/
theorem exists_clear_of_deaf {s t : State} {acts : List Act}
    (hrun : Transition.run step s acts = some t) (hs : s.reader.deaf = true)
    (ht : t.reader.deaf = false) :
    ∃ between after, acts = between ++ .reader .clear :: after ∧
      .reader .beginCallback ∉ between := by
  induction acts generalizing s with
  | nil =>
    obtain rfl : s = t := Option.some.inj hrun
    exact absurd hs (by simp [ht])
  | cons a acts ih =>
    obtain ⟨s', hs', hrest⟩ := Transition.run_cons_eq_some_iff.mp hrun
    by_cases hclear : a = .reader .clear
    · exact ⟨[], acts, by rw [hclear, List.nil_append], List.not_mem_nil⟩
    · obtain ⟨hdeaf, hcall⟩ := deaf_step hs hclear hs'
      obtain ⟨between, after, rfl, hnot⟩ := ih hrest hdeaf
      refine ⟨a :: between, after, (List.cons_append ..).symm, ?_⟩
      rw [List.mem_cons, not_or]
      exact ⟨fun heq => hcall heq.symm, hnot⟩

/-- The condition is exact: in a run that leaves the reader where it sees the messages, no request
is lost only if each was written at a good time. -/
theorem heeded_of_noneLost (leftover : Bool) (acts : List Act) (t : State)
    (hrun : Transition.run step (init leftover) acts = some t) (ht : t.reader.deaf = false)
    (hnone : NoneLost acts) : Transition.EveryStep step Heeded (init leftover) acts := by
  rw [Transition.everyStep_iff]
  rintro before a after s s' rfl hbefore ha
  cases a with
  | reader a => trivial
  | tryWrite attached =>
    cases attached with
    | false => trivial
    | true =>
      show s.reader.deaf = false
      by_contra hdeaf
      rw [Bool.not_eq_false] at hdeaf
      obtain ⟨u, u', hu, hu', hafter⟩ := Transition.run_append_cons_eq_some_iff.mp hrun
      obtain rfl : u = s := Option.some.inj (hu.symm.trans hbefore)
      have hdeaf' : u'.reader.deaf = true := (deaf_step hdeaf (by simp) hu').1
      obtain ⟨between, rest, rfl, hnot⟩ := exists_clear_of_deaf hafter hdeaf' ht
      exact hnot (hnone before between rest rfl)

end Reload

end Singleton

end AnanicyCpp
