import AnanicyCpp.Singleton.Reload

/-!
# Shutdown and the reload message

When `main` returns, its locals go in the reverse order of their declaration: the `Config` that the
reload callback captures goes before the `SingletonProcess`. Of the members of the latter, the
callback goes before the reader thread, and only the destructor of the thread asks the reader to
stop and waits for it. Until then the reader looks at the segment, and a message that is there when
the `Config` goes, or arrives afterwards, makes it call back too late
(`Singleton.Shutdown.everyStep_valid`, `Singleton.Shutdown.late_of_not_inTime`).

## Main definitions

* `Singleton.Shutdown.Main` : how far the destruction has come.
* `Singleton.Shutdown.step` : clients, reader and `main`.
* `Singleton.Shutdown.Valid` : a callback begins while the `Config` and the callback exist.
* `Singleton.Shutdown.InTime` : no message is ahead of the reader when the `Config` goes, and none
  is written afterwards where the reader would see it.

## Main results

* `Singleton.Shutdown.everyStep_valid` : without such messages no callback comes too late.
* `Singleton.Shutdown.late_of_not_inTime` : with such a message one can.
-/

namespace AnanicyCpp

namespace Singleton

/-- The reader is before a comparison, with no request to stop that it would see before. -/
def Reader.looks (stopRequested : Bool) : Reader → Bool
  | .attaching | .head => !stopRequested
  | .testing | .sleeping | .comparing => true
  | _ => false

/-- The reader is about to call back, or to find a message. -/
def Reader.Ahead (stopRequested : Bool) (buffer : Buffer) (reader : Reader) : Prop :=
  reader = .matched ∨ stringView buffer = reload ∧ reader.looks stopRequested = true

/-- A reader that does not look has nothing ahead of it, unless it has found a message. -/
theorem Reader.not_ahead {stop : Bool} {buffer : Buffer} {reader : Reader}
    (hmatched : reader ≠ .matched) (hlooks : reader.looks stop = false) :
    ¬reader.Ahead stop buffer := by
  rintro (h | ⟨-, h⟩)
  · exact hmatched h
  · exact Bool.noConfusion (hlooks.symm.trans h)

theorem not_ahead_zeroed (stop : Bool) : ¬Reader.head.Ahead stop zeroed := by
  rintro (h | ⟨h, -⟩)
  · cases h
  · have hzeroed : stringView zeroed = [] := rfl
    rw [hzeroed] at h
    cases h

/-- The reader brings nothing ahead of it. -/
theorem ahead_of_reader_step {stop : Bool} {buffer buffer' : Buffer} {reader reader' : Reader}
    {a : ReaderAct} (h : reader.step stop buffer a = some (reader', buffer'))
    (hahead : reader'.Ahead stop buffer') : reader.Ahead stop buffer := by
  revert h
  fun_cases Reader.step stop buffer reader a <;> rintro ⟨⟩
  · next attached =>
    cases attached
    · exact absurd hahead (Reader.not_ahead (by simp) rfl)
    · rcases hahead with h | h
      · cases h
      · exact .inr h
  · cases stop
    · rcases hahead with h | h
      · cases h
      · exact .inr h
    · exact absurd hahead (Reader.not_ahead (by simp) rfl)
  · rcases hahead with h | ⟨hview, -⟩
    · split_ifs at h
    · exact .inr ⟨hview, rfl⟩
  · rcases hahead with h | ⟨hview, -⟩
    · cases h
    · exact .inr ⟨hview, rfl⟩
  · split_ifs at hahead with hview
    · exact .inr ⟨hview, rfl⟩
    · exact absurd hahead (Reader.not_ahead (by simp) rfl)
  · exact .inl rfl
  · exact absurd hahead (Reader.not_ahead (by simp) rfl)
  · exact absurd hahead (not_ahead_zeroed stop)

/-- A request to stop makes the reader look less. -/
theorem Reader.Ahead.of_le {stop stop' : Bool} {buffer : Buffer} {reader : Reader}
    (h : reader.Ahead stop' buffer) (hle : stop = true → stop' = true) :
    reader.Ahead stop buffer := by
  cases stop
  · rcases h with h | ⟨hview, hlooks⟩
    · exact .inl h
    · refine .inr ⟨hview, ?_⟩
      cases reader <;> first | rfl | cases hlooks
  · rwa [hle rfl] at h

namespace Shutdown

/-- The progress of `main` after the service loop: everything is there, `conf` is destroyed,
`m_reload_callback` is destroyed, the destructor of `m_worker_thread` has requested the stop, and it
has joined the thread. -/
inductive Main where
  | serving
  | confDestroyed
  | callbackDestroyed
  | stopRequested
  | joined
deriving DecidableEq

def Main.hasConf : Main → Bool
  | .serving => true
  | _ => false

def Main.hasCallback : Main → Bool
  | .serving | .confDestroyed => true
  | _ => false

def Main.requestedStop : Main → Bool
  | .stopRequested | .joined => true
  | _ => false

inductive MainAct where
  | destroyConf
  | destroyCallback
  | requestStop
  | join
deriving DecidableEq

/-- The next step of the destruction; `join` waits for the reader to return. -/
def Main.step (reader : Reader) : Main → MainAct → Option Main
  | .serving, .destroyConf => some .confDestroyed
  | .confDestroyed, .destroyCallback => some .callbackDestroyed
  | .callbackDestroyed, .requestStop => some .stopRequested
  | .stopRequested, .join => if reader = .returned then some .joined else none
  | _, _ => none

structure State where
  buffer : Buffer
  reader : Reader
  main : Main
deriving DecidableEq

/-- After `start_read_queue`. -/
def init (leftover : Bool) : State :=
  ⟨if leftover then requested else zeroed, .attaching, .serving⟩

inductive Act where
  | tryWrite (attached : Bool)
  | reader (a : ReaderAct)
  | main (a : MainAct)
deriving DecidableEq

def step (s : State) : Act → Option State
  | .tryWrite attached =>
      some { s with buffer := if attached then copyN reload s.buffer else s.buffer }
  | .reader a =>
      (s.reader.step s.main.requestedStop s.buffer a).map fun next =>
        { s with reader := next.1, buffer := next.2 }
  | .main a => (s.main.step s.reader a).map fun main => { s with main }

/-- A callback that begins finds the `Config` and itself. -/
def Valid (s : State) : Act → Prop
  | .reader .beginCallback => s.main.hasConf = true ∧ s.main.hasCallback = true
  | _ => True

/-- No message is ahead of the reader when the `Config` is destroyed, and no message is written
afterwards to a segment that the reader looks at. -/
def InTime (s : State) : Act → Prop
  | .main .destroyConf => ¬s.reader.Ahead s.main.requestedStop s.buffer
  | .tryWrite true => s.main.hasConf = true ∨ s.reader.looks s.main.requestedStop = false
  | _ => True

/-! ### No late callback -/

/-- The `Config` is destroyed, or the destruction goes on after that. -/
theorem main_step_cases {reader : Reader} {main main' : Main} {a : MainAct}
    (h : main.step reader a = some main') :
    a = .destroyConf ∧ main.requestedStop = main'.requestedStop ∨
      main.hasConf = false ∧ (main.requestedStop = true → main'.requestedStop = true) := by
  revert h
  fun_cases Main.step reader main a
  · rintro ⟨⟩
    exact .inl ⟨rfl, rfl⟩
  · rintro ⟨⟩
    exact .inr ⟨rfl, id⟩
  · rintro ⟨⟩
    exact .inr ⟨rfl, fun _ => rfl⟩
  · rintro ⟨⟩
    exact .inr ⟨rfl, id⟩
  · rintro ⟨⟩
  · rintro ⟨⟩

/-- Once the `Config` is gone, nothing is ahead of the reader. -/
def Inv (s : State) : Prop :=
  s.main.hasConf = false → ¬s.reader.Ahead s.main.requestedStop s.buffer

theorem step_reader {s t : State} {a : ReaderAct} (h : step s (.reader a) = some t) :
    s.reader.step s.main.requestedStop s.buffer a = some (t.reader, t.buffer) ∧
      t.main = s.main := by
  obtain ⟨next, hnext, rfl⟩ := Option.map_eq_some_iff.mp h
  exact ⟨hnext, rfl⟩

theorem step_main {s t : State} {a : MainAct} (h : step s (.main a) = some t) :
    ∃ main, s.main.step s.reader a = some main ∧ t = { s with main } := by
  obtain ⟨main, hmain, rfl⟩ := Option.map_eq_some_iff.mp h
  exact ⟨main, hmain, rfl⟩

theorem Inv.step {s t : State} {a : Act} (hs : Inv s) (hC : InTime s a)
    (h : step s a = some t) : Inv t := by
  cases a with
  | tryWrite attached =>
    obtain rfl := Option.some.inj h
    cases attached with
    | false => exact hs
    | true =>
      intro hconf hahead
      rcases hahead with hmatched | ⟨-, hlooks⟩
      · exact hs hconf (.inl hmatched)
      · rcases hC with hC | hC
        · exact absurd hconf (by simp [hC])
        · exact absurd hlooks (by simp [hC])
  | reader a =>
    obtain ⟨hnext, hmain⟩ := step_reader h
    intro hconf hahead
    rw [hmain] at hconf hahead
    exact hs hconf (ahead_of_reader_step hnext hahead)
  | main a =>
    obtain ⟨main, hmain, rfl⟩ := step_main h
    intro _ hahead
    rcases main_step_cases hmain with ⟨rfl, hstop⟩ | ⟨hconf, hstop⟩
    · exact hC (hstop ▸ hahead)
    · exact hs hconf (hahead.of_le hstop)

/-- A reader that begins a callback had found a message. -/
theorem valid_of_inv {s t : State} {a : Act} (hs : Inv s) (h : step s a = some t) :
    Valid s a := by
  cases a with
  | tryWrite attached => trivial
  | main a => trivial
  | reader a =>
    cases a with
    | beginCallback =>
      obtain ⟨hnext, -⟩ := step_reader h
      have hmatched : s.reader = .matched := by
        cases hreader : s.reader <;> rw [hreader] at hnext <;> first | rfl | cases hnext
      have hserving : s.main = .serving := by
        by_contra hne
        refine hs ?_ (.inl hmatched)
        cases hmain : s.main <;> first | rfl | exact absurd hmain hne
      rw [Valid, hserving]
      exact ⟨rfl, rfl⟩
    | _ => trivial

/-- **Shutdown.** In every run of clients, reader and `main` in which nothing is ahead of the reader
when the `Config` is destroyed, and no message is written afterwards while the reader looks at the
segment, each callback begins before the `Config` and the callback itself are destroyed. -/
theorem everyStep_valid (leftover : Bool) (acts : List Act)
    (hinTime : Transition.EveryStep step InTime (init leftover) acts) :
    Transition.EveryStep step Valid (init leftover) acts :=
  Transition.everyStep_of_invariant Inv (fun _ _ _ hs hC h => hs.step hC h)
    (fun _ _ _ hs _ h => valid_of_inv hs h) (fun h => by cases h) hinTime

theorem everyStep_valid_sample : Transition.EveryStep step Valid (init false)
    [.reader (.attach true), .tryWrite true, .reader .testStop, .reader .testByte, .reader .compare,
      .reader .beginCallback, .main .destroyConf, .reader .endCallback, .tryWrite true,
      .reader .clear, .main .destroyCallback, .main .requestStop, .reader .testStop, .main .join] :=
  everyStep_valid false _ <|
    .cons rfl trivial <| .cons rfl (.inl rfl) <| .cons rfl trivial <| .cons rfl trivial <|
    .cons rfl trivial <| .cons rfl trivial <|
    .cons rfl (by rintro (h | ⟨-, h⟩) <;> cases h) <| .cons rfl trivial <|
    .cons rfl (.inr rfl) <| .cons rfl trivial <| .cons rfl trivial <| .cons rfl trivial <|
    .cons rfl trivial <| .cons rfl trivial trivial

/-- The message arrives after the `Config` is gone, and before the reader is asked to stop. -/
theorem not_forall_everyStep_valid :
    ¬∀ leftover acts, Transition.EveryStep step Valid (init leftover) acts := by
  intro h
  have hvalid := Transition.everyStep_iff.mp (h false [.reader (.attach true), .main .destroyConf,
    .tryWrite true, .reader .testStop, .reader .testByte, .reader .compare,
    .reader .beginCallback]) [.reader (.attach true), .main .destroyConf, .tryWrite true,
    .reader .testStop, .reader .testByte, .reader .compare] _ _ _ _ rfl rfl rfl
  exact Bool.false_ne_true hvalid.1

/-! ### Late callbacks -/

/-- The reader can go on to a callback that is too late. -/
def Late (s : State) : Prop := ∃ acts, ¬Transition.EveryStep step Valid s acts

theorem Late.of_step {s t : State} {a : Act} (ht : Late t) (h : step s a = some t) : Late s := by
  obtain ⟨acts, hacts⟩ := ht
  exact ⟨a :: acts, fun hall => hacts (hall t h).2⟩

theorem late_of_matched {buffer : Buffer} {main : Main} (hmain : main.hasConf = false) :
    Late ⟨buffer, .matched, main⟩ := by
  refine ⟨[.reader .beginCallback], fun hall => ?_⟩
  have hconf : main.hasConf = true := (hall _ rfl).1.1
  rw [hmain] at hconf
  cases hconf

theorem late_of_comparing {buffer : Buffer} {main : Main} (hmain : main.hasConf = false)
    (hview : stringView buffer = reload) : Late ⟨buffer, .comparing, main⟩ :=
  (late_of_matched hmain).of_step (a := .reader .compare)
    (by simp only [step, Reader.step, if_pos hview]; rfl)

theorem late_of_testing {buffer : Buffer} {main : Main} (hmain : main.hasConf = false)
    (hview : stringView buffer = reload) : Late ⟨buffer, .testing, main⟩ := by
  have hcomparing := late_of_comparing hmain hview
  have hsleeping : Late ⟨buffer, .sleeping, main⟩ := hcomparing.of_step (a := .reader .wake) rfl
  by_cases hfirst : buffer.head? = some 0
  · exact hsleeping.of_step (a := .reader .testByte)
      (by simp only [step, Reader.step, if_pos hfirst]; rfl)
  · exact hcomparing.of_step (a := .reader .testByte)
      (by simp only [step, Reader.step, if_neg hfirst]; rfl)

/-- A message ahead of the reader leads to a callback. -/
theorem late_of_ahead {s : State} (hmain : s.main.hasConf = false)
    (hahead : s.reader.Ahead s.main.requestedStop s.buffer) : Late s := by
  obtain ⟨buffer, reader, main⟩ := s
  rcases hahead with rfl | ⟨hview, hlooks⟩
  · exact late_of_matched hmain
  have htesting := late_of_testing hmain hview
  have hhead : main.requestedStop = false → Late ⟨buffer, .head, main⟩ := fun hstop =>
    htesting.of_step (a := .reader .testStop) (by simp [step, Reader.step, hstop])
  cases reader with
  | attaching =>
    exact (hhead (by simpa [Reader.looks] using hlooks)).of_step (a := .reader (.attach true)) rfl
  | head => exact hhead (by simpa [Reader.looks] using hlooks)
  | testing => exact htesting
  | sleeping => exact (late_of_comparing hmain hview).of_step (a := .reader .wake) rfl
  | comparing => exact late_of_comparing hmain hview
  | _ => cases hlooks

theorem clean_step {s t : State} {a : Act} (hs : Clean s.buffer) (h : step s a = some t) :
    Clean t.buffer := by
  cases a with
  | tryWrite attached =>
    obtain rfl := Option.some.inj h
    exact hs.tryWrite attached
  | reader a => exact hs.reader_step (step_reader h).1
  | main a =>
    obtain ⟨main, -, rfl⟩ := step_main h
    exact hs

/-- The condition is exact: a run that does not meet it can go on to a callback that begins after
the `Config` is destroyed. -/
theorem late_of_not_inTime {leftover : Bool} {acts : List Act} {s t : State} {a : Act}
    (hrun : Transition.run step (init leftover) acts = some s) (h : step s a = some t)
    (hnot : ¬InTime s a) : Late t := by
  have hclean : Clean s.buffer := Transition.run_invariant (fun s => Clean s.buffer)
    (fun _ _ _ _ hs h => clean_step hs h) (clean_leftover leftover) hrun
  cases a with
  | reader a => exact absurd trivial hnot
  | tryWrite attached =>
    cases attached with
    | false => exact absurd trivial hnot
    | true =>
      obtain rfl := Option.some.inj h
      rw [InTime, not_or, Bool.not_eq_true, Bool.not_eq_false] at hnot
      refine late_of_ahead hnot.1 (.inr ⟨?_, hnot.2⟩)
      show stringView (copyN reload s.buffer) = reload
      rw [hclean.copyN, stringView_requested]
  | main a =>
    obtain ⟨main, hmain, rfl⟩ := step_main h
    cases a with
    | destroyConf =>
      rw [InTime, not_not] at hnot
      cases hserving : s.main <;> rw [hserving] at hmain <;> cases hmain
      rw [hserving] at hnot
      exact late_of_ahead rfl hnot
    | _ => exact absurd trivial hnot

end Shutdown

end Singleton

end AnanicyCpp
