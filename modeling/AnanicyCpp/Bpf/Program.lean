import AnanicyCpp.Library.Pool
import AnanicyCpp.Library.Transition
import Mathlib.Tactic.ByContra

/-!
# The BPF program

A `BPFProgram` holds a BPF object and a perf buffer. `initialize` goes through four calls that can
fail, and on failure destroys what it has, but goes on with a null object to the creation of the
buffer, and keeps the handle of an object that it has destroyed. As soon as one of the four calls
fails, the program is used wrongly, or its handles are left dangling; as long as all of them
succeed, every call that a `ProcessQueue` makes is sound (`Bpf.everyStep_sound_iff`).

## Main definitions

* `Bpf.Libbpf`, `Bpf.Outcome` : the objects and buffers of the library, and the outcomes of the
  calls that can fail.
* `Bpf.BPFProgram.initializeProgram`, `Bpf.BPFProgram.destroy`, `Bpf.BPFProgram.poolEvent` : the
  calls.
* `Bpf.step` : the calls in the order in which a `ProcessQueue` makes them.
* `Bpf.Sound` : a step misuses nothing, and leaves no handle where it says that it has failed.

## Main results

* `Bpf.everyStep_sound_iff` : the runs in which every step is sound.
-/

namespace AnanicyCpp

namespace Bpf

/-! ### The library -/

/-- The BPF objects and the perf buffers. -/
structure Libbpf where
  objects : Pool
  buffers : Pool

/-- Something was used or released that was not there. -/
def Libbpf.misused (lib : Libbpf) : Bool := lib.objects.misused || lib.buffers.misused

/-- Whether opening, loading and attaching succeed, and creating the perf buffer. -/
structure Outcome where
  opened : Bool
  loaded : Bool
  attached : Bool
  created : Bool
deriving DecidableEq

/-- `ananicy_cpp_ng_bpf__destroy`; a null object is left alone. -/
def destroyObject : Option ℕ → Libbpf → Libbpf
  | none, lib => lib
  | some obj, lib => { lib with objects := lib.objects.release obj }

/-- `perf_buffer__free`; a null buffer is left alone. -/
def freeBuffer : Option ℕ → Libbpf → Libbpf
  | none, lib => lib
  | some pb, lib => { lib with buffers := lib.buffers.release pb }

/-- `initialize_bpf_program` -/
def initializeBpfProgram (outcome : Outcome) (lib : Libbpf) : Option ℕ × Libbpf :=
  if !outcome.opened then (none, lib)
  else
    let (obj, objects) := lib.objects.obtain
    -- the filtering options are set, and the object is loaded
    let lib := { lib with objects := objects.use obj }
    if !outcome.loaded then (none, destroyObject (some obj) lib)
    else
      let lib := { lib with objects := lib.objects.use obj }
      if !outcome.attached then (none, destroyObject (some obj) lib)
      else (some obj, lib)

/-- `destroy_bpf_program` -/
def destroyBpfProgram (obj pb : Option ℕ) (lib : Libbpf) : Libbpf :=
  destroyObject obj (freeBuffer pb lib)

/-- `bpf_program_init_events`, which reads the map of the object. -/
def bpfProgramInitEvents (created : Bool) : Option ℕ → Libbpf → Option ℕ × Libbpf
  | none, lib => (none, { lib with objects := lib.objects.useNull })
  | some obj, lib =>
      let lib := { lib with objects := lib.objects.use obj }
      if created then
        let (pb, buffers) := lib.buffers.obtain
        (some pb, { lib with buffers })
      else (none, lib)

/-- `perf_buffer__poll` -/
def pollBuffer : Option ℕ → Libbpf → Libbpf
  | none, lib => { lib with buffers := lib.buffers.useNull }
  | some pb, lib => { lib with buffers := lib.buffers.use pb }

/-! ### The program -/

/-- The two handles. -/
structure BPFProgram where
  bpfProgram : Option ℕ
  perfBuffer : Option ℕ
deriving DecidableEq

namespace BPFProgram

def null : BPFProgram := ⟨none, none⟩

/-- `initialize` -/
def initializeProgram (outcome : Outcome) (program : BPFProgram) (lib : Libbpf) :
    Bool × BPFProgram × Libbpf :=
  if program.bpfProgram ≠ none ∨ program.perfBuffer ≠ none then (false, program, lib)
  else
    let (bpfProgram, lib) := initializeBpfProgram outcome lib
    let (perfBuffer, lib) := bpfProgramInitEvents outcome.created bpfProgram lib
    if bpfProgram = none ∨ perfBuffer = none then
      (false, ⟨bpfProgram, perfBuffer⟩, destroyBpfProgram bpfProgram perfBuffer lib)
    else (true, ⟨bpfProgram, perfBuffer⟩, lib)

def destroy (program : BPFProgram) (lib : Libbpf) : BPFProgram × Libbpf :=
  (null, destroyBpfProgram program.bpfProgram program.perfBuffer lib)

def poolEvent (program : BPFProgram) (lib : Libbpf) : Libbpf := pollBuffer program.perfBuffer lib

end BPFProgram

/-! ### The process queue -/

/-- What a `ProcessQueue` does with its program: the constructor initialises it, `start` runs a loop
that polls, and that destroys and initialises it again after an error, and `stop` destroys it when
the loop has ended. The first `stop` of a queue that was not started does not come so far. -/
inductive Phase where
  | constructing
  | constructed
  | looping
  | restarting
  | stopped
deriving DecidableEq

structure State where
  phase : Phase
  program : BPFProgram
  lib : Libbpf

def init : State := ⟨.constructing, .null, ⟨.empty, .empty⟩⟩

inductive Act where
  | initializeProgram (outcome : Outcome)
  | start
  | poolEvent
  | restart
  | stop
deriving DecidableEq

def State.initializeProgram (s : State) (outcome : Outcome) (phase : Phase) : State :=
  let (_, program, lib) := s.program.initializeProgram outcome s.lib
  ⟨phase, program, lib⟩

def State.destroy (s : State) (phase : Phase) : State :=
  let (program, lib) := s.program.destroy s.lib
  ⟨phase, program, lib⟩

def step (s : State) : Act → Option State
  | .initializeProgram outcome =>
      match s.phase with
      | .constructing => some (s.initializeProgram outcome .constructed)
      | .restarting => some (s.initializeProgram outcome .looping)
      | _ => none
  | .start =>
      match s.phase with
      | .constructed => some { s with phase := .looping }
      | _ => none
  | .poolEvent =>
      match s.phase with
      | .looping => some { s with lib := s.program.poolEvent s.lib }
      | _ => none
  | .restart =>
      match s.phase with
      | .looping => some (s.destroy .restarting)
      | _ => none
  | .stop =>
      match s.phase with
      | .looping | .stopped => some (s.destroy .stopped)
      | _ => none

/-- Neither handle belongs to something that is there. -/
def State.FoundNone (s : State) : Prop :=
  (∀ obj, s.program.bpfProgram = some obj → s.lib.objects.live obj = false) ∧
    ∀ pb, s.program.perfBuffer = some pb → s.lib.buffers.live pb = false

/-- After the step nothing was misused, and if it was an `initialize` that found nothing and failed,
both handles are null. -/
def Sound (s : State) (a : Act) : Prop :=
  ∀ t, step s a = some t → t.lib.misused = false ∧
    ∀ outcome, a = .initializeProgram outcome →
      (s.program.initializeProgram outcome s.lib).1 = false → s.FoundNone → t.program = .null

/-- None of the four calls fails. -/
def Outcome.succeeds (outcome : Outcome) : Bool :=
  outcome.opened && outcome.loaded && outcome.attached && outcome.created

/-- Every initialisation succeeds. -/
def Succeeds (_ : State) : Act → Prop
  | .initializeProgram outcome => outcome.succeeds = true
  | _ => True

/-! ### One initialisation -/

/-- The object is there when its program was opened, loaded and attached. -/
theorem initializeBpfProgram_of_succeeds {outcome : Outcome} (lib : Libbpf)
    (h : outcome.succeeds = true) :
    initializeBpfProgram outcome lib =
      (some lib.objects.next, { lib with objects := lib.objects.obtain.2 }) := by
  obtain ⟨opened, loaded, attached, created⟩ := outcome
  simp only [Outcome.succeeds, Bool.and_eq_true] at h
  obtain ⟨⟨⟨rfl, rfl⟩, rfl⟩, rfl⟩ := h
  simp [initializeBpfProgram, Pool.obtain, Pool.use]

/-- When all calls succeed, both handles belong to something that is there. -/
theorem initializeProgram_of_succeeds {outcome : Outcome} (lib : Libbpf)
    (h : outcome.succeeds = true) :
    ∃ obj pb lib', BPFProgram.null.initializeProgram outcome lib =
      (true, ⟨some obj, some pb⟩, lib') ∧ lib'.misused = lib.misused ∧
      lib'.objects.live obj = true ∧ lib'.buffers.live pb = true := by
  have hcreated : outcome.created = true := by
    rw [Outcome.succeeds, Bool.and_eq_true] at h
    exact h.2
  have huse : lib.objects.obtain.2.use lib.objects.next = lib.objects.obtain.2 :=
    Pool.use_of_live Pool.live_obtain_self
  refine ⟨lib.objects.next, lib.buffers.next, ⟨lib.objects.obtain.2, lib.buffers.obtain.2⟩, ?_, rfl,
    Pool.live_obtain_self, Pool.live_obtain_self⟩
  simp only [BPFProgram.initializeProgram, BPFProgram.null, initializeBpfProgram_of_succeeds lib h,
    bpfProgramInitEvents, huse, hcreated]
  simp [Pool.obtain]

/-- A call that fails leaves a null object to the creation of the buffer, or a dangling handle. -/
theorem initializeProgram_of_not_succeeds {outcome : Outcome} (lib : Libbpf)
    (h : outcome.succeeds = false) :
    (BPFProgram.null.initializeProgram outcome lib).2.2.misused = true ∨
      (BPFProgram.null.initializeProgram outcome lib).1 = false ∧
        (BPFProgram.null.initializeProgram outcome lib).2.1 ≠ .null := by
  obtain ⟨opened, loaded, attached, created⟩ := outcome
  cases opened with
  | false => exact .inl rfl
  | true =>
    cases loaded with
    | false => exact .inl rfl
    | true =>
      cases attached with
      | false => exact .inl rfl
      | true =>
        cases created with
        | false =>
          refine .inr ⟨rfl, ?_⟩
          simp [BPFProgram.initializeProgram, BPFProgram.null, initializeBpfProgram,
            bpfProgramInitEvents]
        | true => cases h

/-! ### Whole runs -/

/-- Both handles belong to something that is there. -/
def State.Ready (s : State) : Prop :=
  ∃ obj pb, s.program = ⟨some obj, some pb⟩ ∧ s.lib.objects.live obj = true ∧
    s.lib.buffers.live pb = true

/-- The program is ready between its initialisation and its destruction, and null otherwise. -/
structure Inv (s : State) : Prop where
  misused : s.lib.misused = false
  ready : s.phase = .constructed ∨ s.phase = .looping → s.Ready
  null : s.phase = .constructing ∨ s.phase = .restarting ∨ s.phase = .stopped → s.program = .null

theorem inv_init : Inv init where
  misused := rfl
  ready h := by rcases h with h | h <;> cases h
  null _ := rfl

/-- The destruction of a program that is ready releases what is there. -/
theorem State.Ready.destroy {s : State} (h : s.Ready) (hs : s.lib.misused = false) (phase : Phase) :
    (s.destroy phase).lib.misused = false ∧ (s.destroy phase).program = .null := by
  obtain ⟨obj, pb, hprogram, hobj, hpb⟩ := h
  refine ⟨?_, rfl⟩
  rw [Libbpf.misused, Bool.or_eq_false_iff] at hs
  simp only [State.destroy, BPFProgram.destroy, destroyBpfProgram, hprogram, freeBuffer,
    destroyObject, Libbpf.misused, Pool.misused_release hobj, Pool.misused_release hpb, hs.1, hs.2,
    Bool.or_self]

theorem Inv.initializeProgram {s : State} (hs : Inv s) (hnull : s.program = .null)
    {outcome : Outcome} (h : outcome.succeeds = true) {phase : Phase}
    (hphase : phase = .constructed ∨ phase = .looping) :
    Inv (s.initializeProgram outcome phase) := by
  obtain ⟨obj, pb, lib', hresult, hmisused, hobj, hpb⟩ := initializeProgram_of_succeeds s.lib h
  have hstate : s.initializeProgram outcome phase = ⟨phase, ⟨some obj, some pb⟩, lib'⟩ := by
    rw [State.initializeProgram, hnull, hresult]
  rw [hstate]
  refine ⟨hmisused.trans hs.misused, fun _ => ⟨obj, pb, rfl, hobj, hpb⟩, fun h => ?_⟩
  rcases hphase with rfl | rfl <;> rcases h with h | h | h <;> cases h

/-- An initialisation finds null handles. -/
theorem Inv.step_initializeProgram {s t : State} {outcome : Outcome} (hs : Inv s)
    (h : step s (.initializeProgram outcome) = some t) :
    s.program = .null ∧ ∃ phase, (phase = .constructed ∨ phase = .looping) ∧
      t = s.initializeProgram outcome phase := by
  simp only [step] at h
  split at h
  · next hphase =>
    exact ⟨hs.null (.inl hphase), _, .inl rfl, (Option.some.inj h).symm⟩
  · next hphase =>
    exact ⟨hs.null (.inr (.inl hphase)), _, .inr rfl, (Option.some.inj h).symm⟩
  · cases h

theorem Inv.poolEvent {s : State} (hs : Inv s) (hphase : s.phase = .looping) :
    s.program.poolEvent s.lib = s.lib := by
  obtain ⟨obj, pb, hprogram, -, hpb⟩ := hs.ready (.inr hphase)
  rw [BPFProgram.poolEvent, hprogram, pollBuffer, Pool.use_of_live hpb]

theorem Inv.step {s t : State} {a : Act} (hs : Inv s) (hC : Succeeds s a)
    (h : step s a = some t) : Inv t := by
  cases a with
  | initializeProgram outcome =>
    obtain ⟨hnull, phase, hphase, rfl⟩ := hs.step_initializeProgram h
    exact hs.initializeProgram hnull hC hphase
  | start =>
    simp only [Bpf.step] at h
    split at h
    · next hphase =>
      obtain rfl := Option.some.inj h
      exact ⟨hs.misused, fun _ => hs.ready (.inl hphase),
        fun h => by rcases h with h | h | h <;> cases h⟩
    · cases h
  | poolEvent =>
    simp only [Bpf.step] at h
    split at h
    · next hphase =>
      obtain rfl := Option.some.inj h
      rw [hs.poolEvent hphase]
      exact hs
    · cases h
  | restart =>
    simp only [Bpf.step] at h
    split at h
    · next hphase =>
      obtain rfl := Option.some.inj h
      obtain ⟨hmisused, hnull⟩ := (hs.ready (.inr hphase)).destroy hs.misused .restarting
      exact ⟨hmisused, fun h => (by rcases h with h | h <;> cases h), fun _ => hnull⟩
    · cases h
  | stop =>
    simp only [Bpf.step] at h
    split at h
    · next hphase =>
      obtain rfl := Option.some.inj h
      obtain ⟨hmisused, hnull⟩ := (hs.ready (.inr hphase)).destroy hs.misused .stopped
      exact ⟨hmisused, fun h => (by rcases h with h | h <;> cases h), fun _ => hnull⟩
    · next hphase =>
      obtain rfl := Option.some.inj h
      have hnull := hs.null (.inr (.inr hphase))
      refine ⟨?_, fun h => (by rcases h with h | h <;> cases h), fun _ => rfl⟩
      rw [State.destroy, hnull]
      exact hs.misused
    · cases h

/-- What an initialisation that succeeds does is sound. -/
theorem sound_of_succeeds {s t : State} {a : Act} (hs : Inv s) (hC : Succeeds s a)
    (h : step s a = some t) : Sound s a := by
  intro t' ht'
  obtain rfl : t = t' := Option.some.inj (h.symm.trans ht')
  refine ⟨(hs.step hC h).misused, ?_⟩
  rintro outcome rfl hfalse -
  obtain ⟨hnull, -⟩ := hs.step_initializeProgram h
  obtain ⟨obj, pb, lib', hresult, -⟩ := initializeProgram_of_succeeds s.lib hC
  rw [hnull, hresult] at hfalse
  cases hfalse

/-- What an initialisation that fails does is not. -/
theorem succeeds_of_sound {s t : State} {a : Act} (hs : Inv s) (hD : Sound s a)
    (h : step s a = some t) : Succeeds s a := by
  cases a with
  | initializeProgram outcome =>
    obtain ⟨hnull, phase, -, rfl⟩ := hs.step_initializeProgram h
    obtain ⟨hmisused, hhandles⟩ := hD _ h
    by_contra hfails
    rcases initializeProgram_of_not_succeeds s.lib (Bool.not_eq_true _ ▸ hfails) with
      hbad | ⟨hfalse, hdangling⟩
    · rw [← hnull] at hbad
      exact absurd (hbad.symm.trans hmisused) Bool.noConfusion
    · rw [← hnull] at hfalse hdangling
      have hfound : s.FoundNone := by
        refine ⟨fun obj hobj => ?_, fun pb hpb => ?_⟩
        · rw [hnull] at hobj
          cases hobj
        · rw [hnull] at hpb
          cases hpb
      exact hdangling ((hhandles outcome rfl hfalse hfound).trans hnull.symm)
  | _ => trivial

/-- **The BPF program.** In every run of a process queue, nothing is released twice or used after
its release, no null object or buffer is used, and an initialisation that fails leaves null handles,
if and only if opening, loading, attaching and creating the buffer succeed in every
initialisation. -/
theorem everyStep_sound_iff (acts : List Act) :
    Transition.EveryStep step Sound init acts ↔ Transition.EveryStep step Succeeds init acts := by
  constructor
  · exact Transition.everyStep_of_invariant Inv
      (fun _ _ _ hs hD h => hs.step (succeeds_of_sound hs hD h) h)
      (fun _ _ _ hs hD h => succeeds_of_sound hs hD h) inv_init
  · exact Transition.everyStep_of_invariant Inv (fun _ _ _ hs hC h => hs.step hC h)
      (fun _ _ _ hs hC h => sound_of_succeeds hs hC h) inv_init

/-- After a restart without a perf buffer, the loop polls a null buffer. -/
theorem not_forall_everyStep_sound : ¬∀ acts, Transition.EveryStep step Sound init acts := by
  intro h
  have hsound := Transition.everyStep_iff.mp (h [.initializeProgram ⟨true, true, true, true⟩,
    .start, .restart, .initializeProgram ⟨true, true, true, false⟩, .poolEvent])
    [.initializeProgram ⟨true, true, true, true⟩, .start, .restart,
      .initializeProgram ⟨true, true, true, false⟩] _ _ _ _ rfl rfl rfl
  exact Bool.noConfusion (hsound _ rfl).1

end Bpf

end AnanicyCpp
