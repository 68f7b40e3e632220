import AnanicyCpp.Library.Word
import AnanicyCpp.Priority

/-!
# The word of an I/O priority

`set_io_priority` shifts the class of the name and puts the level below it without a mask, and it
checks only that the class of the whole word is not `IOPRIO_CLASS_NONE`. A level of more than
thirteen bits, and a negative one, therefore changes the class, and it gives the name `none` a
class.

## Main definitions

* `Kernel.recording` : a kernel with a record of the calls.
* `Priority.ioPriorityCalls` : the calls of `set_io_priority`.
* `Priority.Denotes` : a call passes the class of the name and the level.

## Main results

* `Priority.class_ioprioPrioValue`, `Priority.data_ioprioPrioValue` : the parts of a word.
* `Priority.ioPriority_exact_iff` : when every call passes what it was asked to.
-/

namespace AnanicyCpp

variable {σ : Type}

/-- The kernel, with the calls that set something in the order in which they were made. -/
def Kernel.recording (k : Kernel σ) : Kernel (σ × List Syscall) where
  syscall call s := ((k.syscall call s.1).1, ((k.syscall call s.1).2, s.2 ++ [call]))
  taskDir pid s := k.taskDir pid s.1
  opensOomScoreAdj pid s := k.opensOomScoreAdj pid s.1
  schedGetattr pid s := k.schedGetattr pid s.1

namespace Priority

open Word

/-! ### The parts of a word -/

theorem class_ioprioPrioValue {cls : Int32} (hcls : (cls <<< 13) >>> 13 = cls) (level : Int32) :
    ioprioPrioClass (ioprioPrioValue cls level) = cls ||| ioprioPrioClass level :=
  (or_shiftRight ..).trans (congrArg (· ||| ioprioPrioClass level) hcls)

theorem data_ioprioPrioValue {cls : Int32} (hcls : (cls <<< 13) &&& 0x1FFF = 0) (level : Int32) :
    ioprioPrioData (ioprioPrioValue cls level) = ioprioPrioData level := by
  rw [ioprioPrioData, ioprioPrioValue, or_and, hcls, Int32.zero_or, ioprioPrioData]

/-- The bits above the thirteenth. -/
theorem ioprioPrioClass_eq_iff (level n : Int32) :
    ioprioPrioClass level = n ↔ level.toInt / 2 ^ 13 = n.toInt := by
  rw [← Int32.toInt_inj]
  exact (congrArg (· = n.toInt) (toInt_shiftRight level)).to_iff

/-- A level of thirteen bits has nothing above them. -/
theorem ioprioPrioClass_eq_zero_iff (level : Int32) :
    ioprioPrioClass level = 0 ↔ 0 ≤ level.toInt ∧ level.toInt < 2 ^ 13 := by
  rw [ioprioPrioClass_eq_iff, Int32.toInt_zero]
  omega

/-- A level of thirteen bits is all that is below the class. -/
theorem ioprioPrioData_eq_self_iff (level : Int32) :
    ioprioPrioData level = level ↔ 0 ≤ level.toInt ∧ level.toInt < 2 ^ 13 := by
  have hlow : (ioprioPrioData level).toInt = level.toInt % 2 ^ 13 := toInt_and_low level
  rw [← Int32.toInt_inj, hlow]
  omega

theorem ioClassValue_cases {ioClass : String} {cls : Int32} (h : ioClassValue ioClass = some cls) :
    (ioClass = "best-effort" ∧ cls = ioprioClassBe) ∨ (ioClass = "realtime" ∧ cls = ioprioClassRt) ∨
      (ioClass = "idle" ∧ cls = ioprioClassIdle) ∨ (ioClass = "none" ∧ cls = ioprioClassNone) := by
  unfold ioClassValue at h
  split_ifs at h with hbe hrt hidle hnone <;> obtain rfl := Option.some.inj h
  · exact Or.inl ⟨hbe, rfl⟩
  · exact Or.inr (Or.inl ⟨hrt, rfl⟩)
  · exact Or.inr (Or.inr (Or.inl ⟨hidle, rfl⟩))
  · exact Or.inr (Or.inr (Or.inr ⟨hnone, rfl⟩))

/-- A class is read back from its place in the word, and leaves the low bits alone. -/
theorem shift_ioClassValue {ioClass : String} {cls : Int32}
    (h : ioClassValue ioClass = some cls) :
    (cls <<< 13) >>> 13 = cls ∧ (cls <<< 13) &&& 0x1FFF = 0 := by
  rcases ioClassValue_cases h with ⟨-, rfl⟩ | ⟨-, rfl⟩ | ⟨-, rfl⟩ | ⟨-, rfl⟩ <;> decide

/-! ### The calls -/

/-- The calls that `set_io_priority` makes on a kernel. -/
def ioPriorityCalls (k : Kernel σ) (pid : Pid) (ioClass : String) (level : Int32) (s : σ) :
    List Syscall :=
  (setIoPriority k.recording pid ioClass level (s, [])).2.2

theorem ioPriorityCalls_eq (k : Kernel σ) (pid : Pid) (ioClass : String) (level : Int32) (s : σ) :
    ioPriorityCalls k pid ioClass level s =
      (ioPrioRequest ioClass level).toList.map (Syscall.ioprioSet pid.toUInt32) := by
  rw [ioPriorityCalls, setIoPriority]
  cases ioPrioRequest ioClass level <;> rfl

/-- The call is `ioprio_set` for the process, and its word has the class of the name and the
level. -/
def Denotes (pid : Pid) (ioClass : String) (level : Int32) (call : Syscall) : Prop :=
  ∃ word, call = .ioprioSet pid.toUInt32 word ∧
    ioClassValue ioClass = some (ioprioPrioClass word) ∧ ioprioPrioData word = level

/-- The request says which calls are made. -/
theorem forall_calls_denote_iff (k : Kernel σ) (pid : Pid) (ioClass : String) (level : Int32)
    (s : σ) :
    (∀ call ∈ ioPriorityCalls k pid ioClass level s, Denotes pid ioClass level call) ↔
      ∀ word, ioPrioRequest ioClass level = some word →
        ioClassValue ioClass = some (ioprioPrioClass word) ∧ ioprioPrioData word = level := by
  rw [ioPriorityCalls_eq]
  simp only [List.forall_mem_map, Option.mem_toList]
  refine forall₂_congr fun word _ => ⟨?_, fun h => ⟨word, rfl, h⟩⟩
  rintro ⟨word', hcall, h⟩
  obtain ⟨-, rfl⟩ := Syscall.ioprioSet.inj hcall
  exact h

/-- **When the call says what was asked.** For every name and every level, each call that
`set_io_priority` makes passes the class of the name and the level exactly when the name is no
class, in which case there is no call, or the level has thirteen bits. With such a level the name
`none` makes no call either. -/
theorem ioPriority_exact_iff (k : Kernel σ) (pid : Pid) (ioClass : String) (level : Int32) (s : σ) :
    (∀ call ∈ ioPriorityCalls k pid ioClass level s, Denotes pid ioClass level call) ↔
      ioClassValue ioClass = none ∨ (0 ≤ level.toInt ∧ level.toInt < 2 ^ 13) := by
  rw [forall_calls_denote_iff]
  cases hname : ioClassValue ioClass with
  | none => simp [ioPrioRequest, hname]
  | some cls =>
    obtain ⟨hclass, hlow⟩ := shift_ioClassValue hname
    have hword := class_ioprioPrioValue hclass level
    have hdata := data_ioprioPrioValue hlow level
    rw [ioPrioRequest, hname]
    simp only [reduceCtorEq, false_or]
    constructor
    · intro h
      by_cases hvalid : ioprioValid (ioprioPrioValue cls level)
      · have hexact := (h _ (if_pos hvalid)).2
        exact (ioprioPrioData_eq_self_iff level).mp (hdata ▸ hexact)
      · -- no call: class and level are both zero above the thirteenth bit
        have hnone : cls ||| ioprioPrioClass level = 0 := by
          simpa [ioprioValid, hword, ioprioClassNone] using hvalid
        exact (ioprioPrioClass_eq_zero_iff level).mp (Int32.or_eq_zero_iff.mp hnone).2
    · intro hlevel word hrequest
      split_ifs at hrequest
      obtain rfl := Option.some.inj hrequest
      rw [hword, hdata, (ioprioPrioClass_eq_zero_iff level).mpr hlevel,
        (ioprioPrioData_eq_self_iff level).mpr hlevel, Int32.or_zero]
      exact ⟨rfl, rfl⟩

/-- The level `8192` of the class best-effort is the class idle. -/
theorem not_forall_ioPriority_exact :
    ¬ ∀ (k : Kernel Unit) (pid : Pid) (ioClass : String) (level : Int32),
      ∀ call ∈ ioPriorityCalls k pid ioClass level (), Denotes pid ioClass level call := by
  intro h
  have hcalls := (forall_calls_denote_iff _ _ _ _ _).mp
    (h ⟨fun _ s => (0, s), fun _ _ => ⟨[], false⟩, fun _ _ => true, fun _ _ => none⟩ 1 "best-effort"
      8192)
  exact absurd (hcalls 0x6000 (by decide)).1 (by decide)

end Priority

end AnanicyCpp
