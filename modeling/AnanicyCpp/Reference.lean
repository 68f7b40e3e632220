import AnanicyCpp.Priority

/-!
# A reference platform

A platform that does what it is asked: every call succeeds and stores its arguments, except that
`sched_setscheduler` refuses a realtime policy without a positive priority, and another policy with
a priority, as the kernel does. It satisfies the laws that the results about the worker assume, and
the results that say what can go wrong take their runs from it.

## Main definitions

* `Platform.reference` : the platform, for given lists of threads.

## Main results

* `Platform.lawful_reference` : it changes only what its calls name.
-/

namespace AnanicyCpp

/-- The realtime policies. -/
def realtimePolicies : List Int32 := [Priority.schedFifo, Priority.schedRr]

/-- The file name of a thread id; a negative one is listed as `0`. -/
def taskName (tid : Pid) : Text := Nat.toDigits 10 tid.toNatClampNeg

/-- A file name reads back as the thread id, or as none. -/
theorem toInt32_taskName (tid : Pid) :
    Text.toInt32 (taskName tid) = if 0 < tid then tid else 0 := by
  rw [taskName, Text.toInt32_toDigits tid.toNatClampNeg_lt]
  split_ifs with htid
  · exact Int32.ofNat_toNatClampNeg tid (Int32.le_of_lt htid)
  · have hle : tid.toInt ≤ 0 := by
      rw [Int32.lt_iff_toInt_lt] at htid
      exact not_lt.mp htid
    rw [← Int32.toNat_toInt, Int.toNat_of_nonpos hle]
    rfl

namespace Platform

/-- The platform on which the calls succeed, over the attributes. -/
def reference (tasks : Pid → List Pid) : Platform Attributes where
  syscall
    | .setpriority who prio => fun a =>
        (0, a.withThread who.toInt32 { a.thread who.toInt32 with nice := prio })
    | .schedSetattr pid attr _ => fun a =>
        (0, a.withThread pid { a.thread pid with
          latencyNice := attr.schedLatencyNice
          nice := if attr.keepsParams then (a.thread pid).nice else attr.schedNice
          rtPriority := if attr.keepsParams then (a.thread pid).rtPriority else attr.schedPriority
          policy := if attr.keepsPolicy then (a.thread pid).policy else attr.schedPolicy })
    | .schedSetscheduler pid policy prio => fun a =>
        if if policy ∈ realtimePolicies then 0 < prio else prio = 0 then
          (0, a.withThread pid { a.thread pid with
            policy := policy.toUInt32, rtPriority := prio.toUInt32 })
        else (Errno.einval, a)
    | .ioprioSet who ioPrio => fun a =>
        (0, a.withThread who.toInt32 { a.thread who.toInt32 with ioPrio })
    | .writeOomScoreAdj pid value => fun a =>
        (0, { a with oomScoreAdj := Function.update a.oomScoreAdj pid value })
  taskDir pid _ := ⟨(tasks pid).map taskName, false⟩
  opensOomScoreAdj _ _ := true
  schedGetattr pid a := some
    { schedPolicy := (a.thread pid).policy
      schedNice := (a.thread pid).nice
      schedPriority := (a.thread pid).rtPriority
      schedLatencyNice := (a.thread pid).latencyNice }
  defaultSystem a := (0, a)
  callMethod _ a := (0, a)

theorem lawful_reference (tasks : Pid → List Pid) : (reference tasks).Lawful id tasks where
  succeeded call a h := by
    cases call with
    | setpriority who prio => exact .setpriority ..
    | schedSetattr pid attr flags =>
      exact .schedSetattr _ _ _ _ _ _ _ (fun h => if_pos h) (fun h => if_pos h)
    | schedSetscheduler pid policy prio =>
      have hchanges : ∀ b, ((reference tasks).syscall (.schedSetscheduler pid policy prio) a).2 =
          b → Syscall.Changes (.schedSetscheduler pid policy prio) a b := by
        rintro _ rfl
        simp only [reference] at h ⊢
        split_ifs at h ⊢
        · exact .schedSetscheduler ..
        · exact absurd (show Errno.einval = 0 from h) (by decide)
        · exact .schedSetscheduler ..
        · exact absurd (show Errno.einval = 0 from h) (by decide)
      exact hchanges _ rfl
    | ioprioSet who ioPrio => exact .ioprioSet ..
    | writeOomScoreAdj pid value => exact .writeOomScoreAdj ..
  failed call a h := by
    cases call with
    | setpriority who prio => exact absurd rfl h
    | schedSetattr pid attr flags => exact absurd rfl h
    | schedSetscheduler pid policy prio =>
      simp only [reference] at h ⊢
      split_ifs at h ⊢ <;> first | rfl | exact absurd rfl h
    | ioprioSet who ioPrio => exact absurd rfl h
    | writeOomScoreAdj pid value => exact absurd rfl h
  connecting _ := rfl
  calling _ _ := rfl
  listed pid a name hname hpos := by
    obtain ⟨tid, htid, rfl⟩ := List.mem_map.mp hname
    rw [toInt32_taskName] at hpos ⊢
    split_ifs at hpos ⊢ with h
    · exact htid
    · exact absurd hpos (by decide)

end Platform

end AnanicyCpp
