import AnanicyCpp.Library.Overwrite
import AnanicyCpp.Priority.TaskOrder
import AnanicyCpp.Reference

/-!
# Kernels whose answers depend on the call only

A kernel may answer a call in a way that depends on everything that has happened. Here it does not:
each call has one outcome, stores one change of the attributes, and finds the threads of a process
unchanged (`Platform.Responds`). Such a kernel is followed by a platform without attributes, which
only records the changes it is asked for (`Platform.recording`, `Platform.Responds.simulates`).

## Main definitions

* `Attr`, `Attributes.get` : the attributes by their names.
* `Responses`, `Platform.Responds` : a kernel whose answers depend on the call only.
* `Platform.recording` : the platform that records.
* `Kernel.Simulates` : kernels that answer alike.
* `Responses.reference` : the responses of the reference platform.

## Main results

* `Platform.Responds.simulates` : the recording platform follows.
* `responds_reference` : the reference platform responds in this way.
-/

namespace AnanicyCpp

variable {σ τ : Type}

/-! ### Attributes by name -/

/-- The name of an attribute. -/
inductive Attr where
  | nice (tid : Pid)
  | latencyNice (tid : Pid)
  | policy (tid : Pid)
  | rtPriority (tid : Pid)
  | ioPrio (tid : Pid)
  | oomScoreAdj (pid : Pid)
deriving DecidableEq

namespace Attr

def Value : Attr → Type
  | policy _ | rtPriority _ => UInt32
  | _ => Int32

/-- The thread or process that has the attribute. -/
def holder : Attr → Pid
  | nice tid | latencyNice tid | policy tid | rtPriority tid | ioPrio tid | oomScoreAdj tid => tid

end Attr

def Attributes.get (a : Attributes) : ∀ attr : Attr, attr.Value
  | .nice tid => (a.thread tid).nice
  | .latencyNice tid => (a.thread tid).latencyNice
  | .policy tid => (a.thread tid).policy
  | .rtPriority tid => (a.thread tid).rtPriority
  | .ioPrio tid => (a.thread tid).ioPrio
  | .oomScoreAdj pid => a.oomScoreAdj pid

theorem Attributes.get_injective : Function.Injective Attributes.get := by
  intro a b h
  ext1
  · funext tid
    have hnice : (a.thread tid).nice = (b.thread tid).nice := congrFun h (.nice tid)
    have hlatencyNice : (a.thread tid).latencyNice = (b.thread tid).latencyNice :=
      congrFun h (.latencyNice tid)
    have hpolicy : (a.thread tid).policy = (b.thread tid).policy := congrFun h (.policy tid)
    have hrt : (a.thread tid).rtPriority = (b.thread tid).rtPriority := congrFun h (.rtPriority tid)
    have hio : (a.thread tid).ioPrio = (b.thread tid).ioPrio := congrFun h (.ioPrio tid)
    calc a.thread tid = ⟨(a.thread tid).nice, (a.thread tid).latencyNice, (a.thread tid).policy,
          (a.thread tid).rtPriority, (a.thread tid).ioPrio⟩ := rfl
      _ = b.thread tid := by rw [hnice, hlatencyNice, hpolicy, hrt, hio]
  · funext pid
    exact congrFun h (.oomScoreAdj pid)

/-- The thread or process that a call is about. -/
def Syscall.target : Syscall → Pid
  | .setpriority who _ => who.toInt32
  | .schedSetattr pid _ _ => pid
  | .schedSetscheduler pid _ _ => pid
  | .ioprioSet who _ => who.toInt32
  | .writeOomScoreAdj pid _ => pid

/-! ### Answers that depend on the call only -/

/-- The outcome of every call and what it stores, the threads of every process, and whether its file
`oom_score_adj` opens. A call changes only attributes of its target. -/
structure Responses where
  outcome : Syscall → Errno
  stored : Syscall → Overwrite Attr.Value
  tasks : Pid → TaskDir
  opens : Pid → Bool
  holder_stored : ∀ call attr, stored call attr ≠ none → attr.holder = call.target

/-- The platform responds in this way, whatever has happened before; the bus changes no
attributes. -/
structure Platform.Responds (P : Platform σ) (view : σ → Attributes) (R : Responses) : Prop where
  answers : P.toKernel.Answers R.outcome
  stores : ∀ call s, (view (P.syscall call s).2).get = (R.stored call).apply (view s).get
  lists : ∀ pid s, P.taskDir pid s = R.tasks pid
  opens : ∀ pid s, P.opensOomScoreAdj pid s = R.opens pid
  connecting : ∀ s, view (P.defaultSystem s).2 = view s
  calling : ∀ request s, view (P.callMethod request s).2 = view s

/-- The platform that records what is asked of it. -/
def Platform.recording (R : Responses) : Platform (Overwrite Attr.Value) where
  syscall call o := (R.outcome call, o.andThen (R.stored call))
  taskDir pid _ := R.tasks pid
  opensOomScoreAdj pid _ := R.opens pid
  schedGetattr _ _ := none
  defaultSystem o := (0, o)
  callMethod _ o := (0, o)

/-! ### Kernels that answer alike -/

/-- In related states the kernels answer alike, and they keep the states related. -/
structure Kernel.Simulates (k : Kernel σ) (k' : Kernel τ) (Rel : σ → τ → Prop) : Prop where
  syscall : ∀ call s t, Rel s t →
    (k.syscall call s).1 = (k'.syscall call t).1 ∧ Rel (k.syscall call s).2 (k'.syscall call t).2
  taskDir : ∀ pid s t, Rel s t → k.taskDir pid s = k'.taskDir pid t
  opensOomScoreAdj : ∀ pid s t, Rel s t → k.opensOomScoreAdj pid s = k'.opensOomScoreAdj pid t

/-- A platform that responds does what the recording one writes down. -/
theorem Platform.Responds.simulates {P : Platform σ} {view : σ → Attributes} {R : Responses}
    (hP : P.Responds view R) (a : ∀ attr : Attr, attr.Value) :
    P.toKernel.Simulates (Platform.recording R).toKernel
      fun s o => (view s).get = o.apply a where
  syscall call s o h := by
    refine ⟨hP.answers call s, ?_⟩
    show (view (P.syscall call s).2).get = (o.andThen (R.stored call)).apply a
    rw [hP.stores, h, Overwrite.apply_andThen]
  taskDir pid s _ _ := hP.lists pid s
  opensOomScoreAdj pid s _ _ := hP.opens pid s

/-! ### The reference platform -/

/-- New values for some attributes of a thread. -/
structure ThreadChange where
  nice : Option Int32 := none
  latencyNice : Option Int32 := none
  policy : Option UInt32 := none
  rtPriority : Option UInt32 := none
  ioPrio : Option Int32 := none

namespace ThreadChange

def apply (c : ThreadChange) (t : ThreadAttrs) : ThreadAttrs where
  nice := c.nice.getD t.nice
  latencyNice := c.latencyNice.getD t.latencyNice
  policy := c.policy.getD t.policy
  rtPriority := c.rtPriority.getD t.rtPriority
  ioPrio := c.ioPrio.getD t.ioPrio

/-- The change of one thread as a change of the attributes. -/
def toOverwrite (c : ThreadChange) (tid : Pid) : Overwrite Attr.Value
  | .nice tid' => if tid' = tid then c.nice else none
  | .latencyNice tid' => if tid' = tid then c.latencyNice else none
  | .policy tid' => if tid' = tid then c.policy else none
  | .rtPriority tid' => if tid' = tid then c.rtPriority else none
  | .ioPrio tid' => if tid' = tid then c.ioPrio else none
  | .oomScoreAdj _ => none

theorem holder_toOverwrite {c : ThreadChange} {tid : Pid} {attr : Attr}
    (h : c.toOverwrite tid attr ≠ none) : attr.holder = tid := by
  by_contra hne
  refine h ?_
  cases attr with
  | oomScoreAdj pid => rfl
  | _ => exact if_neg hne

theorem get_withThread (c : ThreadChange) (tid : Pid) (a : Attributes) :
    (a.withThread tid (c.apply (a.thread tid))).get = (c.toOverwrite tid).apply a.get := by
  funext attr
  by_cases h : attr.holder = tid
  · subst h
    cases attr with
    | oomScoreAdj pid => rfl
    | _ =>
      simp only [Attributes.get, Attributes.thread_withThread, apply, Overwrite.apply, toOverwrite,
        Attr.holder, if_true]
      rfl
  · cases attr with
    | oomScoreAdj pid => rfl
    | _ =>
      rw [Attr.holder] at h
      simp only [Attributes.get, Attributes.thread_withThread, Overwrite.apply, toOverwrite, h,
        if_false]
      rfl

end ThreadChange

/-- What a call of `sched_setattr` stores. -/
def SchedAttr.change (attr : SchedAttr) : ThreadChange where
  latencyNice := some attr.schedLatencyNice
  nice := if attr.keepsParams then none else some attr.schedNice
  rtPriority := if attr.keepsParams then none else some attr.schedPriority
  policy := if attr.keepsPolicy then none else some attr.schedPolicy

/-- The responses of the reference platform. -/
def Responses.reference (tasks : Pid → List Pid) : Responses where
  outcome
    | .schedSetscheduler _ policy prio =>
        if if policy ∈ realtimePolicies then 0 < prio else prio = 0 then 0 else Errno.einval
    | _ => 0
  stored
    | .setpriority who prio => ThreadChange.toOverwrite { nice := some prio } who.toInt32
    | .schedSetattr pid attr _ => attr.change.toOverwrite pid
    | .schedSetscheduler pid policy prio =>
        if if policy ∈ realtimePolicies then 0 < prio else prio = 0 then
          ThreadChange.toOverwrite
            { policy := some policy.toUInt32, rtPriority := some prio.toUInt32 } pid
        else Overwrite.keep
    | .ioprioSet who ioPrio => ThreadChange.toOverwrite { ioPrio := some ioPrio } who.toInt32
    | .writeOomScoreAdj pid value => fun
      | .oomScoreAdj pid' => if pid' = pid then some value else none
      | _ => none
  tasks pid := ⟨(tasks pid).map taskName, false⟩
  opens _ := true
  holder_stored call attr h := by
    cases call with
    | schedSetscheduler pid policy prio =>
      simp only at h
      split_ifs at h
      · exact ThreadChange.holder_toOverwrite h
      · exact absurd rfl h
      · exact ThreadChange.holder_toOverwrite h
      · exact absurd rfl h
    | writeOomScoreAdj pid value =>
      cases attr with
      | oomScoreAdj pid' =>
        by_contra hne
        exact h (if_neg hne)
      | _ => exact absurd rfl h
    | _ => exact ThreadChange.holder_toOverwrite h

theorem responds_reference (tasks : Pid → List Pid) :
    (Platform.reference tasks).Responds id (Responses.reference tasks) where
  answers call a := by
    cases call with
    | schedSetscheduler pid policy prio =>
      simp only [Platform.reference, Responses.reference]
      split_ifs <;> rfl
    | _ => rfl
  stores call a := by
    cases call with
    | setpriority who prio => exact ThreadChange.get_withThread { nice := some prio } _ a
    | schedSetattr pid attr flags =>
      show _ = (attr.change.toOverwrite pid).apply a.get
      rw [← ThreadChange.get_withThread]
      simp only [Platform.reference, ThreadChange.apply, SchedAttr.change, id]
      congr 2
      split_ifs <;> rfl
    | schedSetscheduler pid policy prio =>
      have h := ThreadChange.get_withThread
        { policy := some policy.toUInt32, rtPriority := some prio.toUInt32 } pid a
      simp only [Platform.reference, Responses.reference]
      split_ifs <;> first | exact h | rfl
    | ioprioSet who ioPrio => exact ThreadChange.get_withThread { ioPrio := some ioPrio } _ a
    | writeOomScoreAdj pid value =>
      funext attr
      cases attr with
      | oomScoreAdj pid' =>
        simp only [Platform.reference, Responses.reference, Overwrite.apply, Attributes.get, id,
          Function.update_apply]
        by_cases h : pid' = pid
        · simp only [h, if_true]
          rfl
        · simp only [h, if_false]
          rfl
      | _ => rfl
  lists _ _ := rfl
  opens _ _ := rfl
  connecting _ := rfl
  calling _ _ := rfl

/-- Every attribute is zero. -/
def Attributes.zero : Attributes := ⟨fun _ => ⟨0, 0, 0, 0, 0⟩, fun _ => 0⟩

end AnanicyCpp
