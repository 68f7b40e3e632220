import AnanicyCpp.Priority
import Mathlib.Data.List.Perm.Basic

/-!
# The order of the threads

`set_priority` and `set_latency_nice` make one call for each thread that the traversal of
`/proc/<pid>/task` visits, and the traversal has no order of its own. One variable holds the error
of the last call, so the result is that of the thread that happens to come last. It does not depend
on the order exactly when the outcomes of all threads are of one kind
(`Priority.perm_results_iff`).

## Main definitions

* `Kernel.Answers` : the outcome of a call does not depend on the calls before it.
* `Kernel.withTasks` : the kernel with a given traversal.
* `Priority.OutcomeKind` : what the setters make of an `errno`.

## Main results

* `Priority.result_eq` : the result of a setter is the kind of its `errno`.
* `Priority.perm_results_iff` : when the order of the threads does not matter.
-/

namespace AnanicyCpp

variable {σ : Type}

/-- The outcome of every call is given. -/
def Kernel.Answers (k : Kernel σ) (outcome : Syscall → Errno) : Prop :=
  ∀ call s, (k.syscall call s).1 = outcome call

/-- The same kernel with a traversal that visits the names in this order. -/
def Kernel.withTasks (k : Kernel σ) (names : List Text) : Kernel σ :=
  { k with taskDir := fun _ _ => ⟨names, false⟩ }

namespace Priority

/-- What the setters make of an `errno`: `true`, `false` or an exception. -/
inductive OutcomeKind where
  | applied
  | gone
  | denied
deriving DecidableEq

def outcomeKind (errcode : Errno) : OutcomeKind :=
  if errcode = Errno.esrch then .gone
  else if errcode = Errno.eacces ∨ errcode = Errno.eperm then .denied
  else .applied

/-- The result of a setter for each kind. -/
def kindResult (funcName : String) (pid : Pid) : OutcomeKind → Outcome
  | .applied => .ok true
  | .gone => .ok false
  | .denied => .error
      (funcName ++ ": Insufficient permission to set io-priority of process " ++ toString pid)

theorem kindResult_injective (funcName : String) (pid : Pid) :
    Function.Injective (kindResult funcName pid) := by
  rintro (_ | _ | _) (_ | _ | _) h <;> first | rfl | simp [kindResult] at h

/-- **The result of a setter is the kind of its error.** -/
theorem result_eq (errcode : Errno) (funcName : String) (pid : Pid) :
    result errcode funcName pid = kindResult funcName pid (outcomeKind errcode) := by
  unfold result testErrno outcomeKind
  by_cases hzero : errcode = 0
  · subst hzero
    rfl
  · rw [if_neg hzero]
    split_ifs <;> rfl

/-! ### The last thread -/

/-- The error that a name leaves behind. -/
def taskOutcome (outcome : Pid → Errno) (name : Text) : Errno :=
  if 0 < Text.toInt32 name then outcome (Text.toInt32 name) else 0

/-- The error that a traversal leaves behind. -/
def lastOutcome (outcome : Pid → Errno) (names : List Text) : Errno :=
  (names.getLast?.map (taskOutcome outcome)).getD 0

theorem lastOutcome_concat (outcome : Pid → Errno) (names : List Text) (name : Text) :
    lastOutcome outcome (names ++ [name]) = taskOutcome outcome name := by
  simp [lastOutcome]

theorem forEachTask_eq {call : Pid → σ → Errno × σ} {outcome : Pid → Errno}
    (h : ∀ tid s, (call tid s).1 = outcome tid) (names : List Text) (s : σ) :
    (forEachTask call names s).1 = lastOutcome outcome names := by
  induction names using List.reverseRecOn with
  | nil => rfl
  | append_singleton names name ih =>
      rw [lastOutcome_concat, forEachTask, List.foldl_concat, taskOutcome]
      dsimp only
      split_ifs with htid
      · exact h ..
      · rfl

theorem setForTasks_withTasks {k : Kernel σ} {call : Pid → σ → Errno × σ}
    {outcome : Pid → Errno} (h : ∀ tid s, (call tid s).1 = outcome tid) (funcName : String)
    (pid : Pid) (names : List Text) (s : σ) :
    (setForTasks (k.withTasks names) funcName pid call s).1 =
      kindResult funcName pid (outcomeKind (lastOutcome outcome names)) := by
  rw [← result_eq, ← forEachTask_eq h names s]
  rfl

/-- Every name comes last in some order. -/
theorem exists_perm_concat {names : List Text} {name : Text} (h : name ∈ names) :
    ∃ before, names.Perm (before ++ [name]) :=
  ⟨names.erase name, (List.perm_cons_erase h).trans (List.perm_append_singleton name _).symm⟩

/-- All threads have outcomes of one kind. -/
def OneKind (outcome : Pid → Errno) (names : List Text) : Prop :=
  ∀ name ∈ names, ∀ name' ∈ names,
    outcomeKind (taskOutcome outcome name) = outcomeKind (taskOutcome outcome name')

theorem perm_lastOutcome_iff (outcome : Pid → Errno) (names : List Text) :
    (∀ names', names.Perm names' →
      outcomeKind (lastOutcome outcome names') = outcomeKind (lastOutcome outcome names)) ↔
    OneKind outcome names := by
  constructor
  · intro h name hname name' hname'
    obtain ⟨before, hperm⟩ := exists_perm_concat hname
    obtain ⟨before', hperm'⟩ := exists_perm_concat hname'
    have hlast := h _ hperm
    have hlast' := h _ hperm'
    rw [lastOutcome_concat] at hlast hlast'
    exact hlast.trans hlast'.symm
  · intro h names' hperm
    rcases List.eq_nil_or_concat names with rfl | ⟨before, name, rfl⟩
    · rw [hperm.nil_eq]
    · rcases List.eq_nil_or_concat names' with rfl | ⟨before', name', rfl⟩
      · exact absurd hperm.length_eq (by simp)
      · rw [List.concat_eq_append, List.concat_eq_append, lastOutcome_concat, lastOutcome_concat]
        exact h name' (hperm.mem_iff.mpr (by simp)) name (by simp)

theorem perm_setForTasks_iff {k : Kernel σ} {call : Pid → σ → Errno × σ} {outcome : Pid → Errno}
    (h : ∀ tid s, (call tid s).1 = outcome tid) (funcName : String) (pid : Pid)
    (names : List Text) (s : σ) :
    (∀ names', names.Perm names' → (setForTasks (k.withTasks names') funcName pid call s).1 =
      (setForTasks (k.withTasks names) funcName pid call s).1) ↔ OneKind outcome names := by
  rw [← perm_lastOutcome_iff]
  refine forall₂_congr fun names' _ => ?_
  rw [setForTasks_withTasks h, setForTasks_withTasks h, (kindResult_injective funcName pid).eq_iff]

/-- The outcome of `set_latnice` for a thread. -/
def latniceOutcome (outcome : Syscall → Errno) (latencyNice : Int32) (tid : Pid) : Errno :=
  if outcome (.schedSetattr tid (latniceAttr latencyNice) 0) = Errno.einval then 0
  else outcome (.schedSetattr tid (latniceAttr latencyNice) 0)

/-- **When the order of the threads does not matter.** Whatever the outcome of the call for each
thread is, every order of the threads gives the same result exactly when the outcomes of all threads
are of one kind: applied, vanished or denied. -/
theorem perm_results_iff {k : Kernel σ} {outcome : Syscall → Errno} (hk : k.Answers outcome)
    (names : List Text) (pid : Pid) (niceValue latencyNiceValue : Int32) (s : σ) :
    ((∀ names', names.Perm names' →
        (setPriority (k.withTasks names') pid niceValue s).1 =
          (setPriority (k.withTasks names) pid niceValue s).1) ↔
      OneKind (fun tid => outcome (.setpriority tid.toUInt32 niceValue)) names) ∧
    ((∀ names', names.Perm names' →
        (setLatencyNice (k.withTasks names') pid latencyNiceValue s).1 =
          (setLatencyNice (k.withTasks names) pid latencyNiceValue s).1) ↔
      OneKind (latniceOutcome outcome latencyNiceValue) names) := by
  have hpriority (tid : Pid) (s : σ) :
      (k.syscall (.setpriority tid.toUInt32 niceValue) s).1 =
        outcome (.setpriority tid.toUInt32 niceValue) := hk _ s
  have hlatnice (tid : Pid) (s : σ) :
      (setLatnice k latencyNiceValue tid s).1 = latniceOutcome outcome latencyNiceValue tid := by
    simp only [setLatnice, latniceOutcome, hk _ s]
  exact ⟨perm_setForTasks_iff hpriority _ pid names s, perm_setForTasks_iff hlatnice _ pid names s⟩

/-- Thread 1 may not be changed, every other thread may. -/
def sampleOutcome : Syscall → Errno
  | .setpriority who _ => if who = 1 then Errno.eperm else 0
  | _ => 0

def sampleKernel : Kernel Unit where
  syscall call s := (sampleOutcome call, s)
  taskDir _ _ := ⟨[], false⟩
  opensOomScoreAdj _ _ := true
  schedGetattr _ _ := none

theorem answers_sampleKernel : sampleKernel.Answers sampleOutcome := fun _ _ => rfl

theorem perm_results_iff_sample :
    ((∀ names', [['1'], ['2']].Perm names' →
        (setPriority (sampleKernel.withTasks names') 1 5 ()).1 =
          (setPriority (sampleKernel.withTasks [['1'], ['2']]) 1 5 ()).1) ↔
      OneKind (fun tid => sampleOutcome (.setpriority tid.toUInt32 5)) [['1'], ['2']]) ∧
    ((∀ names', [['1'], ['2']].Perm names' →
        (setLatencyNice (sampleKernel.withTasks names') 1 5 ()).1 =
          (setLatencyNice (sampleKernel.withTasks [['1'], ['2']]) 1 5 ()).1) ↔
      OneKind (latniceOutcome sampleOutcome 5) [['1'], ['2']]) :=
  perm_results_iff answers_sampleKernel [['1'], ['2']] 1 5 5 ()

/-- The order matters: a permission error is masked by a later thread. -/
theorem not_forall_perm_results :
    ¬ ∀ (k : Kernel Unit) (outcome : Syscall → Errno), k.Answers outcome →
      ∀ (names names' : List Text) (pid : Pid) (niceValue latencyNiceValue : Int32),
        names.Perm names' →
        (setPriority (k.withTasks names') pid niceValue ()).1 =
          (setPriority (k.withTasks names) pid niceValue ()).1 ∧
        (setLatencyNice (k.withTasks names') pid latencyNiceValue ()).1 =
          (setLatencyNice (k.withTasks names) pid latencyNiceValue ()).1 := by
  intro h
  have hsame := (h sampleKernel sampleOutcome answers_sampleKernel [['1'], ['2']] [['2'], ['1']]
    1 5 5 (List.Perm.swap _ _ [])).1
  have hkind := congrArg (fun outcome : Outcome => outcome.isOk) hsame
  revert hkind
  decide +kernel

end Priority

end AnanicyCpp
