import AnanicyCpp.Library.Transition
import Mathlib.Logic.Function.Basic
import Mathlib.Tactic.SplitIfs
import Mathlib.Tactic.ByContra

/-!
# One daemon at a time

Each process that runs `main` with the action `start` creates a shared memory object of a fixed
name, exclusively, and gives up when the name exists. It removes the name on its way out. On the
path after the service loop the name goes before the listener is stopped and the worker is joined,
so another daemon can come up while the worker of the first one still runs. This is the only way in
which two workers meet (`Singleton.always_workersExclusive_iff`).

## Main definitions

* `Singleton.Phase`, `Singleton.State` : where each process stands in `main`, and the name.
* `Singleton.step` : the steps of `main`.
* `Singleton.StartsAlone` : no worker is started while a process without its name has a worker.

## Main results

* `Singleton.Inv.step` : at most one process holds the name.
* `Singleton.always_workersExclusive_iff` : when the workers exclude each other.
-/

namespace AnanicyCpp

namespace Singleton

/-- Where a process stands in `main`. -/
inductive Phase where
  | starting
  | named
  | refused
  | constructed
  | listening
  | working
  | stopping
  | closed
  | removed
  | listenerStopped
  | finished
deriving DecidableEq

/-- What `main` does by itself: construct the `ProcessQueue` with some status, start it and the
worker, leave the service loop, close the shared memory, and stop the listener and the worker. -/
inductive Progress where
  | constructListener (status : Bool)
  | startListener
  | startWorker
  | leaveLoop
  | closeShm
  | stopListener
  | stopWorker
deriving DecidableEq

def Phase.proceed : Phase → Progress → Option Phase
  | .named, .constructListener status => some (if status then .constructed else .refused)
  | .constructed, .startListener => some .listening
  | .listening, .startWorker => some .working
  | .working, .leaveLoop => some .stopping
  | .stopping, .closeShm => some .closed
  | .removed, .stopListener => some .listenerStopped
  | .listenerStopped, .stopWorker => some .finished
  | _, _ => none

/-- From the creation of the shared memory object to its removal. -/
def Phase.holdsName : Phase → Bool
  | .named | .refused | .constructed | .listening | .working | .stopping | .closed => true
  | _ => false

/-- From `worker.start()` until `worker.stop()` returns. -/
def Phase.runsWorker : Phase → Bool
  | .working | .stopping | .closed | .removed | .listenerStopped => true
  | _ => false

variable {ι : Type*}

/-- Whether the name exists, and where the processes stand. -/
structure State (ι : Type*) where
  nameExists : Bool
  phase : ι → Phase

def init : State ι := ⟨false, fun _ => .starting⟩

/-- A step of a process: `shm_open`, which may also fail for a reason of its own, `shm_unlink`, or
one that does not touch the name. -/
inductive Act (ι : Type*) where
  | tryCreate (i : ι) (opened : Bool)
  | remove (i : ι)
  | proceed (i : ι) (progress : Progress)
deriving DecidableEq

/-- No two workers run together. -/
def WorkersExclusive (s : State ι) : Prop :=
  ∀ i j, (s.phase i).runsWorker → (s.phase j).runsWorker → i = j

/-- `worker.start()` is not called while a process that has removed its name has a worker. -/
def StartsAlone (s : State ι) : Act ι → Prop
  | .proceed _ .startWorker => ∀ j, (s.phase j).runsWorker → (s.phase j).holdsName
  | _ => True

variable [DecidableEq ι]

/-- A step of `main` in one of the processes. -/
def step (s : State ι) : Act ι → Option (State ι)
  | .tryCreate i opened =>
      match s.phase i with
      | .starting =>
          if opened && !s.nameExists then some ⟨true, Function.update s.phase i .named⟩
          else some { s with phase := Function.update s.phase i .finished }
      | _ => none
  | .remove i =>
      match s.phase i with
      | .refused => some ⟨false, Function.update s.phase i .finished⟩
      | .closed => some ⟨false, Function.update s.phase i .removed⟩
      | _ => none
  | .proceed i progress =>
      ((s.phase i).proceed progress).map fun phase =>
        { s with phase := Function.update s.phase i phase }

/-! ### The holder of the name -/

theorem Phase.holdsName_proceed {phase phase' : Phase} {progress : Progress}
    (h : phase.proceed progress = some phase') : phase'.holdsName = phase.holdsName := by
  revert h
  fun_cases Phase.proceed phase progress <;> rintro ⟨⟩ <;> first | rfl | skip
  next status => cases status <;> rfl

/-- Only `worker.start()` starts a worker. -/
theorem Phase.runsWorker_of_proceed {phase phase' : Phase} {progress : Progress}
    (h : phase.proceed progress = some phase') (hruns : phase'.runsWorker) :
    phase.runsWorker ∨ progress = .startWorker ∧ phase = .listening := by
  revert h
  fun_cases Phase.proceed phase progress <;> rintro ⟨⟩ <;> first | exact .inl rfl | skip
  · next status => cases status <;> cases hruns
  · cases hruns
  · exact .inr ⟨rfl, rfl⟩

theorem Phase.proceed_startWorker {phase phase' : Phase}
    (h : phase.proceed .startWorker = some phase') : phase = .listening ∧ phase' = .working := by
  cases phase <;> cases h
  exact ⟨rfl, rfl⟩

/-- What one process gains only where it had it before, no process gains. -/
theorem of_update (p : Phase → Prop) {f : ι → Phase} {phase : Phase} {i j : ι}
    (hphase : p phase → p (f i)) (h : p (Function.update f i phase j)) : p (f j) := by
  by_cases hji : j = i
  · rw [hji, Function.update_self] at h
    exact hji ▸ hphase h
  · rwa [Function.update_of_ne hji] at h

/-- A process that holds the name is the only one, and the name exists. -/
structure Inv (s : State ι) : Prop where
  nameExists : ∀ i, (s.phase i).holdsName → s.nameExists = true
  unique : ∀ i j, (s.phase i).holdsName → (s.phase j).holdsName → i = j

omit [DecidableEq ι] in
theorem inv_init : Inv (init : State ι) where
  nameExists _ h := by cases h
  unique _ _ h := by cases h

omit [DecidableEq ι] in
/-- No process comes to hold the name. -/
theorem Inv.of_holdsName {s t : State ι} (hs : Inv s) (hname : t.nameExists = s.nameExists)
    (h : ∀ j, (t.phase j).holdsName → (s.phase j).holdsName) : Inv t where
  nameExists j hj := hname.trans (hs.nameExists j (h j hj))
  unique j k hj hk := hs.unique j k (h j hj) (h k hk)

theorem Inv.tryCreate {s t : State ι} {i : ι} {opened : Bool} (hs : Inv s)
    (h : step s (.tryCreate i opened) = some t) : Inv t := by
  simp only [step] at h
  split at h
  · next hi =>
    split_ifs at h with hnew
    · obtain rfl := Option.some.inj h
      rw [Bool.and_eq_true, Bool.not_eq_true'] at hnew
      -- a name that did not exist had no holder
      have honly : ∀ j, (Function.update s.phase i .named j).holdsName → j = i := by
        intro j hj
        by_contra hji
        rw [Function.update_of_ne hji] at hj
        exact absurd (hs.nameExists j hj) (by simp [hnew.2])
      exact ⟨fun _ _ => rfl, fun j k hj hk => (honly j hj).trans (honly k hk).symm⟩
    · obtain rfl := Option.some.inj h
      exact hs.of_holdsName rfl fun j => of_update (·.holdsName) fun h => by cases h
  · cases h

/-- The holder removes the name, and holds it no more. -/
theorem Inv.of_remove {s : State ι} {i : ι} {phase : Phase} (hs : Inv s)
    (hi : (s.phase i).holdsName) (hphase : phase.holdsName = false) :
    Inv ⟨false, Function.update s.phase i phase⟩ := by
  have hnone : ∀ j, ¬(Function.update s.phase i phase j).holdsName := by
    intro j hj
    by_cases hji : j = i
    · rw [hji, Function.update_self, hphase] at hj
      cases hj
    · rw [Function.update_of_ne hji] at hj
      exact hji (hs.unique j i hj hi)
  exact ⟨fun j hj => absurd hj (hnone j), fun j _ hj => absurd hj (hnone j)⟩

theorem Inv.remove {s t : State ι} {i : ι} (hs : Inv s) (h : step s (.remove i) = some t) :
    Inv t := by
  simp only [step] at h
  split at h
  · next hi =>
    obtain rfl := Option.some.inj h
    exact hs.of_remove (by rw [hi]; rfl) rfl
  · next hi =>
    obtain rfl := Option.some.inj h
    exact hs.of_remove (by rw [hi]; rfl) rfl
  · cases h

theorem step_proceed {s t : State ι} {i : ι} {progress : Progress}
    (h : step s (.proceed i progress) = some t) :
    ∃ phase, (s.phase i).proceed progress = some phase ∧
      t = { s with phase := Function.update s.phase i phase } := by
  obtain ⟨phase, hphase, ht⟩ := Option.map_eq_some_iff.mp h
  exact ⟨phase, hphase, ht.symm⟩

theorem Inv.proceed {s t : State ι} {i : ι} {progress : Progress} (hs : Inv s)
    (h : step s (.proceed i progress) = some t) : Inv t := by
  obtain ⟨phase, hphase, rfl⟩ := step_proceed h
  exact hs.of_holdsName rfl fun j =>
    of_update (·.holdsName) (Phase.holdsName_proceed hphase).symm.trans

theorem Inv.step {s t : State ι} {a : Act ι} (hs : Inv s) (h : step s a = some t) : Inv t := by
  cases a with
  | tryCreate i opened => exact hs.tryCreate h
  | remove i => exact hs.remove h
  | proceed i progress => exact hs.proceed h

/-! ### The workers -/

/-- A worker that runs after a step was started before, or by the step. -/
theorem runsWorker_of_step {s t : State ι} {a : Act ι} (h : step s a = some t) {k : ι}
    (hk : (t.phase k).runsWorker) :
    (s.phase k).runsWorker ∨ a = .proceed k .startWorker ∧ s.phase k = .listening := by
  cases a with
  | tryCreate i opened =>
    simp only [step] at h
    split at h
    · split_ifs at h <;> obtain rfl := Option.some.inj h
      · exact .inl (of_update (·.runsWorker) (fun h => by cases h) hk)
      · exact .inl (of_update (·.runsWorker) (fun h => by cases h) hk)
    · cases h
  | remove i =>
    simp only [step] at h
    split at h
    · obtain rfl := Option.some.inj h
      exact .inl (of_update (·.runsWorker) (fun h => by cases h) hk)
    · next hi =>
      obtain rfl := Option.some.inj h
      exact .inl (of_update (·.runsWorker) (fun _ => by rw [hi]; rfl) hk)
    · cases h
  | proceed i progress =>
    obtain ⟨phase, hphase, rfl⟩ := step_proceed h
    by_cases hki : k = i
    · subst hki
      simp only [Function.update_self] at hk
      exact (Phase.runsWorker_of_proceed hphase hk).imp_right fun h => ⟨by rw [h.1], h.2⟩
    · simp only [Function.update_of_ne hki] at hk
      exact .inl hk

/-- The worker that is started meets no other one, if the others still hold their names. -/
theorem WorkersExclusive.step {s t : State ι} {a : Act ι} (hs : Inv s) (hex : WorkersExclusive s)
    (hC : StartsAlone s a) (h : step s a = some t) : WorkersExclusive t := by
  intro i j hi hj
  rcases runsWorker_of_step h hi with hi' | ⟨rfl, hi'⟩
  · rcases runsWorker_of_step h hj with hj' | ⟨rfl, hj'⟩
    · exact hex i j hi' hj'
    · exact hs.unique i j (hC i hi') (by rw [hj']; rfl)
  · rcases runsWorker_of_step h hj with hj' | ⟨hstart, -⟩
    · exact hs.unique i j (by rw [hi']; rfl) (hC j hj')
    · cases hstart
      rfl

/-- A worker that is started beside another one, which has lost its name, breaks the exclusion. -/
theorem startsAlone_of_workersExclusive {s t : State ι} {a : Act ι} (hex : WorkersExclusive t)
    (h : Singleton.step s a = some t) : StartsAlone s a := by
  cases a with
  | tryCreate i opened => trivial
  | remove i => trivial
  | proceed i progress =>
    cases progress with
    | startWorker =>
      intro j hj
      obtain ⟨phase, hphase, rfl⟩ := step_proceed h
      obtain ⟨hi, rfl⟩ := Phase.proceed_startWorker hphase
      have hji : j ≠ i := by
        rintro rfl
        rw [hi] at hj
        cases hj
      have hij : i = j := hex i j (by simp [Phase.runsWorker])
        (by simpa only [Function.update_of_ne hji] using hj)
      exact absurd hij.symm hji
    | _ => trivial

/-- **One daemon at a time.** In every run of any number of processes, no two workers ever run
together if and only if no `worker.start()` is called while another process, which has removed its
name already, still has a worker running. -/
theorem always_workersExclusive_iff (acts : List (Act ι)) :
    Transition.Always step WorkersExclusive init acts ↔
      Transition.EveryStep step StartsAlone init acts := by
  constructor
  · exact Transition.everyStep_of_always Inv (fun _ _ _ hs h => hs.step h)
      (fun _ _ _ _ _ hex h => startsAlone_of_workersExclusive hex h) inv_init
  · exact Transition.always_of_invariant (fun s => Inv s ∧ WorkersExclusive s)
      (fun _ hs => hs.2) (fun _ _ _ hs hC h => ⟨hs.1.step h, hs.2.step hs.1 hC h⟩)
      ⟨inv_init, fun i j hi => by cases hi⟩

/-- The second daemon comes up between the removal of the name and the stop of the worker. -/
theorem not_forall_always_workersExclusive :
    ¬∀ acts : List (Act (Fin 2)), Transition.Always step WorkersExclusive init acts := by
  intro h
  have hmeet := (h [.tryCreate 0 true, .proceed 0 (.constructListener true),
    .proceed 0 .startListener, .proceed 0 .startWorker, .proceed 0 .leaveLoop,
    .proceed 0 .closeShm, .remove 0, .tryCreate 1 true, .proceed 1 (.constructListener true),
    .proceed 1 .startListener, .proceed 1 .startWorker]).last rfl
  exact absurd (hmeet 0 1 rfl rfl) (by decide)

end Singleton

end AnanicyCpp
