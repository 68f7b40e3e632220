import AnanicyCpp.Singleton.Name
import Mathlib.Data.Finset.Card

/-!
# Crashes and the forced removal of the name

A process that dies between the creation of its shared memory object and the removal leaves the name
behind, and every later start is refused. For this there is `--force-remove-semaphore`, which
removes the name whoever holds it. What comes of both is a matter of counting: the processes that
hold the name, together with those that died holding it, are no more than the forced removals and
one, which is there only as long as the name is (`Singleton.Forced.Inv`). Any number of forced
removals can make as many more daemons (`Singleton.Forced.exists_run_holders`).

## Main definitions

* `Singleton.Forced.step` : the processes of `Singleton.step`, crashes and forced removals.

## Main results

* `Singleton.Forced.Inv.step` : the account of the names.
* `Singleton.Forced.exists_run_holders` : runs with many daemons.
* `Singleton.Forced.holders_of_run` : when there is at most one daemon, and when there is none.
-/

namespace AnanicyCpp

namespace Singleton

namespace Forced

variable {ι : Type*}

/-- The name and the processes, how many processes died holding the name, and how often it was
removed by force. -/
structure State (ι : Type*) extends Singleton.State ι where
  crashed : ℕ
  forced : ℕ

def init : State ι := ⟨Singleton.init, 0, 0⟩

/-- A step of a process in `main`, the death of a process, or a run of the program with
`--force-remove-semaphore`. -/
inductive Act (ι : Type*) where
  | main (a : Singleton.Act ι)
  | crash (i : ι)
  | forceRemove
deriving DecidableEq

variable [DecidableEq ι]

/-- The processes, crashes and forced removals; a removal that finds no name fails. -/
def step (s : State ι) : Act ι → Option (State ι)
  | .main a => (Singleton.step s.toState a).map fun base => { s with toState := base }
  | .crash i =>
      if s.phase i = .finished then none
      else some { s with
        phase := Function.update s.phase i .finished
        crashed := s.crashed + if (s.phase i).holdsName then 1 else 0 }
  | .forceRemove =>
      some (if s.nameExists then { s with nameExists := false, forced := s.forced + 1 } else s)

/-! ### The account -/

/-- Whether the name exists, as a number. -/
def names (s : Singleton.State ι) : ℕ := if s.nameExists then 1 else 0

/-- The processes that hold the name, and those that died holding it, are accounted for by the name
and by its forced removals. -/
def Inv (s : State ι) : Prop :=
  ∀ holders : Finset ι, (∀ i ∈ holders, (s.phase i).holdsName) →
    holders.card + s.crashed ≤ names s.toState + s.forced

omit [DecidableEq ι] in
theorem inv_init : Inv (init : State ι) := by
  intro holders h
  have hempty : holders = ∅ := Finset.eq_empty_of_forall_notMem fun i hi => by cases h i hi
  rw [hempty]
  rfl

/-- A process that leaves the holders. -/
theorem Inv.leave {s : State ι} (hs : Inv s) {i : ι} (hi : (s.phase i).holdsName) {phase : Phase}
    (hphase : phase.holdsName = false) {holders : Finset ι}
    (h : ∀ j ∈ holders, (Function.update s.phase i phase j).holdsName) :
    holders.card + 1 + s.crashed ≤ names s.toState + s.forced := by
  have hnot : i ∉ holders := fun hmem => by
    have hheld := h i hmem
    rw [Function.update_self, hphase] at hheld
    cases hheld
  rw [← Finset.card_insert_of_notMem hnot]
  refine hs _ fun j hj => ?_
  rcases Finset.mem_insert.mp hj with rfl | hj
  · exact hi
  · exact of_update (·.holdsName) (fun _ => hi) (h j hj)

omit [DecidableEq ι] in
/-- No process comes to hold the name. -/
theorem Inv.of_holdsName {s t : State ι} (hs : Inv s) (hname : t.nameExists = s.nameExists)
    (hcrashed : t.crashed = s.crashed) (hforced : t.forced = s.forced)
    (h : ∀ j, (t.phase j).holdsName → (s.phase j).holdsName) : Inv t := by
  intro holders hholders
  rw [names, hname, hcrashed, hforced]
  exact hs holders fun j hj => h j (hholders j hj)

theorem Inv.tryCreate {s : State ι} {base : Singleton.State ι} {i : ι} {opened : Bool} (hs : Inv s)
    (h : Singleton.step s.toState (.tryCreate i opened) = some base) :
    Inv { s with toState := base } := by
  simp only [Singleton.step] at h
  split at h
  · next hi =>
    split_ifs at h with hnew
    · obtain rfl := Option.some.inj h
      rw [Bool.and_eq_true, Bool.not_eq_true'] at hnew
      intro holders hholders
      -- without the new holder, the account is as it was when there was no name
      have hold := hs (holders.erase i) fun j hj => by
        obtain ⟨hji, hj⟩ := Finset.mem_erase.mp hj
        simpa only [Function.update_of_ne hji] using hholders j hj
      have hcard : holders.card - 1 ≤ (holders.erase i).card := Finset.pred_card_le_card_erase
      simp only [names, hnew.2, if_true, Bool.false_eq_true, if_false] at hold ⊢
      omega
    · obtain rfl := Option.some.inj h
      exact hs.of_holdsName rfl rfl rfl fun j => of_update (·.holdsName) fun h => by cases h
  · cases h

theorem Inv.remove {s : State ι} {base : Singleton.State ι} {i : ι} (hs : Inv s)
    (h : Singleton.step s.toState (.remove i) = some base) : Inv { s with toState := base } := by
  simp only [Singleton.step] at h
  have hleave {phase : Phase} (hi : (s.phase i).holdsName) (hphase : phase.holdsName = false) :
      Inv { s with toState := ⟨false, Function.update s.phase i phase⟩ } := by
    intro holders hholders
    have hcard := hs.leave hi hphase hholders
    have hname : names s.toState ≤ 1 := by
      rw [names]
      split_ifs <;> omega
    simp only [names, Bool.false_eq_true, if_false]
    omega
  split at h
  · next hi =>
    obtain rfl := Option.some.inj h
    exact hleave (by rw [hi]; rfl) rfl
  · next hi =>
    obtain rfl := Option.some.inj h
    exact hleave (by rw [hi]; rfl) rfl
  · cases h

theorem Inv.crash {s t : State ι} {i : ι} (hs : Inv s) (h : step s (.crash i) = some t) :
    Inv t := by
  obtain ⟨-, h⟩ := Option.ite_none_left_eq_some.mp h
  obtain rfl := Option.some.inj h
  intro holders hholders
  cases hi : (s.phase i).holdsName with
  | true =>
    have hfinished : Phase.finished.holdsName = false := rfl
    have hcard := hs.leave hi hfinished hholders
    simp only [names, if_true] at hcard ⊢
    omega
  | false =>
    exact hs holders fun j hj => of_update (·.holdsName) (fun h => by cases h) (hholders j hj)

theorem Inv.forceRemove {s t : State ι} (hs : Inv s) (h : step s .forceRemove = some t) :
    Inv t := by
  obtain rfl := Option.some.inj h
  cases hname : s.nameExists with
  | true =>
    intro holders hholders
    have hcard := hs holders hholders
    simp only [names, hname, if_true, Bool.false_eq_true, if_false] at hcard ⊢
    omega
  | false => exact hs

/-- **The account.** Every step keeps the account of the names. -/
theorem Inv.step {s t : State ι} {a : Act ι} (hs : Inv s) (h : step s a = some t) : Inv t := by
  cases a with
  | main a =>
    obtain ⟨base, hbase, rfl⟩ := Option.map_eq_some_iff.mp h
    cases a with
    | tryCreate i opened => exact hs.tryCreate hbase
    | remove i => exact hs.remove hbase
    | proceed i progress =>
      obtain ⟨phase, hphase, rfl⟩ := step_proceed hbase
      exact hs.of_holdsName rfl rfl rfl fun j =>
        of_update (·.holdsName) (Phase.holdsName_proceed hphase).symm.trans
  | crash i => exact hs.crash h
  | forceRemove => exact hs.forceRemove h

/-! ### The daemons -/

/-- After as many forced removals there can be one daemon more. -/
theorem exists_run_holders (count : ℕ) :
    ∃ (acts : List (Act ℕ)) (s : State ℕ), Transition.run step init acts = some s ∧
      s.forced = count ∧ s.nameExists = true ∧ (∀ i ≤ count, s.phase i = .named) ∧
      ∀ i > count, s.phase i = .starting := by
  induction count with
  | zero =>
    refine ⟨[.main (.tryCreate 0 true)], _, rfl, rfl, rfl, fun i hi => ?_, fun i hi => ?_⟩
    · obtain rfl := Nat.le_zero.mp hi
      rfl
    · exact Function.update_of_ne (Nat.ne_of_gt hi) ..
  | succ count ih =>
    obtain ⟨acts, s, hrun, hforced, hname, hnamed, hstarting⟩ := ih
    have hnew : Transition.run step s [.forceRemove, .main (.tryCreate (count + 1) true)] =
        some ⟨⟨true, Function.update s.phase (count + 1) .named⟩, s.crashed, s.forced + 1⟩ := by
      simp [Transition.run, step, Singleton.step, hname, hstarting (count + 1) (Nat.lt_succ_self _)]
    refine ⟨_, _, Transition.run_append_eq_some_iff.mpr ⟨s, hrun, hnew⟩,
      congrArg (· + 1) hforced, rfl, fun i hi => ?_, fun i hi => ?_⟩
    · by_cases hlast : i = count + 1
      · subst hlast
        exact Function.update_self ..
      · exact (Function.update_of_ne hlast ..).trans (hnamed i (by omega))
    · exact (Function.update_of_ne (by omega) ..).trans (hstarting i (by omega))

/-- **Crashes and forced removals.** In every run of any number of processes that may die anywhere,
with any number of forced removals, the processes that hold the name and those that died holding it
are no more than the forced removals and the name. So when the name was not removed by force more
often than a process died holding it, at most one process holds it; when it was removed less often,
the name is there and nobody holds it; and in any case the holders are at most one more than the
forced removals, which they can be after any number of these. -/
theorem holders_of_run {s : State ι} {acts : List (Act ι)}
    (hrun : Transition.run step init acts = some s) :
    (∀ holders : Finset ι, (∀ i ∈ holders, (s.phase i).holdsName) →
        holders.card + s.crashed ≤ s.forced + if s.nameExists then 1 else 0) ∧
      (s.forced ≤ s.crashed → ∀ i j, (s.phase i).holdsName → (s.phase j).holdsName → i = j) ∧
      (s.forced < s.crashed → s.nameExists = true ∧ ∀ i, (s.phase i).holdsName = false) ∧
      (∀ holders : Finset ι, (∀ i ∈ holders, (s.phase i).holdsName) →
        holders.card ≤ s.forced + 1) ∧
      ∀ count, ∃ (acts : List (Act ℕ)) (t : State ℕ), Transition.run step init acts = some t ∧
        t.forced = count ∧ ∃ holders : Finset ℕ, (∀ i ∈ holders, (t.phase i).holdsName) ∧
          holders.card = count + 1 := by
  have hs : Inv s :=
    Transition.run_invariant Inv (fun _ _ _ _ hs h => hs.step h) inv_init hrun
  have hname : names s.toState ≤ 1 := by
    rw [names]
    split_ifs <;> omega
  refine ⟨fun holders hholders => ?_, fun hle i j hi hj => ?_, fun hlt => ⟨?_, fun i => ?_⟩,
    fun holders hholders => ?_, fun count => ?_⟩
  · rw [Nat.add_comm s.forced]
    exact hs holders hholders
  · by_contra hij
    have hcard := hs {i, j} fun k hk => by
      rcases Finset.mem_insert.mp hk with rfl | hk
      · exact hi
      · rwa [Finset.mem_singleton.mp hk]
    rw [Finset.card_pair hij] at hcard
    omega
  · have hcard := hs ∅ fun k hk => absurd hk (Finset.notMem_empty k)
    by_contra hno
    rw [names, if_neg hno] at hcard
    omega
  · rw [← Bool.not_eq_true]
    intro hi
    have hcard := hs {i} fun k hk => by rwa [Finset.mem_singleton.mp hk]
    rw [Finset.card_singleton] at hcard
    omega
  · have hcard := hs holders hholders
    omega
  · obtain ⟨acts, t, hrun, hforced, -, hnamed, -⟩ := exists_run_holders count
    refine ⟨acts, t, hrun, hforced, Finset.range (count + 1), fun i hi => ?_,
      Finset.card_range (count + 1)⟩
    rw [hnamed i (Nat.lt_succ_iff.mp (Finset.mem_range.mp hi))]
    rfl

/-- A daemon dies and leaves its name; the next start is refused. -/
theorem holders_of_run_sample : ∃ s : State (Fin 3),
    Transition.run step init [.main (.tryCreate 0 true), .crash 0, .main (.tryCreate 1 true)] =
      some s ∧
    s.nameExists = true ∧ ∀ i, (s.phase i).holdsName = false := by
  obtain ⟨s, hrun, hlt⟩ : ∃ s : State (Fin 3), Transition.run step init
      [.main (.tryCreate 0 true), .crash 0, .main (.tryCreate 1 true)] = some s ∧
      s.forced < s.crashed := ⟨_, rfl, by decide⟩
  exact ⟨s, hrun, (holders_of_run hrun).2.2.1 hlt⟩

end Forced

end Singleton

end AnanicyCpp
