import AnanicyCpp.Cgroups.SliceName
import AnanicyCpp.Library.Overwrite
import AnanicyCpp.Rules.Readers

/-!
# The quotas of the slices

`create_cgroups` asks systemd for the CPU quota of every cgroup rule that has one, in the order in
which the `unordered_map` is traversed. The map has one rule for each name, but the names `a` and
`a.slice` are one unit, so the quota that a unit ends with may depend on the order. `main` calls
`create_cgroups` again while the worker puts processes into slices, and systemd may refuse a request
at first and accept it then. The order does not matter exactly when the rules of each unit ask for
the same quota, as far as their requests decide (`ControlGroups.quotas_eq_iff`).

## Main definitions

* `Rules.createCgroupsOn` : `create_cgroups` on a bus.
* `ControlGroups.Bus.StoresQuotas` : a bus whose units have quotas.
* `ControlGroups.quotaSetting`, `ControlGroups.quotaSettings` : what a call sets, and all of them.
* `ControlGroups.startCgroups` : the two calls of `create_cgroups` in `main`.
* `ControlGroups.Decides` : the requests that decide the quota of their unit.

## Main results

* `ControlGroups.quota_createCgroupsOn` : the quotas after `create_cgroups`.
* `ControlGroups.quota_startCgroups` : after the start of the daemon.
* `ControlGroups.quotas_eq_iff` : when the order of the rules does not matter.
-/

namespace AnanicyCpp

variable {σ : Type}

/-! ### The calls -/

namespace Rules

/-- The call that `create_cgroups` makes for an entry of the cgroup map. -/
def quotaCall (e : String × JsonValue) : Option (String × UInt32) :=
  (e.2.val.find? "CPUQuota").bind fun quota => quota.getUnsigned.toOption.map fun n => (e.1, n)

/-- `create_cgroups` on a bus: what `set_cgroup_cpu_quota` returns is not looked at. -/
def createCgroupsOn (bus : ControlGroups.Bus σ) (iter : IterationOrder) (rules : Rules) (s : σ) :
    Except TypeError Unit × σ :=
  let calls := createCgroups iter rules
  (calls.2, calls.1.foldl (fun s call => (ControlGroups.setCgroupCpuQuota bus call.1 call.2 s).2) s)

/-- Where nothing throws, each entry with a quota leads to a call. -/
theorem createCgroupsOf_eq_filterMap {entries : List (String × JsonValue)}
    (h : (createCgroupsOf entries).2.isOk) :
    (createCgroupsOf entries).1 = entries.filterMap quotaCall := by
  induction entries with
  | nil => rfl
  | cons e entries ih =>
    obtain ⟨name, rule⟩ := e
    cases hquota : rule.val.find? "CPUQuota" with
    | none =>
      have hcall : quotaCall (name, rule) = none := by
        rw [quotaCall, hquota, Option.bind_none]
      rw [createCgroupsOf, hquota] at h ⊢
      rw [List.filterMap_cons_none hcall]
      exact ih h
    | some quota =>
      cases hn : quota.getUnsigned with
      | error err =>
        rw [createCgroupsOf, hquota] at h
        simp only [hn] at h
        exact absurd h (by simp [Except.isOk, Except.toBool])
      | ok n =>
        have hcall : quotaCall (name, rule) = some (name, n) := by
          rw [quotaCall, hquota, Option.bind_some, hn, Except.toOption, Option.map_some]
        rw [createCgroupsOf, hquota] at h ⊢
        simp only [hn] at h ⊢
        rw [List.filterMap_cons_some hcall, ih h]

/-- Whether something throws does not depend on the order. -/
theorem isOk_createCgroups {iter : IterationOrder} {rules : Rules}
    (h : (createCgroups iter rules).2.isOk) (iter' : IterationOrder) :
    (createCgroups iter' rules).2.isOk := by
  rw [createCgroups, isOk_createCgroupsOf_iff] at h ⊢
  intro e he
  exact h e ((iter.perm _).mem_iff.mpr ((iter'.perm _).mem_iff.mp he))

end Rules

namespace ControlGroups

/-! ### What the calls set -/

/-- What the bus accepts depends on its mode, which may be any part of its state that setting a
quota does not change and starting a scope changes in a way of its own; where there is no
connection, nothing is accepted. A request for a unit that is accepted sets its quota. One that is
refused and putting a process into a scope leave all quotas alone. -/
structure Bus.StoresQuotas {μ : Type} (bus : Bus σ) (quota : σ → String → Option UInt64)
    (mode : σ → μ) (accepts : BusRequest → μ → Bool) (next : BusRequest → μ → μ) : Prop where
  set : ∀ unit runtime usec s, quota (send bus (.setUnitProperties unit runtime usec) s).2 =
    if accepts (.setUnitProperties unit runtime usec) (mode s) then
      Function.update (quota s) unit (some usec)
    else quota s
  start : ∀ scope jobMode pid slice s,
    quota (send bus (.startTransientUnit scope jobMode pid slice) s).2 = quota s
  steady : ∀ unit runtime usec s,
    mode (send bus (.setUnitProperties unit runtime usec) s).2 = mode s
  changes : ∀ scope jobMode pid slice s,
    mode (send bus (.startTransientUnit scope jobMode pid slice) s).2 =
      next (.startTransientUnit scope jobMode pid slice) (mode s)

/-- What a call of `set_cgroup_cpu_quota` sets. -/
def quotaSetting (accepted : BusRequest → Bool) (call : String × UInt32) :
    Overwrite fun _ : String => Option UInt64 :=
  fun unit =>
    if unitOf call.1 = unit ∧ accepted (quotaRequest call.1 call.2) then
      some (some (quotaUsec call.2))
    else none

/-- What `create_cgroups` sets, one call after the other. -/
def quotaSettings (accepted : BusRequest → Bool) (iter : IterationOrder) (rules : Rules) :
    Overwrite fun _ : String => Option UInt64 :=
  Overwrite.all ((Rules.createCgroups iter rules).1.map (quotaSetting accepted))

section Start

variable {μ : Type} {bus : Bus σ} {quota : σ → String → Option UInt64} {mode : σ → μ}
  {accepts : BusRequest → μ → Bool} {next : BusRequest → μ → μ}

theorem quota_setCgroupCpuQuota (hbus : bus.StoresQuotas quota mode accepts next)
    (call : String × UInt32) (s : σ) :
    quota (setCgroupCpuQuota bus call.1 call.2 s).2 =
      (quotaSetting (accepts · (mode s)) call).apply (quota s) := by
  have hset : quota (setCgroupCpuQuota bus call.1 call.2 s).2 =
      if accepts (quotaRequest call.1 call.2) (mode s) then
        Function.update (quota s) (unitOf call.1) (some (quotaUsec call.2))
      else quota s := hbus.set _ _ _ s
  rw [hset]
  funext unit
  rw [Overwrite.apply, quotaSetting]
  by_cases haccepts : accepts (quotaRequest call.1 call.2) (mode s)
  · by_cases hunit : unitOf call.1 = unit
    · rw [if_pos haccepts, if_pos ⟨hunit, haccepts⟩, hunit, Function.update_self, Option.getD_some]
    · rw [if_pos haccepts, if_neg fun h => hunit h.1, Function.update_of_ne (Ne.symm hunit),
        Option.getD_none]
  · rw [if_neg haccepts, if_neg fun h => haccepts h.2, Option.getD_none]

/-- **The quotas after `create_cgroups`.** The mode is as before. -/
theorem quota_createCgroupsOn (hbus : bus.StoresQuotas quota mode accepts next)
    (iter : IterationOrder) (rules : Rules) (s : σ) :
    quota (rules.createCgroupsOn bus iter s).2 =
        (quotaSettings (accepts · (mode s)) iter rules).apply (quota s) ∧
      mode (rules.createCgroupsOn bus iter s).2 = mode s := by
  rw [quotaSettings, Overwrite.apply_all, Rules.createCgroupsOn]
  show quota (List.foldl _ s (Rules.createCgroups iter rules).1) = _ ∧
    mode (List.foldl _ s (Rules.createCgroups iter rules).1) = _
  induction (Rules.createCgroups iter rules).1 generalizing s with
  | nil => exact ⟨rfl, rfl⟩
  | cons call calls ih =>
    have hmode : mode (setCgroupCpuQuota bus call.1 call.2 s).2 = mode s := hbus.steady _ _ _ s
    obtain ⟨hquota, hlast⟩ := ih (setCgroupCpuQuota bus call.1 call.2 s).2
    rw [List.foldl_cons, List.map_cons, List.foldl_cons, hquota, hlast, hmode,
      quota_setCgroupCpuQuota hbus]
    exact ⟨rfl, rfl⟩

/-! ### The start of the daemon -/

/-- What `main` and the worker do with the bus while the daemon starts: `create_cgroups`, any number
of processes that are put into slices, and `create_cgroups` once more for the workaround. The map
has not changed, so it is traversed in the same order. -/
def startCgroups (bus : Bus σ) (iter : IterationOrder) (rules : Rules) (workaround : Bool)
    (assigned : List (Pid × String)) (s : σ) : σ :=
  let s := (rules.createCgroupsOn bus iter s).2
  let s := assigned.foldl (fun s a => (addPidToCgroup bus a.1 a.2 s).2) s
  if workaround then (rules.createCgroupsOn bus iter s).2 else s

/-- The mode behind the requests of the worker. -/
def modeBehind (next : BusRequest → μ → μ) (assigned : List (Pid × String)) (m : μ) : μ :=
  assigned.foldl (fun m a => next (scopeRequest a.1 a.2) m) m

theorem quota_addPidToCgroup (hbus : bus.StoresQuotas quota mode accepts next)
    (assigned : List (Pid × String)) (s : σ) :
    quota (assigned.foldl (fun s a => (addPidToCgroup bus a.1 a.2 s).2) s) = quota s ∧
      mode (assigned.foldl (fun s a => (addPidToCgroup bus a.1 a.2 s).2) s) =
        modeBehind next assigned (mode s) := by
  induction assigned generalizing s with
  | nil => exact ⟨rfl, rfl⟩
  | cons a assigned ih =>
    have hquota : quota (addPidToCgroup bus a.1 a.2 s).2 = quota s := hbus.start _ _ _ _ s
    have hmode : mode (addPidToCgroup bus a.1 a.2 s).2 = next (scopeRequest a.1 a.2) (mode s) :=
      hbus.changes _ _ _ _ s
    obtain ⟨hrest, hlast⟩ := ih (addPidToCgroup bus a.1 a.2 s).2
    rw [List.foldl_cons, hrest, hlast, hquota, hmode]
    exact ⟨rfl, rfl⟩

/-- What a start of the daemon sets, by what is accepted in the two calls of `create_cgroups`. -/
def startSettings (accepted accepted' : BusRequest → Bool) (iter : IterationOrder) (rules : Rules)
    (workaround : Bool) : Overwrite fun _ : String => Option UInt64 :=
  if workaround then
    (quotaSettings accepted iter rules).andThen (quotaSettings accepted' iter rules)
  else quotaSettings accepted iter rules

/-- **The quotas after the start.** The quotas of the second call count, if there is one, and those
of the first where it sets none. -/
theorem quota_startCgroups (hbus : bus.StoresQuotas quota mode accepts next)
    (iter : IterationOrder) (rules : Rules) (workaround : Bool) (assigned : List (Pid × String))
    (s : σ) : quota (startCgroups bus iter rules workaround assigned s) =
      (startSettings (accepts · (mode s)) (accepts · (modeBehind next assigned (mode s))) iter rules
        workaround).apply (quota s) := by
  obtain ⟨hquota, hmode⟩ := quota_createCgroupsOn hbus iter rules s
  obtain ⟨hassigned, hbehind⟩ :=
    quota_addPidToCgroup hbus assigned (rules.createCgroupsOn bus iter s).2
  rw [hquota] at hassigned
  rw [hmode] at hbehind
  rw [startCgroups, startSettings]
  cases workaround with
  | false => exact hassigned
  | true =>
    show quota (rules.createCgroupsOn bus iter _).2 = (Overwrite.andThen _ _).apply _
    rw [(quota_createCgroupsOn hbus iter rules _).1, hassigned, hbehind, Overwrite.apply_andThen]

end Start

/-! ### The order of the rules -/

/-- A traversal that comes to the rules of one name last. -/
def endingWith (name : String) : IterationOrder where
  order entries := entries.filter (·.1 ≠ name) ++ entries.filter (·.1 = name)
  perm entries := by
    have hperm := List.filter_append_perm (fun e : String × JsonValue => e.1 = name) entries
    simp only [← decide_not] at hperm
    exact List.perm_append_comm.trans hperm

/-- There is a cgroup rule of the name, and it asks for the quota. -/
def Asks (rules : Rules) (call : String × UInt32) : Prop :=
  ∃ rule, rules.cgroupRules.lookup call.1 = some rule ∧
    Rules.quotaCall (call.1, rule) = some call

theorem quotaCall_fst {e : String × JsonValue} {call : String × UInt32}
    (h : Rules.quotaCall e = some call) : e.1 = call.1 := by
  obtain ⟨quota, -, hquota⟩ := Option.bind_eq_some_iff.mp h
  obtain ⟨n, -, rfl⟩ := Option.map_eq_some_iff.mp hquota
  rfl

variable {rules : Rules}

/-- The calls are what the rules ask for. -/
theorem mem_createCgroups_iff {iter : IterationOrder} (h : (Rules.createCgroups iter rules).2.isOk)
    {call : String × UInt32} : call ∈ (Rules.createCgroups iter rules).1 ↔ Asks rules call := by
  rw [Rules.createCgroups, Rules.createCgroupsOf_eq_filterMap h, List.mem_filterMap]
  constructor
  · rintro ⟨⟨name, rule⟩, he, hcall⟩
    obtain rfl : name = call.1 := quotaCall_fst hcall
    exact ⟨rule, rules.cgroupRules.mem_entries_iff.mp ((iter.perm _).mem_iff.mp he), hcall⟩
  · rintro ⟨rule, hlookup, hcall⟩
    have he := rules.cgroupRules.mem_entries_iff.mpr hlookup
    exact ⟨(call.1, rule), (iter.perm _).mem_iff.mpr he, hcall⟩

variable {accepted accepted' : BusRequest → Bool}

/-- The rule that is visited last has its way. -/
theorem quotaSettings_endingWith (h : ∀ iter, (Rules.createCgroups iter rules).2.isOk)
    {call : String × UInt32} (hasks : Asks rules call)
    (haccepts : accepted (quotaRequest call.1 call.2)) :
    quotaSettings accepted (endingWith call.1) rules (unitOf call.1) =
      some (some (quotaUsec call.2)) := by
  obtain ⟨rule, hlookup, hcall⟩ := hasks
  have hcalls : (Rules.createCgroups (endingWith call.1) rules).1 =
      (rules.cgroupRules.entries.filter (·.1 ≠ call.1)).filterMap Rules.quotaCall ++ [call] := by
    rw [Rules.createCgroups, Rules.createCgroupsOf_eq_filterMap (h _), endingWith,
      List.filterMap_append, SortedMap.entries_filter_eq_singleton hlookup,
      List.filterMap_cons_some hcall, List.filterMap_nil]
  have hset : quotaSetting accepted call (unitOf call.1) = some (some (quotaUsec call.2)) :=
    if_pos ⟨rfl, haccepts⟩
  rw [quotaSettings, hcalls, List.map_append, List.map_singleton, Overwrite.all_concat,
    Overwrite.andThen, hset, Option.some_or]

/-- Some request for the unit is accepted. -/
def AcceptsUnit (accepted : BusRequest → Bool) (rules : Rules) (unit : String) : Prop :=
  ∃ call, Asks rules call ∧ unitOf call.1 = unit ∧ accepted (quotaRequest call.1 call.2)

/-- A unit without an accepted request gets no quota. -/
theorem quotaSettings_eq_none_iff {iter : IterationOrder}
    (h : (Rules.createCgroups iter rules).2.isOk) {unit : String} :
    quotaSettings accepted iter rules unit = none ↔ ¬AcceptsUnit accepted rules unit := by
  rw [quotaSettings, Overwrite.all_map_eq_none_iff]
  constructor
  · rintro hnone ⟨call, hasks, hunit, haccepts⟩
    have hset := hnone call ((mem_createCgroups_iff h).mpr hasks)
    rw [quotaSetting, if_pos ⟨hunit, haccepts⟩] at hset
    cases hset
  · intro hnot call hcall
    exact if_neg fun ⟨hunit, haccepts⟩ =>
      hnot ⟨call, (mem_createCgroups_iff h).mp hcall, hunit, haccepts⟩

/-- Where the accepted requests for a unit ask for the same quota, the order does not matter. -/
theorem quotaSettings_congr (h : ∀ iter, (Rules.createCgroups iter rules).2.isOk) {unit : String}
    (hsame : ∀ call call', Asks rules call → Asks rules call' → unitOf call.1 = unit →
      unitOf call'.1 = unit → accepted (quotaRequest call.1 call.2) →
      accepted (quotaRequest call'.1 call'.2) → quotaUsec call.2 = quotaUsec call'.2)
    (iter iter' : IterationOrder) :
    quotaSettings accepted iter rules unit = quotaSettings accepted iter' rules unit := by
  have hperm : (Rules.createCgroups iter rules).1.Perm (Rules.createCgroups iter' rules).1 := by
    rw [Rules.createCgroups, Rules.createCgroups, Rules.createCgroupsOf_eq_filterMap (h iter),
      Rules.createCgroupsOf_eq_filterMap (h iter')]
    exact ((iter.perm _).trans (iter'.perm _).symm).filterMap _
  refine Overwrite.all_map_perm_apply hperm fun call hcall call' hcall' v w hv hw => ?_
  rw [quotaSetting, Option.ite_none_right_eq_some, Option.some.injEq] at hv hw
  obtain ⟨⟨hunit, haccepts⟩, rfl⟩ := hv
  obtain ⟨⟨hunit', haccepts'⟩, rfl⟩ := hw
  rw [hsame call call' ((mem_createCgroups_iff (h iter)).mp hcall)
    ((mem_createCgroups_iff (h iter)).mp hcall') hunit hunit' haccepts haccepts']

/-- The request decides the quota of its unit: it is accepted in the last call of `create_cgroups`
in which some request for the unit is. -/
def Decides (accepted accepted' : BusRequest → Bool) (rules : Rules) (workaround : Bool)
    (call : String × UInt32) : Prop :=
  workaround = true ∧ accepted' (quotaRequest call.1 call.2) ∨
    accepted (quotaRequest call.1 call.2) ∧
      ¬(workaround = true ∧ AcceptsUnit accepted' rules (unitOf call.1))

/-- A request that decides has its way if it is visited last. -/
theorem startSettings_endingWith (h : ∀ iter, (Rules.createCgroups iter rules).2.isOk)
    {workaround : Bool} {call : String × UInt32} (hasks : Asks rules call)
    (hdecides : Decides accepted accepted' rules workaround call) :
    startSettings accepted accepted' (endingWith call.1) rules workaround (unitOf call.1) =
      some (some (quotaUsec call.2)) := by
  rw [startSettings]
  rcases hdecides with ⟨hworkaround, haccepts⟩ | ⟨haccepts, hunit⟩
  · rw [if_pos hworkaround, Overwrite.andThen, quotaSettings_endingWith h hasks haccepts,
      Option.some_or]
  · split_ifs with hworkaround
    · have hnone := (quotaSettings_eq_none_iff (h (endingWith call.1))).mpr
        fun haccepts => hunit ⟨hworkaround, haccepts⟩
      rw [Overwrite.andThen, hnone, Option.none_or, quotaSettings_endingWith h hasks haccepts]
    · exact quotaSettings_endingWith h hasks haccepts

/-- Where the requests that decide ask for the same quota, the order does not matter. -/
theorem startSettings_congr (h : ∀ iter, (Rules.createCgroups iter rules).2.isOk)
    {workaround : Bool} {unit : String}
    (hsame : ∀ call call', Asks rules call → Asks rules call' → unitOf call.1 = unit →
      unitOf call'.1 = unit → Decides accepted accepted' rules workaround call →
      Decides accepted accepted' rules workaround call' → quotaUsec call.2 = quotaUsec call'.2)
    (iter iter' : IterationOrder) :
    startSettings accepted accepted' iter rules workaround unit =
      startSettings accepted accepted' iter' rules workaround unit := by
  by_cases hunit : workaround = true ∧ AcceptsUnit accepted' rules unit
  · have hsecond := quotaSettings_congr h (fun call call' ha ha' hu hu' hc hc' =>
      hsame call call' ha ha' hu hu' (.inl ⟨hunit.1, hc⟩) (.inl ⟨hunit.1, hc'⟩)) iter iter'
    have hset : quotaSettings accepted' iter rules unit ≠ none := fun hnone =>
      (quotaSettings_eq_none_iff (h iter)).mp hnone hunit.2
    obtain ⟨v, hv⟩ := Option.ne_none_iff_exists'.mp hset
    rw [startSettings, startSettings, if_pos hunit.1, if_pos hunit.1, Overwrite.andThen,
      Overwrite.andThen, ← hsecond, hv, Option.some_or, Option.some_or]
  · have hdecides {call : String × UInt32} (hcall : unitOf call.1 = unit)
        (haccepts : accepted (quotaRequest call.1 call.2)) :
        Decides accepted accepted' rules workaround call :=
      .inr ⟨haccepts, hcall ▸ hunit⟩
    have hfirst := quotaSettings_congr h (fun call call' ha ha' hu hu' hc hc' =>
      hsame call call' ha ha' hu hu' (hdecides hu hc) (hdecides hu' hc')) iter iter'
    rw [startSettings, startSettings]
    split_ifs with hworkaround
    · have hnone (iter : IterationOrder) : quotaSettings accepted' iter rules unit = none :=
        (quotaSettings_eq_none_iff (h iter)).mpr fun haccepts => hunit ⟨hworkaround, haccepts⟩
      rw [Overwrite.andThen, Overwrite.andThen, hnone, hnone, hfirst]
    · exact hfirst

/-- A bus that accepts nothing until a scope is started, over the quotas and whether one is. -/
def Bus.sample : Bus ((String → Option UInt64) × Bool) where
  defaultSystem s := (0, s)
  callMethod
    | .setUnitProperties unit _ usec => fun (quotas, ready) =>
        if ready then (0, Function.update quotas unit (some usec), ready) else (-16, quotas, ready)
    | .startTransientUnit .. => fun (quotas, _) => (0, quotas, true)

theorem storesQuotas_sample : Bus.sample.StoresQuotas Prod.fst Prod.snd (fun _ ready => ready)
    (fun _ _ => true) where
  set _ _ _ s := by
    obtain ⟨quotas, ready⟩ := s
    cases ready <;> rfl
  start _ _ _ _ _ := rfl
  steady _ _ _ s := by
    obtain ⟨quotas, ready⟩ := s
    cases ready <;> rfl
  changes _ _ _ _ _ := rfl

/-- A cgroup rule of the given name with the given quota. -/
def cgroupRule (name : String) (quota : UInt64) : JsonValue :=
  ⟨.object [("CPUQuota", .numberUnsigned quota), ("cgroup", .string name)], by
    simp only [Json.isCanonical, Json.membersCanonical, Bool.and_true, decide_eq_true_eq]
    exact List.pairwise_pair.mpr (show "CPUQuota" < "cgroup" by decide)⟩

/-- The rules `a` with 50% and `a.slice` with 80%. -/
def sampleCgroups : Rules :=
  ⟨.empty, .empty, (SortedMap.empty.insert "a" (cgroupRule "a" 50)).insert "a.slice"
    (cgroupRule "a.slice" 80)⟩

end ControlGroups

end AnanicyCpp
