import AnanicyCpp.Library.Word
import AnanicyCpp.Rules.Readers
import AnanicyCpp.Worker.Work

/-!
# Integers in rules

A JSON integer has 64 bits, and the setters and the CPU quota take 32. The conversions keep the low
bits, and `set_sched` reads its unsigned argument as a signed one again. `Worker.delivered_iff` says
for each key which integers arrive as they are written.

## Main definitions

* `Worker.RuleInteger` : the keys of a rule with an integer value.
* `Worker.Carries`, `Worker.Delivered` : the integer arrives unchanged.
* `Worker.QuotaDelivered` : the quota arrives clamped to `0..100`.

## Main results

* `Worker.delivered_iff` : the integers that arrive.
-/

namespace AnanicyCpp

open Word

namespace Worker

/-! ### What has to arrive -/

/-- The keys of a program rule with an integer value. -/
inductive RuleInteger where
  | nice
  | latencyNice
  | rtprio
  | ionice
  | oomScoreAdj
deriving DecidableEq

namespace RuleInteger

def key : RuleInteger → String
  | nice => "nice"
  | latencyNice => "latency_nice"
  | rtprio => "rtprio"
  | ionice => "ionice"
  | oomScoreAdj => "oom_score_adj"

/-- A call of the setter that belongs to the key carries the integer. For a realtime scheduler the
kernel has to receive it too. -/
def Carried : RuleInteger → ℤ → SetterCall → Prop
  | nice, n, .setPriority x => x.toInt = n
  | latencyNice, n, .setLatencyNice x => x.toInt = n
  | rtprio, n, .setSched name x => (x.toNat : ℤ) = n ∧ (name = "rr" ∨ name = "fifo" →
      ∀ sched prio, Priority.schedRequest name x = some (sched, prio) → prio.toInt = n)
  | ionice, n, .setIoPriority _ x => x.toInt = n
  | oomScoreAdj, n, .setOomScoreAdjust x => x.toInt = n
  | _, _, _ => True

/-- The integers that the setter and the kernel can take. -/
def Fits : RuleInteger → ℤ → Prop
  | rtprio, n => 0 ≤ n ∧ n < 2 ^ 31
  | _, n => -2 ^ 31 ≤ n ∧ n < 2 ^ 31

end RuleInteger

/-- Whatever the setters, the configuration and the rest of the rule are, the calls for a rule with
the value `v` under the key carry the integer. -/
def Delivered (k : RuleInteger) (v : Json) (n : ℤ) : Prop :=
  ∀ (σ : Type) (S : Setters σ) (config : Config) (rule : Json) (p : Process) (s : σ),
    rule.find? k.key = some v → ∀ c ∈ (handleProcess S config rule p s).calls, k.Carried n c

/-- Whatever the store and the order of traversal are, the quota that is sent for a cgroup rule with
the value `v` is the integer, clamped to `0..100`, in units of 10000 microseconds. -/
def QuotaDelivered (v : Json) (n : ℤ) : Prop :=
  ∀ (iter : IterationOrder) (rules : Rules) (name : String) (rule : JsonValue),
    rules.cgroupRules.lookup name = some rule → rule.val.find? "CPUQuota" = some v →
    ∀ quota, (name, quota) ∈ (rules.createCgroups iter).1 →
    ∀ unit runtime usec, ControlGroups.quotaRequest name quota =
      .setUnitProperties unit runtime usec → (usec.toNat : ℤ) = 10000 * max 0 (min 100 n)

/-- The quotas that survive the conversion to 32 unsigned bits and the clamp. -/
def QuotaFits (n : ℤ) : Prop :=
  (0 ≤ n ∧ n < 2 ^ 32) ∨ (n < 0 ∧ 2 ^ 32 ∣ n) ∨ (2 ^ 32 ≤ n ∧ 100 ≤ n % 2 ^ 32)

/-! ### The setters -/

theorem mem_calls_handleProcess {σ : Type} {S : Setters σ} {config : Config} {rule : Json}
    {p : Process} {s : σ} {c : SetterCall} :
    c ∈ (handleProcess S config rule p s).calls ↔
      ∃ t, CallSequence.Reached (S.call p.pid) (steps config rule (S.isRealtime p.pid s)) s c
        t := by
  show c ∈ (applyRule S config rule p.pid (S.isRealtime p.pid s) s).calls ↔ _
  rw [applyRule_eq_run, CallSequence.mem_calls_run_iff]

/-- The unsigned argument of `set_sched`, as the kernel gets it for a realtime scheduler. -/
theorem toInt_schedRequest {name : String} {x : UInt32} (hname : name = "rr" ∨ name = "fifo")
    {sched prio : Int32} (h : Priority.schedRequest name x = some (sched, prio)) :
    prio.toInt = (x.toNat : ℤ).bmod (2 ^ 32) := by
  rcases hname with rfl | rfl <;> cases h <;> exact toInt_toInt32 x

theorem contains_of_find {rule v : Json} {key : String} (h : rule.find? key = some v) :
    rule.contains key = true := by
  rw [Json.contains, h, Option.isSome_some]

theorem latniceValue_of_find {rule v : Json} (h : rule.find? "latency_nice" = some v) :
    latniceValue rule = v.getInt := by
  rw [latniceValue, if_pos (contains_of_find h), Json.index_of_find h]

theorem rtPrio_of_find {rule v : Json} (h : rule.find? "rtprio" = some v) :
    rtPrio rule = v.getUnsigned := by
  rw [rtPrio, if_pos (contains_of_find h), Json.index_of_find h]

theorem ioVal_of_find {rule v : Json} (h : rule.find? "ionice" = some v)
    (hv : v.isNumberInteger = true) : ioVal rule = v.getInt := by
  rw [ioVal, contains_of_find h, Json.index_of_find h, hv, Bool.and_self, if_pos rfl]

/-- The integers that fit are delivered. -/
theorem delivered_of_fits {k : RuleInteger} {v : Json} {n : ℤ} (hv : v.integerValue = some n)
    (hfits : k.Fits n) : Delivered k v n := by
  intro σ S config rule p s hrule c hc
  obtain ⟨t, hreached⟩ := mem_calls_handleProcess.mp hc
  obtain ⟨step, hstep, -, hcall, -⟩ := step_of_reached hreached
  obtain ⟨x, hx, hxn⟩ := Json.toInt_getInt hv
  obtain ⟨y, hy, hyn⟩ := Json.toNat_getUnsigned hv
  cases k <;> cases c <;> try exact trivial
  all_goals obtain rfl := Option.some.inj hstep
  · obtain ⟨x', hx', hcx⟩ := call_niceStep_iff.mp hcall
    obtain rfl := Except.ok.inj (hx.symm.trans ((Json.index_of_find hrule).symm ▸ hx'))
    cases hcx
    exact hxn.trans ((bmod_eq_self_iff n).mpr hfits)
  · obtain ⟨x', hx', hcx⟩ := call_latencyNiceStep_iff.mp hcall
    obtain rfl := Except.ok.inj (hx.symm.trans ((latniceValue_of_find hrule).symm.trans hx'))
    cases hcx
    exact hxn.trans ((bmod_eq_self_iff n).mpr hfits)
  · obtain ⟨y', hy', name, -, hcy⟩ := call_schedStep_iff.mp hcall
    obtain rfl := Except.ok.inj (hy.symm.trans ((rtPrio_of_find hrule).symm.trans hy'))
    cases hcy
    obtain ⟨hnonneg, hlt⟩ : 0 ≤ n ∧ n < 2 ^ 31 := hfits
    have hyeq : (y.toNat : ℤ) = n := by omega
    refine ⟨hyeq, fun hname sched prio hrequest => ?_⟩
    rw [toInt_schedRequest hname hrequest, hyeq, bmod_eq_self_iff]
    omega
  · obtain ⟨cls, -, x', hx', hcx⟩ := call_ioniceStep_iff.mp hcall
    have hvalue := ioVal_of_find hrule (Json.isNumberInteger_of_integerValue hv)
    obtain rfl := Except.ok.inj (hx.symm.trans (hvalue.symm.trans hx'))
    cases hcx
    exact hxn.trans ((bmod_eq_self_iff n).mpr hfits)
  · obtain ⟨x', hx', hcx⟩ := call_oomScoreAdjStep_iff.mp hcall
    obtain rfl := Except.ok.inj (hx.symm.trans ((Json.index_of_find hrule).symm ▸ hx'))
    cases hcx
    exact hxn.trans ((bmod_eq_self_iff n).mpr hfits)

/-- A rule in which a key has an effect, and the call that it leads to. -/
def RuleInteger.rule (v : Json) : RuleInteger → Json
  | .nice => .object [("nice", v)]
  | .latencyNice => .object [("latency_nice", v)]
  | .rtprio => .object [("rtprio", v), ("sched", .string "fifo")]
  | .ionice => .object [("ioclass", .string "idle"), ("ionice", v)]
  | .oomScoreAdj => .object [("oom_score_adj", v)]

def RuleInteger.call (x : Int32) (y : UInt32) : RuleInteger → SetterCall
  | .nice => .setPriority x
  | .latencyNice => .setLatencyNice x
  | .rtprio => .setSched "fifo" y
  | .ionice => .setIoPriority "idle" x
  | .oomScoreAdj => .setOomScoreAdjust x

/-- Setters that do nothing and return `true`. -/
def idleSetters : Setters Unit where
  call _ _ s := (.ok true, s)
  isRealtime _ _ := false
  moveToRoot _ s := s

theorem call_mem_calls (k : RuleInteger) {v : Json} {n : ℤ} (hv : v.integerValue = some n)
    {x : Int32} {y : UInt32} (hx : v.getInt = .ok x) (hy : v.getUnsigned = .ok y) :
    k.call x y ∈ (handleProcess idleSetters ⟨.empty⟩ (k.rule v) ⟨1, "a"⟩ ()).calls := by
  rw [mem_calls_handleProcess]
  refine ⟨(), ?_⟩
  cases k with
  | nice => exact .here rfl (call_niceStep_iff.mpr ⟨x, hx, rfl⟩)
  | latencyNice => exact .skip rfl (.here rfl (call_latencyNiceStep_iff.mpr ⟨x, hx, rfl⟩))
  | rtprio =>
    exact .skip rfl (.skip rfl (.here rfl (call_schedStep_iff.mpr ⟨y, hy, "fifo", rfl, rfl⟩)))
  | ionice =>
    have hvalue : ioVal (RuleInteger.ionice.rule v) = .ok x :=
      (ioVal_of_find rfl (Json.isNumberInteger_of_integerValue hv)).trans hx
    exact .skip rfl (.skip rfl (.skip rfl (.here rfl
      (call_ioniceStep_iff.mpr ⟨"idle", rfl, x, hvalue, rfl⟩))))
  | oomScoreAdj =>
    exact .skip rfl (.skip rfl (.skip rfl (.skip rfl (.here rfl
      (call_oomScoreAdjStep_iff.mpr ⟨x, hx, rfl⟩)))))

/-- The integers that are delivered fit. -/
theorem fits_of_delivered {k : RuleInteger} {v : Json} {n : ℤ} (hv : v.integerValue = some n)
    (h : Delivered k v n) : k.Fits n := by
  obtain ⟨x, hx, hxn⟩ := Json.toInt_getInt hv
  obtain ⟨y, hy, hyn⟩ := Json.toNat_getUnsigned hv
  have hfind : (k.rule v).find? k.key = some v := by cases k <;> rfl
  have hcarried := h Unit idleSetters ⟨.empty⟩ (k.rule v) ⟨1, "a"⟩ () hfind _
    (call_mem_calls k hv hx hy)
  cases k with
  | nice | latencyNice | ionice | oomScoreAdj =>
    exact (bmod_eq_self_iff n).mp (hxn.symm.trans hcarried)
  | rtprio =>
    obtain ⟨hyeq, hkernel⟩ := hcarried
    have hprio := hkernel (Or.inr rfl) Priority.schedFifo y.toInt32 rfl
    rw [toInt_toInt32, hyeq, bmod_eq_self_iff] at hprio
    exact ⟨by omega, hprio.2⟩

/-! ### The quota -/

theorem toNat_quotaUsec (quota : UInt32) :
    (ControlGroups.quotaUsec quota).toNat = 10000 * min 100 quota.toNat := by
  have hclamp : (ControlGroups.clamp quota 0 100).toNat = min 100 quota.toNat := by
    unfold ControlGroups.clamp
    simp only [UInt32.lt_iff_toNat_lt, UInt32.reduceToNat]
    split_ifs
    · omega
    · show 100 = _
      omega
    · omega
  have hlt : min 100 quota.toNat ≤ 100 := min_le_left _ _
  rw [ControlGroups.quotaUsec, UInt64.toNat_mul, UInt32.toNat_toUInt64, hclamp]
  show min 100 quota.toNat * 10000 % 2 ^ 64 = _
  omega

theorem mem_createCgroupsOf {entries : List (String × JsonValue)} {name : String} {quota : UInt32}
    (h : (name, quota) ∈ (Rules.createCgroupsOf entries).1) :
    ∃ rule v, (name, rule) ∈ entries ∧ rule.val.find? "CPUQuota" = some v ∧
      v.getUnsigned = .ok quota := by
  fun_induction Rules.createCgroupsOf entries with
  | case1 => exact absurd h List.not_mem_nil
  | case2 name' rule entries hnone ih =>
    obtain ⟨rule', v, hmem, hrule⟩ := ih h
    exact ⟨rule', v, List.mem_cons_of_mem _ hmem, hrule⟩
  | case3 => exact absurd h List.not_mem_nil
  | case4 name' rule entries v hv n hn ih =>
    rcases List.mem_cons.mp h with h | h
    · obtain ⟨rfl, rfl⟩ := Prod.mk.inj h
      exact ⟨rule, v, List.mem_cons_self, hv, hn⟩
    · obtain ⟨rule', v', hmem, hrule⟩ := ih h
      exact ⟨rule', v', List.mem_cons_of_mem _ hmem, hrule⟩

/-- The quota is sent clamped to `0..100` after the conversion to 32 unsigned bits. -/
theorem quotaDelivered_of_eq {v : Json} {n : ℤ} (hv : v.integerValue = some n)
    (heq : min 100 (n % 2 ^ 32) = max 0 (min 100 n)) : QuotaDelivered v n := by
  intro iter rules name rule hrule hquota quota hmem unit runtime usec hrequest
  obtain ⟨rule', v', hentry, hv', hget⟩ := mem_createCgroupsOf hmem
  have hstored : (name, rule') ∈ rules.cgroupRules.entries := (iter.perm _).mem_iff.mp hentry
  have hsame : rule' = rule :=
    Option.some.inj ((rules.cgroupRules.mem_entries_iff.mp hstored).symm.trans hrule)
  obtain rfl : v' = v := Option.some.inj (hv'.symm.trans (hsame ▸ hquota))
  obtain ⟨y, hy, hyn⟩ := Json.toNat_getUnsigned hv
  obtain rfl := Except.ok.inj (hy.symm.trans hget)
  obtain ⟨-, -, rfl⟩ := ControlGroups.BusRequest.setUnitProperties.inj hrequest
  rw [toNat_quotaUsec]
  omega

/-- A cgroup rule with a quota. -/
def quotaRule (v : Json) : Json := .object [("CPUQuota", v), ("cgroup", .string "c")]

theorem isCanonical_quotaRule {v : Json} {n : ℤ} (hv : v.integerValue = some n) :
    (quotaRule v).isCanonical := by
  rw [quotaRule, Json.isCanonical_object_iff]
  have hkeys : "CPUQuota" < "cgroup" := by decide
  refine ⟨List.pairwise_pair.mpr hkeys, ?_⟩
  rintro e (_ | ⟨_, _ | ⟨_, h⟩⟩)
  · exact Json.isCanonical_of_integerValue hv
  · decide
  · exact absurd h List.not_mem_nil

theorem quotaDelivered_iff {v : Json} {n : ℤ} (hv : v.integerValue = some n) :
    QuotaDelivered v n ↔ QuotaFits n := by
  have hfits : QuotaFits n ↔ min 100 (n % 2 ^ 32) = max 0 (min 100 n) := by
    unfold QuotaFits
    omega
  rw [hfits]
  refine ⟨fun h => ?_, quotaDelivered_of_eq hv⟩
  obtain ⟨y, hy, hyn⟩ := Json.toNat_getUnsigned hv
  let rule : JsonValue := ⟨quotaRule v, isCanonical_quotaRule hv⟩
  let rules : Rules := ⟨.empty, .empty, SortedMap.empty.insert "c" rule⟩
  have hmem : ("c", y) ∈ (rules.createCgroups IterationOrder.asStored).1 := by
    show _ ∈ (Rules.createCgroupsOf [("c", rule)]).1
    have hfind : rule.val.find? "CPUQuota" = some v := rfl
    simp [Rules.createCgroupsOf, hfind, hy]
  have husec := h IterationOrder.asStored rules "c" rule rfl rfl y hmem _ _ _ rfl
  rw [toNat_quotaUsec] at husec
  omega

/-- **The integers that arrive.** For every integer in a rule, the setter that belongs to the key
and the kernel receive exactly that integer if and only if it fits, and a CPU quota is sent clamped
to `0..100` if and only if the clamp comes out the same after the conversion to 32 unsigned bits. -/
theorem delivered_iff {v : Json} {n : ℤ} (hv : v.integerValue = some n) :
    (∀ k, Delivered k v n ↔ k.Fits n) ∧ (QuotaDelivered v n ↔ QuotaFits n) :=
  ⟨fun _ => ⟨fits_of_delivered hv, delivered_of_fits hv⟩, quotaDelivered_iff hv⟩

theorem delivered_iff_sample :
    (∀ k, Delivered k (.numberInteger (-5)) (-5) ↔ k.Fits (-5)) ∧
      (QuotaDelivered (.numberInteger (-5)) (-5) ↔ QuotaFits (-5)) :=
  delivered_iff rfl

/-- Not every integer arrives: a nice value of `2 ^ 32 + 5` is set as `5`. -/
theorem not_forall_delivered :
    ¬ ∀ (v : Json) (n : ℤ), v.integerValue = some n →
      (∀ k, Delivered k v n) ∧ QuotaDelivered v n := by
  intro h
  have hnice := (h (.numberUnsigned 4294967301) 4294967301 rfl).1 .nice
  have hcall : (5 : Int32).toInt = 4294967301 := hnice Unit idleSetters ⟨.empty⟩
    (.object [("nice", .numberUnsigned 4294967301)]) ⟨1, "a"⟩ () rfl (.setPriority 5)
    (by decide +kernel)
  exact absurd hcall (by decide)

end Worker

end AnanicyCpp
