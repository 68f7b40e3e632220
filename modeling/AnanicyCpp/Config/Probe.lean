import AnanicyCpp.Config
import AnanicyCpp.Library.Transition
import AnanicyCpp.Responses

/-!
# The probe of latency nice

Whether the kernel has latency nice is found out by setting it: `test_latnice_support` saves the
latency nice value of the calling thread, sets it to `-20` and, where this succeeds, sets it back.
The constructor of the configuration asks once, and every `reload` asks again, on its own thread and
while the worker sets the attributes of all threads, those of the program among them.

The probe is three calls, so a value that is set between the first and the last of them is lost. It
also resets the policy, like every call of `set_latnice`. Nothing else is left of it, and the answer
is the same every time (`Config.Probe.get_view_of_run`), which is why the configuration takes it as
a parameter.

## Main definitions

* `Kernel.calledBy` : the kernel as one thread sees it.
* `Priority.testLatniceSupport` : the probe.
* `Config.constructOn`, `Config.reloadOn` : the constructor and `reload`, with their probes.
* `Kernel.HasLatnice` : a kernel with latency nice, or without it.
* `Config.Probe.step` : probes one call at a time, among the calls of other threads.
* `Config.Probe.effects` : what is left of a run.

## Main results

* `Config.Probe.run_constructOn`, `Config.Probe.run_reloadOn` : runs without other threads.
* `Config.Probe.get_view_of_run` : the configuration and the attributes after a run.
* `Config.Probe.get_view_eq_of_quiet` : what nobody sets stays as it is, but for policies.
-/

namespace AnanicyCpp

variable {σ : Type}

/-! ### The calling thread -/

/-- A call that another thread would write with its pid: `0` is the calling thread. -/
def Syscall.calledBy (self : Pid) : Syscall → Syscall
  | .setpriority who prio => .setpriority (if who = 0 then self.toUInt32 else who) prio
  | .schedSetattr pid attr flags => .schedSetattr (if pid = 0 then self else pid) attr flags
  | .schedSetscheduler pid policy prio =>
      .schedSetscheduler (if pid = 0 then self else pid) policy prio
  | .ioprioSet who ioPrio => .ioprioSet (if who = 0 then self.toUInt32 else who) ioPrio
  | .writeOomScoreAdj pid value => .writeOomScoreAdj pid value

/-- The kernel as one thread sees it. -/
def Kernel.calledBy (k : Kernel σ) (self : Pid) : Kernel σ :=
  { k with
    syscall call := k.syscall (call.calledBy self)
    schedGetattr pid := k.schedGetattr (if pid = 0 then self else pid) }

namespace Priority

/-- `get_latnice`: where the call fails, the structure keeps its zeros. -/
def getLatnice (k : Kernel σ) (pid : Pid) (s : σ) : Int32 :=
  ((k.schedGetattr pid s).getD {}).schedLatencyNice

/-- The call that decides: the lowest latency nice value for the calling thread. -/
def latniceProbe : Syscall := .schedSetattr 0 (latniceAttr (-20)) 0

/-- `test_latnice_support` -/
def testLatniceSupport (k : Kernel σ) (s : σ) : Bool × σ :=
  let savedLatnice := getLatnice k 0 s
  let (errno, s) := k.syscall latniceProbe s
  if errno = 0 then (true, (setLatnice k savedLatnice 0 s).2) else (false, s)

end Priority

namespace Config

/-- `reload` with its probe. -/
def reloadOn (c : Config) (k : Kernel σ) (content : Text) (s : σ) : Config × σ :=
  let (supported, s) := Priority.testLatniceSupport k s
  (c.reload supported content, s)

/-- The constructor with its probe, and with that of the `reload` which reads the file. -/
def constructOn (k : Kernel σ) (first : Option Text) (s : σ) : Config × σ :=
  let (supported, s) := Priority.testLatniceSupport k s
  match first with
  | none => (initial supported, s)
  | some content => (initial supported).reloadOn k content s

end Config

/-! ### Kernels with latency nice -/

/-- What `sched_setattr` stores for `set_latnice`: the policy is not kept. -/
def latniceChange (latencyNice : Int32) : ThreadChange where
  latencyNice := some latencyNice
  policy := some 0

/-- The policy is reset. -/
def policyReset : ThreadChange where
  policy := some 0

/-- The kernel has latency nice, and the given threads can read and set theirs, or it refuses every
attempt. A value that a thread has is one that it may be given, and a refused call stores
nothing. -/
structure Kernel.HasLatnice (k : Kernel σ) (view : σ → Attributes) (R : Responses)
    (own : Set Pid) (supported : Bool) : Prop where
  reads : supported = true → ∀ self ∈ own, ∀ s,
    Priority.getLatnice (k.calledBy self) 0 s = ((view s).thread self).latencyNice
  lowest : supported = true → ∀ self ∈ own,
    R.outcome (.schedSetattr self (Priority.latniceAttr (-20)) 0) = 0
  again : supported = true → ∀ self ∈ own, ∀ s, R.outcome
    (.schedSetattr self (Priority.latniceAttr ((view s).thread self).latencyNice) 0) = 0
  stores : supported = true → ∀ self ∈ own, ∀ latencyNice,
    R.outcome (.schedSetattr self (Priority.latniceAttr latencyNice) 0) = 0 →
    R.stored (.schedSetattr self (Priority.latniceAttr latencyNice) 0) =
      (latniceChange latencyNice).toOverwrite self
  refuses : supported = false → ∀ self ∈ own, ∀ latencyNice,
    R.outcome (.schedSetattr self (Priority.latniceAttr latencyNice) 0) ≠ 0
  refused : ∀ call, R.outcome call ≠ 0 → R.stored call = Overwrite.keep

namespace Config.Probe

/-! ### Probes among the calls of other threads -/

/-- Where the thread that probes stands. -/
inductive Phase where
  | idle
  /-- It has read its value. -/
  | saved (self : Pid) (savedLatnice : Int32)
  /-- It has set the lowest value. -/
  | lowest (self : Pid) (savedLatnice : Int32)
  | answered (self : Pid) (isSupported : Bool)

namespace Phase

/-- The thread that is at work. -/
def self? : Phase → Option Pid
  | .idle => none
  | .saved self _ | .lowest self _ | .answered self _ => some self

/-- The thread that is about to set its value back, and the value. -/
def saved? : Phase → Option (Pid × Int32)
  | .saved self savedLatnice | .lowest self savedLatnice => some (self, savedLatnice)
  | _ => none

/-- The attribute that the probe is about to set back. -/
def atStake (supported : Bool) (phase : Phase) : Option Attr :=
  if supported then phase.saved?.map fun p => .latencyNice p.1 else none

end Phase

/-- The probe, the configuration that has been constructed, and the rest of the system. -/
structure State (σ : Type) where
  phase : Phase
  config : Option Config
  env : σ

inductive Act where
  | getLatnice (self : Pid)
  | setattr
  | setLatnice
  /-- The constructor stores the answer. -/
  | construct
  /-- `reload` overlays the file, and stores the answer. -/
  | reload (content : Text)
  /-- A call of another thread. -/
  | call (caller : Pid) (call : Syscall)

def step (k : Kernel σ) (s : State σ) : Act → Option (State σ)
  | .getLatnice self =>
    match s.phase with
    | .idle =>
        some { s with phase := .saved self (Priority.getLatnice (k.calledBy self) 0 s.env) }
    | _ => none
  | .setattr =>
    match s.phase with
    | .saved self savedLatnice =>
        let (errno, env) := (k.calledBy self).syscall Priority.latniceProbe s.env
        some { s with
          phase := if errno = 0 then .lowest self savedLatnice else .answered self false, env }
    | _ => none
  | .setLatnice =>
    match s.phase with
    | .lowest self savedLatnice =>
        some { s with
          phase := .answered self true
          env := (Priority.setLatnice (k.calledBy self) savedLatnice 0 s.env).2 }
    | _ => none
  | .construct =>
    match s.phase, s.config with
    | .answered _ isSupported, none =>
        some { s with phase := .idle, config := some (initial isSupported) }
    | _, _ => none
  | .reload content =>
    match s.phase, s.config with
    | .answered _ isSupported, some c =>
        some { s with phase := .idle, config := some (c.reload isSupported content) }
    | _, _ => none
  | .call caller call =>
    if s.phase.self? = some caller then none
    else some { s with env := ((k.calledBy caller).syscall call s.env).2 }

/-- The content that an action reads. -/
def Act.content? : Act → Option Text
  | .reload content => some content
  | _ => none

/-! ### What is left of a run -/

/-- What is left of an action: a probe that succeeds resets the policy, twice, and a call of another
thread stores what it stores, but for the value that the probe is about to set back. -/
def effect (R : Responses) (supported : Bool) (phase : Phase) : Act → Overwrite Attr.Value
  | .setattr | .setLatnice =>
    match phase.saved? with
    | some (self, _) => if supported then policyReset.toOverwrite self else Overwrite.keep
    | none => Overwrite.keep
  | .call caller call =>
    match phase.atStake supported with
    | some attr => (R.stored (call.calledBy caller)).without attr
    | none => R.stored (call.calledBy caller)
  | _ => Overwrite.keep

/-- What is left of each action of a run. -/
def effects (k : Kernel σ) (R : Responses) (supported : Bool) :
    State σ → List Act → List (Overwrite Attr.Value)
  | _, [] => []
  | s, a :: acts =>
      effect R supported s.phase a :: (step k s a).elim [] fun t => effects k R supported t acts

/-! ### Runs without other threads -/

section Alone

variable (k : Kernel σ) (self : Pid) (config : Option Config) (env : σ)

/-- The calls of a probe, one after the other, are the probe. -/
theorem run_testLatniceSupport :
    ∃ acts, Transition.run (step k) ⟨.idle, config, env⟩ acts =
      some ⟨.answered self (Priority.testLatniceSupport (k.calledBy self) env).1, config,
        (Priority.testLatniceSupport (k.calledBy self) env).2⟩ := by
  by_cases h : ((k.calledBy self).syscall Priority.latniceProbe env).1 = 0
  · refine ⟨[.getLatnice self, .setattr, .setLatnice], ?_⟩
    simp only [Transition.run, step, Priority.testLatniceSupport, h, if_true, Option.bind_some]
  · refine ⟨[.getLatnice self, .setattr], ?_⟩
    simp only [Transition.run, step, Priority.testLatniceSupport, h, if_false, Option.bind_some]

theorem run_reloadOn (content : Text) (c : Config) :
    ∃ acts, Transition.run (step k) ⟨.idle, some c, env⟩ acts =
      some ⟨.idle, some (c.reloadOn (k.calledBy self) content env).1,
        (c.reloadOn (k.calledBy self) content env).2⟩ := by
  obtain ⟨acts, hacts⟩ := run_testLatniceSupport k self (some c) env
  exact ⟨acts ++ [.reload content], Transition.run_append_eq_some_iff.mpr ⟨_, hacts, rfl⟩⟩

theorem run_constructOn (first : Option Text) :
    ∃ acts, Transition.run (step k) ⟨.idle, none, env⟩ acts =
      some ⟨.idle, some (constructOn (k.calledBy self) first env).1,
        (constructOn (k.calledBy self) first env).2⟩ := by
  obtain ⟨acts, hacts⟩ := run_testLatniceSupport k self none env
  have hconstruct : Transition.run (step k) ⟨.idle, none, env⟩ (acts ++ [.construct]) = some _ :=
    Transition.run_append_eq_some_iff.mpr ⟨_, hacts, rfl⟩
  cases first with
  | none => exact ⟨_, hconstruct⟩
  | some content =>
    obtain ⟨acts', hacts'⟩ := run_reloadOn k self
      (Priority.testLatniceSupport (k.calledBy self) env).2 content
      (initial (Priority.testLatniceSupport (k.calledBy self) env).1)
    exact ⟨_, Transition.run_append_eq_some_iff.mpr ⟨_, hconstruct, hacts'⟩⟩

end Alone

/-! ### Runs among the calls of other threads -/

section Changes

variable (self : Pid) (latencyNice : Int32)

theorem latniceChange_self :
    (latniceChange latencyNice).toOverwrite self (.latencyNice self) = some latencyNice :=
  if_pos rfl

theorem policyReset_self : policyReset.toOverwrite self (.latencyNice self) = none :=
  if_pos rfl

theorem latniceChange_of_ne {attr : Attr} (h : attr ≠ .latencyNice self) :
    (latniceChange latencyNice).toOverwrite self attr = policyReset.toOverwrite self attr := by
  cases attr with
  | latencyNice tid =>
    have htid : tid ≠ self := fun htid => h (congrArg Attr.latencyNice htid)
    exact (if_neg htid).trans (if_neg htid).symm
  | nice | policy | rtPriority | ioPrio | oomScoreAdj => rfl

end Changes

/-- The attributes are the given ones, but for the value that the probe is about to set back, which
it knows. -/
structure Consistent (view : σ → Attributes) (R : Responses) (own : Set Pid) (supported : Bool)
    (s : State σ) (a : ∀ attr : Attr, attr.Value) : Prop where
  agrees : ∀ attr, s.phase.atStake supported ≠ some attr → (view s.env).get attr = a attr
  own : ∀ self savedLatnice, s.phase.saved? = some (self, savedLatnice) → self ∈ own
  saved : supported = true → ∀ self savedLatnice, s.phase.saved? = some (self, savedLatnice) →
    a (.latencyNice self) = savedLatnice ∧
      R.outcome (.schedSetattr self (Priority.latniceAttr savedLatnice) 0) = 0
  lowest : ∀ self savedLatnice, s.phase = .lowest self savedLatnice → supported = true
  answered : ∀ self isSupported, s.phase = .answered self isSupported → isSupported = supported

section Invariant

variable {P : Platform σ} {view : σ → Attributes} {R : Responses} {own : Set Pid}
  {supported : Bool} {a : ∀ attr : Attr, attr.Value}

/-- Where no value is at stake. -/
theorem consistent_of_get_eq {s : State σ} (hsaved : s.phase.saved? = none)
    (hanswered : ∀ self isSupported, s.phase = .answered self isSupported →
      isSupported = supported)
    (h : (view s.env).get = a) : Consistent view R own supported s a where
  agrees attr _ := congrFun h attr
  own _ _ hphase := absurd (hsaved.symm.trans hphase) (Option.some_ne_none _).symm
  saved _ _ _ hphase := absurd (hsaved.symm.trans hphase) (Option.some_ne_none _).symm
  lowest _ _ hphase := by simp [hphase, Phase.saved?] at hsaved
  answered := hanswered

theorem consistent_start (view : σ → Attributes) (R : Responses) (own : Set Pid) (supported : Bool)
    (env : σ) : Consistent view R own supported ⟨.idle, none, env⟩ (view env).get :=
  consistent_of_get_eq rfl (by simp) rfl

theorem Consistent.get_eq {s : State σ} (h : Consistent view R own supported s a)
    (hphase : s.phase.saved? = none ∨ supported = false) : (view s.env).get = a := by
  funext attr
  refine h.agrees attr ?_
  rcases hphase with hphase | hphase <;> simp [Phase.atStake, hphase]

/-- The value is read: it is the one that is left of all calls. -/
theorem consistent_getLatnice (hk : P.HasLatnice view R own supported) {config : Option Config}
    {env : σ} {self : Pid} (hself : self ∈ own)
    (h : Consistent view R own supported ⟨.idle, config, env⟩ a) :
    Consistent view R own supported
      ⟨.saved self (Priority.getLatnice (P.calledBy self) 0 env), config, env⟩ a where
  agrees attr _ := congrFun (h.get_eq (.inl rfl)) attr
  own := by
    rintro _ _ ⟨⟩
    exact hself
  saved := by
    rintro hsupported _ _ ⟨⟩
    rw [hk.reads hsupported self hself env]
    exact ⟨(congrFun (h.get_eq (.inl rfl)) (.latencyNice self)).symm,
      hk.again hsupported self hself env⟩
  lowest := by simp
  answered := by simp

/-- The lowest value is set, or the kernel refuses it. -/
theorem consistent_setattr (hP : P.Responds view R) (hk : P.HasLatnice view R own supported)
    {config : Option Config} {env : σ} {self : Pid} {savedLatnice : Int32}
    (h : Consistent view R own supported ⟨.saved self savedLatnice, config, env⟩ a) {t : State σ}
    (hstep : step P.toKernel ⟨.saved self savedLatnice, config, env⟩ .setattr = some t) :
    Consistent view R own supported t
      ((effect R supported (.saved self savedLatnice) .setattr).apply a) := by
  have hself : self ∈ own := h.own self savedLatnice rfl
  have houtcome := hP.answers (.schedSetattr self (Priority.latniceAttr (-20)) 0) env
  have hstores := hP.stores (.schedSetattr self (Priority.latniceAttr (-20)) 0) env
  simp only [step, Kernel.calledBy, Syscall.calledBy, Priority.latniceProbe, if_true, houtcome,
    Option.some.injEq] at hstep
  subst hstep
  cases hsupported : supported with
  | true =>
    subst hsupported
    have hlowest := hk.lowest rfl self hself
    obtain ⟨hsaved, haccepted⟩ := h.saved rfl self savedLatnice rfl
    rw [hk.stores rfl self hself _ hlowest] at hstores
    simp only [hlowest, if_true]
    exact {
      agrees attr hattr := by
        have hne : attr ≠ .latencyNice self := fun hattr' => hattr (congrArg some hattr'.symm)
        rw [hstores]
        show _ = (policyReset.toOverwrite self).apply a attr
        rw [Overwrite.apply, Overwrite.apply, latniceChange_of_ne self _ hne,
          h.agrees attr fun h => hne (Option.some.inj h).symm]
      own := by
        rintro _ _ ⟨⟩
        exact hself
      saved := by
        rintro - _ _ ⟨⟩
        refine ⟨?_, haccepted⟩
        show (policyReset.toOverwrite self).apply a (.latencyNice self) = savedLatnice
        rw [Overwrite.apply, policyReset_self, Option.getD_none, hsaved]
      lowest _ _ _ := rfl
      answered := by simp }
  | false =>
    subst hsupported
    have hrefused := hk.refuses rfl self hself (-20)
    rw [hk.refused _ hrefused, Overwrite.apply_keep, h.get_eq (.inr rfl)] at hstores
    simp only [hrefused, if_false]
    exact consistent_of_get_eq rfl (by simp) hstores

/-- The saved value is set back, where the kernel has latency nice. -/
theorem consistent_setLatnice (hP : P.Responds view R) (hk : P.HasLatnice view R own supported)
    {config : Option Config} {env : σ} {self : Pid} {savedLatnice : Int32}
    (h : Consistent view R own supported ⟨.lowest self savedLatnice, config, env⟩ a) {t : State σ}
    (hstep : step P.toKernel ⟨.lowest self savedLatnice, config, env⟩ .setLatnice = some t) :
    Consistent view R own supported t
      ((effect R supported (.lowest self savedLatnice) .setLatnice).apply a) := by
  obtain rfl : supported = true := h.lowest self savedLatnice rfl
  have hself : self ∈ own := h.own self savedLatnice rfl
  obtain ⟨hsaved, haccepted⟩ := h.saved rfl self savedLatnice rfl
  have hstores := hP.stores (.schedSetattr self (Priority.latniceAttr savedLatnice) 0) env
  rw [hk.stores rfl self hself _ haccepted] at hstores
  simp only [step, Priority.setLatnice, Kernel.calledBy, Syscall.calledBy, if_true,
    Option.some.injEq] at hstep
  subst hstep
  refine consistent_of_get_eq rfl (by simp) ?_
  rw [hstores]
  funext attr
  show _ = (policyReset.toOverwrite self).apply a attr
  by_cases hattr : attr = .latencyNice self
  · subst hattr
    rw [Overwrite.apply, Overwrite.apply, latniceChange_self, policyReset_self]
    exact hsaved.symm
  · rw [Overwrite.apply, Overwrite.apply, latniceChange_of_ne self _ hattr,
      h.agrees attr fun h => hattr (Option.some.inj h).symm]

/-- A call of another thread: where it sets the value that is at stake, this is lost. -/
theorem consistent_call (hP : P.Responds view R) {s : State σ}
    (h : Consistent view R own supported s a) (caller : Pid) (call : Syscall) :
    Consistent view R own supported
      { s with env := ((P.calledBy caller).syscall call s.env).2 }
      ((effect R supported s.phase (.call caller call)).apply a) := by
  have hstores := hP.stores (call.calledBy caller) s.env
  have heffect (attr : Attr) (hattr : s.phase.atStake supported ≠ some attr) :
      (effect R supported s.phase (.call caller call)).apply a attr =
        (R.stored (call.calledBy caller)).apply a attr := by
    rw [effect]
    cases hstake : s.phase.atStake supported with
    | none => rfl
    | some attr' =>
      exact Overwrite.apply_without_of_ne _
        (fun hattr' => hattr (hstake.trans (congrArg some hattr'.symm))) a
  exact {
    agrees attr hattr := by
      rw [heffect attr hattr]
      show (view (P.syscall (call.calledBy caller) s.env).2).get attr = _
      rw [hstores]
      exact Overwrite.apply_congr _ (h.agrees attr hattr)
    own := h.own
    saved := by
      intro hsupported self savedLatnice hphase
      obtain ⟨hsaved, haccepted⟩ := h.saved hsupported self savedLatnice hphase
      refine ⟨?_, haccepted⟩
      have hstake : s.phase.atStake supported = some (.latencyNice self) := by
        rw [Phase.atStake, if_pos hsupported, hphase, Option.map_some]
      rw [effect, hstake, Overwrite.apply_without_self, hsaved]
    lowest := h.lowest
    answered := h.answered }

/-- The configuration is the one that the answers of a kernel give which always says the same. -/
def Built (supported : Bool) (contents : List Text) : Option Config → Prop
  | none => contents = []
  | some c => c = live supported contents

theorem live_concat (supported : Bool) (contents : List Text) (content : Text) :
    live supported (contents ++ [content]) =
      (live supported contents).reload supported content := by
  cases contents with
  | nil => rfl
  | cons first later => rw [List.cons_append, live, List.foldl_concat, live]

/-- One action. -/
theorem consistent_step (hP : P.Responds view R) (hk : P.HasLatnice view R own supported)
    {s t : State σ} {act : Act} (hown : ∀ self, act = .getLatnice self → self ∈ own)
    {contents : List Text} (h : Consistent view R own supported s a)
    (hbuilt : Built supported contents s.config) (hstep : step P.toKernel s act = some t) :
    Consistent view R own supported t ((effect R supported s.phase act).apply a) ∧
      Built supported (contents ++ act.content?.toList) t.config := by
  obtain ⟨phase, config, env⟩ := s
  have hcontents : Built supported (contents ++ []) config := by
    rwa [List.append_nil]
  cases act with
  | getLatnice self =>
    cases phase with
    | idle =>
      obtain rfl := Option.some.inj hstep
      exact ⟨consistent_getLatnice hk (hown self rfl) h, hcontents⟩
    | saved | lowest | answered => exact absurd hstep (Option.some_ne_none _).symm
  | setattr =>
    cases phase with
    | saved self savedLatnice =>
      refine ⟨consistent_setattr hP hk h hstep, ?_⟩
      obtain rfl := Option.some.inj hstep
      exact hcontents
    | idle | lowest | answered => exact absurd hstep (Option.some_ne_none _).symm
  | setLatnice =>
    cases phase with
    | lowest self savedLatnice =>
      refine ⟨consistent_setLatnice hP hk h hstep, ?_⟩
      obtain rfl := Option.some.inj hstep
      exact hcontents
    | idle | saved | answered => exact absurd hstep (Option.some_ne_none _).symm
  | construct =>
    cases phase with
    | answered self isSupported =>
      cases config with
      | none =>
        obtain rfl := Option.some.inj hstep
        obtain rfl := h.answered self isSupported rfl
        obtain rfl : contents = [] := hbuilt
        exact ⟨consistent_of_get_eq rfl (by simp) (h.get_eq (.inl rfl)), rfl⟩
      | some c => exact absurd hstep (Option.some_ne_none _).symm
    | idle | saved | lowest => exact absurd hstep (Option.some_ne_none _).symm
  | reload content =>
    cases phase with
    | answered self isSupported =>
      cases config with
      | some c =>
        obtain rfl := Option.some.inj hstep
        obtain rfl := h.answered self isSupported rfl
        obtain rfl : c = live isSupported contents := hbuilt
        exact ⟨consistent_of_get_eq rfl (by simp) (h.get_eq (.inl rfl)),
          (live_concat isSupported contents content).symm⟩
      | none => exact absurd hstep (Option.some_ne_none _).symm
    | idle | saved | lowest => exact absurd hstep (Option.some_ne_none _).symm
  | call caller call =>
    simp only [step] at hstep
    split_ifs at hstep
    obtain rfl := Option.some.inj hstep
    exact ⟨consistent_call hP h caller call, hcontents⟩

/-- A run. -/
theorem consistent_run (hP : P.Responds view R) (hk : P.HasLatnice view R own supported)
    {s t : State σ} {acts : List Act} (hown : ∀ self, .getLatnice self ∈ acts → self ∈ own)
    {contents : List Text} (h : Consistent view R own supported s a)
    (hbuilt : Built supported contents s.config)
    (hrun : Transition.run (step P.toKernel) s acts = some t) :
    Consistent view R own supported t
        ((Overwrite.all (effects P.toKernel R supported s acts)).apply a) ∧
      Built supported (contents ++ acts.filterMap Act.content?) t.config := by
  induction acts generalizing s a contents with
  | nil =>
    obtain rfl : s = t := Option.some.inj hrun
    rw [List.filterMap_nil, List.append_nil]
    exact ⟨h, hbuilt⟩
  | cons act acts ih =>
    obtain ⟨s', hs', hrest⟩ := Transition.run_cons_eq_some_iff.mp hrun
    obtain ⟨h', hbuilt'⟩ := consistent_step hP hk
      (fun self hself => hown self (hself ▸ List.mem_cons_self)) h hbuilt hs'
    obtain ⟨hend, hbuiltEnd⟩ :=
      ih (fun self hself => hown self (List.mem_cons_of_mem act hself)) h' hbuilt' hrest
    rw [effects, hs', Option.elim_some, Overwrite.apply_all, List.foldl_cons, ← Overwrite.apply_all]
    refine ⟨hend, ?_⟩
    rw [List.filterMap_cons]
    rw [List.append_assoc] at hbuiltEnd
    cases hact : act.content? with
    | none => rwa [hact] at hbuiltEnd
    | some content => rwa [hact] at hbuiltEnd

end Invariant

/-- **What the probes leave behind.** Start the program on a kernel that has latency nice or refuses
it, and let its threads construct and reload the configuration in any run, among any calls of other
threads. The configuration is the one that a constant answer gives for the contents read so far.
Between the probes the attributes are those that the calls of the other threads give, except that
every probe which succeeds has reset the policy of its thread, and that a latency nice value which
another thread sets while a thread probes is lost to that thread. -/
theorem get_view_of_run {P : Platform σ} {view : σ → Attributes} {R : Responses} {own : Set Pid}
    {supported : Bool} (hP : P.Responds view R) (hk : P.HasLatnice view R own supported)
    {env : σ} {t : State σ} {acts : List Act} (hown : ∀ self, .getLatnice self ∈ acts → self ∈ own)
    (hrun : Transition.run (step P.toKernel) ⟨.idle, none, env⟩ acts = some t) :
    (∀ c, t.config = some c → c = live supported (acts.filterMap Act.content?)) ∧
    (t.phase = .idle → (view t.env).get = (Overwrite.all
      (effects P.toKernel R supported ⟨.idle, none, env⟩ acts)).apply (view env).get) := by
  have hend := consistent_run hP hk hown (consistent_start view R own supported env)
    (show Built supported [] none from rfl) hrun
  constructor
  · intro c hc
    have hbuilt := hend.2
    rwa [hc] at hbuilt
  · intro hidle
    exact hend.1.get_eq (.inl (by rw [hidle]; rfl))

/-- An action of the probe is about a policy only. -/
theorem effect_eq_none {R : Responses} {supported : Bool} (phase : Phase) {attr : Attr}
    (hattr : ∀ tid, attr ≠ .policy tid) {act : Act}
    (hquiet : ∀ caller call, act = .call caller call →
      R.stored (call.calledBy caller) attr = none) :
    effect R supported phase act attr = none := by
  have hreset (self : Pid) : policyReset.toOverwrite self attr = none := by
    cases attr with
    | policy tid => exact absurd rfl (hattr tid)
    | oomScoreAdj pid => rfl
    | nice | latencyNice | rtPriority | ioPrio => exact ite_self _
  cases act with
  | setattr | setLatnice =>
    simp only [effect]
    cases phase.saved? with
    | none => rfl
    | some p =>
      cases supported with
      | true => exact hreset p.1
      | false => rfl
  | call caller call =>
    have hcall : R.stored (call.calledBy caller) attr = none := hquiet caller call rfl
    simp only [effect]
    cases phase.atStake supported with
    | none => exact hcall
    | some attr' =>
      show (if attr = attr' then none else _) = none
      rw [hcall, ite_self]
  | getLatnice | construct | reload => rfl

/-- What the other threads leave alone is not changed by the probes either, but for policies. -/
theorem get_view_eq_of_quiet {P : Platform σ} {view : σ → Attributes} {R : Responses}
    {own : Set Pid} {supported : Bool} (hP : P.Responds view R)
    (hk : P.HasLatnice view R own supported) {env : σ} {t : State σ} {acts : List Act}
    (hown : ∀ self, .getLatnice self ∈ acts → self ∈ own)
    (hrun : Transition.run (step P.toKernel) ⟨.idle, none, env⟩ acts = some t)
    (hidle : t.phase = .idle) {attr : Attr} (hattr : ∀ tid, attr ≠ .policy tid)
    (hquiet : ∀ caller call, .call caller call ∈ acts →
      R.stored (call.calledBy caller) attr = none) :
    (view t.env).get attr = (view env).get attr := by
  have hnone (s : State σ) (acts : List Act) (hquiet : ∀ caller call, .call caller call ∈ acts →
      R.stored (call.calledBy caller) attr = none) :
      ∀ o ∈ effects P.toKernel R supported s acts, o attr = none := by
    induction acts generalizing s with
    | nil => simp [effects]
    | cons act acts ih =>
      rw [effects, List.forall_mem_cons]
      refine ⟨effect_eq_none s.phase hattr fun caller call hact =>
        hquiet caller call (hact ▸ List.mem_cons_self), ?_⟩
      cases step P.toKernel s act with
      | none => simp
      | some s' => exact ih s' fun caller call hcall => hquiet caller call (.tail act hcall)
  have hend := (consistent_run hP hk hown (consistent_start view R own supported env)
    (show Built supported [] none from rfl) hrun).1.get_eq (.inl (by rw [hidle]; rfl))
  rw [hend, Overwrite.apply, Overwrite.all_eq_none (hnone _ acts hquiet), Option.getD_none]

/-- The reference platform has latency nice. -/
theorem hasLatnice_reference (tasks : Pid → List Pid) (own : Set Pid) :
    (Platform.reference tasks).HasLatnice id (Responses.reference tasks) own true where
  reads _ _ _ _ := rfl
  lowest _ _ _ := rfl
  again _ _ _ _ := rfl
  stores _ self _ latencyNice _ := by
    show (Priority.latniceAttr latencyNice).change.toOverwrite self = _
    rw [SchedAttr.change, Priority.keepsPolicy_latniceAttr,
      if_pos (Priority.keepsParams_latniceAttr latencyNice),
      if_pos (Priority.keepsParams_latniceAttr latencyNice), if_neg Bool.false_ne_true]
    rfl
  refuses h := absurd h (by decide)
  refused call h := by
    cases call with
    | schedSetscheduler pid policy prio =>
      simp only [Responses.reference] at h ⊢
      split_ifs at h ⊢ <;> first | rfl | exact absurd rfl h
    | setpriority | schedSetattr | ioprioSet | writeOomScoreAdj => exact absurd rfl h

/-- Thread `3` gives thread `2` the latency nice value `5` while it probes: the value is lost. -/
theorem get_view_of_run_sample : ∃ t : State Attributes,
    Transition.run (step (Platform.reference fun pid => [pid]).toKernel)
      ⟨.idle, none, Attributes.zero⟩
      [.getLatnice 2, .call 3 (.schedSetattr 2 (Priority.latniceAttr 5) 0), .setattr, .setLatnice,
        .construct] = some t ∧
    (t.env.thread 2).latencyNice = 0 := by
  have hrun : Transition.run (step (Platform.reference fun pid => [pid]).toKernel)
      ⟨.idle, none, Attributes.zero⟩
      [.getLatnice 2, .call 3 (.schedSetattr 2 (Priority.latniceAttr 5) 0), .setattr, .setLatnice,
        .construct] = some _ := rfl
  obtain ⟨-, hview⟩ := get_view_of_run (responds_reference fun pid => [pid])
    (hasLatnice_reference (fun pid => [pid]) {2}) (by simp) hrun
  exact ⟨_, rfl, congrFun (hview rfl) (.latencyNice 2)⟩

end Config.Probe

end AnanicyCpp
