import AnanicyCpp.Responses
import AnanicyCpp.Worker.Calls
import AnanicyCpp.Worker.Requests

/-!
# What a rule sets

The setters only overwrite attributes. When the answers of the kernel depend on nothing but the
call, a turn of the worker is therefore one change of the attributes, which the same setters write
down when they run on a platform that records what it is asked for (`Worker.get_handleProcess`).

Every process is pushed over and over again, by scans and by events, and the entries of different
processes come in any order. Neither matters for the attributes: they depend on the names that each
process has shown in turn, and on nothing else (`Worker.view_work_eq`).

## Main definitions

* `Worker.settings`, `Worker.entrySettings` : what a rule sets, and what an entry of the queue sets.

## Main results

* `Platform.call_simulation` : setters on kernels that answer alike.
* `Worker.get_handleProcess`, `Worker.get_drain` : a turn, and the loop.
* `Worker.view_work_eq` : repetitions and the order of the processes do not matter.
-/

namespace AnanicyCpp

variable {σ τ : Type}

/-! ### Setters on kernels that answer alike -/

namespace Priority

variable {k : Kernel σ} {k' : Kernel τ} {Rel : σ → τ → Prop}

theorem forEachTask_simulation {call : Pid → σ → Errno × σ} {call' : Pid → τ → Errno × τ}
    (hcall : ∀ tid s t, Rel s t →
      (call tid s).1 = (call' tid t).1 ∧ Rel (call tid s).2 (call' tid t).2)
    (names : List Text) {s : σ} {t : τ} (h : Rel s t) :
    (forEachTask call names s).1 = (forEachTask call' names t).1 ∧
      Rel (forEachTask call names s).2 (forEachTask call' names t).2 := by
  induction names using List.reverseRecOn with
  | nil => exact ⟨rfl, h⟩
  | append_singleton names name ih =>
    simp only [forEachTask, List.foldl_concat] at ih ⊢
    split_ifs with htid
    · exact hcall _ _ _ ih.2
    · exact ⟨rfl, ih.2⟩

theorem setForTasks_simulation (hk : k.Simulates k' Rel) {call : Pid → σ → Errno × σ}
    {call' : Pid → τ → Errno × τ} (hcall : ∀ tid s t, Rel s t →
      (call tid s).1 = (call' tid t).1 ∧ Rel (call tid s).2 (call' tid t).2)
    (funcName : String) (pid : Pid) {s : σ} {t : τ} (h : Rel s t) :
    (setForTasks k funcName pid call s).1 = (setForTasks k' funcName pid call' t).1 ∧
      Rel (setForTasks k funcName pid call s).2 (setForTasks k' funcName pid call' t).2 := by
  obtain ⟨herror, hstate⟩ := forEachTask_simulation hcall (k'.taskDir pid t).names h
  simp only [setForTasks, hk.taskDir pid s t h, herror]
  split_ifs
  · exact ⟨rfl, hstate⟩
  · exact ⟨rfl, hstate⟩

theorem setLatnice_simulation (hk : k.Simulates k' Rel) (latencyNice : Int32) (tid : Pid) {s : σ}
    {t : τ} (h : Rel s t) :
    (setLatnice k latencyNice tid s).1 = (setLatnice k' latencyNice tid t).1 ∧
      Rel (setLatnice k latencyNice tid s).2 (setLatnice k' latencyNice tid t).2 := by
  obtain ⟨herror, hstate⟩ := hk.syscall (.schedSetattr tid (latniceAttr latencyNice) 0) s t h
  simp only [setLatnice, herror]
  exact ⟨trivial, hstate⟩

end Priority

/-- **Simulation.** On kernels that answer alike, the setters of attributes return the same and keep
the states related. -/
theorem Platform.call_simulation {P : Platform σ} {P' : Platform τ} {Rel : σ → τ → Prop}
    (hk : P.toKernel.Simulates P'.toKernel Rel) (pid : Pid) {c : SetterCall}
    (hc : ∀ cgroupName, c ≠ .addPidToCgroup cgroupName) {s : σ} {t : τ} (h : Rel s t) :
    (P.setters.call pid c s).1 = (P'.setters.call pid c t).1 ∧
      Rel (P.setters.call pid c s).2 (P'.setters.call pid c t).2 := by
  cases c with
  | setPriority niceValue =>
    exact Priority.setForTasks_simulation hk
      (fun tid => hk.syscall (.setpriority tid.toUInt32 niceValue)) "set_priority" pid h
  | setLatencyNice latencyNiceValue =>
    exact Priority.setForTasks_simulation hk
      (fun tid _ _ => Priority.setLatnice_simulation hk latencyNiceValue tid)
      "set_latency_nice" pid h
  | setSched schedName rtPrio =>
    simp only [Platform.setters, Priority.setSched]
    cases Priority.schedRequest schedName rtPrio with
    | none => exact ⟨rfl, h⟩
    | some request =>
      obtain ⟨herror, hstate⟩ := hk.syscall (.schedSetscheduler pid request.1 request.2) s t h
      simp only [herror]
      exact ⟨trivial, hstate⟩
  | setIoPriority ioClass value =>
    simp only [Platform.setters, Priority.setIoPriority]
    cases Priority.ioPrioRequest ioClass value with
    | none => exact ⟨rfl, h⟩
    | some ioPrio =>
      obtain ⟨herror, hstate⟩ := hk.syscall (.ioprioSet pid.toUInt32 ioPrio) s t h
      simp only [herror]
      exact ⟨trivial, hstate⟩
  | setOomScoreAdjust value =>
    simp only [Platform.setters, Priority.setOomScoreAdjust, hk.opensOomScoreAdj pid s t h]
    split_ifs
    · exact ⟨rfl, (hk.syscall _ s t h).2⟩
    · exact ⟨rfl, h⟩
  | addPidToCgroup cgroupName => exact absurd rfl (hc cgroupName)

namespace Worker

open Fallible

/-! ### What a rule sets -/

/-- The steps that set attributes. -/
def settingSteps (config : Config) (rule : Json) : List RuleStep :=
  [niceStep config rule, latencyNiceStep config rule, schedStep config rule,
    ioniceStep config rule, oomScoreAdjStep config rule]

theorem steps_eq (config : Config) (rule : Json) (isRealtime : Bool) :
    steps config rule isRealtime =
      settingSteps config rule ++ [cgroupStep config rule isRealtime] := rfl

theorem ne_addPidToCgroup_of_settingSteps {config : Config} {rule : Json} :
    ∀ st ∈ settingSteps config rule, ∀ c, st.call = .ok c →
      ∀ cgroupName, c ≠ .addPidToCgroup cgroupName := by
  rintro st hst _ hc cgroupName rfl
  simp only [settingSteps, List.mem_cons, List.not_mem_nil, or_false] at hst
  rcases hst with rfl | rfl | rfl | rfl | rfl
  · simp [call_niceStep_iff] at hc
  · simp [call_latencyNiceStep_iff] at hc
  · simp [call_schedStep_iff] at hc
  · simp [call_ioniceStep_iff] at hc
  · simp [call_oomScoreAdjStep_iff] at hc

/-- What a rule sets: the steps, carried out on the recording platform. -/
def settings (R : Responses) (config : Config) (rule : Json) (pid : Pid) :
    Overwrite Attr.Value :=
  (CallSequence.run ((Platform.recording R).setters.call pid) (settingSteps config rule)
    Overwrite.keep).state

/-- What an entry of the queue sets. -/
def entrySettings (R : Responses) (rules : Rules) (config : Config) (p : Process) :
    Overwrite Attr.Value :=
  match rules.getRule p.name with
  | .ok rule => settings R config rule p.pid
  | .error _ => Overwrite.keep

section Turns

variable {P : Platform σ} {view : σ → Attributes} {R : Responses} {rules : Rules} {config : Config}

/-- The step for the cgroup changes no attribute. -/
theorem view_run_cgroupStep (hP : P.Responds view R) (rule : Json) (pid : Pid) (isRealtime : Bool)
    (s : σ) : view (CallSequence.run (P.setters.call pid)
      [cgroupStep config rule isRealtime] s).state = view s := by
  refine CallSequence.observe_run_of_frame view (fun st hst c hc t => ?_) s
  obtain rfl := List.mem_singleton.mp hst
  obtain ⟨cgroupName, -, rfl⟩ := call_cgroupStep_iff.mp hc
  exact P.addPidToCgroup_invariant (fun t' => view t' = view t)
    (fun t' ht' => (hP.connecting t').trans ht') (fun request t' ht' =>
      (hP.calling request t').trans ht') pid cgroupName rfl

/-- **A turn.** A turn changes the attributes as the recording platform says. -/
theorem get_handleProcess (hP : P.Responds view R) (rule : Json) (p : Process) (s : σ) :
    (view (handleProcess P.setters config rule p s).after).get =
      (settings R config rule p.pid).apply (view s).get := by
  have hsimulates := hP.simulates (view s).get
  have hsettings : (view (CallSequence.run (P.setters.call p.pid) (settingSteps config rule)
      s).state).get = (settings R config rule p.pid).apply (view s).get :=
    (CallSequence.run_simulation
      (fun s' (o : Overwrite Attr.Value) => (view s').get = o.apply (view s).get)
      (fun st hst c hc s' o h => Platform.call_simulation hsimulates p.pid
        (ne_addPidToCgroup_of_settingSteps st hst c hc) h) rfl).2.2
  rw [observe_after (fun s => view s) P hP.connecting hP.calling, steps_eq,
    CallSequence.run_append]
  split_ifs
  · show (view (CallSequence.run _ [cgroupStep config rule _] _).state).get = _
    rw [view_run_cgroupStep hP, hsettings]
  · exact hsettings

/-- **The loop.** The attributes after the loop, from what the entries set. -/
theorem get_drain (hP : P.Responds view R) {w w' : Worker σ} {polled : List Process}
    (h : drain P.setters rules config w polled = .ok w') :
    (view w'.env).get =
      (Overwrite.all (polled.map (entrySettings R rules config))).apply (view w.env).get := by
  rw [Overwrite.apply_all]
  induction polled generalizing w with
  | nil =>
    obtain rfl := Except.ok.inj h
    rfl
  | cons p polled ih =>
    rw [drain, List.foldlM_cons] at h
    obtain ⟨w₁, htake, hrest⟩ := bind_eq_ok_iff.mp h
    obtain ⟨rule, hrule, hturn⟩ := bind_eq_ok_iff.mp htake
    obtain rfl := Except.ok.inj hturn
    have hentry : entrySettings R rules config p = settings R config rule p.pid := by
      rw [entrySettings, hrule]
    rw [ih hrest, List.map_cons, List.foldl_cons, hentry, ← get_handleProcess hP]

/-! ### Which attributes a rule sets -/

/-- The process has these threads for itself: each of them, and the process too, belongs to it. -/
def Owns (R : Responses) (owner : Pid → Pid) (pid : Pid) : Prop :=
  owner pid = pid ∧ ∀ name ∈ (R.tasks pid).names, 0 < Text.toInt32 name →
    owner (Text.toInt32 name) = pid

/-- A call that is made for a process is about the process or one of its threads. -/
theorem owner_target {owner : Pid → Pid} {pid : Pid} (howns : Owns R owner pid) {c : SetterCall}
    {call : Syscall} (h : (Platform.recording R).Asks pid c call) : owner call.target = pid := by
  cases h with
  | setPriority niceValue htid =>
    obtain ⟨hpos, o, name, hname, rfl⟩ := htid
    rw [Syscall.target, Int32.toInt32_toUInt32]
    exact howns.2 name hname hpos
  | setLatencyNice latencyNiceValue htid =>
    obtain ⟨hpos, o, name, hname, rfl⟩ := htid
    exact howns.2 name hname hpos
  | setIoPriority =>
    rw [Syscall.target, Int32.toInt32_toUInt32]
    exact howns.1
  | setSched | setOomScoreAdjust => exact howns.1

/-- A rule sets attributes of its process and of the threads of it only. -/
theorem owner_holder_of_settings {owner : Pid → Pid} {pid : Pid} (howns : Owns R owner pid)
    (config : Config) (rule : Json) {attr : Attr}
    (h : settings R config rule pid attr ≠ none) : owner attr.holder = pid := by
  let Inv (o : Overwrite Attr.Value) : Prop := ∀ attr, o attr ≠ none → owner attr.holder = pid
  have hinv : Inv (settings R config rule pid) := by
    refine CallSequence.state_run_of_invariant Inv (fun _ h => absurd rfl h) fun c o _ ho => ?_
    refine (Platform.recording R).call_invariant Inv (fun _ ho => ho) (fun _ _ ho => ho) pid c ?_ ho
    intro call o hask ho attr hattr
    have hattr' : (R.stored call attr).or (o attr) ≠ none := hattr
    cases hstored : R.stored call attr with
    | none => exact ho attr (by rwa [hstored, Option.none_or] at hattr')
    | some v =>
      rw [R.holder_stored call attr (by simp [hstored])]
      exact owner_target howns hask
  exact hinv attr h

theorem owner_holder_of_entrySettings {owner : Pid → Pid} {p : Process}
    (howns : Owns R owner p.pid) {attr : Attr}
    (h : entrySettings R rules config p attr ≠ none) : p.pid = owner attr.holder := by
  cases hrule : rules.getRule p.name with
  | error e =>
    rw [entrySettings, hrule] at h
    exact absurd rfl h
  | ok rule =>
    rw [entrySettings, hrule] at h
    exact (owner_holder_of_settings howns config rule h).symm

end Turns

/-- **Repetitions and the order of the processes.** Let the answers of the kernel depend on the call
only, and let no two processes of the entries share a thread. Two loops that start with the same
attributes and see of each process the same names in the same order, but for repetitions, leave the
same attributes, whatever else the platforms are in and whatever the rounds and the order of the
processes are. -/
theorem view_work_eq {P : Platform σ} {P' : Platform τ} {view : σ → Attributes}
    {view' : τ → Attributes} {R : Responses} (hP : P.Responds view R) (hP' : P'.Responds view' R)
    {rules : Rules} {config : Config} {owner : Pid → Pid} {rounds rounds' : List (List Process)}
    (howns : ∀ p ∈ rounds.flatten ++ rounds'.flatten, Owns R owner p.pid)
    {w₁ w₂ : Worker σ} {w₁' w₂' : Worker τ}
    (hwork : work P.setters rules config w₁ rounds = .ok w₂)
    (hwork' : work P'.setters rules config w₁' rounds' = .ok w₂')
    (hview : view w₁.env = view' w₁'.env)
    (hsame : ∀ pid, (rounds.flatten.filter (·.pid = pid)).destutter (· ≠ ·) =
      (rounds'.flatten.filter (·.pid = pid)).destutter (· ≠ ·)) :
    view w₂.env = view' w₂'.env := by
  rw [work_eq_drain] at hwork hwork'
  apply Attributes.get_injective
  rw [get_drain hP hwork, get_drain hP' hwork', hview]
  congr 1
  have howner (p : Process) (hp : p ∈ rounds.flatten ++ rounds'.flatten) (attr : Attr)
      (h : entrySettings R rules config p attr ≠ none) : p.pid = owner attr.holder :=
    owner_holder_of_entrySettings (howns p hp) h
  exact Overwrite.all_map_congr (fun p hp => howner p (List.mem_append_left _ hp))
    (fun p hp => howner p (List.mem_append_right _ hp)) hsame

/-- A worker on the reference platform, where every process has one thread. -/
def sampleWorker : Worker Attributes := ⟨0, Attributes.zero, []⟩

theorem owns_reference {pid : Pid} (hpid : 0 < pid) :
    Owns (.reference fun pid => [pid]) id pid := by
  refine ⟨rfl, fun name hname _ => ?_⟩
  obtain rfl := List.mem_singleton.mp hname
  exact (toInt32_taskName pid).trans (if_pos hpid)

/-- Process 1 is told twice, and process 2 comes between. -/
theorem view_work_eq_sample : ∃ w w',
    work (Platform.reference fun pid => [pid]).setters sampleRules ⟨.empty⟩ sampleWorker
      [[⟨1, "a"⟩, ⟨2, "b"⟩], [⟨1, "a"⟩]] = .ok w ∧
    work (Platform.reference fun pid => [pid]).setters sampleRules ⟨.empty⟩ sampleWorker
      [[⟨2, "b"⟩, ⟨1, "a"⟩]] = .ok w' ∧ w.env = w'.env := by
  obtain ⟨w, hw⟩ : ∃ w, work (Platform.reference fun pid => [pid]).setters sampleRules ⟨.empty⟩
      sampleWorker [[⟨1, "a"⟩, ⟨2, "b"⟩], [⟨1, "a"⟩]] = .ok w := ⟨_, rfl⟩
  obtain ⟨w', hw'⟩ : ∃ w', work (Platform.reference fun pid => [pid]).setters sampleRules ⟨.empty⟩
      sampleWorker [[⟨2, "b"⟩, ⟨1, "a"⟩]] = .ok w' := ⟨_, rfl⟩
  have hP := responds_reference fun pid => [pid]
  have howns : ∀ p ∈ [[⟨1, "a"⟩, ⟨2, "b"⟩], [⟨1, "a"⟩]].flatten ++ [[⟨2, "b"⟩, ⟨1, "a"⟩]].flatten,
      Owns (.reference fun pid => [pid]) id (Process.pid p) := by
    have hpos : ∀ p ∈ [[⟨1, "a"⟩, ⟨2, "b"⟩], [⟨1, "a"⟩]].flatten ++ [[⟨2, "b"⟩, ⟨1, "a"⟩]].flatten,
        0 < Process.pid p := by decide
    exact fun p hp => owns_reference (hpos p hp)
  refine ⟨w, w', hw, hw', view_work_eq hP hP howns hw hw' rfl fun pid => ?_⟩
  by_cases h₁ : 1 = pid
  · subst h₁
    decide
  · by_cases h₂ : 2 = pid
    · subst h₂
      decide
    · simp [h₁, h₂]

end Worker

end AnanicyCpp
