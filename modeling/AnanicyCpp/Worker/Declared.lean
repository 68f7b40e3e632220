import AnanicyCpp.Worker.Settings

/-!
# What a rule declares

The settings of a rule are found by carrying out its steps. On a kernel that does what it is asked,
and for a rule whose members convert, they can be read off the rule: every attribute gets the value
of the member that stands for it (`Worker.settings_reference`).

The policy is the exception. Setting a latency nice value puts all threads of the process back to
the normal policy, whether or not the rule names a scheduler, and a scheduler is then set for the
thread that leads the process only.

## Main definitions

* `SetterCall.change` : what a call of a setter changes.
* `Worker.Applicable` : the members of the rule convert, and its scheduler is known.
* `Worker.declared` : the values of the attributes, from the rule.

## Main results

* `SetterCall.call_recording` : the setters make these changes.
* `Worker.settings_reference` : the settings are what the rule declares.
-/

namespace AnanicyCpp

/-! ### Changes of threads -/

namespace ThreadChange

/-- The new values by the names of the attributes, whatever the thread is. -/
def value (c : ThreadChange) : Overwrite Attr.Value
  | .nice _ => c.nice
  | .latencyNice _ => c.latencyNice
  | .policy _ => c.policy
  | .rtPriority _ => c.rtPriority
  | .ioPrio _ => c.ioPrio
  | .oomScoreAdj _ => none

/-- The change of some threads. -/
def forThreads (c : ThreadChange) (tids : List Pid) : Overwrite Attr.Value :=
  fun attr => if attr.holder ∈ tids then c.value attr else none

theorem forThreads_empty (tids : List Pid) : forThreads {} tids = Overwrite.keep := by
  funext attr
  have hvalue : value {} attr = none := by cases attr <;> rfl
  rw [forThreads, hvalue, ite_self]
  rfl

/-- One change of a thread after the other. -/
def andThen (c c' : ThreadChange) : ThreadChange where
  nice := c'.nice.or c.nice
  latencyNice := c'.latencyNice.or c.latencyNice
  policy := c'.policy.or c.policy
  rtPriority := c'.rtPriority.or c.rtPriority
  ioPrio := c'.ioPrio.or c.ioPrio

theorem value_andThen (c c' : ThreadChange) (attr : Attr) :
    (c.andThen c').value attr = (c'.value attr).or (c.value attr) := by
  cases attr <;> rfl

theorem forThreads_eq (c : ThreadChange) (tids : List Pid) (attr : Attr) :
    c.forThreads tids attr = (if attr.holder ∈ tids then c else {}).value attr := by
  rw [forThreads]
  split_ifs
  · rfl
  · cases attr <;> rfl

theorem toOverwrite_eq (c : ThreadChange) (tid : Pid) (attr : Attr) :
    c.toOverwrite tid attr = if attr.holder = tid then c.value attr else none := by
  cases attr with
  | oomScoreAdj pid => exact (ite_self none).symm
  | _ => rfl

theorem toOverwrite_eq_forThreads (c : ThreadChange) (tid : Pid) :
    c.toOverwrite tid = c.forThreads [tid] := by
  funext attr
  simp only [toOverwrite_eq, forThreads, List.mem_singleton]

/-- One thread after the other. -/
theorem all_map_toOverwrite (c : ThreadChange) (tids : List Pid) :
    Overwrite.all (tids.map c.toOverwrite) = c.forThreads tids := by
  induction tids using List.reverseRecOn with
  | nil => rfl
  | append_singleton tids tid ih =>
    rw [List.map_append, List.map_singleton, Overwrite.all_concat, ih]
    funext attr
    simp only [Overwrite.andThen, toOverwrite_eq, forThreads, List.mem_append, List.mem_singleton]
    by_cases htid : attr.holder = tid
    · by_cases hmem : attr.holder ∈ tids
      · rw [if_pos htid, if_pos hmem, if_pos (.inl hmem), Option.or_self]
      · rw [if_pos htid, if_neg hmem, if_pos (.inr htid), Option.or_none]
    · simp only [htid, or_false, if_false, Option.none_or]

end ThreadChange

/-! ### What a call changes -/

/-- The threads of a process for which a call is made. -/
def threadsOf (tasks : Pid → List Pid) (pid : Pid) : List Pid := (tasks pid).filter (0 < ·)

/-- The policy and the priority that `sched_setscheduler` accepts: a realtime policy has a
priority, and another one has none. -/
def AcceptedRequest (request : Int32 × Int32) : Prop :=
  if request.1 ∈ realtimePolicies then 0 < request.2 else request.2 = 0

instance : DecidablePred AcceptedRequest := fun request =>
  inferInstanceAs (Decidable (if request.1 ∈ realtimePolicies then 0 < request.2
    else request.2 = 0))

/-- The change of `oom_score_adj`. -/
def oomScoreAdjChange (value : Option Int32) (pid : Pid) : Overwrite Attr.Value
  | .oomScoreAdj pid' => if pid' = pid then value else none
  | _ => none

namespace SetterCall

/-- What a call of a setter changes when the kernel does what it is asked. -/
def change (tasks : Pid → List Pid) (pid : Pid) : SetterCall → Overwrite Attr.Value
  | .setPriority niceValue =>
      ThreadChange.forThreads { nice := some niceValue } (threadsOf tasks pid)
  | .setLatencyNice latencyNiceValue =>
      ThreadChange.forThreads { latencyNice := some latencyNiceValue, policy := some 0 }
        (threadsOf tasks pid)
  | .setSched schedName rtPrio =>
      match Priority.schedRequest schedName rtPrio with
      | none => Overwrite.keep
      | some request =>
          if AcceptedRequest request then
            ThreadChange.forThreads
              { policy := some request.1.toUInt32, rtPriority := some request.2.toUInt32 } [pid]
          else Overwrite.keep
  | .setIoPriority ioClass value =>
      ThreadChange.forThreads { ioPrio := Priority.ioPrioRequest ioClass value } [pid]
  | .setOomScoreAdjust value => oomScoreAdjChange (some value) pid
  | .addPidToCgroup _ => Overwrite.keep

/-- `set_sched` knows the scheduler. -/
def Known : SetterCall → Prop
  | .setSched schedName rtPrio => (Priority.schedRequest schedName rtPrio).isSome = true
  | _ => True

instance : DecidablePred Known := fun c =>
  match c with
  | .setSched schedName rtPrio =>
      inferInstanceAs (Decidable ((Priority.schedRequest schedName rtPrio).isSome = true))
  | .setPriority _ | .setLatencyNice _ | .setIoPriority _ _ | .setOomScoreAdjust _
  | .addPidToCgroup _ => .isTrue trivial

variable {tasks : Pid → List Pid} {pid : Pid}

/-- A call for each thread of a process, on the platform that records. -/
theorem snd_forEachTask_recording
    {call : Pid → Overwrite Attr.Value → Errno × Overwrite Attr.Value} {c : ThreadChange}
    (hcall : ∀ tid o, (call tid o).2 = o.andThen (c.toOverwrite tid)) (tids : List Pid)
    (o : Overwrite Attr.Value) : (Priority.forEachTask call (tids.map taskName) o).2 =
      o.andThen (c.forThreads (tids.filter (0 < ·))) := by
  rw [← ThreadChange.all_map_toOverwrite]
  induction tids using List.reverseRecOn with
  | nil => rfl
  | append_singleton tids tid ih =>
    simp only [Priority.forEachTask, List.map_append, List.map_singleton, List.foldl_concat,
      toInt32_taskName] at ih ⊢
    by_cases hpos : 0 < tid
    · have htids : (tids ++ [tid]).filter (0 < ·) = tids.filter (0 < ·) ++ [tid] := by
        rw [List.filter_append, List.filter_cons_of_pos (by simpa using hpos), List.filter_nil]
      rw [htids, List.map_append, List.map_singleton, Overwrite.all_concat,
        ← Overwrite.andThen_assoc, ← ih]
      simp only [hpos, if_true, hcall]
    · have htids : (tids ++ [tid]).filter (0 < ·) = tids.filter (0 < ·) := by
        rw [List.filter_append, List.filter_cons_of_neg (by simpa using hpos), List.filter_nil,
          List.append_nil]
      rw [htids, ← ih, if_neg hpos, if_neg (by decide)]

theorem setForTasks_recording (funcName : String)
    {call : Pid → Overwrite Attr.Value → Errno × Overwrite Attr.Value} {c : ThreadChange}
    (hcall : ∀ tid o, call tid o = (0, o.andThen (c.toOverwrite tid))) (o : Overwrite Attr.Value) :
    Priority.setForTasks (Platform.recording (.reference tasks)).toKernel funcName pid call o =
      (.ok true, o.andThen (c.forThreads (threadsOf tasks pid))) := by
  refine Prod.ext ?_ ?_
  · exact Priority.fst_setForTasks rfl (fun tid o => by rw [hcall]) funcName
  · rw [Priority.snd_setForTasks]
    exact snd_forEachTask_recording (fun tid o => by rw [hcall]) (tasks pid) o

/-- A latency nice value comes with the normal policy. -/
theorem change_latniceAttr (latencyNice : Int32) : (Priority.latniceAttr latencyNice).change =
    { latencyNice := some latencyNice, policy := some 0 } := by
  simp only [SchedAttr.change, Priority.keepsParams_latniceAttr, Priority.keepsPolicy_latniceAttr,
    if_true, Bool.false_eq_true, if_false]
  rfl

/-- **A call.** On a kernel that does what it is asked, a call of a setter returns `true`, unless
its scheduler is unknown, and makes its change. -/
theorem call_recording {c : SetterCall} (hc : ∀ cgroupName, c ≠ .addPidToCgroup cgroupName)
    (hknown : c.Known) (o : Overwrite Attr.Value) :
    (Platform.recording (.reference tasks)).setters.call pid c o =
      (.ok true, o.andThen (c.change tasks pid)) := by
  cases c with
  | setPriority niceValue =>
    have hcall (tid : Pid) (o : Overwrite Attr.Value) :
        (Platform.recording (.reference tasks)).syscall (.setpriority tid.toUInt32 niceValue) o =
          (0, o.andThen (ThreadChange.toOverwrite { nice := some niceValue } tid)) := by
      simp only [Platform.recording, Responses.reference, Int32.toInt32_toUInt32]
    exact setForTasks_recording "set_priority" hcall o
  | setLatencyNice latencyNiceValue =>
    have hcall (tid : Pid) (o : Overwrite Attr.Value) :
        Priority.setLatnice (Platform.recording (.reference tasks)).toKernel latencyNiceValue tid
          o = (0, o.andThen (ThreadChange.toOverwrite
            { latencyNice := some latencyNiceValue, policy := some 0 } tid)) := by
      simp only [Priority.setLatnice, Platform.recording, Responses.reference, change_latniceAttr]
      rfl
    exact setForTasks_recording "set_latency_nice" hcall o
  | setSched schedName rtPrio =>
    obtain ⟨request, hrequest⟩ := Option.isSome_iff_exists.mp hknown
    simp only [Platform.setters, Priority.setSched, change, hrequest, Platform.recording,
      Responses.reference, ← ThreadChange.toOverwrite_eq_forThreads]
    by_cases haccepted : AcceptedRequest request
    · have hif : if request.1 ∈ realtimePolicies then 0 < request.2 else request.2 = 0 := haccepted
      rw [if_pos hif, if_pos hif, if_pos haccepted]
      rfl
    · have hif : ¬if request.1 ∈ realtimePolicies then 0 < request.2 else request.2 = 0 :=
        haccepted
      rw [if_neg hif, if_neg hif, if_neg haccepted]
      rfl
  | setIoPriority ioClass value =>
    simp only [Platform.setters, Priority.setIoPriority, change]
    cases hrequest : Priority.ioPrioRequest ioClass value with
    | none => exact congrArg (Prod.mk _) (ThreadChange.forThreads_empty [pid] ▸ rfl)
    | some ioPrio =>
      simp only [Platform.recording, Responses.reference, Int32.toInt32_toUInt32,
        ← ThreadChange.toOverwrite_eq_forThreads]
      rfl
  | setOomScoreAdjust value =>
    simp only [Platform.setters, Priority.setOomScoreAdjust, change]
    rfl
  | addPidToCgroup cgroupName => exact absurd rfl (hc cgroupName)

end SetterCall

/-! ### What a rule declares -/

namespace Worker

/-- The member `nice`, if it is applied. -/
def niceValue (config : Config) (rule : Json) : Option Int32 :=
  if config.applyNice && rule.contains "nice" then (rule.index "nice").getInt.toOption else none

/-- The member `latency_nice`, or else `nice`. -/
def latencyNiceValue (config : Config) (rule : Json) : Option Int32 :=
  if config.applyLatnice && (rule.contains "latency_nice" || rule.contains "nice") then
    (latniceValue rule).toOption
  else none

/-- The policy and the priority for the members `sched` and `rtprio`, if they go together. -/
def scheduler (config : Config) (rule : Json) : Option (Int32 × Int32) :=
  if config.applySched && rule.contains "sched" then do
    let rtPrio ← (rtPrio rule).toOption
    let ruleSched ← (rule.index "sched").getString.toOption
    let request ← Priority.schedRequest (Text.cStr ruleSched) rtPrio
    if AcceptedRequest request then some request else none
  else none

/-- The word for the members `ioclass` and `ionice`. -/
def ioPrioValue (config : Config) (rule : Json) : Option Int32 :=
  if config.applyIonice && rule.contains "ioclass" then do
    let ruleIoclass ← (rule.index "ioclass").getString.toOption
    let ioVal ← (ioVal rule).toOption
    Priority.ioPrioRequest (Text.cStr ruleIoclass) ioVal
  else none

/-- The member `oom_score_adj`, if it is applied. -/
def oomScoreAdjValue (config : Config) (rule : Json) : Option Int32 :=
  if config.applyOomScoreAdj && rule.contains "oom_score_adj" then
    (rule.index "oom_score_adj").getInt.toOption
  else none

/-! The changes of a thread by the steps of a rule. -/

def niceChange (config : Config) (rule : Json) : ThreadChange where
  nice := niceValue config rule

def latencyNiceChange (config : Config) (rule : Json) : ThreadChange where
  latencyNice := latencyNiceValue config rule
  policy := (latencyNiceValue config rule).map fun _ => 0

def schedChange (config : Config) (rule : Json) : ThreadChange where
  policy := (scheduler config rule).map (·.1.toUInt32)
  rtPriority := (scheduler config rule).map (·.2.toUInt32)

def ioPrioChange (config : Config) (rule : Json) : ThreadChange where
  ioPrio := ioPrioValue config rule

/-- The new values for a thread of a process, or of another one. -/
def declaredFor (tasks : Pid → List Pid) (config : Config) (rule : Json) (pid tid : Pid) :
    ThreadChange where
  nice := if tid ∈ threadsOf tasks pid then niceValue config rule else none
  latencyNice := if tid ∈ threadsOf tasks pid then latencyNiceValue config rule else none
  policy :=
    (if tid = pid then (scheduler config rule).map (·.1.toUInt32) else none).or
      (if tid ∈ threadsOf tasks pid then (latencyNiceValue config rule).map fun _ => 0 else none)
  rtPriority := if tid = pid then (scheduler config rule).map (·.2.toUInt32) else none
  ioPrio := if tid = pid then ioPrioValue config rule else none

/-- The values of the attributes, from the rule. -/
def declared (tasks : Pid → List Pid) (config : Config) (rule : Json) (pid : Pid) :
    Overwrite Attr.Value
  | .oomScoreAdj pid' => if pid' = pid then oomScoreAdjValue config rule else none
  | attr => (declaredFor tasks config rule pid attr.holder).value attr

/-- The members that are applied convert, and the scheduler is known. -/
def Applicable (config : Config) (rule : Json) : Prop :=
  ∀ st ∈ settingSteps config rule, st.enabled = true → ∃ c, st.call = .ok c ∧ c.Known

instance (config : Config) (rule : Json) : Decidable (Applicable config rule) :=
  decidable_of_iff (∀ st ∈ settingSteps config rule, st.enabled = true →
      ∃ c ∈ st.call.toOption, c.Known) <| by
    simp only [Applicable, Option.mem_def]
    refine forall₂_congr fun st _ => imp_congr_right fun _ => exists_congr fun c => ?_
    cases st.call <;> simp [Except.toOption]

variable {tasks : Pid → List Pid} {config : Config} {rule : Json} {pid : Pid}

/-- The settings as a list of changes. -/
theorem settings_reference_eq_all (h : Applicable config rule) :
    settings (.reference tasks) config rule pid =
      Overwrite.all (((settingSteps config rule).filterMap CallSequence.Step.made).map
        (SetterCall.change tasks pid)) := by
  have hcall (st : RuleStep) (hst : st ∈ settingSteps config rule) (c : SetterCall)
      (hc : st.call = .ok c) (hknown : c.Known) (o : Overwrite Attr.Value) :
      (Platform.recording (.reference tasks)).setters.call pid c o =
        (.ok true, o.andThen (c.change tasks pid)) :=
    SetterCall.call_recording (ne_addPidToCgroup_of_settingSteps st hst c hc) hknown o
  rw [settings, CallSequence.state_run_eq_foldl, Overwrite.all, List.foldl_map]
  · refine List.foldl_ext _ _ _ fun o c hmade => ?_
    obtain ⟨st, hst, hmade⟩ := List.mem_filterMap.mp hmade
    obtain ⟨hon, hc⟩ := CallSequence.made_eq_some_iff.mp hmade
    obtain ⟨c', hc', hknown⟩ := h st hst hon
    obtain rfl : c = c' := Except.ok.inj (hc.symm.trans hc')
    rw [hcall st hst c hc hknown]
  · intro st hst hon
    obtain ⟨c, hc, hknown⟩ := h st hst hon
    exact ⟨c, hc, fun o => congrArg Prod.fst (hcall st hst c hc hknown o)⟩

/-- The change of a step, which is none when the step is off. -/
def stepChange (tasks : Pid → List Pid) (pid : Pid) (st : RuleStep) : Overwrite Attr.Value :=
  st.made.elim Overwrite.keep (SetterCall.change tasks pid)

theorem stepChange_eq (st : RuleStep) : stepChange tasks pid st =
    if st.enabled then st.call.toOption.elim Overwrite.keep (SetterCall.change tasks pid)
    else Overwrite.keep := by
  rw [stepChange, CallSequence.Step.made]
  split_ifs <;> rfl

theorem stepChange_niceStep : stepChange tasks pid (niceStep config rule) =
    (niceChange config rule).forThreads (threadsOf tasks pid) := by
  rw [stepChange_eq, niceChange, niceValue, niceStep]
  split_ifs with hon
  · cases (rule.index "nice").getInt with
    | error e => exact (ThreadChange.forThreads_empty _).symm
    | ok value => rfl
  · exact (ThreadChange.forThreads_empty _).symm

theorem stepChange_latencyNiceStep : stepChange tasks pid (latencyNiceStep config rule) =
    (latencyNiceChange config rule).forThreads (threadsOf tasks pid) := by
  rw [stepChange_eq, latencyNiceChange, latencyNiceValue, latencyNiceStep]
  split_ifs with hon
  · cases latniceValue rule with
    | error e => exact (ThreadChange.forThreads_empty _).symm
    | ok value => rfl
  · exact (ThreadChange.forThreads_empty _).symm

theorem stepChange_schedStep : stepChange tasks pid (schedStep config rule) =
    (schedChange config rule).forThreads [pid] := by
  rw [stepChange_eq, schedChange, scheduler, schedStep]
  split_ifs with hon
  · cases rtPrio rule with
    | error e => exact (ThreadChange.forThreads_empty _).symm
    | ok rtPrio =>
      cases (rule.index "sched").getString with
      | error e => exact (ThreadChange.forThreads_empty _).symm
      | ok ruleSched =>
        show SetterCall.change tasks pid (.setSched (Text.cStr ruleSched) rtPrio) = _
        simp only [SetterCall.change, Except.toOption, Option.bind_eq_bind, Option.bind_some]
        cases Priority.schedRequest (Text.cStr ruleSched) rtPrio with
        | none => exact (ThreadChange.forThreads_empty _).symm
        | some request =>
          simp only [Option.bind_some]
          split_ifs with haccepted
          · rfl
          · exact (ThreadChange.forThreads_empty _).symm
  · exact (ThreadChange.forThreads_empty _).symm

theorem stepChange_ioniceStep : stepChange tasks pid (ioniceStep config rule) =
    (ioPrioChange config rule).forThreads [pid] := by
  rw [stepChange_eq, ioPrioChange, ioPrioValue, ioniceStep]
  split_ifs with hon
  · cases (rule.index "ioclass").getString with
    | error e => exact (ThreadChange.forThreads_empty _).symm
    | ok ruleIoclass =>
      cases ioVal rule with
      | error e => exact (ThreadChange.forThreads_empty _).symm
      | ok ioVal => rfl
  · exact (ThreadChange.forThreads_empty _).symm

theorem stepChange_oomScoreAdjStep : stepChange tasks pid (oomScoreAdjStep config rule) =
    oomScoreAdjChange (oomScoreAdjValue config rule) pid := by
  have hnone : Overwrite.keep = oomScoreAdjChange none pid := by
    funext attr
    cases attr with
    | oomScoreAdj pid' => exact (ite_self none).symm
    | _ => rfl
  rw [stepChange_eq, oomScoreAdjValue, oomScoreAdjStep]
  split_ifs with hon
  · cases (rule.index "oom_score_adj").getInt with
    | error e => exact hnone
    | ok value => rfl
  · exact hnone

theorem declaredFor_eq (tid : Pid) : declaredFor tasks config rule pid tid =
    (((if tid ∈ threadsOf tasks pid then niceChange config rule else {}).andThen
      (if tid ∈ threadsOf tasks pid then latencyNiceChange config rule else {})).andThen
      (if tid ∈ [pid] then schedChange config rule else {})).andThen
      (if tid ∈ [pid] then ioPrioChange config rule else {}) := by
  simp only [List.mem_singleton, declaredFor, niceChange, latencyNiceChange, schedChange,
    ioPrioChange]
  split_ifs <;> simp [ThreadChange.andThen]

/-- **What a rule declares.** On a kernel that does what it is asked, a rule whose members convert
and whose scheduler is known sets the attributes of a process to what it declares. -/
theorem settings_reference (h : Applicable config rule) :
    settings (.reference tasks) config rule pid = declared tasks config rule pid := by
  have hsteps : (settingSteps config rule).map (stepChange tasks pid) =
      [stepChange tasks pid (niceStep config rule),
        stepChange tasks pid (latencyNiceStep config rule),
        stepChange tasks pid (schedStep config rule), stepChange tasks pid (ioniceStep config rule),
        stepChange tasks pid (oomScoreAdjStep config rule)] := rfl
  rw [settings_reference_eq_all h, Overwrite.all_map_filterMap]
  show Overwrite.all ((settingSteps config rule).map (stepChange tasks pid)) = _
  rw [hsteps, stepChange_niceStep, stepChange_latencyNiceStep, stepChange_schedStep,
    stepChange_ioniceStep, stepChange_oomScoreAdjStep]
  funext attr
  simp only [Overwrite.all, List.foldl_cons, List.foldl_nil, Overwrite.andThen, Overwrite.keep,
    Option.or_none, ThreadChange.forThreads_eq, ← ThreadChange.value_andThen, ← declaredFor_eq]
  cases attr with
  | oomScoreAdj pid' => exact Option.or_none
  | _ tid => exact Option.none_or

end Worker

end AnanicyCpp
