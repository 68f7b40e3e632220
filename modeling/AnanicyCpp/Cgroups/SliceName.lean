import AnanicyCpp.Cgroups

/-!
# The slice that a request names

`format_slice_name` is there to guarantee that a request is about a slice of systemd, whose name is
a stem and `.slice`. It looks for `.slice` anywhere in the name, the name of the root cgroup is
empty and gets no stem, and a request takes the name as a C string, which ends at the first NUL.

## Main definitions

* `ControlGroups.Bus.recording` : a bus with a record of the requests.
* `ControlGroups.quotaRequests`, `ControlGroups.scopeRequests` : the requests of the two operations.
* `ControlGroups.IsSlice`, `ControlGroups.NamesSlice` : the units that are slices, and the one that
  is expected for a name.
* `ControlGroups.HasSlice` : the names for which it is sent.

## Main results

* `ControlGroups.formatSliceName_idempotent` : formatting twice is formatting once.
* `ControlGroups.namesSlice_unitOf_iff` : when the formatted name is a slice.
* `ControlGroups.requests_nameSlice_iff` : when all requests name one.
-/

namespace AnanicyCpp

namespace ControlGroups

variable {σ : Type}

/-! ### The requests -/

/-- The bus, with the requests in the order in which they were sent. -/
def Bus.recording (bus : Bus σ) : Bus (σ × List BusRequest) where
  defaultSystem s := ((bus.defaultSystem s.1).1, ((bus.defaultSystem s.1).2, s.2))
  callMethod request s :=
    ((bus.callMethod request s.1).1, ((bus.callMethod request s.1).2, s.2 ++ [request]))

/-- The requests of `set_cgroup_cpu_quota`. -/
def quotaRequests (bus : Bus σ) (name : String) (quota : UInt32) (s : σ) : List BusRequest :=
  (setCgroupCpuQuota bus.recording name quota (s, [])).2.2

/-- The requests of `add_pid_to_cgroup`. -/
def scopeRequests (bus : Bus σ) (pid : Pid) (cgroupName : String) (s : σ) : List BusRequest :=
  (addPidToCgroup bus.recording pid cgroupName (s, [])).2.2

/-- The slice that a request is about. -/
def BusRequest.unit : BusRequest → String
  | .setUnitProperties unit _ _ => unit
  | .startTransientUnit _ _ _ slice => slice

/-- There is one request, if there is a connection. -/
theorem requests_send (bus : Bus σ) (request : BusRequest) (s : σ) :
    (send bus.recording request (s, [])).2.2 =
      if (bus.defaultSystem s).1 < 0 then [] else [request] := by
  unfold send Bus.recording
  simp only
  split_ifs <;> rfl

theorem forall_requests_iff (bus : Bus σ) (request : BusRequest) (s : σ) (Q : String → Prop) :
    (∀ sent ∈ (send bus.recording request (s, [])).2.2, Q sent.unit) ↔
      (bus.defaultSystem s).1 < 0 ∨ Q request.unit := by
  rw [requests_send]
  split_ifs with hconnect
  · simp [hconnect]
  · simp [hconnect]

/-! ### Slices -/

/-- A stem and `.slice`. -/
def IsSlice (unit : String) : Prop := ∃ stem, stem ≠ "" ∧ unit = stem ++ ".slice"

/-- The unit that is expected for a name: a slice, and for the empty name the root slice. -/
def NamesSlice (name unit : String) : Prop :=
  if name = "" then unit = "-.slice" else IsSlice unit

/-- The name is not empty, and either it has neither `.slice` nor a NUL, or what is in front of its
first NUL is a slice. -/
def HasSlice (name : String) : Prop :=
  name ≠ "" ∧ ((¬".slice".toList <:+: name.toList ∧ Text.nul ∉ name.toList) ∨
    IsSlice (Text.cStr name))

/-- The unit that is sent for a name. -/
def unitOf (name : String) : String := Text.cStr (formatSliceName name)

/-- **Formatting twice is formatting once.** -/
theorem formatSliceName_idempotent (name : String) :
    formatSliceName (formatSliceName name) = formatSliceName name := by
  have hslice : ".slice".toList <:+: (formatSliceName name).toList := by
    unfold formatSliceName
    split_ifs with h
    · exact h
    · rw [String.toList_append]
      exact (List.suffix_append _ _).isInfix
  exact if_pos hslice

/-- The suffix does not get past a NUL of the name. -/
theorem cStr_append_of_mem {name : String} (h : Text.nul ∈ name.toList) (suffix : String) :
    Text.cStr (name ++ suffix) = Text.cStr name := by
  obtain ⟨before, after, hname, hbefore⟩ := List.eq_append_cons_of_mem h
  have hfull : (name ++ suffix).toList = before ++ Text.nul :: (after ++ suffix.toList) := by
    rw [String.toList_append, hname, List.append_assoc, List.cons_append]
  rw [Text.cStr, Text.cStr, hfull, hname]
  exact congrArg String.ofList ((Text.takeWhile_bne_append_cons hbefore _).trans
    (Text.takeWhile_bne_append_cons hbefore after).symm)

theorem cStr_of_notMem {name : String} (h : Text.nul ∉ name.toList) : Text.cStr name = name := by
  rw [Text.cStr]
  exact (congrArg String.ofList (Text.takeWhile_bne h)).trans String.ofList_toList

/-- **When the formatted name is a slice.** -/
theorem namesSlice_unitOf_iff (name : String) : NamesSlice name (unitOf name) ↔ HasSlice name := by
  unfold unitOf formatSliceName NamesSlice HasSlice
  by_cases hempty : name = ""
  · subst hempty
    rw [if_pos rfl]
    exact iff_of_false (by decide +kernel) fun h => h.1 rfl
  rw [if_neg hempty, and_iff_right hempty]
  by_cases hslice : ".slice".toList <:+: name.toList
  · rw [if_pos hslice]
    exact (or_iff_right fun h => h.1 hslice).symm
  rw [if_neg hslice]
  by_cases hnul : Text.nul ∈ name.toList
  · -- what is sent ends in front of the suffix
    rw [cStr_append_of_mem hnul]
    exact (or_iff_right fun h => h.2 hnul).symm
  · have hnul' : Text.nul ∉ (name ++ ".slice").toList := by
      rw [String.toList_append, List.mem_append, not_or]
      exact ⟨hnul, by decide +kernel⟩
    rw [cStr_of_notMem hnul']
    exact iff_of_true ⟨name, hempty, rfl⟩ (Or.inl ⟨hslice, hnul⟩)

/-- **When all requests name a slice.** For every name, each request of the two operations names
the slice that is expected exactly when there is no connection to the bus, and so no request, or
the name has one. Formatting a formatted name changes nothing. -/
theorem requests_nameSlice_iff (bus : Bus σ) (name : String) (quota : UInt32) (pid : Pid) (s : σ) :
    ((∀ request ∈ quotaRequests bus name quota s, NamesSlice name request.unit) ↔
      (bus.defaultSystem s).1 < 0 ∨ HasSlice name) ∧
    ((∀ request ∈ scopeRequests bus pid name s, NamesSlice name request.unit) ↔
      (bus.defaultSystem s).1 < 0 ∨ HasSlice name) ∧
    formatSliceName (formatSliceName name) = formatSliceName name := by
  refine ⟨?_, ?_, formatSliceName_idempotent name⟩
  · rw [← namesSlice_unitOf_iff]
    exact forall_requests_iff bus (quotaRequest name quota) s (NamesSlice name)
  · rw [← namesSlice_unitOf_iff]
    exact forall_requests_iff bus (scopeRequest pid name) s (NamesSlice name)

/-- The unit of the root cgroup is sent as `.slice`. -/
theorem not_forall_requests_nameSlice :
    ¬∀ (bus : Bus Unit) (name : String) (quota : UInt32) (pid : Pid),
      (∀ request ∈ quotaRequests bus name quota (), NamesSlice name request.unit) ∧
      (∀ request ∈ scopeRequests bus pid name (), NamesSlice name request.unit) ∧
      formatSliceName (formatSliceName name) = formatSliceName name := by
  intro h
  have hroot := (h ⟨fun s => (0, s), fun _ s => (0, s)⟩ "" 0 1).2.1 (scopeRequest 1 "")
    List.mem_cons_self
  rw [NamesSlice, if_pos rfl] at hroot
  exact absurd hroot (by decide +kernel)

end ControlGroups

end AnanicyCpp
