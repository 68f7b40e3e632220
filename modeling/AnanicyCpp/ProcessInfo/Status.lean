import AnanicyCpp.ProcessInfo.Info

/-!
# The status of a process

`parse_proc_status` on a text of lines `Key: value`, and what `is_kernel_process` and
`get_process_info` make of the member `PPid`. The loop reads once more behind a final line feed and
adds an empty key. The values are strings, and `get_process_info` compares `PPid` with the number
`0`, which is different from every string, so that it never skips a process that
`is_kernel_process` answers true for.

## Main definitions

* `ProcessInfo.IsStatusLine`, `ProcessInfo.statusText` : the lines and the text.
* `ProcessInfo.statusValue` : the value of the last line of a key.
* `ProcessInfo.StatusExact` : the members are the keys that occur, with these values.
* `ProcessInfo.SkipsOrphans` : what is expected of a process without a parent.

## Main results

* `ProcessInfo.find_parseProcStatus` : the members, for every text.
* `ProcessInfo.status_exact_iff` : when the status is read as it is meant.
-/

namespace AnanicyCpp

namespace ProcessInfo

open Text

/-- A key, and what follows the colon behind it. -/
abbrev StatusLine := Text × Text

/-- `<key>:<value>` -/
def statusLine (line : StatusLine) : Text := line.1 ++ ':' :: line.2

/-- A line that has a key, and is one line. -/
structure IsStatusLine (line : StatusLine) : Prop where
  key_ne_nil : line.1 ≠ []
  colon : ':' ∉ line.1
  newline_key : '\n' ∉ line.1
  newline_value : '\n' ∉ line.2

/-- The lines, with or without a line feed behind the last one. -/
def statusText (terminated : Bool) (lines : List StatusLine) : Text :=
  if terminated then lines.flatMap fun line => statusLine line ++ ['\n']
  else ['\n'].intercalate (lines.map statusLine)

/-- The key of a line and its value without leading blanks. -/
def statusEntry (line : StatusLine) : String × String :=
  (String.ofList line.1, String.ofList (line.2.dropWhile isTabOrSpace))

/-- The value of the last line of a key. -/
def statusValue (lines : List StatusLine) (key : String) : Option String :=
  lastAssigned key (lines.map statusEntry)

/-- The members are the keys that occur, each with the value of its last line. -/
def StatusExact (lines : List StatusLine) (status : Option Text) : Prop :=
  ∀ key, (parseProcStatus status).find? key = (statusValue lines key).map Json.string

/-- For a process whose `PPid` is `0` there is no report, and it counts as a kernel process. -/
def SkipsOrphans (lines : List StatusLine) (pid : UInt32) (entry : ProcEntry)
    (exeFailCount : ℕ) : Prop :=
  statusValue lines "PPid" = some "0" →
    (getProcessInfo pid (some entry) exeFailCount).1 = none ∧
      isKernelProcess entry.status = true

/-! ### The members -/

variable {lines : List StatusLine}

theorem statusMember_statusLine {line : StatusLine} (h : IsStatusLine line) :
    statusMember (statusLine line) = ((statusEntry line).1, .string (statusEntry line).2) := by
  have hfind : findFirstOf ':' (statusLine line) = some line.1.length :=
    findFirstOf_append_cons h.colon line.2
  simp only [statusMember, hfind]
  rw [statusLine, List.take_left, ← List.drop_drop, List.drop_left]
  rfl

theorem newline_not_mem_statusLine {line : StatusLine} (h : IsStatusLine line) :
    '\n' ∉ statusLine line := by
  rw [statusLine, List.mem_append, List.mem_cons, not_or, not_or]
  exact ⟨h.newline_key, by decide, h.newline_value⟩

/-- Behind a final line feed there is one more piece, and without any line there is an empty one. -/
theorem splitOn_statusText (h : ∀ line ∈ lines, IsStatusLine line) (terminated : Bool) :
    (statusText terminated lines).splitOn '\n' =
      lines.map statusLine ++ if lines = [] ∨ terminated then [[]] else [] := by
  cases terminated with
  | false =>
    rw [statusText, if_neg Bool.false_ne_true]
    by_cases hlines : lines = []
    · rw [hlines]
      rfl
    · have hnewline : ∀ piece ∈ lines.map statusLine, '\n' ∉ piece :=
        List.forall_mem_map.mpr fun line hline => newline_not_mem_statusLine (h line hline)
      rw [List.splitOn_intercalate '\n' hnewline (by simpa using hlines), if_neg (by simp [hlines]),
        List.append_nil]
  | true =>
    rw [statusText, if_pos rfl, if_pos (Or.inr rfl)]
    induction lines with
    | nil => rfl
    | cons line lines ih =>
      rw [List.forall_mem_cons] at h
      rw [List.flatMap_cons, List.append_assoc, List.singleton_append,
        List.splitOn_append_cons_self_of_not_mem (newline_not_mem_statusLine h.1), ih h.2]
      rfl

/-- The members are those of the lines, and the empty key where there is one more piece. -/
theorem find_statusText (h : ∀ line ∈ lines, IsStatusLine line) (terminated : Bool) (key : String) :
    (parseProcStatus (some (statusText terminated lines))).find? key =
      if (lines = [] ∨ terminated) ∧ key = "" then some (.string "")
      else (statusValue lines key).map Json.string := by
  have hmembers : (lines.map statusLine).map statusMember =
      (lines.map statusEntry).map fun e => (e.1, Json.string e.2) := by
    rw [List.map_map, List.map_map]
    exact List.map_congr_left fun line hline => statusMember_statusLine (h line hline)
  have hempty : statusMember [] = ("", .string "") := rfl
  rw [find_parseProcStatus, splitOn_statusText h, List.map_append, lastAssigned_append, hmembers,
    lastAssigned_map, statusValue]
  by_cases hextra : lines = [] ∨ terminated
  · rw [if_pos hextra, List.map_singleton, hempty, lastAssigned_singleton]
    by_cases hkey : key = ""
    · rw [if_pos hkey, if_pos ⟨hextra, hkey⟩, Option.some_or]
    · rw [if_neg hkey, if_neg fun hboth => hkey hboth.2, Option.none_or]
  · rw [if_neg hextra, if_neg fun hboth => hextra hboth.1]
    rfl

/-- No line has an empty key. -/
theorem statusValue_empty (h : ∀ line ∈ lines, IsStatusLine line) :
    statusValue lines "" = none := by
  rw [statusValue, ← Option.not_isSome_iff_eq_none, isSome_lastAssigned_iff]
  intro hmem
  simp only [List.map_map, List.mem_map] at hmem
  obtain ⟨line, hline, hkey⟩ := hmem
  exact (h line hline).key_ne_nil (String.ofList_eq_empty_iff.mp hkey)

theorem statusExact_iff (h : ∀ line ∈ lines, IsStatusLine line) (terminated : Bool) :
    StatusExact lines (some (statusText terminated lines)) ↔ lines ≠ [] ∧ terminated = false := by
  have hcondition : (lines ≠ [] ∧ terminated = false) ↔ ¬(lines = [] ∨ terminated) := by
    simp
  rw [hcondition]
  constructor
  · intro hexact hextra
    have hkey := hexact ""
    rw [find_statusText h, if_pos ⟨hextra, rfl⟩, statusValue_empty h] at hkey
    exact absurd hkey nofun
  · intro hextra key
    rw [find_statusText h, if_neg fun hboth => hextra hboth.1]

/-- The member `PPid` is read in every case. -/
theorem isKernelProcess_statusText (h : ∀ line ∈ lines, IsStatusLine line) (terminated : Bool)
    (hppid : statusValue lines "PPid" = some "0") :
    isKernelProcess (some (statusText terminated lines)) = true := by
  have hmember : (parseProcStatus (some (statusText terminated lines))).index "PPid" =
      .string "0" := by
    rw [Json.index, find_statusText h, if_neg fun hboth => absurd hboth.2 (by decide), hppid]
    rfl
  rw [isKernelProcess, hmember]
  rfl

/-- There is a report for every process. -/
theorem skipsOrphans_iff (pid : UInt32) (entry : ProcEntry) (exeFailCount : ℕ) :
    SkipsOrphans lines pid entry exeFailCount ↔ statusValue lines "PPid" ≠ some "0" := by
  constructor
  · intro hskips hppid
    have hnone := (hskips hppid).1
    rw [getProcessInfo_some] at hnone
    exact absurd hnone nofun
  · intro hne hppid
    exact absurd hppid hne

/-- **When the status is read as it is meant.** The members of the status are the keys of the lines
with their last values, and a process without a parent gets no report, exactly when there is a line,
there is no line feed behind the last one, and `PPid` is not `0`. A process without a parent counts
as a kernel process in every case. -/
theorem status_exact_iff (h : ∀ line ∈ lines, IsStatusLine line) {terminated : Bool}
    {entry : ProcEntry} (hstatus : entry.status = some (statusText terminated lines)) (pid : UInt32)
    (exeFailCount : ℕ) :
    (StatusExact lines entry.status ∧ SkipsOrphans lines pid entry exeFailCount ↔
      lines ≠ [] ∧ terminated = false ∧ statusValue lines "PPid" ≠ some "0") ∧
    (statusValue lines "PPid" = some "0" → isKernelProcess entry.status = true) := by
  rw [hstatus, statusExact_iff h, skipsOrphans_iff, and_assoc]
  exact ⟨Iff.rfl, isKernelProcess_statusText h terminated⟩

/-- A process of which only the status can be read. -/
def statusEntryOnly (status : Text) : ProcEntry where
  cmdline := none
  exe := .error 2
  comm := none
  status := some status
  stat := none
  autogroup := none
  oomScoreAdj := none
  schedGetattr := none
  ioprioGet := 0

/-- The status of `kthreadd`, as far as the parent goes. -/
def sampleLines : List StatusLine :=
  [("Name".toList, "\tkthreadd".toList), ("PPid".toList, "\t0".toList)]

theorem isStatusLine_sampleLines : ∀ line ∈ sampleLines, IsStatusLine line :=
  List.forall_mem_cons.mpr ⟨⟨by decide +kernel, by simp, by simp, by simp⟩,
    List.forall_mem_cons.mpr ⟨⟨by decide +kernel, by simp, by simp, by simp⟩, nofun⟩⟩

theorem status_exact_iff_sample :
    let entry := statusEntryOnly (statusText true sampleLines)
    (StatusExact sampleLines entry.status ∧ SkipsOrphans sampleLines 2 entry 0 ↔
      sampleLines ≠ [] ∧ true = false ∧ statusValue sampleLines "PPid" ≠ some "0") ∧
    (statusValue sampleLines "PPid" = some "0" → isKernelProcess entry.status = true) :=
  status_exact_iff isStatusLine_sampleLines rfl 2 0

/-- The status of `kthreadd` has an empty key, and there is a report of `kthreadd`. -/
theorem not_forall_status_exact :
    ¬ ∀ (lines : List StatusLine) (terminated : Bool) (entry : ProcEntry) (pid : UInt32),
      (∀ line ∈ lines, IsStatusLine line) → entry.status = some (statusText terminated lines) →
      StatusExact lines entry.status ∧ SkipsOrphans lines pid entry 0 := by
  intro h
  have hboth := h sampleLines true (statusEntryOnly (statusText true sampleLines)) 2
    isStatusLine_sampleLines rfl
  exact (skipsOrphans_iff _ _ _).mp hboth.2 (by decide +kernel)

end ProcessInfo

end AnanicyCpp
