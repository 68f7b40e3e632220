import AnanicyCpp.Kernel
import AnanicyCpp.Library.InputStream

/-!
# The name of a process

`get_command_from_pid` derives the name that the rules are looked up under, from the command line of
the process, else from the link to its executable, else from `comm`. The link is not read any more
after it has been refused a few times.

The scan of `/proc` and the netlink events push this name as it is. The BPF events rewrite a name
that ends with `.exe`: its backslashes become slashes, and its last component is what counts. The
names agree exactly when there is nothing to rewrite (`ProcessInfo.names_eq_iff`).

The kernel appends ` (deleted)` to the link of an executable that is gone. The cut in front of it is
one character too long, so that the name of such a process ends with a space
(`ProcessInfo.command_ne_of_deleted`).

## Main definitions

* `ProcFiles` : what `/proc/<pid>` says about the name.
* `ProcessInfo.getCmdlineFromPid`, `ProcessInfo.getCommandFromPid` : the arguments, and the name.
* `ProcessInfo.fullScanName`, `ProcessInfo.netlinkEventName`, `ProcessInfo.bpfEventName` : the names
  that are pushed.
* `ProcessInfo.HasWindowsPath` : there is something to rewrite.

## Main results

* `ProcessInfo.names_eq_iff` : when the pushed names agree.
* `ProcessInfo.command_ne_of_deleted` : the name of a process whose executable is gone.
-/

namespace AnanicyCpp

/-- What the files under `/proc/<pid>` say: the contents of `cmdline` and `comm`, where they can be
opened, and the target of the link `exe` or the error of reading it. -/
structure ProcFiles where
  cmdline : Option Text
  exe : Except Errno Text
  comm : Option Text

def Errno.eexist : Errno := 17

namespace ProcessInfo

open Text

/-! ### The command line -/

/-- The loop of `get_cmdline_from_pid` on what is left of the value. -/
def splitArguments (value : Text) : List Text :=
  match _h : value.dropWhile (· == nul) with
  | [] => []
  | c :: rest =>
      (c :: rest).takeWhile (· != nul) :: splitArguments ((c :: rest).dropWhile (· != nul))
termination_by value.length
decreasing_by
  have hsuffix := (List.dropWhile_suffix (l := value) (· == nul)).length_le
  have hc : (c != nul) = true := by
    have hhead := List.head?_dropWhile_not (· == nul) value
    simpa [_h] using hhead
  have hrest : (c :: rest).dropWhile (· != nul) = rest.dropWhile (· != nul) :=
    List.dropWhile_cons_of_pos hc
  have hlength := (List.dropWhile_suffix (l := rest) (· != nul)).length_le
  rw [_h, List.length_cons] at hsuffix
  rw [hrest]
  omega

/-- The pieces between NULs that are not empty. -/
def segments (value : Text) : List Text := (value.splitOn nul).filter (· ≠ [])

theorem segments_nul_cons (value : Text) : segments (nul :: value) = segments value := by
  simp [segments, List.splitOn_cons_eq_if_modifyHead]

theorem segments_dropWhile_nul (value : Text) :
    segments (value.dropWhile (· == nul)) = segments value := by
  induction value with
  | nil => rfl
  | cons c value ih =>
      by_cases hc : c = nul
      · have hdrop : (c :: value).dropWhile (· == nul) = value.dropWhile (· == nul) :=
          List.dropWhile_cons_of_pos (beq_iff_eq.mpr hc)
        rw [hdrop, ih, hc, segments_nul_cons]
      · rw [List.dropWhile_cons_of_neg (by simpa using hc)]

/-- A text that does not start with a NUL starts with its first segment. -/
theorem segments_cons {c : Char} (hc : c ≠ nul) (rest : Text) :
    segments (c :: rest) =
      (c :: rest).takeWhile (· != nul) :: segments ((c :: rest).dropWhile (· != nul)) := by
  have hsegment : nul ∉ (c :: rest).takeWhile (· != nul) := fun h => by
    simpa using List.mem_takeWhile_imp h
  have hne : (c :: rest).takeWhile (· != nul) ≠ [] := by
    simp [hc]
  have hsplit : (c :: rest).takeWhile (· != nul) ++ (c :: rest).dropWhile (· != nul) = c :: rest :=
    List.takeWhile_append_dropWhile
  cases hdrop : (c :: rest).dropWhile (· != nul) with
  | nil =>
    rw [hdrop, List.append_nil] at hsplit
    rw [hsplit] at hsegment ⊢
    simp [segments, List.splitOn_eq_singleton hsegment]
  | cons d tail =>
    have hd : d = nul := by
      have hhead := List.head?_dropWhile_not (· != nul) (c :: rest)
      simpa [hdrop] using hhead
    rw [hdrop, hd] at hsplit
    rw [hd, segments_nul_cons]
    conv_lhs => rw [← hsplit]
    rw [segments, List.splitOn_append_cons_self_of_not_mem hsegment,
      List.filter_cons_of_pos (by simpa using hne), segments]

/-- The loop delivers the segments in order. -/
theorem splitArguments_eq (value : Text) : splitArguments value = segments value := by
  fun_induction splitArguments value with
  | case1 value hnil => rw [← segments_dropWhile_nul, hnil]; rfl
  | case2 value c rest hcons ih =>
    have hc : c ≠ nul := by
      have hhead := List.head?_dropWhile_not (· == nul) value
      simpa [hcons] using hhead
    rw [← segments_dropWhile_nul value, hcons, segments_cons hc, ih]

/-- `get_cmdline_from_pid` -/
def getCmdlineFromPid (cmdline : Option Text) : List Text :=
  splitArguments (InputStream.firstLine cmdline)

/-! ### The name -/

def commandNameHeuristicSkipExeFailures : ℕ := 5

/-- What the kernel appends to the link of an executable that is gone. -/
def deletedMark : Text := " (deleted)".toList

/-- The name from the first argument: what follows its last slash. -/
def nameOfArgument (argument : Text) : Text := argument.rtakeWhile (· != '/')

/-- The name from the link to the executable. -/
def nameOfExe (path : Text) : Text :=
  match find deletedMark (filename path) with
  | some exeNameEnd => (filename path).take (exeNameEnd + 1)
  | none => filename path

/-- `get_command_from_pid`: the name, and the count of refused links after the call. -/
def getCommandFromPid (files : ProcFiles) (exeFailCount : ℕ) : Text × ℕ :=
  match getCmdlineFromPid files.cmdline with
  | argument :: _ => (nameOfArgument argument, exeFailCount)
  | [] =>
    if exeFailCount < commandNameHeuristicSkipExeFailures then
      match files.exe with
      | .ok path => (nameOfExe path, 0)
      | .error errcode =>
        if errcode = Errno.eexist then ("<unknown>".toList, exeFailCount)
        else if errcode = Errno.eacces ∨ errcode = Errno.eperm then
          (InputStream.firstLine files.comm, exeFailCount + 1)
        else (InputStream.firstLine files.comm, exeFailCount)
    else (InputStream.firstLine files.comm, exeFailCount)

/-! ### The names that are pushed -/

/-- The name that `full_scan` pushes. -/
def fullScanName (files : ProcFiles) (exeFailCount : ℕ) : Text :=
  (getCommandFromPid files exeFailCount).1

/-- The name that `handle_events` pushes in the netlink build. -/
def netlinkEventName (files : ProcFiles) (exeFailCount : ℕ) : Text :=
  (getCommandFromPid files exeFailCount).1

/-- What `handle_event` makes of a name. The path is built from a C string. -/
def windowsName (command : Text) : Text :=
  if ".exe".toList.isSuffixOf command then
    filename (beforeNul (command.map fun c => if c = '\\' then '/' else c))
  else command

/-- The name that `handle_event` pushes in the BPF build. -/
def bpfEventName (files : ProcFiles) (exeFailCount : ℕ) : Text :=
  windowsName (getCommandFromPid files exeFailCount).1

/-! ### When there is something to rewrite -/

/-- A name that the BPF events rewrite into another one. -/
def IsWindowsPath (name : Text) : Prop :=
  ".exe".toList <:+ name ∧ ∃ c ∈ name, c = '\\' ∨ c = '/' ∨ c = nul

/-- The part of `/proc/<pid>` that the name comes from has something to rewrite: the file name of
the first argument, else that of the executable, unless it has a deletion mark, else the first line
of `comm`. -/
def HasWindowsPath (files : ProcFiles) (exeFailCount : ℕ) : Prop :=
  match getCmdlineFromPid files.cmdline with
  | argument :: _ => IsWindowsPath (filename argument)
  | [] =>
    if exeFailCount < commandNameHeuristicSkipExeFailures then
      match files.exe with
      | .ok path => find deletedMark (filename path) = none ∧ IsWindowsPath (filename path)
      | .error errcode =>
          errcode ≠ Errno.eexist ∧ IsWindowsPath (InputStream.firstLine files.comm)
    else IsWindowsPath (InputStream.firstLine files.comm)

/-- Backslashes become slashes. -/
def slashed (name : Text) : Text := name.map fun c => if c = '\\' then '/' else c

theorem slashed_eq_self {name : Text} (h : ∀ c ∈ name, c ≠ '\\') : slashed name = name :=
  (List.map_congr_left fun c hc => if_neg (h c hc)).trans (List.map_id' name)

theorem mem_slashed_of_mem {name : Text} {c : Char} (hc : c ∈ name) (h : c = '\\' ∨ c = '/') :
    '/' ∈ slashed name := by
  refine List.mem_map.mpr ⟨c, hc, ?_⟩
  rcases h with rfl | rfl <;> rfl

theorem isInfix_filename_beforeNul (name : Text) : filename (beforeNul name) <:+: name :=
  (List.rtakeWhile_suffix _ _).isInfix.trans (List.takeWhile_prefix _).isInfix

/-- The last component of a C string is the whole text exactly when the text has neither a slash
nor a NUL. -/
theorem filename_beforeNul_eq_self_iff {name : Text} :
    filename (beforeNul name) = name ↔ '/' ∉ name ∧ nul ∉ name := by
  constructor
  · intro h
    have hprefix : beforeNul name <+: name := List.takeWhile_prefix _
    have hsuffix : filename (beforeNul name) <:+ beforeNul name := List.rtakeWhile_suffix _ _
    have hbefore : beforeNul name = name :=
      hprefix.eq_of_length_le (by simpa only [h] using hsuffix.length_le)
    have hslash : '/' ∉ filename (beforeNul name) := not_mem_filename _
    have hnul : nul ∉ beforeNul name := not_mem_takeWhile_bne nul name
    rw [h] at hslash
    rw [hbefore] at hnul
    exact ⟨hslash, hnul⟩
  · rintro ⟨hslash, hnul⟩
    have hbefore : beforeNul name = name := takeWhile_bne hnul
    have hfile : filename name = name := List.rtakeWhile_eq_self_iff.mpr (forall_bne hslash)
    rw [hbefore, hfile]

/-- The rewriting keeps exactly the names that have nothing to rewrite. -/
theorem windowsName_eq_iff (name : Text) : windowsName name = name ↔ ¬IsWindowsPath name := by
  unfold windowsName IsWindowsPath
  split_ifs with hexe <;> rw [List.isSuffixOf_iff_suffix] at hexe
  · change filename (beforeNul (slashed name)) = name ↔ _
    constructor
    · rintro hsame ⟨-, c, hc, hbad⟩
      have hlength : (filename (beforeNul (slashed name))).length = (slashed name).length := by
        rw [hsame, slashed, List.length_map]
      obtain ⟨hslash, hnul⟩ := filename_beforeNul_eq_self_iff.mp
        ((isInfix_filename_beforeNul _).eq_of_length hlength)
      rcases hbad with hbackslash | rfl | rfl
      · exact hslash (mem_slashed_of_mem hc (Or.inl hbackslash))
      · exact hslash (mem_slashed_of_mem hc (Or.inr rfl))
      · exact hnul (List.mem_map.mpr ⟨nul, hc, rfl⟩)
    · intro hnone
      have hplain (c : Char) (hc : c ∈ name) : ¬(c = '\\' ∨ c = '/' ∨ c = nul) := fun hbad =>
        hnone ⟨hexe, c, hc, hbad⟩
      rw [slashed_eq_self fun c hc h => hplain c hc (Or.inl h)]
      exact filename_beforeNul_eq_self_iff.mpr
        ⟨fun h => hplain _ h (Or.inr (Or.inl rfl)), fun h => hplain _ h (Or.inr (Or.inr rfl))⟩
  · exact iff_of_true rfl fun h => hexe h.1

/-! ### The three names -/

theorem deletedMark_eq : deletedMark = ' ' :: '(' :: "deleted)".toList := by
  decide +kernel

/-- The name of an executable with a deletion mark ends with a space. -/
theorem nameOfExe_of_find {path : Text} {exeNameEnd : ℕ}
    (h : find deletedMark (filename path) = some exeNameEnd) :
    ∃ before after, filename path = before ++ (deletedMark ++ after) ∧
      nameOfExe path = before ++ [' '] := by
  obtain ⟨before, after, hsplit, rfl⟩ := find_eq_some h
  refine ⟨before, after, hsplit, ?_⟩
  rw [nameOfExe, h, hsplit]
  refine (take_append_add before _ 1).trans ?_
  rw [deletedMark_eq]
  rfl

theorem isWindowsPath_nameOfExe_iff (path : Text) : IsWindowsPath (nameOfExe path) ↔
    find deletedMark (filename path) = none ∧ IsWindowsPath (filename path) := by
  cases h : find deletedMark (filename path) with
  | none =>
    have hname : nameOfExe path = filename path := by rw [nameOfExe, h]
    rw [hname]
    simp
  | some exeNameEnd =>
    obtain ⟨before, after, -, hname⟩ := nameOfExe_of_find h
    refine iff_of_false (fun hpath => ?_) (by simp)
    obtain ⟨front, hfront⟩ := hname ▸ hpath.1
    have hlast := congrArg List.getLast? hfront
    simp at hlast

/-- What the name comes from has something to rewrite exactly when the name has. -/
theorem isWindowsPath_command_iff (files : ProcFiles) (exeFailCount : ℕ) :
    IsWindowsPath (getCommandFromPid files exeFailCount).1 ↔ HasWindowsPath files exeFailCount := by
  have hunknown : ¬IsWindowsPath "<unknown>".toList := fun h => by
    have hsuffix := List.isSuffixOf_iff_suffix.mpr h.1
    revert hsuffix
    decide
  unfold getCommandFromPid HasWindowsPath
  cases getCmdlineFromPid files.cmdline with
  | cons argument arguments => rfl
  | nil =>
    dsimp only
    split_ifs with hcount
    · cases files.exe with
      | ok path => exact isWindowsPath_nameOfExe_iff path
      | error errcode =>
        dsimp only
        split_ifs with hexist hdenied
        · exact iff_of_false hunknown fun h => h.1 hexist
        · exact (and_iff_right hexist).symm
        · exact (and_iff_right hexist).symm
    · rfl

/-- **When the pushed names agree.** For every content of `/proc/<pid>` and every count of refused
links, the scan and the events of both builds push the same name exactly when the part of
`/proc/<pid>` that the name comes from has nothing to rewrite. -/
theorem names_eq_iff (files : ProcFiles) (exeFailCount : ℕ) :
    (fullScanName files exeFailCount = netlinkEventName files exeFailCount ∧
      fullScanName files exeFailCount = bpfEventName files exeFailCount ∧
      netlinkEventName files exeFailCount = bpfEventName files exeFailCount) ↔
    ¬HasWindowsPath files exeFailCount := by
  rw [← isWindowsPath_command_iff, ← windowsName_eq_iff]
  constructor
  · rintro ⟨-, hbpf, -⟩
    exact hbpf.symm
  · intro h
    exact ⟨rfl, h.symm, h.symm⟩

/-- The command line of a program under Wine. -/
def sampleWine : ProcFiles where
  cmdline := some "C:\\game.exe".toList
  exe := .error Errno.eacces
  comm := none

/-- A scan and a BPF event do not always push the same name. -/
theorem not_forall_names_eq :
    ¬ ∀ (files : ProcFiles) (exeFailCount : ℕ),
      fullScanName files exeFailCount = netlinkEventName files exeFailCount ∧
      fullScanName files exeFailCount = bpfEventName files exeFailCount ∧
      netlinkEventName files exeFailCount = bpfEventName files exeFailCount := by
  intro h
  have hname : (getCommandFromPid sampleWine 0).1 = "C:\\game.exe".toList := by
    have hargs : getCmdlineFromPid sampleWine.cmdline = ["C:\\game.exe".toList] := by
      rw [getCmdlineFromPid, splitArguments_eq]
      decide +kernel
    rw [getCommandFromPid, hargs]
    decide +kernel
  have hbpf := (h sampleWine 0).2.1
  rw [fullScanName, bpfEventName, hname] at hbpf
  revert hbpf
  decide +kernel

/-! ### An executable that is gone -/

/-- **The name of a process whose executable is gone.** With an empty command line and a link that
reads `<dir>/b (deleted)`, as long as links are read, the name is never `b`, whatever `b` is: it
ends with the space in front of the mark. -/
theorem command_ne_of_deleted {files : ProcFiles} {exeFailCount : ℕ} {dir b : Text}
    (hb : '/' ∉ b) (hcmdline : getCmdlineFromPid files.cmdline = [])
    (hexe : files.exe = .ok (dir ++ '/' :: (b ++ deletedMark)))
    (hcount : exeFailCount < commandNameHeuristicSkipExeFailures) :
    (getCommandFromPid files exeFailCount).1 ≠ b := by
  have hslash : '/' ∉ b ++ deletedMark := by
    rw [List.mem_append, not_or]
    exact ⟨hb, by decide +kernel⟩
  have hcommand : (getCommandFromPid files exeFailCount).1 =
      nameOfExe (dir ++ '/' :: (b ++ deletedMark)) := by
    simp only [getCommandFromPid, hcmdline, hcount, hexe, if_true]
  have hfile : filename (dir ++ '/' :: (b ++ deletedMark)) = b ++ deletedMark :=
    filename_append_cons dir hslash
  obtain ⟨exeNameEnd, hfind⟩ := Option.isSome_iff_exists.mp (isSome_find_append b deletedMark)
  rw [← hfile] at hfind
  obtain ⟨before, after, hsplit, hname⟩ := nameOfExe_of_find hfind
  rw [hcommand, hname]
  rintro rfl
  -- behind the space stands a parenthesis, and behind `b` stands the space of its own mark
  rw [hfile, List.append_assoc, List.append_cancel_left_eq, deletedMark_eq] at hsplit
  exact absurd hsplit (by simp)

/-- A daemon that was upgraded while it ran. -/
def sampleDeleted : ProcFiles where
  cmdline := some []
  exe := .ok ("/usr/bin".toList ++ '/' :: ("sshd".toList ++ deletedMark))
  comm := some "sshd\n".toList

theorem getCmdlineFromPid_sampleDeleted : getCmdlineFromPid sampleDeleted.cmdline = [] := by
  rw [getCmdlineFromPid, splitArguments_eq]
  decide

theorem command_ne_of_deleted_sample : (getCommandFromPid sampleDeleted 0).1 ≠ "sshd".toList :=
  command_ne_of_deleted (by decide) getCmdlineFromPid_sampleDeleted rfl (by decide)

/-- The name of a process whose executable is gone is not the name of the executable. -/
theorem not_forall_command_eq_of_deleted :
    ¬ ∀ (files : ProcFiles) (exeFailCount : ℕ) (dir b : Text), '/' ∉ b →
      getCmdlineFromPid files.cmdline = [] →
      files.exe = .ok (dir ++ '/' :: (b ++ deletedMark)) →
      exeFailCount < commandNameHeuristicSkipExeFailures →
      (getCommandFromPid files exeFailCount).1 = b := by
  intro h
  have hname := h sampleDeleted 0 "/usr/bin".toList "sshd".toList (by decide)
    getCmdlineFromPid_sampleDeleted rfl (by decide)
  rw [getCommandFromPid, getCmdlineFromPid_sampleDeleted] at hname
  revert hname
  decide +kernel

end ProcessInfo

end AnanicyCpp
