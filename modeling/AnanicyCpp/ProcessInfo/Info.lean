import AnanicyCpp.Json.Value
import AnanicyCpp.Priority
import AnanicyCpp.ProcessInfo.Command

/-!
# What is reported about a process

`get_process_info` collects the state of a process under `/proc` and from two system calls in a JSON
object, member by member. An exception ends the collection, and what has been collected is marked
as incomplete. The files and the results of the calls are given as a `ProcEntry`.

## Main definitions

* `ProcEntry` : the files of a process, and the answers of the kernel about it.
* `ProcessInfo.parseProcStatus`, `ProcessInfo.getAutogroupFromStr`, `ProcessInfo.statName` : the
  readers of the files.
* `ProcessInfo.getSchedPolicyName`, `ProcessInfo.getIoPrioAttributes` : the names of the attributes.
* `ProcessInfo.getProcessInfo` : the whole report.
* `ProcessInfo.Readable` : no file makes a reader throw.

## Main results

* `ProcessInfo.getProcessInfo_cases` : how a report comes about.
* `ProcessInfo.exists_report`, `ProcessInfo.exists_incomplete` : a report with the attributes, and
  one that breaks off in front of them.
-/

namespace AnanicyCpp

/-- The files of a process and the answers of `sched_getattr` and `ioprio_get`. -/
structure ProcEntry extends ProcFiles where
  status : Option Text
  stat : Option Text
  autogroup : Option Text
  oomScoreAdj : Option Text
  /-- `none` where the call fails and the structure keeps its zeros. -/
  schedGetattr : Option SchedAttr
  ioprioGet : Int32

namespace ProcessInfo

open Text

/-- The exceptions that `get_process_info` catches. -/
inductive ProcException where
  | typeError (e : TypeError)
  | outOfRange

/-! ### The status file -/

/-- The key and the value of a line; a line without a colon is both. -/
def statusMember (line : Text) : String × Json :=
  let name := match findFirstOf ':' line with
    | some delimiterPos => line.take delimiterPos
    | none => line
  let value := match findFirstOf ':' line with
    | some delimiterPos => line.drop (delimiterPos + 1)
    | none => line
  (String.ofList name, .string (String.ofList (value.dropWhile isTabOrSpace)))

/-- `parse_proc_status` -/
def parseProcStatus (status : Option Text) : Json :=
  .object ((InputStream.openFile status).whileGood
    (fun status line => SortedAssoc.insert (statusMember line).1 (statusMember line).2 status)
    [] [])

/-- `is_kernel_process` -/
def isKernelProcess (status : Option Text) : Bool :=
  match (parseProcStatus status).index "PPid" with
  | .string ppid => ppid == "0" || ppid == "2"
  | _ => false

/-- `value == 0` for a JSON value: numbers are compared by value, and a value of another kind is
different from every number. -/
def equalsZero : Json → Bool
  | .numberInteger n => n == 0
  | .numberUnsigned n => n == 0
  | .numberFloat x => x == 0
  | _ => false

/-! ### The line of the autogroup and the name in the line of `stat` -/

/-- `get_autogroup_from_str`. The second argument of the first `substr` is a position, but it is
taken for a length. -/
def getAutogroupFromStr (str : Text) : Except ProcException Json :=
  match findFrom (fun c => !"/autogroup-".toList.contains c) str 0 with
  | none => .ok .null
  | some beginGroupNum =>
    match findFrom (· == ' ') str beginGroupNum with
    | none => .error .outOfRange
    | some endGroupNum =>
      match findFrom (fun c => !"nice ".toList.contains c) str endGroupNum with
      | none => .error .outOfRange
      | some beginNiceNum => .ok (.object
          [("group", .numberUnsigned (toSize ((str.drop beginGroupNum).take endGroupNum))),
            ("nice", .numberUnsigned (toSize ((str.drop beginNiceNum).take str.length)))])

/-- `stat_name`: from behind the first opening parenthesis up to the first closing one. A closing
one in front of the opening one makes the length wrap around, and the name reaches to the end. -/
def statName (stat : Text) : Text :=
  let statNameBegin := match findFirstOf '(' stat with
    | some i => i + 1
    | none => 0
  match findFirstOf ')' stat with
  | some statNameEnd =>
      if statNameBegin ≤ statNameEnd then
        (stat.drop statNameBegin).take (statNameEnd - statNameBegin)
      else stat.drop statNameBegin
  | none => stat.drop statNameBegin

/-! ### The attributes -/

def schedIso : UInt32 := 4
def schedDeadline : UInt32 := 6

/-- `get_sched_policy_name` -/
def getSchedPolicyName (schedPolicy : UInt32) : String :=
  let policy := schedPolicy &&& 0xFF
  if policy = Priority.schedRr.toUInt32 then "rr"
  else if policy = schedDeadline then "deadline"
  else if policy = Priority.schedFifo.toUInt32 then "fifo"
  else if policy = Priority.schedOther.toUInt32 then "normal"
  else if policy = Priority.schedBatch.toUInt32 then "batch"
  else if policy = Priority.schedIdle.toUInt32 then "idle"
  else if policy = schedIso then "iso"
  else "unknown"

inductive IoPrioClass where
  | none
  | realtime
  | bestEffort
  | idle
deriving DecidableEq

/-- `io_class_name` -/
def IoPrioClass.name : IoPrioClass → String
  | none => "none"
  | realtime => "realtime"
  | bestEffort => "best-effort"
  | idle => "idle"

/-- `get_io_prio_attributes` -/
def getIoPrioAttributes (ioPrioData : Int32) : IoPrioClass × Int32 :=
  let ioClass : IoPrioClass :=
    if Priority.ioprioPrioClass ioPrioData = Priority.ioprioClassIdle then .idle
    else if Priority.ioprioPrioClass ioPrioData = Priority.ioprioClassBe then .bestEffort
    else if Priority.ioprioPrioClass ioPrioData = Priority.ioprioClassRt then .realtime
    else .none
  (ioClass, Priority.ioprioPrioData ioPrioData)

/-- The member `ionice`; the level is reported for the best-effort class only. -/
def ionice (ioPrioData : Int32) : Json :=
  .array [.string (getIoPrioAttributes ioPrioData).1.name,
    if (getIoPrioAttributes ioPrioData).1 = .bestEffort then
      .numberInteger (getIoPrioAttributes ioPrioData).2.toInt64
    else .null]

/-! ### The report -/

/-- A JSON string. -/
def text (s : Text) : Json := .string (String.ofList s)

/-- The members that are assigned in front of the autogroup. -/
def nameMembers (pid : UInt32) (entry : ProcEntry) (exeFailCount : ℕ) (tgid : String) :
    List (String × Json) :=
  let stat := InputStream.firstLine entry.stat
  [("pid", .numberUnsigned (toSize tgid.toList)),
    ("tpid", .numberUnsigned pid.toUInt64),
    ("exe", match entry.exe with
      | .ok path => text path
      | .error _ => .null),
    ("comm", text (InputStream.firstLine entry.comm)),
    ("cmd", text (getCommandFromPid entry.toProcFiles exeFailCount).1),
    ("stat", text stat),
    ("stat_name", text (statName stat))]

/-- The members that are assigned behind the autogroup. -/
def attributeMembers (entry : ProcEntry) : List (String × Json) :=
  let schedInfo := entry.schedGetattr.getD {}
  [("sched", .string (getSchedPolicyName schedInfo.schedPolicy)),
    ("rtprio", .numberUnsigned schedInfo.schedPriority.toUInt64),
    ("nice", .numberInteger schedInfo.schedNice.toInt64),
    ("latency_nice", .numberInteger 0),
    ("ionice", ionice entry.ioprioGet),
    ("oom_score_adj", .numberUnsigned (extractUnsigned (entry.oomScoreAdj.getD [])).toUInt64),
    ("cmdline", .array ((getCmdlineFromPid entry.cmdline).map text))]

/-- The members that are assigned, the exception that ends the assignments, and the count of refused
links. -/
structure Collected where
  members : List (String × Json)
  exception : Option ProcException
  exeFailCount : ℕ

/-- The `try` block of `get_process_info`. -/
def collect (pid : UInt32) (entry : ProcEntry) (exeFailCount : ℕ) : Collected :=
  match ((parseProcStatus entry.status).index "Tgid").getString with
  | .error e => ⟨[], some (.typeError e), exeFailCount⟩
  | .ok tgid =>
    let names := nameMembers pid entry exeFailCount tgid
    let exeFailCount := (getCommandFromPid entry.toProcFiles exeFailCount).2
    match getAutogroupFromStr (InputStream.firstLine entry.autogroup) with
    | .error e => ⟨names, some e, exeFailCount⟩
    | .ok autogroup =>
        ⟨names ++ ("autogroup", autogroup) :: attributeMembers entry, none, exeFailCount⟩

/-- The object that a list of assignments to members builds. -/
def objectOf (assignments : List (String × Json)) : Json :=
  .object (SortedMap.empty.insertMany assignments).entries

/-- `get_process_info`, for a process that `/proc` has an entry of, or has not. -/
def getProcessInfo (pid : UInt32) (entry : Option ProcEntry) (exeFailCount : ℕ) :
    Option Json × ℕ :=
  match entry with
  | none => (none, exeFailCount)
  | some entry =>
    if equalsZero ((parseProcStatus entry.status).index "PPid") then (none, exeFailCount)
    else
      let collected := collect pid entry exeFailCount
      let incomplete := collected.exception.toList.map fun _ => ("incomplete", .boolean true)
      (some (objectOf (collected.members ++ incomplete)), collected.exeFailCount)

theorem find_objectOf (assignments : List (String × Json)) (key : String) :
    (objectOf assignments).find? key = lastAssigned key assignments :=
  (SortedMap.lookup_insertMany SortedMap.empty assignments key).trans (Option.or_none ..)

/-- The members of the status: the last line with a key decides. -/
theorem find_parseProcStatus (content : Text) (key : String) :
    (parseProcStatus (some content)).find? key =
      lastAssigned key ((content.splitOn '\n').map statusMember) := by
  have hentries := SortedMap.entries_insertMany .empty ((content.splitOn '\n').map statusMember)
  rw [List.foldl_map] at hentries
  rw [parseProcStatus, InputStream.whileGood_openFile]
  exact (congrArg (SortedAssoc.find key) hentries.symm).trans
    ((SortedMap.lookup_insertMany .empty _ key).trans (Option.or_none ..))

/-- Every member of the status is a string, so a missing key is the only other answer. -/
theorem index_parseProcStatus (status : Option Text) (key : String) :
    (parseProcStatus status).index key = .null ∨
      ∃ value, (parseProcStatus status).index key = .string value := by
  have hmember : ∀ v, (parseProcStatus status).find? key = some v → ∃ s, v = .string s := by
    intro v hv
    cases status with
    | none =>
      rw [parseProcStatus, InputStream.whileGood_openFile_none] at hv
      exact absurd hv (by simp [Json.find?, Json.members])
    | some content =>
      rw [find_parseProcStatus] at hv
      obtain ⟨line, -, hline⟩ := List.mem_map.mp (mem_of_lastAssigned hv)
      exact ⟨_, (congrArg Prod.snd hline).symm⟩
  rw [Json.index]
  cases hfind : (parseProcStatus status).find? key with
  | none => exact Or.inl rfl
  | some v =>
    obtain ⟨value, rfl⟩ := hmember v hfind
    exact Or.inr ⟨value, rfl⟩

/-- No member of the status equals the number `0`. -/
theorem equalsZero_parseProcStatus (status : Option Text) (key : String) :
    equalsZero ((parseProcStatus status).index key) = false := by
  rcases index_parseProcStatus status key with h | ⟨value, h⟩ <;> rw [h] <;> rfl

/-- The other files can be read without an exception. -/
def Readable (files : ProcEntry) : Prop :=
  (∃ tgid, (parseProcStatus files.status).index "Tgid" = .string tgid) ∧
    ∃ autogroup, getAutogroupFromStr (InputStream.firstLine files.autogroup) = .ok autogroup

theorem getProcessInfo_some (pid : UInt32) (entry : ProcEntry) (exeFailCount : ℕ) :
    (getProcessInfo pid (some entry) exeFailCount).1 =
      some (objectOf ((collect pid entry exeFailCount).members ++
        (collect pid entry exeFailCount).exception.toList.map
          fun _ => ("incomplete", .boolean true))) := by
  rw [getProcessInfo, equalsZero_parseProcStatus]
  rfl

/-- How a report comes about: there is no thread group, or the line of the autogroup ends the
assignments, or all of them are made. -/
theorem getProcessInfo_cases (pid : UInt32) (entry : ProcEntry) (exeFailCount : ℕ) :
    (¬(∃ tgid, (parseProcStatus entry.status).index "Tgid" = .string tgid) ∧
      (getProcessInfo pid (some entry) exeFailCount).1 =
        some (objectOf [("incomplete", .boolean true)])) ∨
    ∃ tgid, (parseProcStatus entry.status).index "Tgid" = .string tgid ∧
      ((∃ e, getAutogroupFromStr (InputStream.firstLine entry.autogroup) = .error e ∧
        (getProcessInfo pid (some entry) exeFailCount).1 = some (objectOf
          (nameMembers pid entry exeFailCount tgid ++ [("incomplete", .boolean true)]))) ∨
      ∃ autogroup, getAutogroupFromStr (InputStream.firstLine entry.autogroup) = .ok autogroup ∧
        (getProcessInfo pid (some entry) exeFailCount).1 = some (objectOf
          (nameMembers pid entry exeFailCount tgid ++ ("autogroup", autogroup) ::
            attributeMembers entry))) := by
  rw [getProcessInfo_some]
  rcases index_parseProcStatus entry.status "Tgid" with hnull | ⟨tgid, htgid⟩
  · exact Or.inl ⟨by simp [hnull], by simp only [collect, hnull, Json.getString]; rfl⟩
  · refine Or.inr ⟨tgid, htgid, ?_⟩
    cases hautogroup : getAutogroupFromStr (InputStream.firstLine entry.autogroup) with
    | error e =>
      exact Or.inl ⟨e, rfl, by simp only [collect, htgid, Json.getString, hautogroup]; rfl⟩
    | ok autogroup =>
      refine Or.inr ⟨autogroup, rfl, ?_⟩
      simp only [collect, htgid, Json.getString, hautogroup, Option.toList_none, List.map_nil,
        List.append_nil]

/-- **The report of a process whose files can be read** has the attributes. -/
theorem exists_report {entry : ProcEntry} (h : Readable entry) (pid : UInt32)
    (exeFailCount : ℕ) : ∃ info, (getProcessInfo pid (some entry) exeFailCount).1 = some info ∧
      ∀ key value, lastAssigned key (attributeMembers entry) = some value →
        info.find? key = some value := by
  obtain ⟨htgid, autogroup, hautogroup⟩ := h
  rcases getProcessInfo_cases pid entry exeFailCount with
    ⟨hnone, -⟩ | ⟨tgid, -, ⟨e, herror, -⟩ | ⟨autogroup, -, hinfo⟩⟩
  · exact absurd htgid hnone
  · simp [hautogroup] at herror
  · refine ⟨_, hinfo, fun key value hvalue => ?_⟩
    rw [find_objectOf, lastAssigned_append, lastAssigned_cons, hvalue]
    rfl

/-- The report of any other process breaks off in front of the attributes. -/
theorem exists_incomplete {entry : ProcEntry} (h : ¬Readable entry) (pid : UInt32)
    (exeFailCount : ℕ) : ∃ info, (getProcessInfo pid (some entry) exeFailCount).1 = some info ∧
      info.find? "sched" = none := by
  rcases getProcessInfo_cases pid entry exeFailCount with
    ⟨-, hinfo⟩ | ⟨tgid, htgid, ⟨e, -, hinfo⟩ | ⟨autogroup, hautogroup, -⟩⟩
  · refine ⟨_, hinfo, ?_⟩
    rw [find_objectOf, lastAssigned_singleton, if_neg (by decide)]
  · refine ⟨_, hinfo, ?_⟩
    rw [find_objectOf, lastAssigned_append]
    simp [nameMembers, lastAssigned_cons]
  · exact absurd ⟨⟨tgid, htgid⟩, autogroup, hautogroup⟩ h

end ProcessInfo

end AnanicyCpp
