import AnanicyCpp.Kernel

/-!
# The setters

`priority.cpp` and `set_latnice` of `syscalls.h`. A setter returns a `bool` or throws a
`std::runtime_error`, which is `Except.error` with the text of `what()`. The result of `test_errno`
is an `int` that the callers return as a `bool`, so that its `-1` for an unknown error becomes
`true`.

## Main definitions

* `Priority.testErrno` : from `errno` to the result of a setter.
* `Priority.setPriority`, `Priority.setLatencyNice` : a call for every thread of the process.
* `Priority.setIoPriority`, `Priority.setSched`, `Priority.setOomScoreAdjust` : one call.
* `Priority.ioPrioRequest`, `Priority.schedRequest` : the arguments of the call, from the names.
-/

namespace AnanicyCpp

/-- How a setter ends. -/
abbrev Outcome := Except String Bool

namespace Priority

variable {σ : Type}

/-- `test_errno` -/
def testErrno (errcode : Errno) (funcName : String) (pid : Pid) : Except String Int32 :=
  if errcode = 0 then .ok 1
  else if errcode = Errno.esrch then .ok 0
  else if errcode = Errno.eacces ∨ errcode = Errno.eperm then
    .error (funcName ++ ": Insufficient permission to set io-priority of process " ++ toString pid)
  else .ok (-1)

/-- The result of `test_errno` as a `bool`. -/
def result (errcode : Errno) (funcName : String) (pid : Pid) : Outcome :=
  (testErrno errcode funcName pid).map (· != 0)

/-! ### Nice values -/

/-- Make a call for every thread id among the names. The error of the last name counts, and a name
that is no thread id resets it. -/
def forEachTask (call : Pid → σ → Errno × σ) (names : List Text) (s : σ) : Errno × σ :=
  names.foldl (fun acc name =>
    let tid := Text.toInt32 name
    if 0 < tid then call tid acc.2 else (0, acc.2)) (0, s)

/-- The body that `set_priority` and `set_latency_nice` share. -/
def setForTasks (k : Kernel σ) (funcName : String) (pid : Pid) (call : Pid → σ → Errno × σ)
    (s : σ) : Outcome × σ :=
  let dir := k.taskDir pid s
  let (errcode, s) := forEachTask call dir.names s
  if dir.failed then (.ok false, s) else (result errcode funcName pid, s)

/-- `set_priority` -/
def setPriority (k : Kernel σ) (pid : Pid) (niceValue : Int32) (s : σ) : Outcome × σ :=
  setForTasks k "set_priority" pid
    (fun tid => k.syscall (.setpriority tid.toUInt32 niceValue)) s

/-- The structure that `set_latnice` passes. -/
def latniceAttr (latencyNice : Int32) : SchedAttr where
  schedFlags := SchedAttr.flagLatencyNice ||| SchedAttr.flagKeepParams
  schedLatencyNice := latencyNice

theorem keepsParams_latniceAttr (latencyNice : Int32) : (latniceAttr latencyNice).keepsParams := by
  show (SchedAttr.flagLatencyNice ||| SchedAttr.flagKeepParams) &&& SchedAttr.flagKeepParams != 0
  decide

theorem keepsPolicy_latniceAttr (latencyNice : Int32) :
    (latniceAttr latencyNice).keepsPolicy = false := by
  show ((SchedAttr.flagLatencyNice ||| SchedAttr.flagKeepParams) &&& SchedAttr.flagKeepPolicy !=
    0) = false
  decide

/-- `set_latnice`: an `EINVAL` is taken back. -/
def setLatnice (k : Kernel σ) (latencyNice : Int32) (pid : Pid) (s : σ) : Errno × σ :=
  let (errno, s) := k.syscall (.schedSetattr pid (latniceAttr latencyNice) 0) s
  (if errno = Errno.einval then 0 else errno, s)

/-- `set_latency_nice` -/
def setLatencyNice (k : Kernel σ) (pid : Pid) (latencyNiceValue : Int32) (s : σ) : Outcome × σ :=
  setForTasks k "set_latency_nice" pid (setLatnice k latencyNiceValue) s

/-! ### I/O priority -/

def ioprioClassNone : Int32 := 0
def ioprioClassRt : Int32 := 1
def ioprioClassBe : Int32 := 2
def ioprioClassIdle : Int32 := 3

/-- The class that a name denotes. -/
def ioClassValue (ioClass : String) : Option Int32 :=
  if ioClass = "best-effort" then some ioprioClassBe
  else if ioClass = "realtime" then some ioprioClassRt
  else if ioClass = "idle" then some ioprioClassIdle
  else if ioClass = "none" then some ioprioClassNone
  else none

/-- `IOPRIO_PRIO_VALUE` -/
def ioprioPrioValue (cls data : Int32) : Int32 := cls <<< 13 ||| data

/-- `IOPRIO_PRIO_CLASS` -/
def ioprioPrioClass (mask : Int32) : Int32 := mask >>> 13

/-- `IOPRIO_PRIO_DATA` -/
def ioprioPrioData (mask : Int32) : Int32 := mask &&& 0x1FFF

/-- `ioprio_valid` -/
def ioprioValid (mask : Int32) : Bool := ioprioPrioClass mask != ioprioClassNone

/-- The word for a class and a level; `none` where the setter skips the call. -/
def ioPrioRequest (ioClass : String) (value : Int32) : Option Int32 :=
  match ioClassValue ioClass with
  | none => none
  | some cls =>
    if ioprioValid (ioprioPrioValue cls value) then some (ioprioPrioValue cls value) else none

/-- `set_io_priority`: an unknown class and an invalid word are skipped with `true`. -/
def setIoPriority (k : Kernel σ) (pid : Pid) (ioClass : String) (value : Int32) (s : σ) :
    Outcome × σ :=
  match ioPrioRequest ioClass value with
  | none => (.ok true, s)
  | some ioPrio =>
    let (errno, s) := k.syscall (.ioprioSet pid.toUInt32 ioPrio) s
    (result errno "set_io_priority" pid, s)

/-! ### Scheduler -/

def schedOther : Int32 := 0
def schedFifo : Int32 := 1
def schedRr : Int32 := 2
def schedBatch : Int32 := 3
def schedIdle : Int32 := 5

/-- The policy and the `sched_priority` for a scheduler name. The deadline scheduler is only warned
about, and the call is made with the initial values. -/
def schedRequest (schedName : String) (rtPrio : UInt32) : Option (Int32 × Int32) :=
  if schedName = "idle" then some (schedIdle, 0)
  else if schedName = "normal" ∨ schedName = "other" then some (schedOther, 0)
  else if schedName = "rr" then some (schedRr, rtPrio.toInt32)
  else if schedName = "fifo" then some (schedFifo, rtPrio.toInt32)
  else if schedName = "deadline" then some (0, 0)
  else if schedName = "batch" then some (schedBatch, 0)
  else none

/-- `set_sched` -/
def setSched (k : Kernel σ) (pid : Pid) (schedName : String) (rtPrio : UInt32) (s : σ) :
    Outcome × σ :=
  match schedRequest schedName rtPrio with
  | none => (.ok false, s)
  | some (sched, schedPriority) =>
    let (errno, s) := k.syscall (.schedSetscheduler pid sched schedPriority) s
    (result errno "set_sched" pid, s)

/-! ### OOM score -/

/-- `set_oom_score_adjust`: only opening the file can fail visibly. -/
def setOomScoreAdjust (k : Kernel σ) (pid : Pid) (value : Int32) (s : σ) : Outcome × σ :=
  if k.opensOomScoreAdj pid s then (.ok true, (k.syscall (.writeOomScoreAdj pid value) s).2)
  else (.ok false, s)

end Priority

end AnanicyCpp
