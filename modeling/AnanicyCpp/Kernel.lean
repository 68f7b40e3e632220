import AnanicyCpp.Cgroups
import Mathlib.Logic.Function.Basic

/-!
# The platform

What the setters ask of the operating system: the system calls of `syscalls.h`, the directory
`/proc/<pid>/task`, the file `oom_score_adj` and the system bus. All of it is a parameter over a
state `σ`; every call may fail with any `errno`.

The second half states what a call may change. `Attributes` are the scheduling attributes that the
program sets, `Syscall.Changes` says which of them a successful call names, and `Platform.Lawful`
says that a platform changes nothing else.

## Main definitions

* `Syscall`, `SchedAttr` : the system calls and the structure `ananicy_sched_attr`.
* `Platform` : kernel and bus.
* `Attributes`, `Syscall.Changes`, `Platform.Lawful` : the frame of a call.
-/

namespace AnanicyCpp

/-- An entry of the process queue. -/
structure Process where
  pid : Pid
  name : String
deriving DecidableEq

/-- The threads that read a name and push an entry: the one that has the program of the back end,
which is `main` in the constructor and the event thread later, and `main` in a scan of its service
loop. -/
inductive Pusher where
  | listener
  | manual
deriving DecidableEq

namespace Pusher

variable {α : Type*} {hand : Pusher → Option α} {pusher pusher' : Pusher} {entry entry' : α}

/-- What the threads hold when one has taken an entry. -/
theorem hand_take (h : Function.update hand pusher (some entry) pusher' = some entry') :
    hand pusher' = some entry' ∨ entry' = entry := by
  by_cases hpusher : pusher' = pusher
  · subst hpusher
    exact .inr (Option.some.inj (h.symm.trans (Function.update_self ..)))
  · exact .inl ((Function.update_of_ne hpusher ..).symm.trans h)

/-- A thread that has nothing in its hand takes an entry, and the others keep theirs. -/
theorem hand_take_of_some (hhand : hand pusher = none) (h : hand pusher' = some entry') :
    Function.update hand pusher (some entry) pusher' = some entry' := by
  have hne : pusher' ≠ pusher := by
    rintro rfl
    rw [hhand] at h
    cases h
  exact (Function.update_of_ne hne ..).trans h

/-- What the threads hold when one has pushed its entry. -/
theorem hand_push (h : Function.update hand pusher none pusher' = some entry') :
    hand pusher' = some entry' := by
  by_cases hpusher : pusher' = pusher
  · subst hpusher
    rw [Function.update_self] at h
    cases h
  · exact (Function.update_of_ne hpusher ..).symm.trans h

end Pusher

/-! ### Calls -/

/-- The value of `errno` after a call that found it `0`. -/
abbrev Errno := Int32

namespace Errno

def eperm : Errno := 1
def esrch : Errno := 3
def eacces : Errno := 13
def einval : Errno := 22

end Errno

/-- `ananicy_sched_attr`; a member without an initializer is zero. -/
structure SchedAttr where
  /-- `sizeof`, the structure being packed. -/
  size : UInt32 := 60
  schedPolicy : UInt32 := 0
  schedFlags : UInt64 := 0
  schedNice : Int32 := 0
  schedPriority : UInt32 := 0
  schedRuntime : UInt64 := 0
  schedDeadline : UInt64 := 0
  schedPeriod : UInt64 := 0
  schedUtilMin : UInt32 := 0
  schedUtilMax : UInt32 := 0
  schedLatencyNice : Int32 := 0
deriving DecidableEq

namespace SchedAttr

def flagLatencyNice : UInt64 := 0x80
def flagKeepParams : UInt64 := 0x10
def flagKeepPolicy : UInt64 := 0x08

def keepsParams (attr : SchedAttr) : Bool := attr.schedFlags &&& flagKeepParams != 0
def keepsPolicy (attr : SchedAttr) : Bool := attr.schedFlags &&& flagKeepPolicy != 0

end SchedAttr

/-- The calls that set something. `who` is an `id_t`. -/
inductive Syscall where
  | setpriority (who : UInt32) (prio : Int32)
  | schedSetattr (pid : Pid) (attr : SchedAttr) (flags : UInt32)
  | schedSetscheduler (pid : Pid) (policy schedPriority : Int32)
  | ioprioSet (who : UInt32) (ioPrio : Int32)
  | writeOomScoreAdj (pid : Pid) (value : Int32)
deriving DecidableEq

/-- A traversal of `/proc/<pid>/task`: the file names visited, and whether a `filesystem_error`
ended it. -/
structure TaskDir where
  names : List Text
  failed : Bool

/-- The kernel over a state `σ`. -/
structure Kernel (σ : Type) where
  syscall : Syscall → σ → Errno × σ
  taskDir : Pid → σ → TaskDir
  /-- Whether `/proc/<pid>/oom_score_adj` opens for writing. -/
  opensOomScoreAdj : Pid → σ → Bool
  /-- `sched_getattr`; `none` where it fails and the structure keeps its zeros. -/
  schedGetattr : Pid → σ → Option SchedAttr

/-- The kernel and the system bus. -/
structure Platform (σ : Type) extends Kernel σ, ControlGroups.Bus σ

/-- `process_info::is_realtime` -/
def Kernel.isRealtime {σ : Type} (k : Kernel σ) (pid : Pid) (s : σ) : Bool :=
  decide (0 < ((k.schedGetattr pid s).getD {}).schedPriority)

/-! ### What a call may change -/

/-- The attributes of one thread. -/
structure ThreadAttrs where
  nice : Int32
  latencyNice : Int32
  policy : UInt32
  rtPriority : UInt32
  ioPrio : Int32
deriving DecidableEq

/-- The attributes of every thread and process. -/
@[ext]
structure Attributes where
  thread : Pid → ThreadAttrs
  oomScoreAdj : Pid → Int32

namespace Attributes

def withThread (a : Attributes) (tid : Pid) (t : ThreadAttrs) : Attributes :=
  { a with thread := Function.update a.thread tid t }

theorem thread_withThread (a : Attributes) (tid tid' : Pid) (t : ThreadAttrs) :
    (a.withThread tid t).thread tid' = if tid' = tid then t else a.thread tid' :=
  Function.update_apply ..

/-- An update of one thread that keeps an attribute keeps it in every thread. -/
theorem observe_withThread {ρ : Type} (f : ThreadAttrs → ρ) (a : Attributes) {tid : Pid}
    {t : ThreadAttrs} (h : f t = f (a.thread tid)) (tid' : Pid) :
    f ((a.withThread tid t).thread tid') = f (a.thread tid') := by
  rw [thread_withThread]
  split_ifs with htid
  · rw [htid, h]
  · rfl

end Attributes

/-- Whether a call names the realtime priority. -/
def Syscall.namesRtPriority : Syscall → Bool
  | .schedSetscheduler .. => true
  | .schedSetattr _ attr _ => !attr.keepsParams
  | _ => false

/-- What a successful call does to the attributes: it gives the attributes it names some value and
leaves the others. `sched_setscheduler` stores the policy and the priority it is given, and
`sched_setattr` replaces the policy unless it is told to keep it. -/
inductive Syscall.Changes : Syscall → Attributes → Attributes → Prop
  | setpriority (who : UInt32) (prio : Int32) (a : Attributes) (nice : Int32) :
      Changes (.setpriority who prio) a
        (a.withThread who.toInt32 { a.thread who.toInt32 with nice })
  | schedSetattr (pid : Pid) (attr : SchedAttr) (flags : UInt32) (a : Attributes)
      (latencyNice nice : Int32) (rtPriority : UInt32)
      (hnice : attr.keepsParams → nice = (a.thread pid).nice)
      (hrt : attr.keepsParams → rtPriority = (a.thread pid).rtPriority) :
      Changes (.schedSetattr pid attr flags) a
        (a.withThread pid { a.thread pid with
          latencyNice, nice, rtPriority
          policy := if attr.keepsPolicy then (a.thread pid).policy else attr.schedPolicy })
  | schedSetscheduler (pid : Pid) (policy prio : Int32) (a : Attributes) :
      Changes (.schedSetscheduler pid policy prio) a
        (a.withThread pid { a.thread pid with
          policy := policy.toUInt32, rtPriority := prio.toUInt32 })
  | ioprioSet (who : UInt32) (newIoPrio : Int32) (a : Attributes) (ioPrio : Int32) :
      Changes (.ioprioSet who newIoPrio) a
        (a.withThread who.toInt32 { a.thread who.toInt32 with ioPrio })
  | writeOomScoreAdj (pid : Pid) (newValue : Int32) (a : Attributes) (value : Int32) :
      Changes (.writeOomScoreAdj pid newValue) a
        { a with oomScoreAdj := Function.update a.oomScoreAdj pid value }

/-- A platform, seen through the attributes of a state, changes only what its calls name; a failed
call and the bus change nothing. The task directory of a process lists its threads. -/
structure Platform.Lawful {σ : Type} (P : Platform σ) (view : σ → Attributes)
    (tasks : Pid → List Pid) : Prop where
  succeeded : ∀ (call : Syscall) (s : σ), (P.syscall call s).1 = 0 →
    call.Changes (view s) (view (P.syscall call s).2)
  failed : ∀ (call : Syscall) (s : σ), (P.syscall call s).1 ≠ 0 →
    view (P.syscall call s).2 = view s
  connecting : ∀ s : σ, view (P.defaultSystem s).2 = view s
  calling : ∀ (request : ControlGroups.BusRequest) (s : σ),
    view (P.callMethod request s).2 = view s
  listed : ∀ (pid : Pid) (s : σ), ∀ name ∈ (P.taskDir pid s).names,
    0 < Text.toInt32 name → Text.toInt32 name ∈ tasks pid

end AnanicyCpp
