import AnanicyCpp.Library.Text
import Mathlib.Data.List.Infix

/-!
# Control groups

`cgroups.cpp`: slices are created by systemd, so the program only sends two requests over the
system bus, one that sets the CPU quota of a slice and one that puts a process into a transient
scope of a slice. The bus is a parameter with its own state; both connecting and calling report
failure by a negative number.

## Main definitions

* `ControlGroups.Bus`, `ControlGroups.BusRequest` : the bus and the requests sent to it.
* `ControlGroups.setCgroupCpuQuota`, `ControlGroups.addPidToCgroup` : the two operations.
* `ControlGroups.quotaUsec` : the quota in microseconds per second.
-/

namespace AnanicyCpp

/-- A `pid_t`. -/
abbrev Pid := Int32

namespace ControlGroups

inductive CgroupVersion where
  | none
  | v1
  | v2
deriving DecidableEq

/-- The version that `get_cgroup_version` reports, without looking at the system. -/
def getCgroupVersion : CgroupVersion := .v2

/-- `format_slice_name`: append `.slice` to a name that does not contain it. -/
def formatSliceName (name : String) : String :=
  if ".slice".toList <:+: name.toList then name else name ++ ".slice"

/-- The calls of `org.freedesktop.systemd1.Manager`. -/
inductive BusRequest where
  | setUnitProperties (unit : String) (runtime : Bool) (cpuQuotaPerSecUSec : UInt64)
  | startTransientUnit (scope mode : String) (pid : Pid) (slice : String)
deriving DecidableEq

/-- The system bus over a state `σ`. -/
structure Bus (σ : Type) where
  /-- `sd_bus_default_system` -/
  defaultSystem : σ → Int32 × σ
  /-- `sd_bus_call_method` -/
  callMethod : BusRequest → σ → Int32 × σ

/-- `std::clamp` -/
def clamp (v lo hi : UInt32) : UInt32 :=
  if v < lo then lo else if hi < v then hi else v

/-- 100% of a CPU is 1000000 microseconds per second; the quota is clamped to `0..100` first. -/
def quotaUsec (quota : UInt32) : UInt64 :=
  (clamp quota 0 100).toUInt64 * 10000

/-- The request of `set_cgroup_cpu_quota`. -/
def quotaRequest (name : String) (quota : UInt32) : BusRequest :=
  .setUnitProperties (Text.cStr (formatSliceName name)) true (quotaUsec quota)

/-- The request of `add_pid_to_cgroup`. -/
def scopeRequest (pid : Pid) (cgroupName : String) : BusRequest :=
  .startTransientUnit ("ananicy-ng-" ++ toString pid ++ ".scope") "fail" pid
    (Text.cStr (formatSliceName cgroupName))

variable {σ : Type}

/-- Connect to the bus and make one call: `0` when both succeed and `1` otherwise. -/
def send (bus : Bus σ) (request : BusRequest) (s : σ) : Int32 × σ :=
  let (connected, s) := bus.defaultSystem s
  if connected < 0 then (1, s)
  else
    let (called, s) := bus.callMethod request s
    if called < 0 then (1, s) else (0, s)

/-- `set_cgroup_cpu_quota` -/
def setCgroupCpuQuota (bus : Bus σ) (name : String) (quota : UInt32) (s : σ) : Int32 × σ :=
  send bus (quotaRequest name quota) s

/-- `add_pid_to_cgroup` -/
def addPidToCgroup (bus : Bus σ) (pid : Pid) (cgroupName : String) (s : σ) : Int32 × σ :=
  send bus (scopeRequest pid cgroupName) s

end ControlGroups

end AnanicyCpp
