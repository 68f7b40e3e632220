import AnanicyCpp.Rules.Inheritance
import AnanicyCpp.Cgroups
import AnanicyCpp.Config
import AnanicyCpp.Interrupt
import AnanicyCpp.Netlink.Events
import AnanicyCpp.Netlink.Program
import AnanicyCpp.Bpf.Program
import AnanicyCpp.Bpf.Stop
import AnanicyCpp.ProcessQueue
import AnanicyCpp.Queue.Agreement
import AnanicyCpp.Queue.Scan
import AnanicyCpp.Singleton.Name
import AnanicyCpp.Singleton.Shutdown
import AnanicyCpp.Worker.Calls
import AnanicyCpp.Worker.Realtime
import AnanicyCpp.Worker.Frame
import AnanicyCpp.Worker.Numbers
import AnanicyCpp.Rules.Directory
import AnanicyCpp.Singleton.Callback
import AnanicyCpp.Priority.TaskOrder
import AnanicyCpp.ProcessInfo.Command
import AnanicyCpp.ProcessInfo.RoundTrip
import AnanicyCpp.Startup
import AnanicyCpp.Rules.Cut
import AnanicyCpp.Config.Print
import AnanicyCpp.Config.Frequency
import AnanicyCpp.ArgumentParser.Value
import AnanicyCpp.ArgumentParser.Accounting
import AnanicyCpp.ArgumentParser.Flags
import AnanicyCpp.ProcessInfo.Cmdline
import AnanicyCpp.ProcessInfo.Lines
import AnanicyCpp.ProcessInfo.Status
import AnanicyCpp.Cgroups.SliceName
import AnanicyCpp.ProcessInfo.Autogroups
import AnanicyCpp.Worker.Pipeline
import AnanicyCpp.Netlink.Listener
import AnanicyCpp.Daemon
import AnanicyCpp.Bpf.Events
import AnanicyCpp.Queue.Progress
import AnanicyCpp.Worker.Settings
import AnanicyCpp.Daemon.Attributes
import AnanicyCpp.Singleton.Forced
import AnanicyCpp.Worker.Live
import AnanicyCpp.ArgumentParser.Render
import AnanicyCpp.ProcessInfo.History
import AnanicyCpp.Config.Probe
import AnanicyCpp.Cgroups.Quota
import AnanicyCpp.Bpf.Attributes
import AnanicyCpp.Daemon.Files
import AnanicyCpp.Worker.Slices
import AnanicyCpp.Config.Installation
