import AnanicyCpp.Library.Transition
import AnanicyCpp.Netlink.Events
import AnanicyCpp.ProcessInfo.Command

/-!
# Process events of the BPF programs

Two BPF programs are attached to the tracepoints of `exec` and `fork`, and run on every processor.
Each has a static `prev_pid` and `prev_ts`, which all processors share and nothing protects; an
event carries the previous process id next to its own, and `handle_event` of the process queue skips
the events that carry their own twice. A handler reads `prev_pid` in one step and writes it in a
later one, so the handlers on different processors interleave. The events go through one perf buffer
a processor, which the process queue empties in any order; a full buffer loses events.

For any number of processors and any interleaving, the process queue is told exactly the processes
that called `exec` or `fork` themselves, as long as no event is lost: a child that only was forked
is not among them, and no process is suppressed altogether (`Bpf.Events.mem_pushed_iff`). The name
that a process got by its last `exec` is told, unless the handler finds this process in `prev_pid`
while no entry for it is on its way (`Bpf.Events.lastEntry_of_readPid`).

## Main definitions

* `Bpf.Events.Cpu`, `Bpf.Events.World`, `Bpf.Events.step` : the handlers, the buffers and the
  process queue.
* `Bpf.Events.InFlight` : an entry for the process is about to be made.

## Main results

* `Bpf.Events.InFlight.step_of_kept` : an entry on its way arrives.
* `Bpf.Events.mem_pushed_iff` : the processes that are told.
* `Bpf.Events.lastEntry_of_readPid` : the last entry of a process.
-/

namespace AnanicyCpp

namespace Bpf

namespace Events

/-! ### The handlers -/

/-- The two programs of `ananicy_cpp_ng.bpf.c`, each with its own statics. -/
inductive Program where
  | exec
  | fork
deriving DecidableEq

/-- `struct event`, without the name of the task, which the process queue does not look at. -/
structure Event where
  pid : Pid
  prevPid : Pid
  deltaUs : UInt64
deriving DecidableEq

/-- Where a processor stands in `handle_event` of the BPF program: outside, behind the lookup of the
buffer on the heap, behind the clock and `prev_ts`, behind `prev_pid`, behind the two assignments to
the statics, the event being complete. The heap has one event a processor. -/
inductive Cpu where
  | idle
  | started (program : Program) (pid : Pid)
  | timed (program : Program) (pid : Pid) (ts : UInt64) (deltaUs : UInt64)
  | filled (program : Program) (ts : UInt64) (event : Event)
  | wrotePid (program : Program) (ts : UInt64) (event : Event)
  | ready (event : Event)
deriving DecidableEq

/-- The event of a processor, from the moment on at which it carries the previous process id. -/
def Cpu.event : Cpu → Option Event
  | .filled _ _ event | .wrotePid _ _ event | .ready event => some event
  | _ => none

/-- The process for which a handler runs that has not read `prev_pid` yet. -/
def Cpu.awaits : Cpu → Option Pid
  | .started _ pid | .timed _ pid _ _ => some pid
  | _ => none

/-- An entry of the process queue in this build. -/
structure Entry where
  deltaUs : UInt64
  process : Process
deriving DecidableEq

/-- The processes, the statics of the programs, the processors with their perf buffers, and the
process queue between the filter and the push. -/
structure World (κ : Type*) where
  names : Pid → String
  prevPid : Program → Pid
  prevTs : Program → UInt64
  cpu : κ → Cpu
  buffer : κ → List Event
  reading : Option Event
  pushed : List Entry

/-- `handle_event` of the process queue skips the event. -/
def Event.suppressed (event : Event) : Bool :=
  event.pid = 0 || event.pid = event.prevPid

/-- The name that `handle_event` gives an entry. -/
def eventName (command : String) : String :=
  String.ofList (ProcessInfo.windowsName command.toList)

inductive Act (κ : Type*) where
  | exec (c : κ) (pid : Pid) (name : String)
  | fork (c : κ) (parent child : Pid)
  | readTs (c : κ) (ts : UInt64)
  | readPid (c : κ)
  | writePid (c : κ)
  | writeTs (c : κ)
  | output (c : κ) (kept : Bool)
  | receive (c : κ)
  | push
deriving DecidableEq

variable {κ : Type*} [DecidableEq κ]

def World.setCpu (w : World κ) (c : κ) (cpu : Cpu) : World κ :=
  { w with cpu := Function.update w.cpu c cpu }

@[simp]
theorem cpu_setCpu_self (w : World κ) (c : κ) (cpu : Cpu) : (w.setCpu c cpu).cpu c = cpu :=
  Function.update_self ..

theorem cpu_setCpu_of_ne (w : World κ) {c d : κ} (h : d ≠ c) (cpu : Cpu) :
    (w.setCpu c cpu).cpu d = w.cpu d :=
  Function.update_of_ne h ..

/-- A step. Both handlers take the process that runs on the processor, which for `fork` is the
parent. -/
def step (w : World κ) : Act κ → Option (World κ)
  | .exec c pid name =>
      match w.cpu c with
      | .idle => some { w.setCpu c (.started .exec pid) with
          names := Function.update w.names pid name }
      | _ => none
  | .fork c parent child =>
      match w.cpu c with
      | .idle => some { w.setCpu c (.started .fork parent) with
          names := Function.update w.names child (w.names parent) }
      | _ => none
  | .readTs c ts =>
      match w.cpu c with
      | .started program pid =>
          some (w.setCpu c (.timed program pid ts ((ts - w.prevTs program) / 1000)))
      | _ => none
  | .readPid c =>
      match w.cpu c with
      | .timed program pid ts deltaUs =>
          some (w.setCpu c (.filled program ts ⟨pid, w.prevPid program, deltaUs⟩))
      | _ => none
  | .writePid c =>
      match w.cpu c with
      | .filled program ts event => some { w.setCpu c (.wrotePid program ts event) with
          prevPid := Function.update w.prevPid program event.pid }
      | _ => none
  | .writeTs c =>
      match w.cpu c with
      | .wrotePid program ts event => some { w.setCpu c (.ready event) with
          prevTs := Function.update w.prevTs program ts }
      | _ => none
  | .output c kept =>
      match w.cpu c with
      | .ready event => some { w.setCpu c .idle with
          buffer := if kept then Function.update w.buffer c (w.buffer c ++ [event])
                    else w.buffer }
      | _ => none
  | .receive c =>
      match w.reading, w.buffer c with
      | none, event :: rest => some { w with
          buffer := Function.update w.buffer c rest
          reading := if event.suppressed then none else some event }
      | _, _ => none
  | .push =>
      match w.reading with
      | some event => some { w with
          reading := none
          pushed := w.pushed ++ [⟨event.deltaUs, ⟨event.pid, eventName (w.names event.pid)⟩⟩] }
      | none => none

/-- Nothing has happened yet. -/
def World.start (names : Pid → String) : World κ :=
  ⟨names, fun _ => 0, fun _ => 0, fun _ => .idle, fun _ => [], none, []⟩

/-! ### What a step does -/

/-- The steps with what they find and what they do. -/
inductive Step : World κ → Act κ → World κ → Prop
  | exec {w c pid name} (hcpu : w.cpu c = .idle) :
      Step w (.exec c pid name) { w.setCpu c (.started .exec pid) with
        names := Function.update w.names pid name }
  | fork {w c parent child} (hcpu : w.cpu c = .idle) :
      Step w (.fork c parent child) { w.setCpu c (.started .fork parent) with
        names := Function.update w.names child (w.names parent) }
  | readTs {w c ts program pid} (hcpu : w.cpu c = .started program pid) :
      Step w (.readTs c ts)
        (w.setCpu c (.timed program pid ts ((ts - w.prevTs program) / 1000)))
  | readPid {w c program pid ts deltaUs} (hcpu : w.cpu c = .timed program pid ts deltaUs) :
      Step w (.readPid c) (w.setCpu c (.filled program ts ⟨pid, w.prevPid program, deltaUs⟩))
  | writePid {w c program ts event} (hcpu : w.cpu c = .filled program ts event) :
      Step w (.writePid c) { w.setCpu c (.wrotePid program ts event) with
        prevPid := Function.update w.prevPid program event.pid }
  | writeTs {w c program ts event} (hcpu : w.cpu c = .wrotePid program ts event) :
      Step w (.writeTs c) { w.setCpu c (.ready event) with
        prevTs := Function.update w.prevTs program ts }
  | output {w c kept event} (hcpu : w.cpu c = .ready event) :
      Step w (.output c kept) { w.setCpu c .idle with
        buffer := if kept then Function.update w.buffer c (w.buffer c ++ [event]) else w.buffer }
  | receive {w c event rest} (hreading : w.reading = none) (hbuffer : w.buffer c = event :: rest) :
      Step w (.receive c) { w with
        buffer := Function.update w.buffer c rest
        reading := if event.suppressed then none else some event }
  | push {w event} (hreading : w.reading = some event) :
      Step w .push { w with
        reading := none
        pushed := w.pushed ++ [⟨event.deltaUs, ⟨event.pid, eventName (w.names event.pid)⟩⟩] }

variable {w w' : World κ} {pid : Pid} {name : String}

theorem step_spec {a : Act κ} (h : step w a = some w') : Step w a w' := by
  revert h
  fun_cases step w a with
  | case1 c pid name hcpu => rintro ⟨⟩; exact .exec hcpu
  | case3 c parent child hcpu => rintro ⟨⟩; exact .fork hcpu
  | case5 c ts program pid hcpu => rintro ⟨⟩; exact .readTs hcpu
  | case7 c program pid ts deltaUs hcpu => rintro ⟨⟩; exact .readPid hcpu
  | case9 c program ts event hcpu => rintro ⟨⟩; exact .writePid hcpu
  | case11 c program ts event hcpu => rintro ⟨⟩; exact .writeTs hcpu
  | case13 c kept event hcpu => rintro ⟨⟩; exact .output hcpu
  | case15 c event rest hbuffer hreading => rintro ⟨⟩; exact .receive hreading hbuffer
  | case17 event hreading => rintro ⟨⟩; exact .push hreading
  | _ => rintro ⟨⟩

/-! ### An entry on its way -/

/-- The event is of the process, and is not skipped. -/
def Event.Tells (pid : Pid) (event : Event) : Prop := event.pid = pid ∧ event.prevPid ≠ pid

/-- An entry for the process is about to be made: the name is to be read, or an event that is not
skipped waits in a buffer or is in the hands of a processor. -/
def InFlight (w : World κ) (pid : Pid) : Prop :=
  (∃ event, w.reading = some event ∧ event.pid = pid) ∨
    (∃ c, ∃ event ∈ w.buffer c, event.Tells pid) ∨
    ∃ c event, (w.cpu c).event = some event ∧ event.Tells pid

/-- The buffer has room for the event. -/
def Act.Keeps : Act κ → Prop
  | .output _ kept => kept = true
  | _ => True

/-- A processor that goes on with its event, or has none that tells the process, leaves an entry on
its way. -/
theorem inFlight_setCpu (h : InFlight w pid) (c : κ) {cpu : Cpu}
    (hcpu : ∀ event, (w.cpu c).event = some event → event.Tells pid → cpu.event = some event) :
    InFlight (w.setCpu c cpu) pid := by
  refine h.imp_right (.imp_right ?_)
  rintro ⟨d, event, hevent, htells⟩
  refine ⟨d, event, ?_, htells⟩
  by_cases hdc : d = c
  · subst hdc
    rw [cpu_setCpu_self]
    exact hcpu event hevent htells
  · rwa [cpu_setCpu_of_ne w hdc]

/-- A complete event goes to the buffer of its processor. -/
theorem inFlight_output (h : InFlight w pid) {c : κ} {event : Event}
    (hcpu : w.cpu c = .ready event) :
    InFlight { w.setCpu c .idle with
      buffer := Function.update w.buffer c (w.buffer c ++ [event]) } pid := by
  have hbuffer (d : κ) {e : Event} (he : e ∈ w.buffer d) :
      e ∈ Function.update w.buffer c (w.buffer c ++ [event]) d := by
    by_cases hdc : d = c
    · subst hdc
      rw [Function.update_self]
      exact List.mem_append_left _ he
    · rwa [Function.update_of_ne hdc]
  rcases h with hreading | ⟨d, e, he, htells⟩ | ⟨d, e, he, htells⟩
  · exact .inl hreading
  · exact .inr (.inl ⟨d, e, hbuffer d he, htells⟩)
  · by_cases hdc : d = c
    · subst hdc
      rw [hcpu] at he
      obtain rfl : event = e := Option.some.inj he
      refine .inr (.inl ⟨d, event, ?_, htells⟩)
      show event ∈ Function.update w.buffer d (w.buffer d ++ [event]) d
      rw [Function.update_self]
      exact List.mem_append_right _ (List.mem_singleton.mpr rfl)
    · refine .inr (.inr ⟨d, e, ?_, htells⟩)
      exact (congrArg Cpu.event (Function.update_of_ne hdc ..)).trans he

/-- An event that is received is skipped, or its name is read next. -/
theorem inFlight_receive (h : InFlight w pid) (hpid : pid ≠ 0) (hreading : w.reading = none) {c : κ}
    {event : Event} {rest : List Event} (hbuffer : w.buffer c = event :: rest) :
    InFlight { w with
      buffer := Function.update w.buffer c rest
      reading := if event.suppressed then none else some event } pid := by
  rcases h with ⟨e, he, -⟩ | ⟨d, e, he, htells⟩ | hcpu
  · rw [hreading] at he
    cases he
  · by_cases hdc : d = c
    · subst hdc
      rw [hbuffer] at he
      rcases List.mem_cons.mp he with rfl | he
      · have hshown : e.suppressed = false := by
          simp [Event.suppressed, htells.1, hpid, Ne.symm htells.2]
        refine .inl ⟨e, ?_, htells.1⟩
        rw [hshown]
        rfl
      · refine .inr (.inl ⟨d, e, ?_, htells⟩)
        show e ∈ Function.update w.buffer d rest d
        rwa [Function.update_self]
    · refine .inr (.inl ⟨d, e, ?_, htells⟩)
      show e ∈ Function.update w.buffer c rest d
      rwa [Function.update_of_ne hdc]
  · exact .inr (.inr hcpu)

/-- **The step lemma.** An entry on its way stays on its way, or is pushed with the name that the
process has then, unless its event is lost. -/
theorem InFlight.step_of_kept {a : Act κ} (h : InFlight w pid) (hpid : pid ≠ 0)
    (hkept : ∀ c event, a = .output c false → w.cpu c = .ready event → ¬event.Tells pid)
    (hstep : Events.step w a = some w') :
    InFlight w' pid ∨
      ∃ deltaUs, w'.pushed = w.pushed ++ [⟨deltaUs, ⟨pid, eventName (w.names pid)⟩⟩] := by
  cases step_spec hstep with
  | exec hcpu => exact .inl (inFlight_setCpu h _ (by simp [hcpu, Cpu.event]))
  | fork hcpu => exact .inl (inFlight_setCpu h _ (by simp [hcpu, Cpu.event]))
  | readTs hcpu => exact .inl (inFlight_setCpu h _ (by simp [hcpu, Cpu.event]))
  | readPid hcpu => exact .inl (inFlight_setCpu h _ (by simp [hcpu, Cpu.event]))
  | writePid hcpu => exact .inl (inFlight_setCpu h _ (by simp [hcpu, Cpu.event]))
  | writeTs hcpu => exact .inl (inFlight_setCpu h _ (by simp [hcpu, Cpu.event]))
  | @output c kept event hcpu =>
    cases kept with
    | true => exact .inl (inFlight_output h hcpu)
    | false =>
      have hnot : ¬event.Tells pid := hkept c event rfl hcpu
      refine .inl (inFlight_setCpu h c fun e he htells => absurd htells ?_)
      rw [hcpu] at he
      exact Option.some.inj he ▸ hnot
  | receive hreading hbuffer => exact .inl (inFlight_receive h hpid hreading hbuffer)
  | @push event hreading =>
    rcases h with ⟨e, he, hown⟩ | h
    · obtain rfl : event = e := Option.some.inj (hreading.symm.trans he)
      exact .inr ⟨event.deltaUs, by rw [hown]⟩
    · exact .inl (.inr h)

/-- The step lemma when no event is lost. -/
theorem InFlight.step {a : Act κ} (h : InFlight w pid) (hpid : pid ≠ 0) (hkeeps : a.Keeps)
    (hstep : Events.step w a = some w') :
    InFlight w' pid ∨
      ∃ deltaUs, w'.pushed = w.pushed ++ [⟨deltaUs, ⟨pid, eventName (w.names pid)⟩⟩] := by
  refine h.step_of_kept hpid ?_ hstep
  rintro c event rfl
  cases hkeeps

theorem pushed_step {a : Act κ} (h : step w a = some w') : w.pushed <+: w'.pushed := by
  cases step_spec h with
  | push => exact List.prefix_append _ _
  | _ => exact List.prefix_rfl

/-! ### Where events come from -/

theorem event_setCpu {c d : κ} {cpu : Cpu} {event : Event}
    (h : ((w.setCpu c cpu).cpu d).event = some event) :
    (w.cpu d).event = some event ∨ d = c ∧ cpu.event = some event := by
  by_cases hdc : d = c
  · subst hdc
    exact .inr ⟨rfl, by rwa [cpu_setCpu_self] at h⟩
  · exact .inl (by rwa [cpu_setCpu_of_ne w hdc] at h)

theorem awaits_setCpu {c d : κ} {cpu : Cpu} (h : ((w.setCpu c cpu).cpu d).awaits = some pid) :
    (w.cpu d).awaits = some pid ∨ d = c ∧ cpu.awaits = some pid := by
  by_cases hdc : d = c
  · subst hdc
    exact .inr ⟨rfl, by rwa [cpu_setCpu_self] at h⟩
  · exact .inl (by rwa [cpu_setCpu_of_ne w hdc] at h)

/-- An event was there before, or has just got the previous process id. -/
theorem event_of_step {a : Act κ} (h : step w a = some w') {d : κ} {event : Event}
    (hevent : (w'.cpu d).event = some event) : (w.cpu d).event = some event ∨
      a = .readPid d ∧ ∃ program ts, w.cpu d = .timed program event.pid ts event.deltaUs ∧
        event.prevPid = w.prevPid program := by
  cases step_spec h with
  | exec hcpu => exact (event_setCpu hevent).imp_right fun h => nomatch h.2
  | fork hcpu => exact (event_setCpu hevent).imp_right fun h => nomatch h.2
  | readTs hcpu => exact (event_setCpu hevent).imp_right fun h => nomatch h.2
  | @readPid c program pid ts deltaUs hcpu =>
    refine (event_setCpu hevent).imp_right ?_
    rintro ⟨rfl, hnew⟩
    obtain rfl := Option.some.inj hnew
    exact ⟨rfl, program, ts, hcpu, rfl⟩
  | writePid hcpu =>
    rcases event_setCpu hevent with hbefore | ⟨rfl, hnew⟩
    · exact .inl hbefore
    · exact .inl (hcpu ▸ hnew)
  | writeTs hcpu =>
    rcases event_setCpu hevent with hbefore | ⟨rfl, hnew⟩
    · exact .inl hbefore
    · exact .inl (hcpu ▸ hnew)
  | output hcpu => exact (event_setCpu hevent).imp_right fun h => nomatch h.2
  | receive => exact .inl hevent
  | push => exact .inl hevent

/-- The step is the start of a handler for the process. -/
def Act.Enters (pid : Pid) : Act κ → Prop
  | .exec _ pid' _ => pid' = pid
  | .fork _ parent _ => parent = pid
  | _ => False

/-- A handler in front of `prev_pid` was there before, or has just started. -/
theorem awaits_of_step {a : Act κ} (h : step w a = some w') {d : κ}
    (hawaits : (w'.cpu d).awaits = some pid) :
    (w.cpu d).awaits = some pid ∨ a.Enters pid := by
  cases step_spec h with
  | exec hcpu => exact (awaits_setCpu hawaits).imp_right fun h => Option.some.inj h.2
  | fork hcpu => exact (awaits_setCpu hawaits).imp_right fun h => Option.some.inj h.2
  | readTs hcpu =>
    rcases awaits_setCpu hawaits with hbefore | ⟨rfl, hnew⟩
    · exact .inl hbefore
    · exact .inl (hcpu ▸ hnew)
  | readPid hcpu => exact (awaits_setCpu hawaits).imp_right fun h => nomatch h.2
  | writePid hcpu => exact (awaits_setCpu hawaits).imp_right fun h => nomatch h.2
  | writeTs hcpu => exact (awaits_setCpu hawaits).imp_right fun h => nomatch h.2
  | output hcpu => exact (awaits_setCpu hawaits).imp_right fun h => nomatch h.2
  | receive => exact .inl hawaits
  | push => exact .inl hawaits

/-- A static is unchanged, or takes the process id of an event. -/
theorem prevPid_of_step {a : Act κ} (h : step w a = some w') (program : Program) :
    w'.prevPid program = w.prevPid program ∨
      ∃ c event, (w.cpu c).event = some event ∧ w'.prevPid program = event.pid := by
  cases step_spec h with
  | @writePid c program' ts event hcpu =>
    by_cases hprogram : program = program'
    · subst hprogram
      exact .inr ⟨c, event, hcpu ▸ rfl, Function.update_self ..⟩
    · exact .inl (Function.update_of_ne hprogram ..)
  | _ => exact .inl rfl

/-! ### The processes that are told -/

/-- There is an entry for the process, or one is on its way. -/
def Told (w : World κ) (pid : Pid) : Prop :=
  (∃ entry ∈ w.pushed, entry.process.pid = pid) ∨ InFlight w pid

theorem Told.step {a : Act κ} (h : Told w pid) (hpid : pid ≠ 0) (hkeeps : a.Keeps)
    (hstep : Events.step w a = some w') : Told w' pid := by
  rcases h with ⟨entry, hentry, hown⟩ | h
  · exact .inl ⟨entry, (pushed_step hstep).subset hentry, hown⟩
  · rcases h.step hpid hkeeps hstep with h | ⟨deltaUs, hpushed⟩
    · exact .inr h
    · exact .inl ⟨_, hpushed ▸ List.mem_append_right _ (List.mem_singleton.mpr rfl), rfl⟩

/-- The statics and the events carry the process only when it is told. -/
structure Known (w : World κ) (pid : Pid) : Prop where
  statics : ∀ program, w.prevPid program = pid → Told w pid
  events : ∀ c event, (w.cpu c).event = some event → event.pid = pid → Told w pid

/-- An event that has just got the previous process id tells the process, unless the process is told
already. -/
theorem Known.readPid {a : Act κ} (h : Known w pid) (hpid : pid ≠ 0) (hkeeps : a.Keeps)
    (hstep : Events.step w a = some w') {c : κ} {event : Event}
    (hevent : (w'.cpu c).event = some event) (hown : event.pid = pid) : Told w' pid := by
  rcases event_of_step hstep hevent with hbefore | ⟨-, program, ts, -, hprev⟩
  · exact (h.events c event hbefore hown).step hpid hkeeps hstep
  · by_cases hsame : w.prevPid program = pid
    · exact (h.statics program hsame).step hpid hkeeps hstep
    · exact .inr (.inr (.inr ⟨c, event, hevent, hown, hprev ▸ hsame⟩))

theorem Known.step {a : Act κ} (h : Known w pid) (hpid : pid ≠ 0) (hkeeps : a.Keeps)
    (hstep : Events.step w a = some w') : Known w' pid where
  statics program hprogram := by
    rcases prevPid_of_step hstep program with hsame | ⟨c, event, hevent, hwritten⟩
    · exact (h.statics program (hsame.symm.trans hprogram)).step hpid hkeeps hstep
    · exact (h.events c event hevent (hwritten.symm.trans hprogram)).step hpid hkeeps hstep
  events _ _ hevent hown := h.readPid hpid hkeeps hstep hevent hown

/-- A handler in front of `prev_pid` is there after the step, too, or has just read it. -/
theorem awaits_or_event {a : Act κ} (h : step w a = some w') {d : κ}
    (hawaits : (w.cpu d).awaits = some pid) : (w'.cpu d).awaits = some pid ∨
      ∃ event, (w'.cpu d).event = some event ∧ event.pid = pid := by
  have hother {c : κ} {cpu : Cpu} (hdc : d ≠ c) : ((w.setCpu c cpu).cpu d).awaits = some pid := by
    rwa [cpu_setCpu_of_ne w hdc]
  cases step_spec h with
  | @exec c _ _ hcpu =>
    by_cases hdc : d = c
    · rw [hdc, hcpu] at hawaits
      cases hawaits
    · exact .inl (hother hdc)
  | @fork c _ _ hcpu =>
    by_cases hdc : d = c
    · rw [hdc, hcpu] at hawaits
      cases hawaits
    · exact .inl (hother hdc)
  | @readTs c _ _ _ hcpu =>
    by_cases hdc : d = c
    · subst hdc
      rw [hcpu] at hawaits
      exact .inl (cpu_setCpu_self w d _ ▸ hawaits)
    · exact .inl (hother hdc)
  | @readPid c _ _ _ _ hcpu =>
    by_cases hdc : d = c
    · subst hdc
      rw [hcpu] at hawaits
      exact .inr ⟨_, congrArg Cpu.event (cpu_setCpu_self ..), Option.some.inj hawaits⟩
    · exact .inl (hother hdc)
  | @writePid c _ _ _ hcpu =>
    by_cases hdc : d = c
    · rw [hdc, hcpu] at hawaits
      cases hawaits
    · exact .inl (hother hdc)
  | @writeTs c _ _ _ hcpu =>
    by_cases hdc : d = c
    · rw [hdc, hcpu] at hawaits
      cases hawaits
    · exact .inl (hother hdc)
  | @output c _ _ hcpu =>
    by_cases hdc : d = c
    · rw [hdc, hcpu] at hawaits
      cases hawaits
    · exact .inl (hother hdc)
  | receive => exact .inl hawaits
  | push => exact .inl hawaits

/-- A process whose handler has started is told at the latest when the handler has read
`prev_pid`. -/
def Entered (w : World κ) (pid : Pid) : Prop := Told w pid ∨ ∃ c, (w.cpu c).awaits = some pid

theorem Entered.step {a : Act κ} (h : Entered w pid) (hknown : Known w pid) (hpid : pid ≠ 0)
    (hkeeps : a.Keeps) (hstep : Events.step w a = some w') : Entered w' pid := by
  rcases h with h | ⟨c, hc⟩
  · exact .inl (h.step hpid hkeeps hstep)
  · rcases awaits_or_event hstep hc with hc | ⟨event, hevent, hown⟩
    · exact .inr ⟨c, hc⟩
    · exact .inl (hknown.readPid hpid hkeeps hstep hevent hown)

theorem entered_of_enters {a : Act κ} (ha : a.Enters pid) (hstep : step w a = some w') :
    Entered w' pid := by
  cases step_spec hstep with
  | @exec c pid' _ _ =>
    obtain rfl : pid' = pid := ha
    exact .inr ⟨c, congrArg Cpu.awaits (cpu_setCpu_self ..)⟩
  | @fork c parent _ _ =>
    obtain rfl : parent = pid := ha
    exact .inr ⟨c, congrArg Cpu.awaits (cpu_setCpu_self ..)⟩
  | _ => exact ha.elim

theorem mem_buffer_output {buffer : κ → List Event} {c d : κ} {kept : Bool} {e event : Event}
    (h : e ∈ (if kept then Function.update buffer c (buffer c ++ [event]) else buffer) d) :
    e ∈ buffer d ∨ d = c ∧ e = event := by
  split_ifs at h
  · by_cases hdc : d = c
    · subst hdc
      rw [Function.update_self] at h
      exact (List.mem_append.mp h).imp_right fun h => ⟨rfl, List.mem_singleton.mp h⟩
    · rw [Function.update_of_ne hdc] at h
      exact .inl h
  · exact .inl h

theorem mem_buffer_receive {buffer : κ → List Event} {c d : κ} {e event : Event}
    {rest : List Event} (hbuffer : buffer c = event :: rest)
    (h : e ∈ Function.update buffer c rest d) : e ∈ buffer d := by
  by_cases hdc : d = c
  · subst hdc
    rw [Function.update_self] at h
    exact hbuffer ▸ List.mem_cons_of_mem event h
  · rwa [Function.update_of_ne hdc] at h

/-- Everything about a process comes from handlers of which `P` holds. -/
structure OnlyFrom (P : Pid → Prop) (w : World κ) : Prop where
  awaits : ∀ c pid, (w.cpu c).awaits = some pid → P pid
  events : ∀ c event, (w.cpu c).event = some event → P event.pid
  buffer : ∀ c, ∀ event ∈ w.buffer c, P event.pid
  reading : ∀ event, w.reading = some event → P event.pid
  pushed : ∀ entry ∈ w.pushed, P entry.process.pid

theorem OnlyFrom.step {P : Pid → Prop} {a : Act κ} (h : OnlyFrom P w)
    (ha : ∀ pid, a.Enters pid → P pid) (hstep : Events.step w a = some w') : OnlyFrom P w' := by
  have hawaits (c : κ) (pid : Pid) (hc : (w'.cpu c).awaits = some pid) : P pid :=
    (awaits_of_step hstep hc).elim (h.awaits c pid) (ha pid)
  have hevents (c : κ) (event : Event) (hc : (w'.cpu c).event = some event) : P event.pid := by
    rcases event_of_step hstep hc with hbefore | ⟨-, program, ts, hcpu, -⟩
    · exact h.events c event hbefore
    · exact h.awaits c event.pid (hcpu ▸ rfl)
  cases step_spec hstep with
  | @output c kept event hcpu =>
    refine ⟨hawaits, hevents, fun d e he => ?_, h.reading, h.pushed⟩
    rcases mem_buffer_output he with he | ⟨-, rfl⟩
    · exact h.buffer d e he
    · exact h.events c e (hcpu ▸ rfl)
  | @receive c event rest hreading hbuffer =>
    have hrest (d : κ) (e : Event) (he : e ∈ Function.update w.buffer c rest d) : P e.pid :=
      h.buffer d e (mem_buffer_receive hbuffer he)
    refine ⟨hawaits, hevents, hrest, fun e he => ?_, h.pushed⟩
    obtain ⟨-, he⟩ := Option.ite_none_left_eq_some.mp he
    obtain rfl := Option.some.inj he
    exact h.buffer c event (hbuffer ▸ List.mem_cons_self)
  | @push event hreading =>
    refine ⟨hawaits, hevents, h.buffer, nofun, fun entry hentry => ?_⟩
    rcases List.mem_append.mp hentry with hentry | hentry
    · exact h.pushed entry hentry
    · obtain rfl := List.mem_singleton.mp hentry
      exact h.reading event hreading
  | _ => exact ⟨hawaits, hevents, h.buffer, h.reading, h.pushed⟩

/-- Every handler has ended, and every event that was sent has been handled. -/
structure Settled (w : World κ) : Prop where
  cpu : ∀ c, w.cpu c = .idle
  buffer : ∀ c, w.buffer c = []
  reading : w.reading = none

omit [DecidableEq κ] in
theorem not_inFlight_of_settled (h : Settled w) : ¬InFlight w pid := by
  rintro (⟨event, hevent, -⟩ | ⟨c, event, hevent, -⟩ | ⟨c, event, hevent, -⟩)
  · rw [h.reading] at hevent
    cases hevent
  · rw [h.buffer c] at hevent
    cases hevent
  · rw [h.cpu c] at hevent
    cases hevent

omit [DecidableEq κ] in
theorem known_start (names : Pid → String) (hpid : pid ≠ 0) :
    Known (World.start names : World κ) pid :=
  ⟨fun _ hprogram => absurd hprogram.symm hpid, nofun⟩

/-- **The processes that are told.** In every run of the two programs on any number of processors in
which no event is lost, when all is handled, there are entries for exactly the processes for which a
handler ran: those that called `exec`, and the parents that called `fork`. -/
theorem mem_pushed_iff {names : Pid → String} {acts : List (Act κ)}
    (hrun : Transition.run step (.start names) acts = some w) (hkeeps : ∀ a ∈ acts, a.Keeps)
    (hsettled : Settled w) (hpid : pid ≠ 0) :
    (∃ entry ∈ w.pushed, entry.process.pid = pid) ↔ ∃ a ∈ acts, a.Enters pid := by
  constructor
  · rintro ⟨entry, hentry, rfl⟩
    have honly : OnlyFrom (fun pid => ∃ a ∈ acts, a.Enters pid) w := by
      refine Transition.run_invariant (OnlyFrom _)
        (fun s a ha t hs h => hs.step (fun pid hpid => ⟨a, ha, hpid⟩) h) ?_ hrun
      exact ⟨nofun, nofun, nofun, nofun, nofun⟩
    exact honly.pushed entry hentry
  · rintro ⟨a, ha, henters⟩
    obtain ⟨before, after, rfl⟩ := List.append_of_mem ha
    obtain ⟨s, t, hbefore, hstep, hafter⟩ := Transition.run_append_cons_eq_some_iff.mp hrun
    have hs : Known s pid := Transition.run_invariant (Known · pid)
      (fun _ b hb _ hs h => hs.step hpid (hkeeps b (List.mem_append_left _ hb)) h)
      (known_start names hpid) hbefore
    have ht : Known t pid ∧ Entered t pid :=
      ⟨hs.step hpid (hkeeps a ha) hstep, entered_of_enters henters hstep⟩
    have hw : Known w pid ∧ Entered w pid := by
      refine Transition.run_invariant (fun w => Known w pid ∧ Entered w pid)
        (fun _ b hb _ hs h => ?_) ht hafter
      have hb := hkeeps b (List.mem_append_right _ (List.mem_cons_of_mem a hb))
      exact ⟨hs.1.step hpid hb h, hs.2.step hs.1 hpid hb h⟩
    rcases hw.2 with (hentry | hflight) | ⟨c, hc⟩
    · exact hentry
    · exact absurd hflight (not_inFlight_of_settled hsettled)
    · rw [hsettled.cpu c] at hc
      cases hc

/-! ### The last entry -/

/-- What the process queue was told, oldest first. -/
def World.processes (w : World κ) : List Process := w.pushed.map Entry.process

/-- The step names the process, or starts a handler for it. -/
def Act.Concerns (pid : Pid) : Act κ → Prop
  | .exec _ pid' _ => pid' = pid
  | .fork _ parent child => parent = pid ∨ child = pid
  | _ => False

theorem names_of_step {a : Act κ} (h : step w a = some w') (ha : ¬a.Concerns pid) :
    w'.names pid = w.names pid := by
  cases step_spec h with
  | exec => exact Function.update_of_ne (Ne.symm ha) ..
  | fork => exact Function.update_of_ne (Ne.symm (not_or.mp ha).2) ..
  | _ => rfl

/-- What is pushed to the queue in a step. -/
theorem processes_of_step {a : Act κ} (h : step w a = some w') : w'.processes = w.processes ∨
    ∃ event, w.reading = some event ∧
      w'.processes = w.processes ++ [⟨event.pid, eventName (w.names event.pid)⟩] := by
  cases step_spec h with
  | @push event hreading => exact .inr ⟨event, hreading, List.map_append⟩
  | _ => exact .inl rfl

/-- The process has the name, and the entry with it is there or on its way. -/
structure Upcoming (w : World κ) (pid : Pid) (name : String) : Prop where
  named : w.names pid = name
  entry : Netlink.lastEntry pid w.processes = some ⟨pid, eventName name⟩ ∨ InFlight w pid

theorem Upcoming.step {a : Act κ} (h : Upcoming w pid name) (hpid : pid ≠ 0) (hkeeps : a.Keeps)
    (ha : ¬a.Concerns pid) (hstep : Events.step w a = some w') : Upcoming w' pid name := by
  obtain ⟨hname, hentry⟩ := h
  refine ⟨(names_of_step hstep ha).trans hname, ?_⟩
  rcases hentry with hlast | hflight
  · rcases processes_of_step hstep with hsame | ⟨event, -, hpushed⟩
    · exact .inl (hsame ▸ hlast)
    · rw [hpushed]
      by_cases hown : event.pid = pid
      · rw [hown, hname]
        exact .inl (Netlink.lastEntry_append_self pid _ _)
      · exact .inl ((Netlink.lastEntry_append_of_ne hown _ _).trans hlast)
  · rcases hflight.step hpid hkeeps hstep with hflight | ⟨deltaUs, hpushed⟩
    · exact .inr hflight
    · refine .inl ?_
      rw [World.processes, hpushed, List.map_append, ← hname]
      exact Netlink.lastEntry_append_self pid _ _

/-- No entry for the process is on its way, and no handler for it has to read `prev_pid`. -/
structure Mute (w : World κ) (pid : Pid) : Prop where
  inFlight : ¬InFlight w pid
  awaits : ∀ c, (w.cpu c).awaits ≠ some pid

/-- An entry on its way was on its way before, or comes from a handler that has just read
`prev_pid`. -/
theorem inFlight_of_step {a : Act κ} (h : step w a = some w') (hflight : InFlight w' pid) :
    InFlight w pid ∨ ∃ c program ts deltaUs, a = .readPid c ∧
      w.cpu c = .timed program pid ts deltaUs ∧ w.prevPid program ≠ pid := by
  have hcpu (hc : ∃ c event, (w'.cpu c).event = some event ∧ event.Tells pid) :
      InFlight w pid ∨ ∃ c program ts deltaUs, a = .readPid c ∧
        w.cpu c = .timed program pid ts deltaUs ∧ w.prevPid program ≠ pid := by
    obtain ⟨c, event, hevent, hown, hprev⟩ := hc
    rcases event_of_step h hevent with hbefore | ⟨ha, program, ts, hcpu, hread⟩
    · exact .inl (.inr (.inr ⟨c, event, hbefore, hown, hprev⟩))
    · exact .inr ⟨c, program, ts, event.deltaUs, ha, hown ▸ hcpu, hread ▸ hprev⟩
  rcases hflight with hreading | hbuffer | hc
  · cases step_spec h with
    | @receive c event rest _ hbuffer =>
      obtain ⟨e, he, hown⟩ := hreading
      obtain ⟨hshown, he⟩ := Option.ite_none_left_eq_some.mp he
      obtain rfl := Option.some.inj he
      refine .inl (.inr (.inl ⟨c, event, hbuffer ▸ List.mem_cons_self, hown, ?_⟩))
      rintro hprev
      simp [Event.suppressed, hown, hprev] at hshown
    | push =>
      obtain ⟨e, he, -⟩ := hreading
      cases he
    | _ => exact .inl (.inl hreading)
  · obtain ⟨d, e, he, htells⟩ := hbuffer
    cases step_spec h with
    | @output c kept event hready =>
      rcases mem_buffer_output he with he | ⟨-, rfl⟩
      · exact .inl (.inr (.inl ⟨d, e, he, htells⟩))
      · exact .inl (.inr (.inr ⟨c, e, hready ▸ rfl, htells⟩))
    | receive _ hbuffer =>
      exact .inl (.inr (.inl ⟨d, e, mem_buffer_receive hbuffer he, htells⟩))
    | _ => exact .inl (.inr (.inl ⟨d, e, he, htells⟩))
  · exact hcpu hc

theorem Mute.step {a : Act κ} (h : Mute w pid) (ha : ¬a.Concerns pid)
    (hstep : Events.step w a = some w') : Mute w' pid ∧
      Netlink.lastEntry pid w'.processes = Netlink.lastEntry pid w.processes := by
  have henters : ¬a.Enters pid := by
    cases a with
    | exec c pid' name => exact ha
    | fork c parent child => exact fun h => ha (.inl h)
    | _ => exact id
  refine ⟨⟨fun hflight => ?_, fun c hc => ?_⟩, ?_⟩
  · rcases inFlight_of_step hstep hflight with hbefore | ⟨c, program, ts, deltaUs, -, hcpu, -⟩
    · exact h.inFlight hbefore
    · exact h.awaits c (hcpu ▸ rfl)
  · rcases awaits_of_step hstep hc with hbefore | hstarted
    · exact h.awaits c hbefore
    · exact henters hstarted
  · rcases processes_of_step hstep with hsame | ⟨event, hreading, hpushed⟩
    · rw [hsame]
    · rw [hpushed]
      have hown : event.pid ≠ pid := fun hown => h.inFlight (.inl ⟨event, hreading, hown⟩)
      exact Netlink.lastEntry_append_of_ne hown _ _

/-- **The last entry.** Let the last handler for a process be about to read `prev_pid`; a process
runs on one processor at a time. If it finds another process there, or an entry for the process is
on its way already, and no event is lost afterwards, then, when all is handled, the last entry of
the process carries its name. Otherwise no entry for the process comes any more. -/
theorem lastEntry_of_readPid {c : κ} {program : Program} {ts deltaUs : UInt64}
    {after : List (Act κ)} (hpid : pid ≠ 0) (hcpu : w.cpu c = .timed program pid ts deltaUs)
    (hone : ∀ d, (w.cpu d).awaits = some pid → d = c)
    (hrun : Transition.run step w (.readPid c :: after) = some w')
    (hlast : ∀ a ∈ after, ¬a.Concerns pid) :
    (w.prevPid program ≠ pid ∨ InFlight w pid → (∀ a ∈ after, a.Keeps) → Settled w' →
        Netlink.lastEntry pid w'.processes = some ⟨pid, eventName (w.names pid)⟩) ∧
      (¬(w.prevPid program ≠ pid ∨ InFlight w pid) →
        Netlink.lastEntry pid w'.processes = Netlink.lastEntry pid w.processes) := by
  obtain ⟨t, hstep, hrest⟩ := Transition.run_cons_eq_some_iff.mp hrun
  have ht : t = w.setCpu c (.filled program ts ⟨pid, w.prevPid program, deltaUs⟩) := by
    simp only [step, hcpu] at hstep
    exact (Option.some.inj hstep).symm
  have hevent : (t.cpu c).event = some ⟨pid, w.prevPid program, deltaUs⟩ := by
    rw [ht, cpu_setCpu_self]
    rfl
  have hnames : t.names = w.names := ht ▸ rfl
  have hprocesses : t.processes = w.processes := ht ▸ rfl
  constructor
  · intro htold hkeeps hsettled
    have hflight : InFlight t pid := by
      rcases htold with hprev | hflight
      · exact .inr (.inr ⟨c, _, hevent, rfl, hprev⟩)
      · rw [ht]
        exact inFlight_setCpu hflight c (by simp [hcpu, Cpu.event])
    have hw' : Upcoming w' pid (w.names pid) :=
      Transition.run_invariant (Upcoming · pid (w.names pid))
        (fun _ a ha _ hs h => hs.step hpid (hkeeps a ha) (hlast a ha) h)
        ⟨congrFun hnames pid, .inr hflight⟩ hrest
    exact hw'.entry.resolve_right (not_inFlight_of_settled hsettled)
  · intro hnot
    obtain ⟨hprev, hflight⟩ := not_or.mp hnot
    have hmute : Mute t pid := by
      refine ⟨fun hbad => ?_, fun d hd => ?_⟩
      · rcases inFlight_of_step hstep hbad with hbefore | ⟨d, program', ts', δ, had, hd, hne⟩
        · exact hflight hbefore
        · obtain rfl : c = d := by simpa using had
          obtain ⟨rfl, -⟩ : program = program' ∧ _ := by simpa [hcpu] using hd
          exact hprev hne
      · rw [ht] at hd
        rcases awaits_setCpu hd with hbefore | ⟨-, hnew⟩
        · obtain rfl := hone d hbefore
          have hself : (t.cpu d).awaits = some pid := ht ▸ hd
          rw [ht, cpu_setCpu_self] at hself
          cases hself
        · cases hnew
    have hw' : Mute w' pid ∧
        Netlink.lastEntry pid w'.processes = Netlink.lastEntry pid t.processes :=
      Transition.run_invariant
        (fun s => Mute s pid ∧
          Netlink.lastEntry pid s.processes = Netlink.lastEntry pid t.processes)
        (fun _ a ha _ hs h =>
          ⟨(hs.1.step (hlast a ha) h).1, (hs.1.step (hlast a ha) h).2.trans hs.2⟩)
        ⟨hmute, rfl⟩ hrest
    rw [hw'.2, hprocesses]

/-- While one processor handles an `exec`, the other one handles a `fork`, whose child is not
told. -/
theorem mem_pushed_iff_sample : ∃ w : World Bool,
    Transition.run step (.start fun _ => "sh") [.exec true 5 "make", .fork false 7 8,
      .readTs true 2000, .readTs false 1000, .readPid false, .readPid true, .writePid true,
      .writePid false, .writeTs false, .output false true, .writeTs true, .output true true,
      .receive true, .push, .receive false, .push] = some w ∧
    (∃ entry ∈ w.pushed, entry.process.pid = 7) ∧ ¬∃ entry ∈ w.pushed, entry.process.pid = 8 := by
  have hrun : Transition.run step (.start fun _ => "sh") [.exec true 5 "make", .fork false 7 8,
      .readTs true 2000, .readTs false 1000, .readPid false, .readPid true, .writePid true,
      .writePid false, .writeTs false, .output false true, .writeTs true, .output true true,
      .receive true, .push, .receive false, .push] = some _ := rfl
  refine ⟨_, rfl, ?_, ?_⟩
  · rw [mem_pushed_iff hrun (by simp [Act.Keeps]) ⟨by decide, by decide, rfl⟩ (by decide)]
    simp [Act.Enters]
  · rw [mem_pushed_iff hrun (by simp [Act.Keeps]) ⟨by decide, by decide, rfl⟩ (by decide)]
    simp [Act.Enters]

/-- The last `exec` was the one of process 7, and process 5 is about to read it. -/
def sampleWorld : World Bool :=
  { World.start fun _ => "ld" with
    prevPid := fun _ => 7
    cpu := fun c => if c then .timed .exec 5 3000 1 else .idle }

theorem lastEntry_of_readPid_sample : ∃ w' : World Bool,
    Transition.run step sampleWorld (.readPid true :: [.writePid true, .exec false 7 "cc",
      .writeTs true, .output true true, .readTs false 4000, .readPid false, .writePid false,
      .writeTs false, .output false true, .receive false, .push, .receive true, .push]) = some w' ∧
    Netlink.lastEntry 5 w'.processes = some ⟨5, eventName "ld"⟩ := by
  have hcpu : sampleWorld.cpu true = .timed .exec 5 3000 1 := rfl
  have hentry := lastEntry_of_readPid (by decide) hcpu (by decide)
    (show Transition.run step sampleWorld (.readPid true :: [.writePid true, .exec false 7 "cc",
      .writeTs true, .output true true, .readTs false 4000, .readPid false, .writePid false,
      .writeTs false, .output false true, .receive false, .push, .receive true, .push]) = some _
      from rfl) (by simp [Act.Concerns])
  refine ⟨_, rfl, hentry.1 (.inl (by decide)) (by simp [Act.Keeps]) ⟨by decide, by decide, rfl⟩⟩

end Events

end Bpf

end AnanicyCpp
