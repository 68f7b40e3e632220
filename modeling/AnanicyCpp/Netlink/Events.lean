import AnanicyCpp.Kernel

/-!
# Process events

`handle_events` of the netlink back end: receive a message, take the process id from it, and push
an entry with the command name of the process to the queue, unless the id is `0` or the id of the
previous entry. The name is read when the entry is made, some time after the event was sent.

The processes, the socket between the kernel and the program, and the handler make up a `World`,
whose steps interleave freely; receiving a message and reading the name are steps of their own.
After the last `EXEC` of a process, the entry with its final name can only fail to come when the
filter suppresses that event (`Netlink.lastEntry_of_not_shadowed`).

## Main definitions

* `Netlink.ProcEvent`, `Netlink.getPid` : the events, and `netlink_program_get_pid`.
* `Netlink.Handler`, `Netlink.handlePoll`, `Netlink.Handler.pushProcess` : one turn of
  `handle_events`.
* `Netlink.World`, `Netlink.Act`, `Netlink.run` : the processes, the socket and the handler.
* `Netlink.Shadowed` : the filter is about to suppress an event of the process.

## Main results

* `Netlink.Upcoming.step`, `Netlink.Upcoming.run` : the entry with the final name is there or on
  its way.
* `Netlink.lastEntry_of_not_shadowed` : the last entry carries the final name.
* `Netlink.lastEntry_of_shadowed` : the `EXEC` of a shadowed process leads to no entry.
-/

namespace AnanicyCpp

namespace Netlink

/-! ### The handler -/

/-- The process events; the kernel has more kinds, which are not looked at. -/
inductive ProcEvent where
  | fork (parentPid childPid : Pid)
  | exec (processPid : Pid)
  | comm (processPid : Pid)
  | other
deriving DecidableEq

/-- `netlink_program_get_pid` -/
def getPid : ProcEvent → Pid
  | .fork _ childPid => childPid
  | .exec processPid => processPid
  | .comm processPid => processPid
  | .other => 0

/-- The result of `netlink_program_pool_message`: the socket was closed, `recv` failed, or a message
was received. -/
inductive PollResult where
  | closed
  | failed (errnum : Errno)
  | message (event : ProcEvent)
deriving DecidableEq

def eintr : Errno := 4
def eagain : Errno := 11
def enobufs : Errno := 105

/-- The state of `handle_events`: the static `prev_pid`, the process whose name is to be read, and
what was pushed to the queue, oldest first. -/
structure Handler where
  prevPid : Pid
  reading : Option Pid
  pushed : List Process
deriving DecidableEq

/-- How the first half of a turn goes on: with the next turn, by a return, or with the entry for a
process. -/
inductive Next where
  | again
  | exit (status : Int32)
  | push (pid : Pid)
deriving DecidableEq

def exitSuccess : Int32 := 0
def exitFailure : Int32 := 1

/-- A turn of `handle_events` up to the call of `get_command_from_pid`. An overrun of the socket is
a failure like any other, with a message of its own. -/
def handlePoll (prevPid : Pid) : PollResult → Next
  | .closed => .exit exitSuccess
  | .failed errnum =>
      if errnum = eintr ∨ errnum = eagain then .again
      else if errnum = enobufs then .exit exitFailure
      else .exit exitFailure
  | .message event =>
      let pid := getPid event
      if pid = 0 ∨ pid = prevPid then .again else .push pid

/-- Receive an event, unless the name for the one before is still to be read. -/
def Handler.receive (h : Handler) (event : ProcEvent) : Handler :=
  match handlePoll h.prevPid (.message event) with
  | .push pid => { h with prevPid := pid, reading := some pid }
  | _ => h

/-- The rest of the turn: read the name and push the entry. -/
def Handler.pushProcess (h : Handler) (command : Pid → String) (pid : Pid) : Handler :=
  { h with reading := none, pushed := h.pushed ++ [⟨pid, command pid⟩] }

/-! ### The world -/

/-- The command names of the processes, the socket with the messages in flight, and the handler. -/
structure World where
  names : Pid → String
  socket : List ProcEvent
  handler : Handler

/-- What can happen. A process starts with the name of its parent, and only `exec` changes a
name. -/
inductive Act where
  | fork (parent child : Pid)
  | exec (pid : Pid) (name : String)
  | comm (pid : Pid)
  | other
  | receive
  | push
deriving DecidableEq

/-- A step; receiving waits for a message and for the entry of the one before. -/
def step (w : World) : Act → World
  | .fork parent child =>
      { w with
        names := Function.update w.names child (w.names parent)
        socket := w.socket ++ [.fork parent child] }
  | .exec pid name =>
      { w with names := Function.update w.names pid name, socket := w.socket ++ [.exec pid] }
  | .comm pid => { w with socket := w.socket ++ [.comm pid] }
  | .other => { w with socket := w.socket ++ [.other] }
  | .receive =>
      match w.handler.reading, w.socket with
      | none, event :: socket => { w with socket, handler := w.handler.receive event }
      | _, _ => w
  | .push =>
      match w.handler.reading with
      | some pid => { w with handler := w.handler.pushProcess w.names pid }
      | none => w

/-- The world after a sequence of steps. -/
def run (w : World) (acts : List Act) : World := acts.foldl step w

theorem run_append_exec (w : World) (before after : List Act) (pid : Pid) (name : String) :
    run w (before ++ .exec pid name :: after) =
      run (step (run w before) (.exec pid name)) after := by
  simp only [run, List.foldl_append, List.foldl_cons]

/-- The last entry for a process. -/
def lastEntry (pid : Pid) (pushed : List Process) : Option Process :=
  (pushed.filter (·.pid == pid)).getLast?

/-- Everything that was sent has been handled. -/
def Settled (w : World) : Prop := w.socket = [] ∧ w.handler.reading = none

/-- The step gives the process a name. -/
def Act.Names (pid : Pid) : Act → Prop
  | .fork _ child => child = pid
  | .exec pid' _ => pid' = pid
  | _ => False

/-- An event of the process would be suppressed if it were sent now: the previous entry was for the
process, its name has been read, and nothing but events of the process itself, and events that are
not looked at, is in flight. -/
def Shadowed (w : World) (pid : Pid) : Prop :=
  w.handler.prevPid = pid ∧ w.handler.reading ≠ some pid ∧
    ∀ event ∈ w.socket, getPid event = 0 ∨ getPid event = pid

/-! ### The filter -/

/-- Among the events in flight there is one of the process that the filter will let through. -/
def Admits (pid prevPid : Pid) : List ProcEvent → Prop
  | [] => False
  | event :: events =>
      if getPid event = 0 ∨ getPid event = prevPid then Admits pid prevPid events
      else getPid event = pid ∨ Admits pid (getPid event) events

/-- Events that are sent later do not change what is let through. -/
theorem Admits.append {pid prevPid : Pid} {events : List ProcEvent} (h : Admits pid prevPid events)
    (later : List ProcEvent) : Admits pid prevPid (events ++ later) := by
  induction events generalizing prevPid with
  | nil => exact h.elim
  | cons event events ih =>
    rw [List.cons_append, Admits]
    rw [Admits] at h
    split_ifs at h ⊢
    · exact ih h
    · exact h.imp_right ih

/-- An event that is sent is let through when the process is not shadowed by its own events. -/
theorem admits_append_exec {pid prevPid : Pid} (hpid : pid ≠ 0) {events : List ProcEvent}
    (h : prevPid ≠ pid ∨ ∃ event ∈ events, getPid event ≠ 0 ∧ getPid event ≠ pid) :
    Admits pid prevPid (events ++ [.exec pid]) := by
  induction events generalizing prevPid with
  | nil =>
    have hne : ¬(getPid (.exec pid) = 0 ∨ getPid (.exec pid) = prevPid) := by
      rintro (h0 | hprev)
      · exact hpid h0
      · exact h.elim (fun hne => hne hprev.symm) (by simp)
    rw [List.nil_append, Admits, if_neg hne]
    exact Or.inl rfl
  | cons event events ih =>
    rw [List.cons_append, Admits]
    split_ifs with hskip
    · refine ih ?_
      by_cases hprev : prevPid = pid
      · obtain ⟨event', hmem, h0, hne⟩ := h.resolve_left (not_not.mpr hprev)
        rcases List.mem_cons.mp hmem with rfl | hmem
        · exact absurd hskip (by simp [h0, hprev, hne])
        · exact Or.inr ⟨event', hmem, h0, hne⟩
      · exact Or.inl hprev
    · by_cases hown : getPid event = pid
      · exact Or.inl hown
      · exact Or.inr (ih (Or.inl hown))

/-- Events of the process itself, and events that are not looked at, are all suppressed behind an
entry for it. -/
theorem not_admits_of_own {pid : Pid} {events : List ProcEvent}
    (h : ∀ event ∈ events, getPid event = 0 ∨ getPid event = pid) : ¬Admits pid pid events := by
  induction events with
  | nil => exact id
  | cons event events ih =>
    rw [Admits, if_pos (h event List.mem_cons_self)]
    exact ih fun e he => h e (List.mem_cons_of_mem _ he)

/-- Behind an `EXEC` of the process, its name is going to be read unless the process was
shadowed. -/
theorem ahead_exec_iff {w : World} {pid : Pid} (hpid : pid ≠ 0) :
    w.handler.reading = some pid ∨ Admits pid w.handler.prevPid (w.socket ++ [.exec pid]) ↔
      ¬Shadowed w pid := by
  constructor
  · rintro hahead ⟨hprev, hreading, hown⟩
    have hadmits := hahead.resolve_left hreading
    rw [hprev] at hadmits
    refine not_admits_of_own (fun event hevent => ?_) hadmits
    rcases List.mem_append.mp hevent with hevent | hevent
    · exact hown event hevent
    · exact Or.inr (List.mem_singleton.mp hevent ▸ rfl)
  · intro hshadow
    by_cases hreading : w.handler.reading = some pid
    · exact Or.inl hreading
    · refine Or.inr (admits_append_exec hpid ?_)
      by_contra hnot
      obtain ⟨hprev, hnone⟩ := not_or.mp hnot
      refine hshadow ⟨not_not.mp hprev, hreading, fun event hevent => ?_⟩
      by_contra hother
      exact hnone ⟨event, hevent, not_or.mp hother⟩

theorem receive_of_suppressed {h : Handler} {event : ProcEvent}
    (hskip : getPid event = 0 ∨ getPid event = h.prevPid) : h.receive event = h := by
  simp only [Handler.receive, handlePoll, if_pos hskip]

theorem receive_of_not_suppressed {h : Handler} {event : ProcEvent}
    (hskip : ¬(getPid event = 0 ∨ getPid event = h.prevPid)) :
    h.receive event = { h with prevPid := getPid event, reading := some (getPid event) } := by
  simp only [Handler.receive, handlePoll, if_neg hskip]

theorem lastEntry_append_self (pid : Pid) (pushed : List Process) (name : String) :
    lastEntry pid (pushed ++ [⟨pid, name⟩]) = some ⟨pid, name⟩ := by
  simp [lastEntry]

theorem lastEntry_append_of_ne {pid pid' : Pid} (h : pid' ≠ pid) (pushed : List Process)
    (name : String) : lastEntry pid (pushed ++ [⟨pid', name⟩]) = lastEntry pid pushed := by
  simp [lastEntry, h]

/-! ### The entry on its way -/

/-- The process has the name, and the last entry for it has the name already, or is about to be
made, or an event that leads to one is in flight. -/
structure Upcoming (w : World) (pid : Pid) (name : String) : Prop where
  named : w.names pid = name
  entry : w.handler.reading = some pid ∨ lastEntry pid w.handler.pushed = some ⟨pid, name⟩ ∨
    Admits pid w.handler.prevPid w.socket

/-- Receiving an event of another process, or a suppressed one, loses nothing; an event of the
process that is let through becomes the entry that is about to be made. -/
theorem Upcoming.receive {w : World} {pid : Pid} {name : String} (h : Upcoming w pid name)
    (hreading : w.handler.reading = none) {event : ProcEvent} {socket : List ProcEvent}
    (hsocket : w.socket = event :: socket) :
    Upcoming { w with socket := socket, handler := w.handler.receive event } pid name := by
  obtain ⟨hname, hentry⟩ := h
  have hentry := hentry.resolve_left (by simp [hreading])
  rw [hsocket, Admits] at hentry
  refine ⟨hname, ?_⟩
  by_cases hskip : getPid event = 0 ∨ getPid event = w.handler.prevPid
  · rw [if_pos hskip] at hentry
    rw [receive_of_suppressed hskip]
    exact Or.inr hentry
  · rw [if_neg hskip] at hentry
    rw [receive_of_not_suppressed hskip]
    rcases hentry with hlast | hown | hadmits
    · exact Or.inr (Or.inl hlast)
    · exact Or.inl (congrArg some hown)
    · exact Or.inr (Or.inr hadmits)

/-- The entry that is made for the process has its name. -/
theorem Upcoming.push {w : World} {pid : Pid} {name : String} (h : Upcoming w pid name)
    {pid' : Pid} (hreading : w.handler.reading = some pid') :
    Upcoming { w with handler := w.handler.pushProcess w.names pid' } pid name := by
  obtain ⟨hname, hentry⟩ := h
  refine ⟨hname, ?_⟩
  by_cases hpid : pid' = pid
  · refine Or.inr (Or.inl ?_)
    rw [Handler.pushProcess, hpid, hname]
    exact lastEntry_append_self pid _ name
  · have hentry := hentry.resolve_left fun h => hpid (Option.some.inj (hreading.symm.trans h))
    refine Or.inr (hentry.imp_left fun hlast => ?_)
    exact (lastEntry_append_of_ne hpid _ _).trans hlast

/-- **The step lemma.** A step that does not name the process keeps the entry on its way. -/
theorem Upcoming.step {w : World} {pid : Pid} {name : String} (h : Upcoming w pid name) {act : Act}
    (hact : ¬act.Names pid) : Upcoming (step w act) pid name := by
  have hname := h.named
  have hsend (events : List ProcEvent) : w.handler.reading = some pid ∨
      lastEntry pid w.handler.pushed = some ⟨pid, name⟩ ∨
        Admits pid w.handler.prevPid (w.socket ++ events) :=
    h.entry.imp_right fun h => h.imp_right fun h => h.append events
  cases act with
  | fork parent child =>
    exact ⟨(Function.update_of_ne (Ne.symm hact) _ _).trans hname, hsend _⟩
  | exec pid' name' => exact ⟨(Function.update_of_ne (Ne.symm hact) _ _).trans hname, hsend _⟩
  | comm pid' => exact ⟨hname, hsend _⟩
  | other => exact ⟨hname, hsend _⟩
  | receive =>
    rcases hreading : w.handler.reading with _ | pid'
    · rcases hsocket : w.socket with _ | ⟨event, socket⟩
      · simpa only [Netlink.step, hreading, hsocket] using h
      · simpa only [Netlink.step, hreading, hsocket] using h.receive hreading hsocket
    · simpa only [Netlink.step, hreading] using h
  | push =>
    rcases hreading : w.handler.reading with _ | pid'
    · simpa only [Netlink.step, hreading] using h
    · simpa only [Netlink.step, hreading] using h.push hreading

/-- **The run lemma.** -/
theorem Upcoming.run {w : World} {pid : Pid} {name : String} (h : Upcoming w pid name)
    {acts : List Act} (hacts : ∀ act ∈ acts, ¬act.Names pid) : Upcoming (run w acts) pid name := by
  unfold Netlink.run
  induction acts generalizing w with
  | nil => exact h
  | cons act acts ih =>
    exact ih (h.step (hacts act List.mem_cons_self)) fun a ha => hacts a (List.mem_cons_of_mem _ ha)

/-- The `EXEC` of a process that is not shadowed puts the entry with its name on its way. -/
theorem upcoming_exec {w : World} {pid : Pid} (hpid : pid ≠ 0) (hshadow : ¬Shadowed w pid)
    (name : String) : Upcoming (step w (.exec pid name)) pid name := by
  refine ⟨Function.update_self .., ?_⟩
  show w.handler.reading = some pid ∨ _ ∨ Admits pid w.handler.prevPid (w.socket ++ [.exec pid])
  exact ((ahead_exec_iff hpid).mpr hshadow).imp_right Or.inr

/-- **The last entry.** When everything has been handled, the last entry of a process carries the
name that its last `EXEC` gave it, in any interleaving, if the process was not shadowed at that
`EXEC`. A process id is not given to a new process after that. -/
theorem lastEntry_of_not_shadowed (w : World) {pid : Pid} (hpid : pid ≠ 0) (name : String)
    (before after : List Act) (hlast : ∀ act ∈ after, ¬act.Names pid)
    (hshadow : ¬Shadowed (run w before) pid)
    (hsettled : Settled (run w (before ++ .exec pid name :: after))) :
    lastEntry pid (run w (before ++ .exec pid name :: after)).handler.pushed =
        some ⟨pid, name⟩ ∧
      (run w (before ++ .exec pid name :: after)).names pid = name := by
  rw [run_append_exec] at hsettled ⊢
  obtain ⟨hname, hentry⟩ := (upcoming_exec hpid hshadow name).run hlast
  rw [hsettled.1, hsettled.2] at hentry
  exact ⟨(hentry.resolve_left nofun).resolve_right id, hname⟩

/-! ### The lost name -/

/-- The step sends an event of the process. -/
def Act.Sends (pid : Pid) : Act → Prop
  | .fork _ child => child = pid
  | .exec pid' _ => pid' = pid
  | .comm pid' => pid' = pid
  | _ => False

/-- No entry for the process is about to be made, and no event that leads to one is in flight. -/
structure Silent (w : World) (pid : Pid) : Prop where
  reading : w.handler.reading ≠ some pid
  socket : ¬Admits pid w.handler.prevPid w.socket

/-- An event of another process lets none of this one through. -/
theorem Admits.of_append {pid prevPid : Pid} {events : List ProcEvent} {event : ProcEvent}
    (hne : getPid event ≠ pid) (h : Admits pid prevPid (events ++ [event])) :
    Admits pid prevPid events := by
  induction events generalizing prevPid with
  | nil =>
    rw [List.nil_append, Admits] at h
    split_ifs at h
    · exact h
    · exact h.resolve_left hne
  | cons event' events ih =>
    rw [List.cons_append, Admits] at h
    rw [Admits]
    split_ifs at h ⊢
    · exact ih h
    · exact h.imp_right ih

/-- An event of another process leaves a silent process silent. -/
theorem Silent.send {w : World} {pid : Pid} (h : Silent w pid) (names : Pid → String)
    (event : ProcEvent) (hne : getPid event ≠ pid) :
    Silent { w with names := names, socket := w.socket ++ [event] } pid :=
  ⟨h.reading, fun hadmits => h.socket (hadmits.of_append hne)⟩

/-- Receiving an event leaves a silent process silent and makes no entry for it. -/
theorem Silent.receive {w : World} {pid : Pid} (h : Silent w pid) {event : ProcEvent}
    {socket : List ProcEvent} (hsocket : w.socket = event :: socket) :
    Silent { w with socket := socket, handler := w.handler.receive event } pid ∧
      (w.handler.receive event).pushed = w.handler.pushed := by
  have hnot := h.socket
  rw [hsocket, Admits] at hnot
  by_cases hskip : getPid event = 0 ∨ getPid event = w.handler.prevPid
  · rw [if_pos hskip] at hnot
    rw [receive_of_suppressed hskip]
    exact ⟨⟨h.reading, hnot⟩, rfl⟩
  · rw [if_neg hskip] at hnot
    rw [receive_of_not_suppressed hskip]
    obtain ⟨hother, hnot⟩ := not_or.mp hnot
    exact ⟨⟨fun hreading => hother (Option.some.inj hreading), hnot⟩, rfl⟩

/-- A step that sends no event of a silent process leaves it silent and makes no entry for it. -/
theorem Silent.step {w : World} {pid : Pid} (h : Silent w pid) (hpid : pid ≠ 0) {act : Act}
    (hact : ¬act.Sends pid) : Silent (step w act) pid ∧
      lastEntry pid (Netlink.step w act).handler.pushed = lastEntry pid w.handler.pushed := by
  cases act with
  | fork parent child => exact ⟨h.send _ (.fork parent child) hact, rfl⟩
  | exec pid' name' => exact ⟨h.send _ (.exec pid') hact, rfl⟩
  | comm pid' => exact ⟨h.send _ (.comm pid') hact, rfl⟩
  | other => exact ⟨h.send _ .other hpid.symm, rfl⟩
  | receive =>
    rcases hreading : w.handler.reading with _ | pid'
    · rcases hsocket : w.socket with _ | ⟨event, socket⟩
      · simp only [Netlink.step, hreading, hsocket]
        exact ⟨h, trivial⟩
      · simp only [Netlink.step, hreading, hsocket]
        obtain ⟨hsilent, hpushed⟩ := h.receive hsocket
        exact ⟨hsilent, congrArg (lastEntry pid) hpushed⟩
    · simp only [Netlink.step, hreading]
      exact ⟨h, trivial⟩
  | push =>
    rcases hreading : w.handler.reading with _ | pid'
    · simp only [Netlink.step, hreading]
      exact ⟨h, trivial⟩
    · have hne : pid' ≠ pid := fun hpid' => h.reading (hpid' ▸ hreading)
      simp only [Netlink.step, hreading]
      exact ⟨⟨nofun, h.socket⟩, lastEntry_append_of_ne hne _ _⟩

/-- **The run lemma for a silent process.** -/
theorem Silent.run {w : World} {pid : Pid} (h : Silent w pid) (hpid : pid ≠ 0) {acts : List Act}
    (hacts : ∀ act ∈ acts, ¬act.Sends pid) :
    lastEntry pid (run w acts).handler.pushed = lastEntry pid w.handler.pushed := by
  unfold Netlink.run
  induction acts generalizing w with
  | nil => rfl
  | cons act acts ih =>
    obtain ⟨hsilent, hentry⟩ := h.step hpid (hacts act List.mem_cons_self)
    exact (ih hsilent fun a ha => hacts a (List.mem_cons_of_mem _ ha)).trans hentry

/-- The `EXEC` of a shadowed process is suppressed: as long as no other event of the process is
sent, the last entry stays the one from before. -/
theorem lastEntry_of_shadowed (w : World) {pid : Pid} (hpid : pid ≠ 0) (name : String)
    (before after : List Act) (hlast : ∀ act ∈ after, ¬act.Sends pid)
    (hshadow : Shadowed (run w before) pid) :
    lastEntry pid (run w (before ++ .exec pid name :: after)).handler.pushed =
      lastEntry pid (run w before).handler.pushed := by
  have hsilent : Silent (step (run w before) (.exec pid name)) pid := by
    obtain ⟨hreading, hadmits⟩ := not_or.mp (mt (ahead_exec_iff hpid).mp (not_not.mpr hshadow))
    exact ⟨hreading, hadmits⟩
  rw [run_append_exec]
  exact hsilent.run hpid hlast

/-- Nothing has happened yet. -/
def World.start (names : Pid → String) : World := ⟨names, [], ⟨0, none, []⟩⟩

/-- The child is entered between another process and its own `EXEC`, and its `EXEC` is let
through. -/
theorem lastEntry_of_not_shadowed_sample :
    lastEntry 5 (run (.start fun _ => "sh") ([.fork 1 5, .receive, .push, .comm 7, .receive] ++
        .exec 5 "make" :: [.push, .receive, .push])).handler.pushed = some ⟨5, "make"⟩ ∧
      (run (.start fun _ => "sh") ([.fork 1 5, .receive, .push, .comm 7, .receive] ++
        .exec 5 "make" :: [.push, .receive, .push])).names 5 = "make" :=
  lastEntry_of_not_shadowed (.start fun _ => "sh") (by decide) "make"
    [.fork 1 5, .receive, .push, .comm 7, .receive] [.push, .receive, .push]
    (by simp [Act.Names]) (fun h => absurd h.1 (by decide)) ⟨rfl, rfl⟩

/-- The last entry does not always carry the final name: when the entry for a forked child is made
before the child calls `exec`, the `EXEC` is taken for a repetition. -/
theorem not_forall_lastEntry :
    ¬ ∀ (names : Pid → String) (pid : Pid) (name : String) (before after : List Act), pid ≠ 0 →
      (∀ act ∈ after, ¬act.Names pid) →
      Settled (run (.start names) (before ++ .exec pid name :: after)) →
      lastEntry pid (run (.start names) (before ++ .exec pid name :: after)).handler.pushed =
        some ⟨pid, name⟩ := by
  intro h
  have hentry := h (fun _ => "sh") 5 "make" [.fork 1 5, .receive, .push] [.receive] (by decide)
    (by simp [Act.Names]) ⟨rfl, rfl⟩
  revert hentry
  decide +kernel

end Netlink

end AnanicyCpp
