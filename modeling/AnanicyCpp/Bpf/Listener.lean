import AnanicyCpp.Bpf.Events

/-!
# The listener of the BPF build

The whole BPF back end of the `ProcessQueue`: `init` scans `/proc`, loads the object with the two
programs, attaches them one after the other and creates the perf buffer; `handle_events` polls it;
and after an error of a poll the event thread destroys the object and calls `init` again. The new
object starts with new statics. With `--manual-scanning` a scan of `main` runs beside the event
thread. Each of the two threads reads a name in one step and pushes the entry in another, so an
entry may be pushed behind one that was read later.

Between the attachment of a program and the creation of the perf buffer the program runs, and what
it sends is lost; its statics nevertheless remember the process. A full buffer loses events, too,
and unlike an overrun of the netlink socket this is no failure that leads to another scan. So there
are three ways to lose the notice of the last `exec` of a process. A loss matters when nothing else
is on its way that tells the process, and then only an error of a poll or a scan of `main` makes up
for it. A thread that has read the name before the `exec` and pushes the entry behind the new one
undoes it (`Bpf.Listener.told_iff`).

A scan pushes the command name as it is, an event pushes the name behind the last backslash of a
Windows path.

An initialisation that fails uses a null object or leaves a dangling handle
(`Bpf.everyStep_sound_iff`); the listener goes up to there.

## Main definitions

* `Bpf.Listener`, `Bpf.Listener.step` : the processors, the event thread and the scans of `main`.
* `Bpf.Listener.Ahead`, `Bpf.Listener.Heard` : what is going to tell the process.
* `Bpf.Listener.Missed` : the step loses the last notice of the process.
* `Bpf.Listener.Fresh` : no thread holds an entry with an older name.

## Main results

* `Bpf.Listener.Scanned.step` : the final name, once a scan has read it or is going to.
* `Bpf.Listener.Current.step` : the final name is told or is going to be.
* `Bpf.Listener.Quiet.step` : a process of which nothing is on its way.
* `Bpf.Listener.told_iff` : when the last entry of a process carries its name.
-/

namespace AnanicyCpp

namespace Bpf

open Events (World Program Cpu Event Entry eventName InFlight)

/-- Where the thread that has the program stands, which is `main` in the constructor and the event
thread later: in front of the scan of `init`, in the scan with the processes still to be read, or
behind it in the initialisation of the program, in `handle_events`, or behind it. -/
inductive Listener.Phase where
  | starting
  | scanning (pids : List Pid)
  | handling
  | ended
deriving DecidableEq

/-- The processes, the processors with the handlers and their buffers, and the process queue; the
programs that are attached; and the entries that the threads have read and not pushed yet. -/
structure Listener (κ : Type*) where
  world : World κ
  phase : Listener.Phase
  attached : Program → Bool
  hand : Pusher → Option Entry

namespace Listener

variable {κ : Type*} [DecidableEq κ]

/-- What can happen. `events` is a step of the processes, of the handlers, or of `handle_event` up
to the filter. The directory entries that a scan goes through are given when it begins. -/
inductive Act (κ : Type*) where
  | events (act : Events.Act κ)
  | read
  | restart
  | beginScan (pids : List Pid)
  | scan
  | attach (program : Program)
  | connect
  | stop
  | readManually (pid : Pid)
  | push (pusher : Pusher)
deriving DecidableEq

/-- There is a perf buffer. -/
def Phase.hasBuffer : Phase → Bool
  | .handling | .ended => true
  | _ => false

/-- Events are received in `handle_events` only, one after the other, and are lost without a perf
buffer. What `handle_event` does behind the filter is not one step here. -/
def allows (l : Listener κ) : Events.Act κ → Bool
  | .receive _ => l.phase = .handling && l.hand .listener = none
  | .push => false
  | .output _ kept => !kept || l.phase.hasBuffer
  | _ => true

/-- A step of the processes, whose handlers do not start unless their program is attached. -/
def worldStep (l : Listener κ) (act : Events.Act κ) : Option (World κ) :=
  match act with
  | .exec _ pid name =>
      if l.attached .exec then Events.step l.world act
      else some { l.world with names := Function.update l.world.names pid name }
  | .fork _ parent child =>
      if l.attached .fork then Events.step l.world act
      else some { l.world with
        names := Function.update l.world.names child (l.world.names parent) }
  | _ => Events.step l.world act

/-- The object is destroyed, and with it the buffers and the statics; what the handlers still do is
not seen any more. -/
def destroy (w : World κ) : World κ := { World.start w.names with pushed := w.pushed }

/-- An entry that is pushed to the queue. -/
def pushEntry (w : World κ) (entry : Entry) : World κ := { w with pushed := w.pushed ++ [entry] }

/-- The name that was to be read is read. -/
def endReading (w : World κ) : World κ := { w with reading := none }

/-- A thread has made an entry. -/
def take (l : Listener κ) (pusher : Pusher) (entry : Entry) : Listener κ :=
  { l with hand := Function.update l.hand pusher (some entry) }

/-- The entry that a scan makes. -/
def scanEntry (w : World κ) (pid : Pid) : Entry := ⟨0, ⟨pid, w.names pid⟩⟩

/-- The entry that `handle_event` makes. -/
def eventEntry (w : World κ) (event : Event) : Entry :=
  ⟨event.deltaUs, ⟨event.pid, eventName (w.names event.pid)⟩⟩

/-- A step of the listener. A thread pushes its entry before it does anything else. -/
def step (l : Listener κ) : Act κ → Option (Listener κ)
  | .events act =>
      if l.allows act then (l.worldStep act).map fun world => { l with world } else none
  | .read =>
      match l.world.reading with
      | some event =>
          if l.phase = .handling ∧ l.hand .listener = none then
            some { l.take .listener (eventEntry l.world event) with world := endReading l.world }
          else none
      | none => none
  | .restart =>
      if l.phase = .handling ∧ l.world.reading = none ∧ l.hand .listener = none then
        some { l with phase := .starting, world := destroy l.world, attached := fun _ => false }
      else none
  | .beginScan pids => if l.phase = .starting then some { l with phase := .scanning pids } else none
  | .scan =>
      match l.phase with
      | .scanning (pid :: pids) =>
          if l.hand .listener = none then
            some { l.take .listener (scanEntry l.world pid) with phase := .scanning pids }
          else none
      | _ => none
  | .attach program =>
      if l.phase = .scanning [] ∧ l.hand .listener = none then
        some { l with attached := Function.update l.attached program true }
      else none
  | .connect =>
      if l.phase = .scanning [] ∧ l.attached .exec = true ∧ l.attached .fork = true then
        some { l with phase := .handling }
      else none
  | .stop =>
      if l.phase = .handling ∧ l.world.reading = none ∧ l.hand .listener = none then
        some { l with phase := .ended }
      else none
  | .readManually pid =>
      if l.hand .manual = none then some (l.take .manual (scanEntry l.world pid)) else none
  | .push pusher =>
      match l.hand pusher with
      | some entry => some { l with
          world := pushEntry l.world entry
          hand := Function.update l.hand pusher none }
      | none => none

/-- What was pushed to the queue, oldest first. -/
def processes (l : Listener κ) : List Process := l.world.processes

/-- Before the constructor. -/
def start (names : Pid → String) : Listener κ :=
  ⟨.start names, .starting, fun _ => false, fun _ => none⟩

/-- The step names the process, or starts a handler for it. -/
def Act.Concerns (pid : Pid) : Act κ → Prop
  | .events act => act.Concerns pid
  | _ => False

/-- A directory listing of `/proc` contains the process. -/
def Act.Lists (pid : Pid) : Act κ → Prop
  | .beginScan pids => pid ∈ pids
  | _ => True

/-- The entry carries the name, as a scan or as an event writes it. -/
def Carries (name : String) (p : Process) : Prop := p.name = name ∨ p.name = eventName name

/-- The last entry of the process carries the name. -/
def Told (l : Listener κ) (pid : Pid) (name : String) : Prop :=
  ∃ p, Netlink.lastEntry pid l.processes = some p ∧ p.pid = pid ∧ Carries name p

/-- The scan of `init` is still going to read the process, if it finds it in `/proc`. -/
def RescanAhead (l : Listener κ) (pid : Pid) : Prop :=
  l.phase = .starting ∨ ∃ pids, l.phase = .scanning pids ∧ pid ∈ pids

/-- A thread has read the name. -/
def InHand (l : Listener κ) (pid : Pid) (name : String) : Prop :=
  ∃ pusher entry, l.hand pusher = some entry ∧ entry.process.pid = pid ∧
    Carries name entry.process

/-- A handler in front of `prev_pid`, or an event that is not skipped, may tell the process. -/
def EventAhead (l : Listener κ) (pid : Pid) : Prop :=
  (∃ c, (l.world.cpu c).awaits = some pid) ∨ InFlight l.world pid

/-- A scan or an event may tell the name, or a thread that has read it. -/
def Ahead (l : Listener κ) (pid : Pid) (name : String) : Prop :=
  l.RescanAhead pid ∨ l.InHand pid name ∨ l.EventAhead pid

/-- The last entry of the process carries the name, or something may tell it. -/
def Heard (l : Listener κ) (pid : Pid) (name : String) : Prop :=
  l.Told pid name ∨ l.Ahead pid name

/-- The step loses a notice of the process: the program of `exec` is not attached, the handler finds
the process in `prev_pid`, or there is no room for the event. -/
def Loses (l : Listener κ) (pid : Pid) : Act κ → Prop
  | .events (.exec _ pid' _) => pid' = pid ∧ l.attached .exec = false
  | .events (.readPid c) => ∃ program ts deltaUs,
      l.world.cpu c = .timed program pid ts deltaUs ∧ l.world.prevPid program = pid
  | .events (.output c false) => ∃ event, l.world.cpu c = .ready event ∧ event.Tells pid
  | _ => False

/-- Behind a step that loses a notice of the process, the name is not told and is not going to
be. -/
def Missed (pid : Pid) (name : String) (l : Listener κ) (a : Act κ) : Prop :=
  l.Loses pid a ∧ ∀ m, step l a = some m → ¬m.Heard pid name

/-- Everything that was sent, read or lost has been handled. -/
def Settled (l : Listener κ) : Prop :=
  Events.Settled l.world ∧ l.phase = .handling ∧ ∀ pusher, l.hand pusher = none

/-! ### What a step does -/

/-- The steps with what they find and what they do. -/
inductive Step : Listener κ → Act κ → Listener κ → Prop
  | events {l act w} (hpush : act ≠ .push) (hworld : Events.step l.world act = some w) :
      Step l (.events act) { l with world := w }
  | execUnattached {l c pid name} (hattached : l.attached .exec = false) :
      Step l (.events (.exec c pid name))
        { l with world := { l.world with names := Function.update l.world.names pid name } }
  | forkUnattached {l c parent child} :
      Step l (.events (.fork c parent child)) { l with world := { l.world with
        names := Function.update l.world.names child (l.world.names parent) } }
  | read {l event} (hreading : l.world.reading = some event) (hhand : l.hand .listener = none) :
      Step l .read
        { l.take .listener (eventEntry l.world event) with world := endReading l.world }
  | restart {l} : Step l .restart
      { l with phase := .starting, world := destroy l.world, attached := fun _ => false }
  | beginScan {l pids} (hphase : l.phase = .starting) :
      Step l (.beginScan pids) { l with phase := .scanning pids }
  | scan {l pid pids} (hphase : l.phase = .scanning (pid :: pids))
      (hhand : l.hand .listener = none) :
      Step l .scan { l.take .listener (scanEntry l.world pid) with phase := .scanning pids }
  | attach {l program} : Step l (.attach program)
      { l with attached := Function.update l.attached program true }
  | connect {l} (hphase : l.phase = .scanning []) : Step l .connect { l with phase := .handling }
  | stop {l} (hphase : l.phase = .handling) : Step l .stop { l with phase := .ended }
  | readManually {l pid} (hhand : l.hand .manual = none) :
      Step l (.readManually pid) (l.take .manual (scanEntry l.world pid))
  | push {l pusher entry} (hhand : l.hand pusher = some entry) :
      Step l (.push pusher) { l with
        world := pushEntry l.world entry
        hand := Function.update l.hand pusher none }

variable {l m : Listener κ} {pid : Pid} {name : String} {pusher : Pusher}

theorem step_spec {a : Act κ} (h : step l a = some m) : Step l a m := by
  revert h
  fun_cases step l a with
  | case1 act hallows =>
    intro h
    obtain ⟨w, hw, rfl⟩ := Option.map_eq_some_iff.mp h
    have hpush : act ≠ .push := by
      rintro rfl
      cases hallows
    revert hw
    fun_cases worldStep l act with
    | case1 c pid name hattached => exact fun hw => .events hpush hw
    | case2 c pid name hattached =>
      rintro ⟨⟩
      exact .execUnattached (Bool.not_eq_true _ ▸ hattached)
    | case3 c parent child hattached => exact fun hw => .events hpush hw
    | case4 c parent child hattached => rintro ⟨⟩; exact .forkUnattached
    | case5 => exact fun hw => .events hpush hw
  | case3 event hreading hphase => rintro ⟨⟩; exact .read hreading hphase.2
  | case6 hphase => rintro ⟨⟩; exact .restart
  | case8 pids hphase => rintro ⟨⟩; exact .beginScan hphase
  | case10 pid pids hphase hhand => rintro ⟨⟩; exact .scan hphase hhand
  | case13 program hphase => rintro ⟨⟩; exact .attach
  | case15 hphase => rintro ⟨⟩; exact .connect hphase.1
  | case17 hphase => rintro ⟨⟩; exact .stop hphase.1
  | case19 pid hhand => rintro ⟨⟩; exact .readManually hhand
  | case21 pusher entry hhand => rintro ⟨⟩; exact .push hhand
  | _ => rintro ⟨⟩

/-! ### The entries -/

omit [DecidableEq κ] in
theorem processes_pushEntry (w : World κ) (entry : Entry) :
    (pushEntry w entry).processes = w.processes ++ [entry.process] := List.map_append

/-- Nothing is pushed before the name is read. -/
theorem processes_of_events {act : Events.Act κ} {w w' : World κ} (hpush : act ≠ .push)
    (hstep : Events.step w act = some w') : w'.processes = w.processes := by
  cases Events.step_spec hstep with
  | push => exact absurd rfl hpush
  | _ => rfl

omit [DecidableEq κ] in
theorem told_congr (hm : m.processes = l.processes) : m.Told pid name ↔ l.Told pid name := by
  rw [Told, hm]
  rfl

omit [DecidableEq κ] in
/-- Entries of other processes, and entries with the name of the process, keep the last entry. -/
theorem Told.push {p : Process} (h : l.Told pid name) (hm : m.processes = l.processes ++ [p])
    (hp : p.pid = pid → Carries name p) : m.Told pid name := by
  rw [Told, hm]
  by_cases hpid : p.pid = pid
  · refine ⟨p, ?_, hpid, hp hpid⟩
    rw [← hpid]
    exact Netlink.lastEntry_append_self p.pid _ p.name
  · obtain ⟨q, hq, hown, hname⟩ := h
    exact ⟨q, (Netlink.lastEntry_append_of_ne hpid _ p.name).trans hq, hown, hname⟩

omit [DecidableEq κ] in
/-- The entry that is pushed carries the name. -/
theorem told_of_push {p : Process} (hm : m.processes = l.processes ++ [p]) (hpid : p.pid = pid)
    (hp : Carries name p) : m.Told pid name := by
  refine ⟨p, ?_, hpid, hp⟩
  rw [hm, ← hpid]
  exact Netlink.lastEntry_append_self p.pid _ p.name

/-! ### The names in hand -/

/-- The process has the name, and a thread that has read the process has read this name. -/
structure Fresh (l : Listener κ) (pid : Pid) (name : String) : Prop where
  named : l.world.names pid = name
  hand : ∀ pusher entry, l.hand pusher = some entry → entry.process.pid = pid →
    Carries name entry.process

omit [DecidableEq κ] in
theorem Fresh.scanEntry (h : Fresh l pid name) {pid' : Pid}
    (hpid : (scanEntry l.world pid').process.pid = pid) :
    Carries name (scanEntry l.world pid').process := by
  obtain rfl : pid' = pid := hpid
  exact .inl h.named

omit [DecidableEq κ] in
theorem Fresh.eventEntry (h : Fresh l pid name) {event : Event}
    (hpid : (eventEntry l.world event).process.pid = pid) :
    Carries name (eventEntry l.world event).process := by
  obtain ⟨rfl, -⟩ := h
  obtain rfl : event.pid = pid := hpid
  exact .inr rfl

omit [DecidableEq κ] in
theorem Fresh.take (h : Fresh l pid name) (pusher : Pusher) {entry : Entry}
    (hentry : entry.process.pid = pid → Carries name entry.process) :
    ∀ pusher' entry', (l.take pusher entry).hand pusher' = some entry' →
      entry'.process.pid = pid → Carries name entry'.process := by
  intro pusher' entry' hheld hown
  rcases Pusher.hand_take hheld with hheld | rfl
  · exact h.hand pusher' entry' hheld hown
  · exact hentry hown

theorem names_of_step {a : Act κ} (ha : ¬a.Concerns pid) (hstep : Listener.step l a = some m) :
    m.world.names pid = l.world.names pid := by
  cases step_spec hstep with
  | events _ hworld => exact Events.names_of_step hworld ha
  | execUnattached => exact Function.update_of_ne (Ne.symm ha) ..
  | forkUnattached => exact Function.update_of_ne (Ne.symm (not_or.mp ha).2) ..
  | _ => rfl

theorem Fresh.step {a : Act κ} (h : Fresh l pid name) (ha : ¬a.Concerns pid)
    (hstep : Listener.step l a = some m) : Fresh m pid name := by
  refine ⟨(names_of_step ha hstep).trans h.named, ?_⟩
  cases step_spec hstep with
  | read => exact h.take .listener h.eventEntry
  | scan => exact h.take .listener h.scanEntry
  | readManually => exact h.take .manual h.scanEntry
  | push => exact fun pusher' entry' hheld => h.hand pusher' entry' (Pusher.hand_push hheld)
  | _ => exact h.hand

theorem Fresh.run {acts : List (Act κ)} (h : Fresh l pid name)
    (hacts : ∀ a ∈ acts, ¬a.Concerns pid) (hrun : Transition.run Listener.step l acts = some m) :
    Fresh m pid name :=
  Transition.run_invariant (Fresh · pid name)
    (fun _ a ha _ h hstep => h.step (hacts a ha) hstep) h hrun

omit [DecidableEq κ] in
/-- An entry in hand stays there when another thread takes one. -/
theorem InHand.take (h : l.InHand pid name) (hhand : l.hand pusher = none) (entry : Entry) :
    (l.take pusher entry).InHand pid name := by
  obtain ⟨pusher', entry', hheld, hentry⟩ := h
  exact ⟨pusher', entry', Pusher.hand_take_of_some hhand hheld, hentry⟩

omit [DecidableEq κ] in
theorem inHand_take (pusher : Pusher) {entry : Entry} (hpid : entry.process.pid = pid)
    (hentry : Carries name entry.process) : (l.take pusher entry).InHand pid name :=
  ⟨pusher, entry, Function.update_self .., hpid, hentry⟩

omit [DecidableEq κ] in
/-- An entry in hand stays there or is pushed. -/
theorem InHand.push {entry : Entry} (h : l.InHand pid name) (hhand : l.hand pusher = some entry) :
    InHand { l with
        world := pushEntry l.world entry
        hand := Function.update l.hand pusher none } pid name ∨
      entry.process.pid = pid ∧ Carries name entry.process := by
  obtain ⟨pusher', entry', hheld, hentry⟩ := h
  by_cases hpusher : pusher' = pusher
  · subst hpusher
    obtain rfl := Option.some.inj (hhand.symm.trans hheld)
    exact .inr hentry
  · exact .inl ⟨pusher', entry', (Function.update_of_ne hpusher ..).trans hheld, hentry⟩

/-! ### The entry that a scan makes -/

/-- The name is the final one, and the last entry of the process carries it, a scan is going to read
it, or a thread has read it. What the handlers lose makes no difference any more. -/
structure Scanned (l : Listener κ) (pid : Pid) (name : String) : Prop extends
    Fresh l pid name where
  entry : l.RescanAhead pid ∨ l.InHand pid name ∨ l.Told pid name

theorem Scanned.step {a : Act κ} (h : Scanned l pid name) (ha : ¬a.Concerns pid)
    (hlists : a.Lists pid) (hstep : Listener.step l a = some m) : Scanned m pid name := by
  refine ⟨h.toFresh.step ha hstep, ?_⟩
  have hentry := h.entry
  cases step_spec hstep with
  | events hpush hworld =>
    exact hentry.imp_right (.imp_right (told_congr (processes_of_events hpush hworld)).mpr)
  | execUnattached => exact hentry
  | forkUnattached => exact hentry
  | read _ hhand => exact hentry.imp_right (.imp_left fun hheld => hheld.take hhand _)
  | restart => exact .inl (.inl rfl)
  | beginScan => exact .inl (.inr ⟨_, rfl, hlists⟩)
  | @scan next pids hphase hhand =>
    rcases hentry with (hstarting | ⟨pids', hscanning, hmem⟩) | hheld | htold
    · rw [hphase] at hstarting
      cases hstarting
    · rw [hphase] at hscanning
      cases hscanning
      rcases List.mem_cons.mp hmem with rfl | hmem
      · exact .inr (.inl (inHand_take .listener rfl (h.scanEntry rfl)))
      · exact .inl (.inr ⟨pids, rfl, hmem⟩)
    · exact .inr (.inl (hheld.take hhand _))
    · exact .inr (.inr htold)
  | attach => exact hentry
  | connect hphase =>
    rcases hentry with (hstarting | ⟨pids, hscanning, hmem⟩) | hentry
    · rw [hphase] at hstarting
      cases hstarting
    · rw [hphase] at hscanning
      cases hscanning
      cases hmem
    · exact .inr hentry
  | stop hphase =>
    rcases hentry with (hstarting | ⟨pids, hscanning, hmem⟩) | hentry
    · rw [hphase] at hstarting
      cases hstarting
    · rw [hphase] at hscanning
      cases hscanning
    · exact .inr hentry
  | readManually hhand => exact hentry.imp_right (.imp_left fun hheld => hheld.take hhand _)
  | @push pusher entry hhand =>
    have hprocesses := processes_pushEntry l.world entry
    rcases hentry with hahead | hheld | htold
    · exact .inl hahead
    · rcases hheld.push hhand with hheld | ⟨hown, hcarries⟩
      · exact .inr (.inl hheld)
      · exact .inr (.inr (told_of_push hprocesses hown hcarries))
    · exact .inr (.inr (htold.push hprocesses (h.hand pusher entry hhand)))

/-- An error of a poll makes up for what was missed, with the scan that it leads to. -/
theorem scanned_restart (h : Fresh l pid name) (hstep : step l .restart = some m) :
    Scanned m pid name := by
  refine ⟨h.step id hstep, .inl (.inl ?_)⟩
  cases step_spec hstep with
  | restart => rfl

/-- A scan of `main` makes up for it, too. -/
theorem scanned_readManually (h : Fresh l pid name)
    (hstep : step l (.readManually pid) = some m) : Scanned m pid name := by
  refine ⟨h.step id hstep, .inr (.inl ?_)⟩
  cases step_spec hstep with
  | readManually => exact inHand_take .manual rfl (h.scanEntry rfl)

/-- After an error of a poll, or a scan of `main`, the losses do not matter. -/
theorem scanned_of_rescan {acts : List (Act κ)} (h : Fresh l pid name)
    (hacts : ∀ a ∈ acts, ¬a.Concerns pid) (hlists : ∀ a ∈ acts, a.Lists pid)
    (hrescan : .restart ∈ acts ∨ .readManually pid ∈ acts)
    (hrun : Transition.run step l acts = some m) : Scanned m pid name := by
  have hestablished (a : Act κ) (ha : a ∈ acts)
      (hscanned : ∀ s t, Fresh s pid name → step s a = some t → Scanned t pid name) :
      Scanned m pid name :=
    Transition.run_established (Fresh · pid name) (Scanned · pid name) ha
      (fun _ b hb _ hs hstep => hs.step (hacts b hb) hstep) hscanned
      (fun _ b hb _ hs hstep => hs.step (hacts b hb) (hlists b hb) hstep) h hrun
  rcases hrescan with hrestart | hread
  · exact hestablished .restart hrestart fun _ _ hs hstep => scanned_restart hs hstep
  · exact hestablished (.readManually pid) hread fun _ _ hs hstep => scanned_readManually hs hstep

/-! ### The entry that an event makes -/

/-- The name is the final one, and is told or going to be told. -/
structure Current (l : Listener κ) (pid : Pid) (name : String) : Prop extends
    Fresh l pid name where
  heard : l.Heard pid name

omit [DecidableEq κ] in
theorem Scanned.current (h : Scanned l pid name) : Current l pid name := by
  refine ⟨h.toFresh, ?_⟩
  rcases h.entry with hrescan | hheld | htold
  · exact .inr (.inl hrescan)
  · exact .inr (.inr (.inl hheld))
  · exact .inl htold

theorem event_of_awaits {cpu : Cpu} (h : cpu.awaits = some pid) : cpu.event = none := by
  cases cpu with
  | idle | started | timed => rfl
  | filled | wrotePid | ready => cases h

/-- A handler that has just read `prev_pid` has an event that tells the process, unless it has found
the process there. -/
theorem inFlight_of_awaits {w w' : World κ} {act : Events.Act κ} {c : κ}
    (hawaits : (w.cpu c).awaits = some pid) (hstep : Events.step w act = some w')
    (hnot : (w'.cpu c).awaits ≠ some pid) :
    act = .readPid c ∧ ∃ program ts deltaUs, w.cpu c = .timed program pid ts deltaUs ∧
      (w.prevPid program ≠ pid → InFlight w' pid) := by
  obtain ⟨event, hevent, hown⟩ := (Events.awaits_or_event hstep hawaits).resolve_left hnot
  rcases Events.event_of_step hstep hevent with hbefore | ⟨rfl, program, ts, hcpu, hprev⟩
  · rw [event_of_awaits hawaits] at hbefore
    cases hbefore
  · rw [hown] at hcpu
    exact ⟨rfl, program, ts, event.deltaUs, hcpu,
      fun hne => .inr (.inr ⟨c, event, hevent, hown, hprev ▸ hne⟩)⟩

/-- What is ahead stays ahead, unless the step loses it. -/
theorem EventAhead.step {act : Events.Act κ} {w : World κ} (h : l.EventAhead pid) (hpid : pid ≠ 0)
    (hpush : act ≠ .push) (hworld : Events.step l.world act = some w) :
    l.Loses pid (.events act) ∨ EventAhead { l with world := w } pid := by
  rcases h with ⟨c, hc⟩ | hflight
  · by_cases hawaits : (w.cpu c).awaits = some pid
    · exact .inr (.inl ⟨c, hawaits⟩)
    · obtain ⟨rfl, program, ts, deltaUs, hcpu, hread⟩ := inFlight_of_awaits hc hworld hawaits
      by_cases hprev : l.world.prevPid program = pid
      · exact .inl ⟨program, ts, deltaUs, hcpu, hprev⟩
      · exact .inr (.inr (hread hprev))
  · by_cases hlost : l.Loses pid (.events act)
    · exact .inl hlost
    · have hkept (c : κ) (event : Event) (ha : act = .output c false)
          (hcpu : l.world.cpu c = .ready event) : ¬event.Tells pid := by
        rintro htells
        subst ha
        exact hlost ⟨event, hcpu, htells⟩
      rcases hflight.step_of_kept hpid hkept hworld with hflight | ⟨deltaUs, hpushed⟩
      · exact .inr (.inr hflight)
      · have hsame := processes_of_events hpush hworld
        rw [World.processes, hpushed, List.map_append] at hsame
        exact absurd hsame (by simp [World.processes])

omit [DecidableEq κ] in
/-- The event whose name is read becomes the entry of its process. -/
theorem EventAhead.read {event : Event} (h : l.EventAhead pid) (hname : l.world.names pid = name)
    (hreading : l.world.reading = some event) :
    InHand (l.take .listener (eventEntry l.world event)) pid name ∨
      EventAhead { l.take .listener (eventEntry l.world event) with
        world := endReading l.world } pid := by
  rcases h with hawaits | ⟨e, he, hown⟩ | hflight
  · exact .inr (.inl hawaits)
  · obtain rfl : event = e := Option.some.inj (hreading.symm.trans he)
    refine .inl (inHand_take .listener hown (.inr ?_))
    rw [← hname, ← hown]
    rfl
  · exact .inr (.inr (.inr hflight))

/-- **The step lemma.** -/
theorem Current.step {a : Act κ} (h : Current l pid name) (hpid : pid ≠ 0) (ha : ¬a.Concerns pid)
    (hlists : a.Lists pid) (hmissed : ¬Missed pid name l a) (hstep : Listener.step l a = some m) :
    Current m pid name := by
  have hfresh : Fresh m pid name := h.toFresh.step ha hstep
  have hscanned (hentry : l.RescanAhead pid ∨ l.InHand pid name ∨ l.Told pid name) :
      Current m pid name :=
    (Scanned.step ⟨h.toFresh, hentry⟩ ha hlists hstep).current
  rcases h.heard with htold | hrescan | hheld | hevent
  · exact hscanned (.inr (.inr htold))
  · exact hscanned (.inl hrescan)
  · exact hscanned (.inr (.inl hheld))
  · refine ⟨hfresh, ?_⟩
    cases step_spec hstep with
    | events hpush hworld =>
      rcases hevent.step hpid hpush hworld with hloses | hevent
      · -- a notice that is lost is missed, unless there is another one
        by_contra hnot
        refine hmissed ⟨hloses, fun m hm => ?_⟩
        obtain rfl := Option.some.inj (hstep.symm.trans hm)
        exact hnot
      · exact .inr (.inr (.inr hevent))
    | read hreading _ =>
      rcases hevent.read h.named hreading with hheld | hevent
      · exact .inr (.inr (.inl hheld))
      · exact .inr (.inr (.inr hevent))
    | restart => exact .inr (.inl (.inl rfl))
    | _ => exact .inr (.inr (.inr hevent))

/-- **The run lemma.** -/
theorem Current.run {acts : List (Act κ)} (h : Current l pid name) (hpid : pid ≠ 0)
    (hacts : ∀ a ∈ acts, ¬a.Concerns pid) (hlists : ∀ a ∈ acts, a.Lists pid)
    (hmissed : Transition.EveryStep Listener.step (fun l a => ¬Missed pid name l a) l acts)
    (hrun : Transition.run Listener.step l acts = some m) : Current m pid name := by
  induction acts generalizing l with
  | nil =>
    obtain rfl : l = m := Option.some.inj hrun
    exact h
  | cons a acts ih =>
    obtain ⟨s, hstep, hrest⟩ := Transition.run_cons_eq_some_iff.mp hrun
    obtain ⟨ha, hrestMissed⟩ := hmissed s hstep
    have hs : Current s pid name :=
      h.step hpid (hacts a List.mem_cons_self) (hlists a List.mem_cons_self) ha hstep
    exact ih hs (fun b hb => hacts b (List.mem_cons_of_mem a hb))
      (fun b hb => hlists b (List.mem_cons_of_mem a hb)) hrestMissed hrest

/-- The name that an `exec` gives a process is going to be told exactly when the `exec` is not
missed. An `exec` whose program is attached starts a handler. -/
theorem heard_exec_iff {c : κ} (hstep : step l (.events (.exec c pid name)) = some m) :
    m.Heard pid name ↔ ¬Missed pid name l (.events (.exec c pid name)) := by
  constructor
  · rintro hheard ⟨-, hmissed⟩
    exact hmissed m hstep hheard
  · intro hmissed
    cases step_spec hstep with
    | events _ hworld =>
      cases Events.step_spec hworld with
      | exec =>
        exact .inr (.inr (.inr (.inl ⟨c, congrArg Cpu.awaits (Events.cpu_setCpu_self ..)⟩)))
    | execUnattached hattached =>
      by_contra hnot
      refine hmissed ⟨⟨rfl, hattached⟩, fun m hm => ?_⟩
      obtain rfl := Option.some.inj (hstep.symm.trans hm)
      exact hnot

/-- The process has the name that an `exec` gives it. -/
theorem names_exec {c : κ} (hstep : step l (.events (.exec c pid name)) = some m) :
    m.world.names pid = name := by
  cases step_spec hstep with
  | events _ hworld =>
    cases Events.step_spec hworld with
    | exec => exact Function.update_self ..
  | execUnattached => exact Function.update_self ..

omit [DecidableEq κ] in
/-- When everything has been handled, nothing is ahead. -/
theorem Settled.not_ahead (h : l.Settled) : ¬l.Ahead pid name := by
  obtain ⟨hworld, hphase, hhand⟩ := h
  rintro ((hahead | ⟨pids, hahead, -⟩) | ⟨pusher, entry, hheld, -⟩ | ⟨c, hc⟩ | hflight)
  · rw [hphase] at hahead
    cases hahead
  · rw [hphase] at hahead
    cases hahead
  · rw [hhand pusher] at hheld
    cases hheld
  · rw [hworld.cpu c] at hc
    cases hc
  · exact Events.not_inFlight_of_settled hworld hflight

/-! ### The missed name -/

/-- Nothing is going to tell the process. -/
structure Quiet (l : Listener κ) (pid : Pid) : Prop where
  scan : ¬l.RescanAhead pid
  hand : ∀ pusher entry, l.hand pusher = some entry → entry.process.pid ≠ pid
  event : ¬l.EventAhead pid

omit [DecidableEq κ] in
theorem Fresh.quiet (h : Fresh l pid name) (hahead : ¬l.Ahead pid name) : Quiet l pid := by
  obtain ⟨hrescan, hahead⟩ := not_or.mp hahead
  obtain ⟨hheld, hevent⟩ := not_or.mp hahead
  refine ⟨hrescan, fun pusher entry hhand hown => hheld ?_, hevent⟩
  exact ⟨pusher, entry, hhand, hown, h.hand pusher entry hhand hown⟩

omit [DecidableEq κ] in
/-- An entry of another process is made. -/
theorem Quiet.take (h : Quiet l pid) (pusher : Pusher) {entry : Entry}
    (hne : entry.process.pid ≠ pid) :
    ∀ pusher' entry', (l.take pusher entry).hand pusher' = some entry' →
      entry'.process.pid ≠ pid := by
  intro pusher' entry' hheld
  rcases Pusher.hand_take hheld with hheld | rfl
  · exact h.hand pusher' entry' hheld
  · exact hne

/-- A step that does not concern the process, and starts no scan that reads it, leaves it quiet and
makes no entry for it. -/
theorem Quiet.step {a : Act κ} (h : Quiet l pid) (ha : ¬a.Concerns pid) (hrestart : a ≠ .restart)
    (hread : a ≠ .readManually pid) (hstep : Listener.step l a = some m) :
    Quiet m pid ∧
      Netlink.lastEntry pid m.processes = Netlink.lastEntry pid l.processes := by
  obtain ⟨hstarting, hscanning⟩ := not_or.mp h.scan
  cases step_spec hstep with
  | events _ hworld =>
    obtain ⟨hawaits, hflight⟩ := not_or.mp h.event
    have hmute : Events.Mute l.world pid := ⟨hflight, fun c hc => hawaits ⟨c, hc⟩⟩
    obtain ⟨⟨hflight, hawaits⟩, hentry⟩ := hmute.step ha hworld
    exact ⟨⟨h.scan, h.hand, not_or.mpr ⟨fun ⟨c, hc⟩ => hawaits c hc, hflight⟩⟩, hentry⟩
  | execUnattached => exact ⟨⟨h.scan, h.hand, h.event⟩, rfl⟩
  | forkUnattached => exact ⟨⟨h.scan, h.hand, h.event⟩, rfl⟩
  | @read event hreading hhand =>
    obtain ⟨hawaits, hflight⟩ := not_or.mp h.event
    obtain ⟨hnext, hflight⟩ := not_or.mp hflight
    have hne : event.pid ≠ pid := fun hown => hnext ⟨event, hreading, hown⟩
    refine ⟨⟨h.scan, h.take .listener hne, not_or.mpr ⟨hawaits, ?_⟩⟩, rfl⟩
    exact not_or.mpr ⟨fun ⟨e, he, _⟩ => (nomatch he), hflight⟩
  | restart => exact absurd rfl hrestart
  | beginScan hphase => exact absurd hphase hstarting
  | @scan next pids hphase hhand =>
    obtain ⟨hne, hnot⟩ := not_or.mp fun hmem => hscanning ⟨_, hphase, List.mem_cons.mpr hmem⟩
    refine ⟨⟨?_, h.take .listener (Ne.symm hne), h.event⟩, rfl⟩
    rintro (hbad | ⟨pids', hbad, hmem⟩)
    · cases hbad
    · cases hbad
      exact hnot hmem
  | attach => exact ⟨⟨h.scan, h.hand, h.event⟩, rfl⟩
  | connect =>
    refine ⟨⟨?_, h.hand, h.event⟩, rfl⟩
    rintro (hbad | ⟨pids, hbad, -⟩) <;> cases hbad
  | stop =>
    refine ⟨⟨?_, h.hand, h.event⟩, rfl⟩
    rintro (hbad | ⟨pids, hbad, -⟩) <;> cases hbad
  | @readManually next hhand =>
    have hne : next ≠ pid := fun hown => hread (congrArg Act.readManually hown)
    exact ⟨⟨h.scan, h.take .manual hne, h.event⟩, rfl⟩
  | @push pusher entry hhand =>
    refine ⟨⟨h.scan, fun pusher' entry' hheld => ?_, h.event⟩, ?_⟩
    · exact h.hand pusher' entry' (Pusher.hand_push hheld)
    · rw [processes, processes_pushEntry]
      exact Netlink.lastEntry_append_of_ne (h.hand pusher entry hhand) _ _

/-- **The run lemma for a quiet process.** -/
theorem Quiet.run {acts : List (Act κ)} (h : Quiet l pid) (hacts : ∀ a ∈ acts, ¬a.Concerns pid)
    (hrestart : .restart ∉ acts) (hread : .readManually pid ∉ acts)
    (hrun : Transition.run Listener.step l acts = some m) :
    Netlink.lastEntry pid m.processes = Netlink.lastEntry pid l.processes := by
  refine (Transition.run_invariant
    (fun m => Quiet m pid ∧
      Netlink.lastEntry pid m.processes = Netlink.lastEntry pid l.processes)
    (fun s a ha t hs hstep => ?_) ⟨h, rfl⟩ hrun).2
  obtain ⟨hquiet, hentry⟩ := hs.1.step (hacts a ha) (fun h => hrestart (h ▸ ha))
    (fun h => hread (h ▸ ha)) hstep
  exact ⟨hquiet, hentry.trans hs.2⟩

/-! ### The last entry -/

/-- When everything has been handled, the last entry of the process carries its name, if the name
was told or going to be told and no step has missed it, or an error of a poll or a scan of `main`
has made up for it. -/
theorem told_of_heard {acts : List (Act κ)} (h : Fresh l pid name) (hpid : pid ≠ 0)
    (hrun : Transition.run step l acts = some m) (hacts : ∀ a ∈ acts, ¬a.Concerns pid)
    (hlists : ∀ a ∈ acts, a.Lists pid) (hsettled : m.Settled)
    (hheard : l.Heard pid name ∧
        Transition.EveryStep step (fun l a => ¬Missed pid name l a) l acts ∨
      .restart ∈ acts ∨ .readManually pid ∈ acts) : m.Told pid name := by
  rcases hheard with ⟨hheard, hevery⟩ | hrescan
  · have hm : Current m pid name := Current.run ⟨h, hheard⟩ hpid hacts hlists hevery hrun
    exact hm.heard.resolve_right hsettled.not_ahead
  · have hm : Scanned m pid name := scanned_of_rescan h hacts hlists hrescan hrun
    exact hm.current.heard.resolve_right hsettled.not_ahead

/-- A name that is not going to be told is not told later on. -/
theorem not_told_of_not_heard {acts : List (Act κ)} (h : Fresh l pid name)
    (hrun : Transition.run step l acts = some m) (hacts : ∀ a ∈ acts, ¬a.Concerns pid)
    (hrestart : .restart ∉ acts) (hread : .readManually pid ∉ acts)
    (hheard : ¬l.Heard pid name) : ¬m.Told pid name := by
  obtain ⟨htold, hahead⟩ := not_or.mp hheard
  rw [Told, (h.quiet hahead).run hacts hrestart hread hrun]
  exact htold

/-- Nor is a name that a step has missed. -/
theorem not_told_of_missed {acts : List (Act κ)} (h : Fresh l pid name)
    (hrun : Transition.run step l acts = some m) (hacts : ∀ a ∈ acts, ¬a.Concerns pid)
    (hrestart : .restart ∉ acts) (hread : .readManually pid ∉ acts)
    (hevery : ¬Transition.EveryStep step (fun l a => ¬Missed pid name l a) l acts) :
    ¬m.Told pid name := by
  intro htold
  refine hevery (Transition.everyStep_iff.mpr ?_)
  rintro before a after t u rfl hbefore ha ⟨-, hmissed⟩
  obtain ⟨t', u', ht', hu', hafter⟩ := Transition.run_append_cons_eq_some_iff.mp hrun
  obtain rfl := Option.some.inj (hbefore.symm.trans ht')
  obtain rfl := Option.some.inj (ha.symm.trans hu')
  have hmem (b : Act κ) (hb : b ∈ after) : b ∈ before ++ a :: after :=
    List.mem_append_right before (List.mem_cons_of_mem a hb)
  have hfresh : Fresh u pid name := by
    refine Fresh.step ?_ (hacts a (List.mem_append_right _ List.mem_cons_self)) ha
    exact h.run (fun b hb => hacts b (List.mem_append_left _ hb)) hbefore
  exact not_told_of_not_heard hfresh hafter (fun b hb => hacts b (hmem b hb))
    (fun h => hrestart (hmem _ h)) (fun h => hread (hmem _ h)) (hmissed u ha) htold

/-- **The last entry.** Consider the last `exec` of a process in a run of the listener, after which
no handler for it starts, and a later state in which no thread holds an entry with an older name of
the process, and let every later scan of `/proc` list the process. Behind the `exec` the name that
it gave is going to be told exactly when the `exec` was not missed. When everything has been
handled, the last entry of the process carries the name if and only if in that state it did so or
was going to, and no later step has missed it, or an error of a poll or a scan of `main` has made up
for it since. -/
theorem told_iff {c : κ} {l' k : Listener κ} {held after : List (Act κ)} (hpid : pid ≠ 0)
    (hexec : step l (.events (.exec c pid name)) = some l')
    (hheld : Transition.run step l' held = some k) (hafter : Transition.run step k after = some m)
    (hlast : ∀ a ∈ held ++ after, ¬a.Concerns pid) (hlists : ∀ a ∈ after, a.Lists pid)
    (hhand : ∀ pusher entry, k.hand pusher = some entry → entry.process.pid = pid →
      Carries name entry.process)
    (hsettled : m.Settled) :
    (l'.Heard pid name ↔ ¬Missed pid name l (.events (.exec c pid name))) ∧
      (m.Told pid name ↔
        k.Heard pid name ∧
            Transition.EveryStep step (fun l a => ¬Missed pid name l a) k after ∨
          .restart ∈ after ∨ .readManually pid ∈ after) := by
  have hnamed : k.world.names pid = name :=
    Transition.run_invariant (fun k => k.world.names pid = name)
      (fun s a ha t hs hstep =>
        (names_of_step (hlast a (List.mem_append_left _ ha)) hstep).trans hs)
      (names_exec hexec) hheld
  have hfresh : Fresh k pid name := ⟨hnamed, hhand⟩
  have hconcerns (a : Act κ) (ha : a ∈ after) : ¬a.Concerns pid :=
    hlast a (List.mem_append_right _ ha)
  refine ⟨heard_exec_iff hexec, fun htold => ?_, ?_⟩
  · by_contra hnot
    obtain ⟨hheard, hrescan⟩ := not_or.mp hnot
    obtain ⟨hrestart, hread⟩ := not_or.mp hrescan
    rcases not_and_or.mp hheard with hheard | hevery
    · exact not_told_of_not_heard hfresh hafter hconcerns hrestart hread hheard htold
    · exact not_told_of_missed hfresh hafter hconcerns hrestart hread hevery htold
  · exact told_of_heard hfresh hpid hafter hconcerns hlists hsettled

/-- Process 5 called `exec` before there was a perf buffer. -/
def sampleListener : Listener Bool where
  world := { World.start fun _ => "sh" with prevPid := fun _ => 5 }
  phase := .handling
  attached := fun _ => true
  hand := fun _ => none

/-- The event of its next `exec` is skipped, and a scan of `main` pushes the name from before. An
error of a poll makes up for both. -/
theorem told_iff_sample : ∃ l k m, step sampleListener (.readManually 5) = some l ∧
    Transition.run step l [.events (.exec true 5 "cc"), .push .manual] = some k ∧
    Transition.run step k [.events (.readTs true 2000), .events (.readPid true),
      .events (.writePid true), .events (.writeTs true), .events (.output true true),
      .events (.receive true), .restart, .beginScan [5], .scan, .push .listener, .attach .exec,
      .attach .fork, .connect] = some m ∧ m.Told 5 "cc" := by
  have hentry := told_iff (by decide)
    (show step (sampleListener.take .manual (scanEntry sampleListener.world 5))
      (.events (.exec true 5 "cc")) = some _ from rfl)
    (show Transition.run step _ [.push .manual] = some _ from rfl)
    (show Transition.run step _ [.events (.readTs true 2000), .events (.readPid true),
      .events (.writePid true), .events (.writeTs true), .events (.output true true),
      .events (.receive true), .restart, .beginScan [5], .scan, .push .listener, .attach .exec,
      .attach .fork, .connect] = some _ from rfl)
    (by simp [Act.Concerns, Events.Act.Concerns]) (by simp [Act.Lists])
    (by rintro ⟨⟩ entry ⟨⟩) ⟨⟨fun _ => rfl, fun _ => rfl, rfl⟩, rfl, by rintro ⟨⟩ <;> rfl⟩
  exact ⟨_, _, _, rfl, rfl, rfl, hentry.2.mpr (.inr (.inl (by simp)))⟩

/-- Without the error the name is missed. -/
example : (Transition.run step (start fun _ => "sh" : Listener Bool) [.beginScan [5], .scan,
    .push .listener, .attach .exec, .events (.exec true 5 "make"), .events (.readTs true 1000),
    .events (.readPid true), .events (.writePid true), .events (.writeTs true),
    .events (.output true false), .attach .fork, .connect, .events (.exec true 5 "cc"),
    .events (.readTs true 2000), .events (.readPid true), .events (.writePid true),
    .events (.writeTs true), .events (.output true true), .events (.receive true)]).map
      (fun l => Netlink.lastEntry 5 l.processes) = some (some ⟨5, "sh"⟩) := by decide +kernel

end Listener

end Bpf

end AnanicyCpp
