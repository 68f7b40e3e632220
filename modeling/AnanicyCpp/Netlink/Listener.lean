import AnanicyCpp.Library.Transition
import AnanicyCpp.Netlink.Events

/-!
# The listener

The whole netlink back end of the `ProcessQueue`: `init` scans `/proc` and then subscribes to the
process events, `handle_events` receives them, and after a failure of the socket, an overrun above
all, the event thread destroys it and calls `init` again. With `--manual-scanning` a scan of `main`
runs beside the event thread. Each of the two threads reads a name in one step and pushes the entry
in another, so an entry may be pushed behind one that was read later. What an initialisation leaves
behind when a call in it fails is the subject of `Netlink.Program`: here a socket that could not be
opened is one that fails at once, a subscription that was not sent leaves nothing to receive from,
and a null object, which ends the program, ends the listener.

A scan comes before the subscription, so a process that calls `exec` when the scan has read it and
the socket is not yet there is missed, and so is one whose event the filter suppresses; the next
scan makes up for both. A thread that has read the name before the `exec` and pushes the entry
behind the new one undoes it. `Netlink.Listener.lastEntry_eq` says exactly when the last entry of a
process comes to carry the name that its last `EXEC` gave it.

## Main definitions

* `Netlink.Listener`, `Netlink.Listener.step` : the processes, the event thread and the scans of
  `main`.
* `Netlink.Listener.Missed` : an `EXEC` of the process would be missed.
* `Netlink.Listener.Fresh` : no thread holds an entry with an older name.
* `Netlink.Listener.Heard` : the name is told, or is going to be.

## Main results

* `Netlink.Listener.ahead_exec_iff` : what is ahead behind an `EXEC`.
* `Netlink.Listener.Current.step`, `Netlink.Listener.Quiet.step` : the final name is there or on its
  way, or is not told any more.
* `Netlink.Listener.lastEntry_eq` : the last entry in every run.
-/

namespace AnanicyCpp

namespace Netlink

/-- Where the thread that has the socket stands, which is `main` in the constructor and the event
thread later: in front of the scan of `init`, in the scan with the processes still to be read, in
`handle_events`, or where nothing is received any more. -/
inductive Phase where
  | starting
  | scanning (pids : List Pid)
  | handling
  | ended
deriving DecidableEq

/-- The processes, the socket and the handler; whether an event was dropped because the socket was
full; and the entries that the threads have read and not pushed yet. -/
structure Listener where
  world : World
  phase : Phase
  overrun : Bool
  hand : Pusher → Option Process

namespace Listener

/-- What can happen. `kernel` is a step of the processes, whose event finds room in the socket or
not. The directory entries that a scan goes through are given when it begins. -/
inductive Act where
  | kernel (act : Netlink.Act) (delivered : Bool)
  | receive
  | read
  | restart
  | beginScan (pids : List Pid)
  | scan
  | connect (succeeded : Bool)
  | stop
  | readManually (pid : Pid)
  | push (pusher : Pusher)
deriving DecidableEq

/-- The step is one of the processes. -/
def Act.isKernel : Netlink.Act → Bool
  | .receive | .push => false
  | _ => true

/-- A step of the processes whose event is not sent to the socket. -/
def unheard (w : World) (act : Netlink.Act) : World :=
  { Netlink.step w act with socket := w.socket }

/-- An entry that is pushed to the queue. -/
def pushEntry (w : World) (p : Process) : World :=
  { w with handler := { w.handler with pushed := w.handler.pushed ++ [p] } }

/-- The name that was to be read is read. -/
def endReading (w : World) : World := { w with handler := { w.handler with reading := none } }

/-- A thread reads the name of a process. -/
def take (l : Listener) (pusher : Pusher) (pid : Pid) : Listener :=
  { l with hand := Function.update l.hand pusher (some ⟨pid, l.world.names pid⟩) }

/-- A step of the listener. An overrun is reported in place of the next message, and is a failure of
the socket like any other. A thread pushes its entry before it does anything else. -/
def step (l : Listener) : Act → Option Listener
  | .kernel act delivered =>
      if !Act.isKernel act then none
      else if l.phase ≠ .handling then some { l with world := unheard l.world act }
      else if delivered then some { l with world := Netlink.step l.world act }
      else some { l with world := unheard l.world act, overrun := true }
  | .receive =>
      if l.phase = .handling ∧ l.overrun = false ∧ l.hand .listener = none then
        some { l with world := Netlink.step l.world .receive }
      else none
  | .read =>
      match l.world.handler.reading with
      | some pid =>
          if l.phase = .handling ∧ l.hand .listener = none then
            some { l.take .listener pid with world := endReading l.world }
          else none
      | none => none
  | .restart =>
      if l.phase = .handling ∧ l.world.handler.reading = none ∧ l.hand .listener = none then
        some { l with phase := .starting, world := { l.world with socket := [] }, overrun := false }
      else none
  | .beginScan pids => if l.phase = .starting then some { l with phase := .scanning pids } else none
  | .scan =>
      match l.phase with
      | .scanning (pid :: pids) =>
          if l.hand .listener = none then some { l.take .listener pid with phase := .scanning pids }
          else none
      | _ => none
  | .connect succeeded =>
      if l.phase = .scanning [] ∧ l.hand .listener = none then
        some { l with phase := if succeeded then .handling else .ended }
      else none
  | .stop =>
      if l.phase = .handling ∧ l.world.handler.reading = none ∧ l.hand .listener = none then
        some { l with phase := .ended }
      else none
  | .readManually pid => if l.hand .manual = none then some (l.take .manual pid) else none
  | .push pusher =>
      match l.hand pusher with
      | some p => some { l with
          world := pushEntry l.world p
          hand := Function.update l.hand pusher none }
      | none => none

/-- What was pushed to the queue, oldest first. -/
def pushed (l : Listener) : List Process := l.world.handler.pushed

/-- Before the constructor. -/
def start (names : Pid → String) : Listener := ⟨.start names, .starting, false, fun _ => none⟩

/-- The step gives the process a name. -/
def Act.Names (pid : Pid) : Act → Prop
  | .kernel act _ => act.Names pid
  | _ => False

/-- The step sends an event of the process. -/
def Act.Sends (pid : Pid) : Act → Prop
  | .kernel act _ => act.Sends pid
  | _ => False

/-- A directory listing of `/proc` contains the process. -/
def Act.Lists (pid : Pid) : Act → Prop
  | .beginScan pids => pid ∈ pids
  | _ => True

/-- The scan of `init` is still going to read the process, if it finds it in `/proc`. -/
def RescanAhead (l : Listener) (pid : Pid) : Prop :=
  l.overrun = true ∨ l.phase = .starting ∨ ∃ pids, l.phase = .scanning pids ∧ pid ∈ pids

/-- The name of the process is about to be read, or an event that leads to this is in flight. -/
def EventAhead (l : Listener) (pid : Pid) : Prop :=
  l.phase ≠ .ended ∧
    (l.world.handler.reading = some pid ∨ Admits pid l.world.handler.prevPid l.world.socket)

/-- A scan or an event is going to tell the name, or a thread that has read it. -/
def Ahead (l : Listener) (pid : Pid) (name : String) : Prop :=
  l.RescanAhead pid ∨ (∃ pusher, l.hand pusher = some ⟨pid, name⟩) ∨ l.EventAhead pid

/-- The last entry of the process carries the name, or something is going to tell it. -/
def Heard (l : Listener) (pid : Pid) (name : String) : Prop :=
  lastEntry pid l.pushed = some ⟨pid, name⟩ ∨ l.Ahead pid name

/-- An `EXEC` of the process would be missed: no scan is ahead, no thread has read the name by
chance, and either there is no socket to receive the event from, or the event reaches the filter,
which is about to suppress it. -/
def Missed (l : Listener) (pid : Pid) (name : String) (delivered : Bool) : Prop :=
  ¬l.RescanAhead pid ∧ (∀ pusher, l.hand pusher ≠ some ⟨pid, name⟩) ∧
    (l.phase = .handling → delivered = true ∧ Shadowed l.world pid)

/-- Everything that was sent, read or dropped has been handled. -/
def Settled (l : Listener) : Prop :=
  Netlink.Settled l.world ∧ l.phase = .handling ∧ l.overrun = false ∧ ∀ pusher, l.hand pusher = none

/-! ### What a step does -/

/-- The steps with what they find and what they do. -/
inductive Step : Listener → Act → Listener → Prop
  | unheard {l act delivered} (hphase : l.phase ≠ .handling) :
      Step l (.kernel act delivered) { l with world := unheard l.world act }
  | delivered {l act} (hphase : l.phase = .handling) :
      Step l (.kernel act true) { l with world := Netlink.step l.world act }
  | dropped {l act} (hphase : l.phase = .handling) :
      Step l (.kernel act false) { l with world := Listener.unheard l.world act, overrun := true }
  | receive {l} (hphase : l.phase = .handling) :
      Step l .receive { l with world := Netlink.step l.world .receive }
  | read {l pid} (hreading : l.world.handler.reading = some pid) (hphase : l.phase = .handling)
      (hhand : l.hand .listener = none) :
      Step l .read { l.take .listener pid with world := endReading l.world }
  | restart {l} (hreading : l.world.handler.reading = none) :
      Step l .restart
        { l with phase := .starting, world := { l.world with socket := [] }, overrun := false }
  | beginScan {l pids} (hphase : l.phase = .starting) :
      Step l (.beginScan pids) { l with phase := .scanning pids }
  | scan {l pid pids} (hphase : l.phase = .scanning (pid :: pids))
      (hhand : l.hand .listener = none) :
      Step l .scan { l.take .listener pid with phase := .scanning pids }
  | connect {l succeeded} (hphase : l.phase = .scanning []) :
      Step l (.connect succeeded) { l with phase := if succeeded then .handling else .ended }
  | stop {l} (hphase : l.phase = .handling) : Step l .stop { l with phase := .ended }
  | readManually {l pid} (hhand : l.hand .manual = none) :
      Step l (.readManually pid) (l.take .manual pid)
  | push {l pusher p} (hhand : l.hand pusher = some p) :
      Step l (.push pusher) { l with
        world := pushEntry l.world p
        hand := Function.update l.hand pusher none }

variable {l m : Listener} {pid : Pid} {name : String} {pusher : Pusher}

theorem step_spec {a : Act} (h : step l a = some m) : Step l a m := by
  revert h
  fun_cases step l a with
  | case2 act delivered hkernel hphase => rintro ⟨⟩; exact .unheard hphase
  | case3 act hkernel hphase => rintro ⟨⟩; exact .delivered (not_not.mp hphase)
  | case4 act delivered hkernel hphase hdelivered =>
    rintro ⟨⟩
    obtain rfl : delivered = false := by simpa using hdelivered
    exact .dropped (not_not.mp hphase)
  | case5 hphase => rintro ⟨⟩; exact .receive hphase.1
  | case7 pid hreading hphase => rintro ⟨⟩; exact .read hreading hphase.1 hphase.2
  | case10 hphase => rintro ⟨⟩; exact .restart hphase.2.1
  | case12 pids hphase => rintro ⟨⟩; exact .beginScan hphase
  | case14 pid pids hphase hhand => rintro ⟨⟩; exact .scan hphase hhand
  | case17 succeeded hphase => rintro ⟨⟩; exact .connect hphase.1
  | case19 hphase => rintro ⟨⟩; exact .stop hphase.1
  | case21 pid hhand => rintro ⟨⟩; exact .readManually hhand
  | case23 pusher p hhand => rintro ⟨⟩; exact .push hhand
  | _ => rintro ⟨⟩

/-! ### Kernel steps and entries -/

theorem names_step {w : World} {act : Netlink.Act} (hact : ¬act.Names pid) :
    (Netlink.step w act).names pid = w.names pid := by
  cases act with
  | fork parent child => exact Function.update_of_ne (Ne.symm hact) _ _
  | exec pid' name' => exact Function.update_of_ne (Ne.symm hact) _ _
  | comm pid' => rfl
  | other => rfl
  | receive =>
    simp only [Netlink.step]
    split <;> rfl
  | push =>
    simp only [Netlink.step]
    split <;> rfl

theorem kernel_of_step {act : Netlink.Act} {delivered : Bool}
    (hstep : step l (.kernel act delivered) = some m) : Act.isKernel act = true := by
  by_contra hkernel
  simp [step, hkernel] at hstep

theorem handler_unheard {w : World} {act : Netlink.Act} (hkernel : Act.isKernel act = true) :
    (unheard w act).handler = w.handler := by
  cases act <;> first | rfl | cases hkernel

/-- A step that is not heard keeps the entry on its way. -/
theorem upcoming_unheard {w : World} {act : Netlink.Act} (h : Upcoming w pid name)
    (hkernel : Act.isKernel act = true) (hact : ¬act.Names pid) :
    Upcoming (unheard w act) pid name := by
  refine ⟨(names_step hact).trans h.named, ?_⟩
  rw [handler_unheard hkernel]
  exact h.entry

theorem silent_unheard {w : World} {act : Netlink.Act} (h : Silent w pid)
    (hkernel : Act.isKernel act = true) : Silent (unheard w act) pid := by
  refine ⟨?_, ?_⟩
  · rw [handler_unheard hkernel]
    exact h.reading
  · rw [handler_unheard hkernel]
    exact h.socket

theorem lastEntry_pushEntry (w : World) {p : Process} (hp : p.pid = pid) :
    lastEntry pid (pushEntry w p).handler.pushed = some p := by
  obtain ⟨pid', name'⟩ := p
  obtain rfl : pid' = pid := hp
  exact lastEntry_append_self pid' _ name'

theorem lastEntry_pushEntry_of_ne (w : World) {p : Process} (hp : p.pid ≠ pid) :
    lastEntry pid (pushEntry w p).handler.pushed = lastEntry pid w.handler.pushed :=
  lastEntry_append_of_ne hp _ p.name

/-- Entries of other processes, and entries with the name of the process, keep the entry on its
way. -/
theorem upcoming_pushEntry {w : World} {p : Process} (h : Upcoming w pid name)
    (hp : p.pid = pid → p.name = name) : Upcoming (pushEntry w p) pid name := by
  refine ⟨h.named, ?_⟩
  by_cases hpid : p.pid = pid
  · refine .inr (.inl ?_)
    rw [lastEntry_pushEntry w hpid, ← hp hpid, ← hpid]
  · rw [lastEntry_pushEntry_of_ne w hpid]
    exact h.entry

/-- The entry that is pushed carries the name. -/
theorem upcoming_of_pushEntry {w : World} {p : Process} (hname : w.names pid = name)
    (hpid : p.pid = pid) (hp : p.name = name) : Upcoming (pushEntry w p) pid name := by
  refine ⟨hname, .inr (.inl ?_)⟩
  rw [lastEntry_pushEntry w hpid, ← hp, ← hpid]

theorem pushed_netlinkStep (w : World) (act : Netlink.Act) :
    w.handler.pushed <+: (Netlink.step w act).handler.pushed := by
  cases act with
  | receive =>
    simp only [Netlink.step]
    split
    · next event socket hreading hsocket =>
      by_cases hskip : getPid event = 0 ∨ getPid event = w.handler.prevPid
      · rw [receive_of_suppressed hskip]
      · rw [receive_of_not_suppressed hskip]
    · exact List.prefix_rfl
  | push =>
    simp only [Netlink.step]
    split
    · exact List.prefix_append _ _
    · exact List.prefix_rfl
  | _ => exact List.prefix_rfl

/-- What is pushed stays pushed. -/
theorem pushed_step {a : Act} (h : step l a = some m) : l.pushed <+: m.pushed := by
  cases step_spec h with
  | unheard => exact pushed_netlinkStep l.world _
  | delivered => exact pushed_netlinkStep l.world _
  | dropped => exact pushed_netlinkStep l.world _
  | receive => exact pushed_netlinkStep l.world _
  | push => exact List.prefix_append _ _
  | _ => exact List.prefix_rfl

/-! ### The names in hand -/

/-- The process has the name, and a thread that has read the process has read this name. -/
structure Fresh (l : Listener) (pid : Pid) (name : String) : Prop where
  named : l.world.names pid = name
  hand : ∀ pusher p, l.hand pusher = some p → p.pid = pid → p.name = name

theorem Fresh.take (h : Fresh l pid name) (pusher : Pusher) (pid' : Pid) :
    ∀ pusher' p, (l.take pusher pid').hand pusher' = some p → p.pid = pid → p.name = name := by
  intro pusher' p hp hown
  rcases Pusher.hand_take hp with hp | rfl
  · exact h.hand pusher' p hp hown
  · rw [← h.named, ← hown]

theorem names_of_step {a : Act} (hact : ¬a.Names pid) (hstep : Listener.step l a = some m) :
    m.world.names pid = l.world.names pid := by
  cases step_spec hstep with
  | unheard => exact names_step hact
  | delivered => exact names_step hact
  | dropped => exact names_step hact
  | receive => exact names_step id
  | _ => rfl

theorem Fresh.step {a : Act} (h : Fresh l pid name) (hact : ¬a.Names pid)
    (hstep : Listener.step l a = some m) : Fresh m pid name := by
  refine ⟨(names_of_step hact hstep).trans h.named, ?_⟩
  cases step_spec hstep with
  | read => exact h.take .listener _
  | scan => exact h.take .listener _
  | readManually => exact h.take .manual _
  | push => exact fun pusher' p hp => h.hand pusher' p (Pusher.hand_push hp)
  | _ => exact h.hand

/-! ### The entry on its way -/

/-- The name is the final one, and a scan is going to read it, a thread has read it, or the event
thread has told it or is going to. -/
structure Current (l : Listener) (pid : Pid) (name : String) : Prop extends Fresh l pid name where
  entry : l.RescanAhead pid ∨ (∃ pusher, l.hand pusher = some ⟨pid, name⟩) ∨
    Upcoming l.world pid name

theorem Fresh.current (h : Fresh l pid name) (hheard : l.Heard pid name) :
    Current l pid name := by
  refine ⟨h, ?_⟩
  rcases hheard with htold | hrescan | hhand | ⟨-, hevent⟩
  · exact .inr (.inr ⟨h.named, .inr (.inl htold)⟩)
  · exact .inl hrescan
  · exact .inr (.inl hhand)
  · exact .inr (.inr ⟨h.named, hevent.imp_right .inr⟩)

/-- An entry in hand stays there when another thread reads a name. -/
theorem exists_hand_take (hhand : l.hand pusher = none) (pid' : Pid)
    (h : ∃ pusher, l.hand pusher = some ⟨pid, name⟩) :
    ∃ pusher', (l.take pusher pid').hand pusher' = some ⟨pid, name⟩ :=
  h.imp fun _ h => Pusher.hand_take_of_some hhand h

/-- The process is read. -/
theorem Fresh.exists_hand (h : Fresh l pid name) (pusher : Pusher) :
    ∃ pusher', (l.take pusher pid).hand pusher' = some ⟨pid, name⟩ := by
  obtain ⟨rfl, -⟩ := h
  exact ⟨pusher, Function.update_self ..⟩

/-- **The step lemma.** -/
theorem Current.step {a : Act} (h : Current l pid name) (hact : ¬a.Names pid)
    (hlists : a.Lists pid) (hstep : Listener.step l a = some m) : Current m pid name := by
  refine ⟨h.toFresh.step hact hstep, ?_⟩
  have hentry := h.entry
  have hname := h.named
  cases step_spec hstep with
  | unheard => exact hentry.imp_right (.imp_right fun hup =>
      upcoming_unheard hup (kernel_of_step hstep) hact)
  | delivered => exact hentry.imp_right (.imp_right fun hup => hup.step hact)
  | dropped => exact .inl (.inl rfl)
  | receive =>
    have hnot : ¬Netlink.Act.Names pid .receive := id
    exact hentry.imp_right (.imp_right fun hup => hup.step hnot)
  | @read next hreading hphase hhand =>
    rcases hentry with hahead | hheld | ⟨-, hentry⟩
    · exact .inl hahead
    · exact .inr (.inl (exists_hand_take hhand next hheld))
    · by_cases hown : next = pid
      · subst hown
        exact .inr (.inl (h.exists_hand .listener))
      · have hentry := hentry.resolve_left fun h => hown (Option.some.inj (hreading.symm.trans h))
        exact .inr (.inr ⟨hname, .inr hentry⟩)
  | restart => exact .inl (.inr (.inl rfl))
  | beginScan => exact .inl (.inr (.inr ⟨_, rfl, hlists⟩))
  | @scan next pids hphase hhand =>
    rcases hentry with (hoverrun | hstarting | ⟨pids', hscanning, hmem⟩) | hheld | hup
    · exact .inl (.inl hoverrun)
    · rw [hphase] at hstarting
      cases hstarting
    · rw [hphase] at hscanning
      cases hscanning
      rcases List.mem_cons.mp hmem with rfl | hmem
      · exact .inr (.inl (h.exists_hand .listener))
      · exact .inl (.inr (.inr ⟨pids, rfl, hmem⟩))
    · exact .inr (.inl (exists_hand_take hhand next hheld))
    · exact .inr (.inr hup)
  | @connect succeeded hphase =>
    rcases hentry with (hoverrun | hstarting | ⟨pids', hscanning, hmem⟩) | hentry
    · exact .inl (.inl hoverrun)
    · rw [hphase] at hstarting
      cases hstarting
    · rw [hphase] at hscanning
      cases hscanning
      cases hmem
    · exact .inr hentry
  | stop hphase =>
    rcases hentry with (hoverrun | hstarting | ⟨pids', hscanning, hmem⟩) | hentry
    · exact .inl (.inl hoverrun)
    · rw [hphase] at hstarting
      cases hstarting
    · rw [hphase] at hscanning
      cases hscanning
    · exact .inr hentry
  | readManually hhand =>
    exact hentry.imp_right (.imp_left (exists_hand_take hhand _))
  | @push pusher p hhand =>
    have hread : p.pid = pid → p.name = name := h.hand pusher p hhand
    rcases hentry with hahead | ⟨pusher', hheld⟩ | hup
    · exact .inl hahead
    · by_cases hpusher : pusher' = pusher
      · subst hpusher
        obtain rfl := Option.some.inj (hhand.symm.trans hheld)
        exact .inr (.inr (upcoming_of_pushEntry hname rfl rfl))
      · exact .inr (.inl ⟨pusher', (Function.update_of_ne hpusher ..).trans hheld⟩)
    · exact .inr (.inr (upcoming_pushEntry hup hread))

/-- **The run lemma.** -/
theorem Current.run {acts : List Act} (h : Current l pid name) (hacts : ∀ a ∈ acts, ¬a.Names pid)
    (hlists : ∀ a ∈ acts, a.Lists pid) (hrun : Transition.run Listener.step l acts = some m) :
    Current m pid name :=
  Transition.run_invariant (Current · pid name)
    (fun _ a ha _ h hstep => h.step (hacts a ha) (hlists a ha) hstep) h hrun

/-- A failure of the socket makes up for what was missed, with the scan that it leads to. -/
theorem current_restart (h : Fresh l pid name) (hstep : step l .restart = some m) :
    Current m pid name := by
  refine ⟨h.step id hstep, ?_⟩
  cases step_spec hstep with
  | restart => exact .inl (.inr (.inl rfl))

/-- A scan of `main` makes up for it, too. -/
theorem current_readManually (h : Fresh l pid name) (hstep : step l (.readManually pid) = some m) :
    Current m pid name := by
  refine ⟨h.step id hstep, ?_⟩
  cases step_spec hstep with
  | readManually => exact .inr (.inl (h.exists_hand .manual))

/-- After a failure of the socket, or a scan of `main`, the entry with the name is on its way. -/
theorem current_of_rescan {acts : List Act} (h : Fresh l pid name)
    (hacts : ∀ a ∈ acts, ¬a.Names pid) (hlists : ∀ a ∈ acts, a.Lists pid)
    (hrescan : .restart ∈ acts ∨ .readManually pid ∈ acts)
    (hrun : Transition.run step l acts = some m) : Current m pid name := by
  have hestablished (a : Act) (ha : a ∈ acts)
      (hcurrent : ∀ s t, Fresh s pid name → step s a = some t → Current t pid name) :
      Current m pid name :=
    Transition.run_established (Fresh · pid name) (Current · pid name) ha
      (fun _ b hb _ hs hstep => hs.step (hacts b hb) hstep) hcurrent
      (fun _ b hb _ hs hstep => hs.step (hacts b hb) (hlists b hb) hstep) h hrun
  rcases hrescan with hrestart | hread
  · exact hestablished .restart hrestart fun _ _ hs hstep => current_restart hs hstep
  · exact hestablished (.readManually pid) hread fun _ _ hs hstep => current_readManually hs hstep

/-- When everything has been handled, the last entry carries the name. -/
theorem lastEntry_of_current (h : Current l pid name) (hsettled : l.Settled) :
    lastEntry pid l.pushed = some ⟨pid, name⟩ := by
  obtain ⟨⟨hsocket, hreading⟩, hphase, hoverrun, hhand⟩ := hsettled
  rcases h.entry with (hahead | hahead | ⟨pids, hahead, -⟩) | ⟨pusher, hheld⟩ | ⟨-, hentry⟩
  · rw [hoverrun] at hahead
    cases hahead
  · rw [hphase] at hahead
    cases hahead
  · rw [hphase] at hahead
    cases hahead
  · rw [hhand pusher] at hheld
    cases hheld
  · rw [hsocket, hreading] at hentry
    exact (hentry.resolve_left nofun).resolve_right id

/-- The last entry, when the name is told or going to be told, or is read again. -/
theorem lastEntry_of_heard {acts : List Act} (h : Fresh l pid name)
    (hrun : Transition.run step l acts = some m) (hacts : ∀ a ∈ acts, ¬a.Names pid)
    (hlists : ∀ a ∈ acts, a.Lists pid)
    (hheard : l.Heard pid name ∨ .restart ∈ acts ∨ .readManually pid ∈ acts)
    (hsettled : m.Settled) : lastEntry pid m.pushed = some ⟨pid, name⟩ := by
  rcases hheard with hheard | hrescan
  · exact lastEntry_of_current ((h.current hheard).run hacts hlists hrun) hsettled
  · exact lastEntry_of_current (current_of_rescan h hacts hlists hrescan hrun) hsettled

/-! ### The missed name -/

/-- Nothing is going to tell the name of the process. Behind `handle_events` nothing is received,
whatever there is in the socket. -/
structure Quiet (l : Listener) (pid : Pid) : Prop where
  silent : l.phase ≠ .ended → Silent l.world pid
  starting : l.phase ≠ .starting
  scanning : ∀ pids, l.phase = .scanning pids → pid ∉ pids
  hand : ∀ pusher p, l.hand pusher = some p → p.pid ≠ pid

/-- Another process is read. -/
theorem Quiet.take (h : Quiet l pid) (pusher : Pusher) {pid' : Pid} (hne : pid' ≠ pid) :
    ∀ pusher' p, (l.take pusher pid').hand pusher' = some p → p.pid ≠ pid := by
  intro pusher' p hp
  rcases Pusher.hand_take hp with hp | rfl
  · exact h.hand pusher' p hp
  · exact hne

theorem Fresh.quiet (h : Fresh l pid name) (hahead : ¬l.Ahead pid name) : Quiet l pid := by
  obtain ⟨hrescan, hahead⟩ := not_or.mp hahead
  obtain ⟨hheld, hevent⟩ := not_or.mp hahead
  obtain ⟨-, hrescan⟩ := not_or.mp hrescan
  obtain ⟨hstarting, hscanning⟩ := not_or.mp hrescan
  refine ⟨fun hended => ?_, hstarting, fun pids hphase hmem => hscanning ⟨pids, hphase, hmem⟩, ?_⟩
  · obtain ⟨hreading, hadmits⟩ := not_or.mp fun hahead => hevent ⟨hended, hahead⟩
    exact ⟨hreading, hadmits⟩
  · rintro pusher ⟨pid', name'⟩ hp rfl
    obtain rfl : name' = name := h.hand pusher _ hp rfl
    exact hheld ⟨pusher, hp⟩

/-- A step that sends no event of the process, and starts no scan that reads it, leaves it quiet and
makes no entry for it. -/
theorem Quiet.step {a : Act} (h : Quiet l pid) (hpid : pid ≠ 0) (hact : ¬a.Sends pid)
    (hrestart : a ≠ .restart) (hread : a ≠ .readManually pid)
    (hstep : Listener.step l a = some m) :
    Quiet m pid ∧ lastEntry pid m.pushed = lastEntry pid l.pushed := by
  have hheard {act : Netlink.Act} (hphase : l.phase = .handling) (hact : ¬act.Sends pid) :
      Quiet { l with world := Netlink.step l.world act } pid ∧
        lastEntry pid (Netlink.step l.world act).handler.pushed = lastEntry pid l.pushed := by
    have hended : l.phase ≠ .ended := by
      rw [hphase]
      nofun
    obtain ⟨hsilent, hentry⟩ := (h.silent hended).step hpid hact
    exact ⟨⟨fun _ => hsilent, h.starting, h.scanning, h.hand⟩, hentry⟩
  have hunheard {act : Netlink.Act} (hkernel : Act.isKernel act = true) (overrun : Bool) :
      Quiet { l with world := unheard l.world act, overrun } pid ∧
        lastEntry pid (unheard l.world act).handler.pushed = lastEntry pid l.pushed := by
    refine ⟨⟨fun hended => ?_, h.starting, h.scanning, h.hand⟩, ?_⟩
    · exact silent_unheard (h.silent hended) hkernel
    · rw [handler_unheard hkernel]
      rfl
  cases step_spec hstep with
  | unheard => exact hunheard (kernel_of_step hstep) _
  | delivered hphase => exact hheard hphase hact
  | dropped => exact hunheard (kernel_of_step hstep) true
  | receive hphase =>
    have hnot : ¬Netlink.Act.Sends pid .receive := id
    exact hheard hphase hnot
  | @read next hreading hphase hhand =>
    have hsilent : Silent l.world pid := h.silent (by simp [hphase])
    have hne : next ≠ pid := fun hown => hsilent.reading (hown ▸ hreading)
    exact ⟨⟨fun _ => ⟨nofun, hsilent.socket⟩, h.starting, h.scanning, h.take .listener hne⟩, rfl⟩
  | restart => exact absurd rfl hrestart
  | beginScan hphase => exact absurd hphase h.starting
  | @scan next pids hphase hhand =>
    obtain ⟨hne, hnot⟩ := not_or.mp fun hmem => h.scanning _ hphase (List.mem_cons.mpr hmem)
    have hsilent : Silent l.world pid := h.silent (by simp [hphase])
    refine ⟨⟨fun _ => hsilent, nofun, ?_, h.take .listener (Ne.symm hne)⟩, rfl⟩
    rintro pids' ⟨⟩
    exact hnot
  | @connect succeeded hphase =>
    have hsilent : Silent l.world pid := h.silent (by simp [hphase])
    refine ⟨⟨fun _ => hsilent, ?_, ?_, h.hand⟩, rfl⟩
    · cases succeeded <;> nofun
    · cases succeeded <;> nofun
  | stop => exact ⟨⟨fun hended => absurd rfl hended, nofun, nofun, h.hand⟩, rfl⟩
  | @readManually next hhand =>
    have hne : next ≠ pid := fun hown => hread (congrArg Act.readManually hown)
    exact ⟨⟨h.silent, h.starting, h.scanning, h.take .manual hne⟩, rfl⟩
  | @push pusher p hhand =>
    refine ⟨⟨fun hended => ?_, h.starting, h.scanning, fun pusher' p' hp => ?_⟩, ?_⟩
    · exact ⟨(h.silent hended).reading, (h.silent hended).socket⟩
    · exact h.hand pusher' p' (Pusher.hand_push hp)
    · exact lastEntry_pushEntry_of_ne _ (h.hand pusher p hhand)

/-- **The run lemma for a quiet process.** -/
theorem Quiet.run {acts : List Act} (h : Quiet l pid) (hpid : pid ≠ 0)
    (hacts : ∀ a ∈ acts, ¬a.Sends pid) (hrestart : .restart ∉ acts)
    (hread : .readManually pid ∉ acts) (hrun : Transition.run Listener.step l acts = some m) :
    lastEntry pid m.pushed = lastEntry pid l.pushed := by
  refine (Transition.run_invariant
    (fun m => Quiet m pid ∧ lastEntry pid m.pushed = lastEntry pid l.pushed)
    (fun s a ha t hs hstep => ?_) ⟨h, rfl⟩ hrun).2
  obtain ⟨hquiet, hentry⟩ := hs.1.step hpid (hacts a ha) (fun h => hrestart (h ▸ ha))
    (fun h => hread (h ▸ ha)) hstep
  exact ⟨hquiet, hentry.trans hs.2⟩

/-! ### The `EXEC` -/

/-- Without a socket there is nothing to receive, and no name to read. -/
def Idle (l : Listener) : Prop :=
  l.phase ≠ .handling → l.phase ≠ .ended → Netlink.Settled l.world

theorem Idle.step {a : Act} (h : Idle l) (hstep : Listener.step l a = some m) : Idle m := by
  have hwaiting (phase : Phase) (hphase : l.phase = phase) (hhandling : phase ≠ .handling)
      (hended : phase ≠ .ended) : Netlink.Settled l.world :=
    h (hphase ▸ hhandling) (hphase ▸ hended)
  cases step_spec hstep with
  | unheard hphase =>
    intro _ hended
    obtain ⟨hsocket, hreading⟩ := h hphase hended
    refine ⟨hsocket, ?_⟩
    rw [handler_unheard (kernel_of_step hstep)]
    exact hreading
  | delivered hphase => exact fun hnot => absurd hphase hnot
  | dropped hphase => exact fun hnot => absurd hphase hnot
  | receive hphase => exact fun hnot => absurd hphase hnot
  | read _ hphase => exact fun hnot => absurd hphase hnot
  | restart hreading => exact fun _ _ => ⟨rfl, hreading⟩
  | beginScan hphase => exact fun _ _ => hwaiting _ hphase nofun nofun
  | scan hphase => exact fun _ _ => hwaiting _ hphase nofun nofun
  | connect hphase => exact fun _ _ => hwaiting _ hphase nofun nofun
  | stop => exact fun _ hended => absurd rfl hended
  | readManually => exact h
  | push => exact h

/-- Without a socket no event is ahead. -/
theorem Idle.not_eventAhead (h : Idle l) (hphase : l.phase ≠ .handling) : ¬l.EventAhead pid := by
  rintro ⟨hended, hahead⟩
  obtain ⟨hsocket, hreading⟩ := h hphase hended
  rw [hsocket, hreading] at hahead
  exact hahead.elim nofun id

/-- Something is going to tell the name that an `EXEC` gives a process exactly when the `EXEC` is
not missed. -/
theorem ahead_exec_iff (hidle : Idle l) (hpid : pid ≠ 0) {delivered : Bool}
    (hstep : step l (.kernel (.exec pid name) delivered) = some m) :
    m.Ahead pid name ↔ ¬Missed l pid name delivered := by
  rw [Missed, not_and_or, not_not, not_and_or]
  simp only [not_forall, not_not]
  cases step_spec hstep with
  | unheard hphase =>
    have hevent : ¬EventAhead { l with world := unheard l.world (.exec pid name) } pid :=
      hidle.not_eventAhead hphase
    refine or_congr_right (or_congr_right ⟨fun h => absurd h hevent, ?_⟩)
    rintro ⟨hhandling, -⟩
    exact absurd hhandling hphase
  | delivered hphase =>
    refine or_congr_right (or_congr_right ?_)
    have hended : l.phase ≠ .ended := by
      rw [hphase]
      nofun
    have hexec := Netlink.ahead_exec_iff (w := l.world) hpid
    refine (and_iff_right hended).trans (hexec.trans ?_)
    exact ⟨fun hshadow => ⟨hphase, fun h => hshadow h.2⟩, fun h hshadow => h.2 ⟨rfl, hshadow⟩⟩
  | dropped hphase =>
    refine iff_of_true (.inl (.inl rfl)) (.inr (.inr ⟨hphase, ?_⟩))
    exact fun h => absurd h.1 Bool.false_ne_true

/-- The process has the name that an `EXEC` gives it. -/
theorem names_exec {delivered : Bool}
    (hstep : step l (.kernel (.exec pid name) delivered) = some m) : m.world.names pid = name := by
  have hname : (Netlink.step l.world (.exec pid name)).names pid = name := Function.update_self ..
  cases step_spec hstep with
  | _ => exact hname

/-! ### The last entry -/

theorem names_of_sends {a : Act} (h : ¬a.Sends pid) : ¬a.Names pid := by
  cases a with
  | kernel act delivered =>
    cases act with
    | fork parent child => exact h
    | exec pid' name' => exact h
    | _ => exact id
  | _ => exact id

/-- **The last entry.** Consider the last event of a process in a run of the listener from its
start, an `EXEC`, and a later state in which no thread holds an entry with an older name of the
process, and let every later scan of `/proc` list the process. Behind the `EXEC` something is going
to tell the name that it gave exactly when the `EXEC` was not missed. When everything has been
handled, the last entry of the process carries this name if and only if it did so in that state, or
something was going to tell it then, or the socket failed or a scan of `main` read the process
afterwards. If nothing was going to tell it and neither of the two happened, the last entry of the
process stays the one of that state. -/
theorem lastEntry_eq {names : Pid → String} {before held after : List Act} {delivered : Bool}
    {l' k : Listener} (hpid : pid ≠ 0)
    (hbefore : Transition.run step (start names) before = some l)
    (hexec : step l (.kernel (.exec pid name) delivered) = some l')
    (hheld : Transition.run step l' held = some k) (hafter : Transition.run step k after = some m)
    (hlast : ∀ a ∈ held ++ after, ¬a.Sends pid) (hlists : ∀ a ∈ after, a.Lists pid)
    (hhand : ∀ pusher p, k.hand pusher = some p → p.pid = pid → p.name = name) :
    (l'.Ahead pid name ↔ ¬Missed l pid name delivered) ∧
      (m.Settled → (lastEntry pid m.pushed = some ⟨pid, name⟩ ↔
        k.Heard pid name ∨ .restart ∈ after ∨ .readManually pid ∈ after)) ∧
      (¬(k.Ahead pid name ∨ .restart ∈ after ∨ .readManually pid ∈ after) →
        lastEntry pid m.pushed = lastEntry pid k.pushed) := by
  have hidle : Idle l := Transition.run_invariant Idle (fun _ _ _ _ hs hstep => hs.step hstep)
    (fun _ _ => ⟨rfl, rfl⟩) hbefore
  have hnamed : k.world.names pid = name :=
    Transition.run_invariant (fun k => k.world.names pid = name)
      (fun s a ha t hs hstep => (names_of_step
        (names_of_sends (hlast a (List.mem_append_left _ ha))) hstep).trans hs)
      (names_exec hexec) hheld
  have hfresh : Fresh k pid name := ⟨hnamed, hhand⟩
  have hsends (a : Act) (ha : a ∈ after) : ¬a.Sends pid := hlast a (List.mem_append_right _ ha)
  have hquiet (hnot : ¬(k.Ahead pid name ∨ .restart ∈ after ∨ .readManually pid ∈ after)) :
      lastEntry pid m.pushed = lastEntry pid k.pushed := by
    obtain ⟨hahead, hrescan⟩ := not_or.mp hnot
    obtain ⟨hrestart, hread⟩ := not_or.mp hrescan
    exact (hfresh.quiet hahead).run hpid hsends hrestart hread hafter
  refine ⟨ahead_exec_iff hidle hpid hexec, fun hsettled => ⟨fun hentry => ?_, ?_⟩, hquiet⟩
  · by_contra hnot
    obtain ⟨hheard, hrescan⟩ := not_or.mp hnot
    obtain ⟨htold, hahead⟩ := not_or.mp hheard
    rw [hquiet (not_or.mpr ⟨hahead, hrescan⟩)] at hentry
    exact htold hentry
  · intro hheard
    exact lastEntry_of_heard hfresh hafter (fun a ha => names_of_sends (hsends a ha)) hlists hheard
      hsettled

/-- The process calls `exec` behind the scan, which has read its name, and in front of the
subscription; a failure of the socket makes up for it. -/
theorem lastEntry_eq_sample : ∃ l k m,
    Transition.run step (start fun _ => "sh") [.beginScan [5], .scan] = some l ∧
    Transition.run step l [.kernel (.exec 5 "make") true, .push .listener] = some k ∧
    Transition.run step k [.connect true, .kernel (.comm 7) false, .restart, .beginScan [5, 7],
      .scan, .push .listener, .scan, .push .listener, .connect true] = some m ∧
    lastEntry 5 k.pushed = some ⟨5, "sh"⟩ ∧ lastEntry 5 m.pushed = some ⟨5, "make"⟩ := by
  have hbefore : Transition.run step (start fun _ => "sh") [.beginScan [5], .scan] = some _ := rfl
  have hentry := lastEntry_eq (by decide) hbefore
    (show step _ (.kernel (.exec 5 "make") true) = some _ from rfl)
    (show Transition.run step _ [.push .listener] = some _ from rfl)
    (show Transition.run step _ [.connect true, .kernel (.comm 7) false, .restart,
      .beginScan [5, 7], .scan, .push .listener, .scan, .push .listener, .connect true] = some _
      from rfl)
    (by simp [Act.Sends, Netlink.Act.Sends]) (by simp [Act.Lists]) (by rintro ⟨⟩ p ⟨⟩)
  refine ⟨_, _, _, rfl, rfl, rfl, by decide, (hentry.2.1 ?_).mpr (.inr (.inl (by simp)))⟩
  exact ⟨⟨rfl, rfl⟩, rfl, rfl, by rintro ⟨⟩ <;> rfl⟩

/-- Without the failure the name is missed. -/
example : (Transition.run step (start fun _ => "sh") [.beginScan [5], .scan, .push .listener,
    .kernel (.exec 5 "make") true, .connect true]).map (fun l => lastEntry 5 l.pushed) =
      some (some ⟨5, "sh"⟩) := by decide +kernel

/-- A scan of `main` has read the name before the `exec`, and pushes it behind the new one. -/
example : (Transition.run step (start fun _ => "sh") [.beginScan [], .connect true,
    .readManually 5, .kernel (.exec 5 "make") true, .receive, .read, .push .listener,
    .push .manual]).map (fun l => l.pushed) = some [⟨5, "make"⟩, ⟨5, "sh"⟩] := by decide +kernel

end Listener

end Netlink

end AnanicyCpp
