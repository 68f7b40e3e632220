import AnanicyCpp.Library.Transition
import AnanicyCpp.Netlink.Events

/-!
# The netlink program

The netlink back end allocates a program, opens and binds a socket, and sends a subscription. Each
of these can fail. The failures go through three layers that test different values: a socket that
was not opened or bound becomes the descriptor `-1`, on which the subscription is sent all the same;
a subscription that was not sent returns `-1`, while `0` is taken for the failure; and the result of
an initialisation after a restart goes into a status that the loop does not look at. So the loop
receives from a subscribed socket exactly when everything in the last initialisation succeeded
(`Netlink.Program.everyStep_subscribed_iff`).

## Main definitions

* `Netlink.Program.Sockets`, `Netlink.Program.Outcome` : the sockets, and what the calls of an
  initialisation return.
* `Netlink.Program.initializeNetlinkProgram`, `Netlink.Program.initializeProgram` : the
  initialisation.
* `Netlink.Program.step` : the constructor, and the event thread with its restarts.
* `Netlink.Program.Sound` : a message is received from a subscribed socket, and the constructor
  reports its failures.

## Main results

* `Netlink.Program.everyStep_subscribed_iff` : the runs in which every step is sound.
-/

namespace AnanicyCpp

namespace Netlink

namespace Program

/-! ### Sockets -/

/-- A socket, with the outcome of the last subscription that was sent on it. -/
structure Socket where
  isOpen : Bool
  bound : Bool
  subscribed : Bool
deriving DecidableEq

/-- The sockets by their descriptors; the next one that is opened gets the descriptor `next`. -/
structure Sockets where
  next : ℕ
  socket : ℕ → Socket

def Sockets.set (sockets : Sockets) (fd : ℕ) (socket : Socket) : Sockets :=
  { sockets with socket := Function.update sockets.socket fd socket }

@[simp]
theorem Sockets.socket_set (sockets : Sockets) (fd : ℕ) (socket : Socket) :
    (sockets.set fd socket).socket fd = socket := Function.update_self ..

/-- Whether the memory is there, the socket opens and binds, and what `send` returns. -/
structure Outcome where
  allocated : Bool
  opened : Bool
  bound : Bool
  sent : Int32
deriving DecidableEq

/-- `connect_netlink_socket`; `none` stands for `-1`. -/
def connectNetlinkSocket (outcome : Outcome) (sockets : Sockets) : Option ℕ × Sockets :=
  if !outcome.opened then (none, sockets)
  else
    let fd := sockets.next
    let sockets := { sockets with next := fd + 1 }
    if !outcome.bound then (none, sockets.set fd ⟨false, false, false⟩)
    else (some fd, sockets.set fd ⟨true, true, false⟩)

/-- `set_event_subscription`, which returns what `send` returns. -/
def setEventSubscription (enable : Bool) (sent : Int32) :
    Option ℕ → Sockets → Int32 × Sockets
  | none, sockets => (-1, sockets)
  | some fd, sockets =>
      (sent, sockets.set fd { sockets.socket fd with subscribed := enable && decide (0 < sent) })

/-- `close`; there is nothing to close for `-1`. -/
def closeSocket : Option ℕ → Sockets → Sockets
  | none, sockets => sockets
  | some fd, sockets => sockets.set fd { sockets.socket fd with isOpen := false }

/-! ### The program -/

/-- `ananicy_cpp_ng_netlink` -/
structure AnanicyCppNgNetlink where
  nlSock : Option ℕ
deriving DecidableEq

def initializeNetlinkProgram (outcome : Outcome) (sockets : Sockets) :
    Option AnanicyCppNgNetlink × Sockets :=
  if !outcome.allocated then (none, sockets)
  else
    let (nlSock, sockets) := connectNetlinkSocket outcome sockets
    let (listenStatus, sockets) := setEventSubscription true outcome.sent nlSock sockets
    if listenStatus = 0 then (none, closeSocket nlSock sockets)
    else (some ⟨nlSock⟩, sockets)

/-- `destroy_netlink_program`; what `send` returns is not looked at. -/
def destroyNetlinkProgram (sent : Int32) : Option AnanicyCppNgNetlink → Sockets → Sockets
  | none, sockets => sockets
  | some obj, sockets =>
      closeSocket obj.nlSock (setEventSubscription false sent obj.nlSock sockets).2

/-- `NetlinkProgram::initialize` -/
def initializeProgram (outcome : Outcome) (program : Option AnanicyCppNgNetlink)
    (sockets : Sockets) : Bool × Option AnanicyCppNgNetlink × Sockets :=
  if program ≠ none then (false, program, sockets)
  else
    let (program, sockets) := initializeNetlinkProgram outcome sockets
    (program.isSome, program, sockets)

/-! ### The process queue -/

/-- Before the constructor, after it, at the head of the loop in `start`, at the head of the loop in
`handle_events`, in front of `recv`, behind `handle_events` with what it returned, in front of the
restart, and at the end of the event thread. -/
inductive Phase where
  | constructing
  | constructed
  | outerHead
  | head
  | receiving
  | returned (status : Int32)
  | restarting
  | ended
deriving DecidableEq

/-- The members of the queue, the static `prev_pid`, and the outcomes that the last initialisation
met with. -/
structure State where
  phase : Phase
  program : Option AnanicyCppNgNetlink
  status : Bool
  stopRequested : Bool
  prevPid : Pid
  sockets : Sockets
  lastOutcome : Outcome

def init : State :=
  ⟨.constructing, none, true, false, 0, ⟨0, fun _ => ⟨false, false, false⟩⟩,
    ⟨false, false, false, -1⟩⟩

inductive Act where
  | construct (outcome : Outcome)
  | start
  | requestStop
  | testOuter
  | testStop
  | recv (result : PollResult)
  | testAgain
  | restart (ignored : Int32) (outcome : Outcome)
deriving DecidableEq

/-- `ProcessQueue::init`, after the scan. -/
def State.initProgram (s : State) (outcome : Outcome) (phase : Phase) : State :=
  let (initialized, program, sockets) := initializeProgram outcome s.program s.sockets
  { s with
    phase, program, sockets
    status := s.status && initialized
    lastOutcome := outcome }

/-- `NetlinkProgram::destroy` -/
def State.destroy (s : State) (sent : Int32) : State :=
  { s with program := none, sockets := destroyNetlinkProgram sent s.program s.sockets }

/-- The turn of `handle_events` after `recv`. -/
def State.handle (s : State) (result : PollResult) : State :=
  match handlePoll s.prevPid result with
  | .again => { s with phase := .head }
  | .exit status => { s with phase := .returned status }
  | .push pid => { s with phase := .head, prevPid := pid }

def step (s : State) (a : Act) : Option State :=
  match s.phase, a with
  | .constructing, .construct outcome => some (s.initProgram outcome .constructed)
  | .constructed, .start => some { s with phase := .outerHead }
  | .outerHead, .testOuter =>
      some { s with phase := if s.stopRequested then .ended else .head }
  | .head, .testStop => some { s with phase := if s.stopRequested then .ended else .receiving }
  | .receiving, .recv result => some (s.handle result)
  | .returned status, .testAgain =>
      some { s with phase := if status = exitSuccess ∨ s.stopRequested then .ended
                             else .restarting }
  | .restarting, .restart ignored outcome =>
      some ((s.destroy ignored).initProgram outcome .outerHead)
  | .constructing, _ => none
  | _, .requestStop => some { s with stopRequested := true }
  | _, _ => none

/-- The descriptor of the program is an open, bound socket with a subscription. -/
def Subscribed (program : Option AnanicyCppNgNetlink) (sockets : Sockets) : Prop :=
  ∃ obj fd, program = some obj ∧ obj.nlSock = some fd ∧ sockets.socket fd = ⟨true, true, true⟩

/-- A message is received from a subscribed socket; after a constructor whose opening, binding or
subscribing failed the status is `false`. -/
def Sound (s : State) : Act → Prop
  | .recv _ => Subscribed s.program s.sockets
  | .construct outcome =>
      (outcome.opened && outcome.bound && decide (0 < outcome.sent)) = false →
        (s.initProgram outcome .constructed).status = false
  | _ => True

/-- Everything succeeds. -/
def Outcome.succeeds (outcome : Outcome) : Bool :=
  outcome.allocated && outcome.opened && outcome.bound && decide (0 < outcome.sent)

/-- The failures that the constructor notices: that there is no memory, and that `send` returns
`0`. -/
def Outcome.noticed (outcome : Outcome) : Bool :=
  !outcome.allocated || outcome.opened && outcome.bound && outcome.sent == 0

/-- The last initialisation before a `recv` succeeded, and in the constructor nothing failed that it
does not notice. -/
def Succeeds (s : State) : Act → Prop
  | .recv _ => s.lastOutcome.succeeds = true
  | .construct outcome => outcome.succeeds = true ∨ outcome.noticed = true
  | _ => True

/-! ### One initialisation -/

/-- A socket that cannot be opened or bound becomes a descriptor `-1` in the program. -/
theorem initializeNetlinkProgram_of_not_bound {outcome : Outcome} (sockets : Sockets)
    (hallocated : outcome.allocated = true) (h : (outcome.opened && outcome.bound) = false) :
    (initializeNetlinkProgram outcome sockets).1 = some ⟨none⟩ := by
  have hsocket : (connectNetlinkSocket outcome sockets).1 = none := by
    rw [connectNetlinkSocket]
    cases hopened : outcome.opened
    · rfl
    · rw [hopened, Bool.true_and] at h
      simp [h]
  simp [initializeNetlinkProgram, hallocated, hsocket, setEventSubscription]

/-- What `send` returns is all that counts for a socket that was opened and bound. -/
theorem initializeNetlinkProgram_of_bound {outcome : Outcome} (sockets : Sockets)
    (hallocated : outcome.allocated = true) (hopened : outcome.opened = true)
    (hbound : outcome.bound = true) :
    ((initializeNetlinkProgram outcome sockets).1 =
      if outcome.sent = 0 then none else some ⟨some sockets.next⟩) ∧
    (outcome.sent ≠ 0 → (initializeNetlinkProgram outcome sockets).2.socket sockets.next =
      ⟨true, true, decide (0 < outcome.sent)⟩) := by
  simp only [initializeNetlinkProgram, connectNetlinkSocket, setEventSubscription, hallocated,
    hopened, hbound, Bool.not_true, Bool.false_eq_true, if_false, Sockets.socket_set,
    Bool.true_and]
  split_ifs with hsent
  · exact ⟨rfl, fun h => absurd hsent h⟩
  · exact ⟨rfl, fun _ => Sockets.socket_set ..⟩

/-- How an initialisation can end: noticed as failed, without a socket, or with one that is
subscribed when `send` returns a positive number. -/
theorem initializeNetlinkProgram_cases (outcome : Outcome) (sockets : Sockets) :
    (outcome.noticed = true ∧ outcome.succeeds = false ∧
      (initializeNetlinkProgram outcome sockets).1 = none) ∨
    (outcome.noticed = false ∧ outcome.succeeds = false ∧
      (initializeNetlinkProgram outcome sockets).1 = some ⟨none⟩) ∨
    (outcome.noticed = false ∧ outcome.succeeds = decide (0 < outcome.sent) ∧
      (initializeNetlinkProgram outcome sockets).1 = some ⟨some sockets.next⟩ ∧
      (initializeNetlinkProgram outcome sockets).2.socket sockets.next =
        ⟨true, true, decide (0 < outcome.sent)⟩) := by
  cases hallocated : outcome.allocated with
  | false =>
    exact Or.inl (by simp [initializeNetlinkProgram, Outcome.noticed, Outcome.succeeds, hallocated])
  | true =>
    cases hbound : outcome.opened && outcome.bound with
    | false =>
      refine Or.inr (Or.inl ⟨?_, ?_,
        initializeNetlinkProgram_of_not_bound sockets hallocated hbound⟩)
      · simp [Outcome.noticed, hallocated, hbound]
      · simp [Outcome.succeeds, hallocated, hbound]
    | true =>
      obtain ⟨hopened, hbound⟩ := Bool.and_eq_true_iff.mp hbound
      obtain ⟨hprogram, hsocket⟩ :=
        initializeNetlinkProgram_of_bound sockets hallocated hopened hbound
      by_cases hsent : outcome.sent = 0
      · rw [if_pos hsent] at hprogram
        refine Or.inl ⟨?_, ?_, hprogram⟩
        · simp [Outcome.noticed, hopened, hbound, hsent]
        · simp [Outcome.succeeds, hsent]
      · rw [if_neg hsent] at hprogram
        refine Or.inr (Or.inr ⟨?_, ?_, hprogram, hsocket hsent⟩)
        · simp [Outcome.noticed, hallocated, hopened, hbound, hsent]
        · simp [Outcome.succeeds, hallocated, hopened, hbound]

/-- What the test in `initialize_netlink_program` sees. -/
theorem isSome_initializeNetlinkProgram (outcome : Outcome) (sockets : Sockets) :
    (initializeNetlinkProgram outcome sockets).1.isSome = !outcome.noticed := by
  rcases initializeNetlinkProgram_cases outcome sockets with
    ⟨hnoticed, -, hprogram⟩ | ⟨hnoticed, -, hprogram⟩ | ⟨hnoticed, -, hprogram, -⟩ <;>
    rw [hnoticed, hprogram] <;> rfl

/-- The program is subscribed when everything succeeded. -/
theorem subscribed_initializeNetlinkProgram (outcome : Outcome) (sockets : Sockets) :
    Subscribed (initializeNetlinkProgram outcome sockets).1
      (initializeNetlinkProgram outcome sockets).2 ↔ outcome.succeeds = true := by
  rcases initializeNetlinkProgram_cases outcome sockets with
    ⟨-, hsucceeds, hprogram⟩ | ⟨-, hsucceeds, hprogram⟩ | ⟨-, hsucceeds, hprogram, hsocket⟩
  · simp [Subscribed, hsucceeds, hprogram]
  · simp [Subscribed, hsucceeds, hprogram]
  · simp [Subscribed, hsucceeds, hprogram, hsocket]

/-! ### Whole runs -/

/-- Before the constructor there is no program; after it, the program is subscribed when the last
initialisation succeeded. -/
structure Inv (s : State) : Prop where
  constructing : s.phase = .constructing → s.program = none ∧ s.status = true
  subscribed : s.phase ≠ .constructing →
    (Subscribed s.program s.sockets ↔ s.lastOutcome.succeeds = true)

theorem inv_init : Inv init where
  constructing _ := ⟨rfl, rfl⟩
  subscribed h := absurd rfl h

/-- An initialisation of what was destroyed, or was never there. -/
theorem inv_initProgram {s : State} (hprogram : s.program = none) (outcome : Outcome)
    {phase : Phase} (hphase : phase ≠ .constructing) : Inv (s.initProgram outcome phase) := by
  refine ⟨fun h => absurd h hphase, fun _ => ?_⟩
  simp only [State.initProgram, initializeProgram, hprogram, ne_eq, not_true_eq_false, if_false]
  exact subscribed_initializeNetlinkProgram outcome s.sockets

/-- A step that leaves the program alone. -/
theorem Inv.of_frame {s t : State} (hs : Inv s) (hphase : s.phase ≠ .constructing)
    (hphase' : t.phase ≠ .constructing) (hprogram : t.program = s.program)
    (hsockets : t.sockets = s.sockets) (houtcome : t.lastOutcome = s.lastOutcome) : Inv t := by
  refine ⟨fun h => absurd h hphase', fun _ => ?_⟩
  rw [hprogram, hsockets, houtcome]
  exact hs.subscribed hphase

theorem handle_frame (s : State) (result : PollResult) :
    (s.handle result).phase ≠ .constructing ∧ (s.handle result).program = s.program ∧
      (s.handle result).sockets = s.sockets ∧
      (s.handle result).lastOutcome = s.lastOutcome := by
  rw [State.handle]
  split <;> simp

theorem Inv.step {s t : State} {a : Act} (hs : Inv s) (h : step s a = some t) : Inv t := by
  revert h
  fun_cases Program.step s a <;> rintro ⟨⟩
  · next hphase => exact inv_initProgram (hs.constructing hphase).1 _ (by simp)
  · next hphase => exact hs.of_frame (by simp [hphase]) (by simp) rfl rfl rfl
  · next hphase =>
    exact hs.of_frame (by simp [hphase]) (by cases s.stopRequested <;> simp) rfl rfl rfl
  · next hphase =>
    exact hs.of_frame (by simp [hphase]) (by cases s.stopRequested <;> simp) rfl rfl rfl
  · next result hphase =>
    obtain ⟨hphase', hprogram, hsockets, houtcome⟩ := handle_frame s result
    exact hs.of_frame (by simp [hphase]) hphase' hprogram hsockets houtcome
  · next status hphase =>
    exact hs.of_frame (by simp [hphase]) (by simp only; split_ifs <;> simp) rfl rfl rfl
  · next ignored outcome hphase => exact inv_initProgram rfl _ (by simp)
  · next hphase => exact hs.of_frame hphase hphase rfl rfl rfl

/-- What the constructor reports. -/
theorem status_initProgram {s : State} (hprogram : s.program = none) (hstatus : s.status = true)
    (outcome : Outcome) (phase : Phase) :
    (s.initProgram outcome phase).status = !outcome.noticed := by
  simp only [State.initProgram, initializeProgram, hprogram, hstatus, ne_eq, not_true_eq_false,
    if_false, Bool.true_and]
  exact isSome_initializeNetlinkProgram outcome s.sockets

theorem phase_of_step_recv {s t : State} {result : PollResult}
    (h : step s (.recv result) = some t) : s.phase = .receiving := by
  cases hphase : s.phase <;> simp_all [step]

theorem phase_of_step_construct {s t : State} {outcome : Outcome}
    (h : step s (.construct outcome) = some t) : s.phase = .constructing := by
  cases hphase : s.phase <;> simp_all [step]

theorem sound_iff_succeeds {s t : State} {a : Act} (hs : Inv s) (h : step s a = some t) :
    Sound s a ↔ Succeeds s a := by
  cases a with
  | recv result => exact hs.subscribed (by simp [phase_of_step_recv h])
  | construct outcome =>
    obtain ⟨hprogram, hstatus⟩ := hs.constructing (phase_of_step_construct h)
    rw [Sound, status_initProgram hprogram hstatus, Succeeds, Outcome.succeeds, Outcome.noticed]
    by_cases hsent : 0 < outcome.sent
    · cases outcome.allocated <;> cases outcome.opened <;> cases outcome.bound <;> simp [hsent]
    · cases outcome.allocated <;> cases outcome.opened <;> cases outcome.bound <;> simp [hsent]
  | _ => exact Iff.rfl

/-- **The netlink program.** In every run of the process queue and for all outcomes of its calls,
each message is received on an open, bound socket whose last subscription was sent, and the status
after the constructor reports every failure, if and only if each message is received after an
initialisation in which everything succeeded, and the constructor meets with no failure but a lack
of memory or a `send` that returns `0`. -/
theorem everyStep_subscribed_iff (acts : List Act) :
    Transition.EveryStep step Sound init acts ↔ Transition.EveryStep step Succeeds init acts := by
  constructor
  · exact Transition.everyStep_of_invariant Inv (fun _ _ _ hs _ h => hs.step h)
      (fun _ _ _ hs hD h => (sound_iff_succeeds hs h).mp hD) inv_init
  · exact Transition.everyStep_of_invariant Inv (fun _ _ _ hs _ h => hs.step h)
      (fun _ _ _ hs hC h => (sound_iff_succeeds hs h).mpr hC) inv_init

/-- The subscription cannot be sent after a restart. -/
theorem not_forall_everyStep_subscribed : ¬∀ acts, Transition.EveryStep step Sound init acts := by
  intro h
  have hsound := Transition.everyStep_iff.mp (h [.construct ⟨true, true, true, 40⟩, .start,
    .testOuter, .testStop, .recv (.failed enobufs), .testAgain, .restart 40 ⟨true, true, true, -1⟩,
    .testOuter, .testStop, .recv .closed]) [.construct ⟨true, true, true, 40⟩, .start,
    .testOuter, .testStop, .recv (.failed enobufs), .testAgain, .restart 40 ⟨true, true, true, -1⟩,
    .testOuter, .testStop] _ _ _ _ rfl rfl rfl
  obtain ⟨obj, fd, hobj, hfd, hsocket⟩ := hsound
  obtain rfl := Option.some.inj hobj
  obtain rfl := Option.some.inj hfd
  exact absurd hsocket (by decide)

end Program

end Netlink

end AnanicyCpp
