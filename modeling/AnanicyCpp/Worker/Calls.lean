import AnanicyCpp.Rules.Readers
import AnanicyCpp.Worker.Work

/-!
# The calls for a process

What the worker does with a queue: it handles every process it polls, in order and once, and for
each it makes the longest admissible sequence of the calls that are switched on. Neither a field
that does not convert nor a setter that throws keeps it from the processes behind.

## Main definitions

* `Worker.enabledSteps` : the steps whose flag is on and whose key is present.
* `Worker.MakesLongestPrefix` : the calls of a turn are the longest admissible sequence.
* `Worker.Threads` : the turns start where the turns before them ended.

## Main results

* `Worker.makesLongestPrefix_handleProcess`, `Worker.after_handleProcess` : one turn.
* `Worker.work_spec` : the loop.
-/

namespace AnanicyCpp

namespace Worker

open Fallible

variable {σ : Type}

/-- The steps that are switched on, in order. -/
def enabledSteps (config : Config) (rule : Json) (isRealtime : Bool) : List RuleStep :=
  (steps config rule isRealtime).filter (·.enabled)

/-- The calls of a turn are admissible, and no longer sequence is. -/
def MakesLongestPrefix (S : Setters σ) (config : Config) (turn : Turn σ) : Prop :=
  let enabled := enabledSteps config turn.rule (S.isRealtime turn.process.pid turn.before)
  CallSequence.Admissible (S.call turn.process.pid) enabled turn.before turn.calls ∧
    ∀ calls, CallSequence.Admissible (S.call turn.process.pid) enabled turn.before calls →
      calls <+: turn.calls

/-- The first turn starts in `s`, each later one in the state the one before left, and the last one
leaves `s'`. -/
def Threads (s : σ) : List (Turn σ) → σ → Prop
  | [], s' => s' = s
  | turn :: turns, s' => turn.before = s ∧ Threads turn.after turns s'

/-! ### One turn -/

theorem makesLongestPrefix_handleProcess (S : Setters σ) (config : Config) (rule : Json)
    (p : Process) (s : σ) : MakesLongestPrefix S config (handleProcess S config rule p s) := by
  unfold MakesLongestPrefix handleProcess
  simp only [applyRule_eq_run]
  exact ⟨CallSequence.admissible_calls_run _ _, fun _ h => CallSequence.isPrefix_calls_run h⟩

/-- The state behind some calls for the process of a turn. -/
def Turn.behind (S : Setters σ) (turn : Turn σ) (calls : List SetterCall) : σ :=
  CallSequence.behind (S.call turn.process.pid) turn.before calls

/-- A turn leaves the state behind its calls and the move to the root cgroup, and changes nothing
else. -/
theorem after_handleProcess (S : Setters σ) (config : Config) (rule : Json) (p : Process) (s : σ) :
    let turn := handleProcess S config rule p s
    turn.after =
      if turn.movedToRoot then S.moveToRoot p.pid (turn.behind S turn.calls)
      else turn.behind S turn.calls := by
  have hstate : (applyRule S config rule p.pid (S.isRealtime p.pid s) s).state =
      CallSequence.behind (S.call p.pid) s
        (applyRule S config rule p.pid (S.isRealtime p.pid s) s).calls := by
    rw [applyRule_eq_run, CallSequence.state_run]
  simp only [handleProcess, Turn.behind, ← hstate]

/-! ### The loop -/

/-- A turn is for a rule of the store and makes the calls of that rule. -/
def FollowsRule (S : Setters σ) (rules : Rules) (config : Config) (turn : Turn σ) : Prop :=
  rules.getRule turn.process.name = .ok turn.rule ∧ MakesLongestPrefix S config turn

/-- The inner loop, when no lookup fails. -/
theorem drain_spec (S : Setters σ) (rules : Rules) (config : Config)
    (hrules : ∀ name, (rules.getRule name).isOk) (w : Worker σ) (polled : List Process) :
    ∃ w' turns, drain S rules config w polled = .ok w' ∧
      w'.processedCount = w.processedCount + UInt32.ofNat polled.length ∧
      w'.turns = w.turns ++ turns ∧ turns.map Turn.process = polled ∧
      Threads w.env turns w'.env ∧ ∀ turn ∈ turns, FollowsRule S rules config turn := by
  induction polled generalizing w with
  | nil => exact ⟨w, [], rfl, by simp, by simp, rfl, rfl, by simp⟩
  | cons p polled ih =>
    obtain ⟨rule, hrule⟩ := exists_eq_ok_of_isOk (hrules p.name)
    let turn := handleProcess S config rule p w.env
    obtain ⟨w', turns, hdrain, hcount, hturns, hpolled, hthreads, hfollow⟩ :=
      ih ⟨w.processedCount + 1, turn.after, w.turns ++ [turn]⟩
    have hfirst : FollowsRule S rules config turn :=
      ⟨hrule, makesLongestPrefix_handleProcess S config rule p w.env⟩
    refine ⟨w', turn :: turns, ?_, ?_, ?_, ?_, ⟨rfl, hthreads⟩, ?_⟩
    · have htake : takeProcess S rules config w p =
          .ok ⟨w.processedCount + 1, turn.after, w.turns ++ [turn]⟩ := by
        simp [takeProcess, hrule, turn]
      rw [drain, List.foldlM_cons, htake]
      exact hdrain
    · rw [hcount, List.length_cons, Nat.add_comm polled.length, UInt32.ofNat_add, UInt32.add_assoc]
      rfl
    · rw [hturns, List.append_assoc, List.singleton_append]
    · rw [List.map_cons, hpolled]
      rfl
    · rintro t (_ | ⟨_, ht⟩)
      · exact hfirst
      · exact hfollow t ht

theorem work_eq_drain (S : Setters σ) (rules : Rules) (config : Config) (w : Worker σ)
    (rounds : List (List Process)) :
    work S rules config w rounds = drain S rules config w rounds.flatten := by
  unfold work drain
  induction rounds generalizing w with
  | nil => rfl
  | cons polled rounds ih =>
    rw [List.foldlM_cons, List.flatten_cons, List.foldlM_append]
    exact bind_congr fun w => ih w

/-- **The calls of the worker.** When every `type` of a program rule is a string, the loop handles
every polled process once and in order, counts it, and makes for it exactly the longest admissible
sequence of the steps that are switched on. -/
theorem work_spec (S : Setters σ) (rules : Rules) (config : Config)
    (htypes : ∀ name rule, rules.programRules.lookup name = some rule →
      ∀ type, rule.val.find? "type" = some type → type.isString)
    (w : Worker σ) (rounds : List (List Process)) :
    ∃ w' turns, work S rules config w rounds = .ok w' ∧
      w'.processedCount = w.processedCount + UInt32.ofNat rounds.flatten.length ∧
      w'.turns = w.turns ++ turns ∧ turns.map Turn.process = rounds.flatten ∧
      Threads w.env turns w'.env ∧
      ∀ turn ∈ turns, rules.getRule turn.process.name = .ok turn.rule ∧
        MakesLongestPrefix S config turn := by
  have hrules (name : String) : (rules.getRule name).isOk :=
    (Rules.isOk_getRule_iff rules name).mpr fun rule hrule type htype =>
      htypes name rule hrule type htype
  rw [work_eq_drain]
  exact drain_spec S rules config hrules w rounds.flatten

/-- Setters of which only `set_sched` fails. -/
def sampleSetters : Setters Unit where
  call _ c s := match c with
    | .setSched .. => (.ok false, s)
    | _ => (.ok true, s)
  isRealtime _ _ := false
  moveToRoot _ s := s

def sampleRule : JsonValue :=
  ⟨.object [("cgroup", .string "c"), ("name", .string "a"), ("nice", .numberInteger 5),
    ("sched", .string "fifo"), ("type", .string "t")], by decide⟩

def sampleRules : Rules := ⟨SortedMap.empty.insert "a" sampleRule, .empty, .empty⟩

theorem work_spec_sample :
    (∃ w' turns, work sampleSetters sampleRules ⟨.empty⟩ ⟨0, (), []⟩ [[⟨1, "a"⟩], [⟨2, "b"⟩]] =
        .ok w' ∧
      w'.processedCount = 0 + UInt32.ofNat 2 ∧
      w'.turns = [] ++ turns ∧ turns.map Turn.process = [⟨1, "a"⟩, ⟨2, "b"⟩] ∧
      Threads () turns w'.env ∧
      ∀ turn ∈ turns, sampleRules.getRule turn.process.name = .ok turn.rule ∧
        MakesLongestPrefix sampleSetters ⟨.empty⟩ turn) ∧
    (handleProcess sampleSetters ⟨.empty⟩ sampleRule.val ⟨1, "a"⟩ ()).calls =
      [.setPriority 5, .setLatencyNice 5, .setSched "fifo" 1] := by
  refine ⟨work_spec sampleSetters sampleRules ⟨.empty⟩ ?_ ⟨0, (), []⟩ [[⟨1, "a"⟩], [⟨2, "b"⟩]],
    by decide +kernel⟩
  intro name rule hrule type htype
  have hlookup : (if name = "a" then some sampleRule else none) = some rule :=
    (SortedMap.lookup_insert .empty name "a" sampleRule).symm.trans hrule
  have hsample : sampleRule = rule := by
    split_ifs at hlookup
    exact Option.some.inj hlookup
  rw [← hsample] at htype
  have hstring : Json.string "t" = type := Option.some.inj htype
  rw [← hstring]
  rfl

end Worker

end AnanicyCpp
