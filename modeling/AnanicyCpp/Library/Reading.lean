import Mathlib.Data.List.Nodup
import Mathlib.Logic.Function.Basic

/-!
# Programs that read a shared memory

A program computes on its own and reads a memory in between, to which another thread writes. Every
read has a name and finds what is there at its own time. A program that makes no read twice cannot
tell this from a memory that has stood still: there is one answer for each name, found at some time
of the run, with which the program comes to the same result (`Reading.exists_found`).

## Main definitions

* `Reading`, `Reading.bind` : a program.
* `Reading.eval` : its result when the answers are given by name.
* `Reading.feed` : what is left of it after some reads.
* `Reading.ReadsIn` : the reads come in the order of a list.

## Main results

* `Reading.eval_bind`, `Reading.ReadsIn.bind` : composition.
* `Reading.exists_found` : a program that makes no read twice.
-/

/-- A program with a result in `α` that reads answers in `A`. -/
inductive Reading (ρ A α : Type*) where
  | done (result : α)
  | read (name : ρ) (next : A → Reading ρ A α)

namespace Reading

variable {ρ A α β : Type*}

/-- Go on with the result. -/
def bind : Reading ρ A α → (α → Reading ρ A β) → Reading ρ A β
  | .done result, f => f result
  | .read name next, f => .read name fun a => (next a).bind f

/-- The result when every read finds what belongs to its name. -/
def eval (found : ρ → A) : Reading ρ A α → α
  | .done result => result
  | .read name next => (next (found name)).eval found

/-- The program behind its first read. -/
def resume : Reading ρ A α → A → Reading ρ A α
  | .done result, _ => .done result
  | .read _ next, a => next a

/-- The program behind its first reads, one for each answer. -/
def feed (prog : Reading ρ A α) (answers : List A) : Reading ρ A α := answers.foldl resume prog

/-- The reads have names of the list and come in its order, each at most once. -/
def ReadsIn : List ρ → Reading ρ A α → Prop
  | _, .done _ => True
  | names, .read name next =>
      ∃ before after, names = before ++ name :: after ∧ ∀ a, ReadsIn after (next a)

variable {prog : Reading ρ A α} {names : List ρ} {found found' : ρ → A}

@[simp]
theorem eval_done (result : α) : (.done result : Reading ρ A α).eval found = result := rfl

@[simp]
theorem eval_read (name : ρ) (next : A → Reading ρ A α) :
    (Reading.read name next).eval found = (next (found name)).eval found := rfl

@[simp]
theorem eval_bind (prog : Reading ρ A α) (f : α → Reading ρ A β) :
    (prog.bind f).eval found = (f (prog.eval found)).eval found := by
  induction prog with
  | done result => rfl
  | read name next ih => exact ih (found name)

@[simp]
theorem feed_nil (prog : Reading ρ A α) : prog.feed [] = prog := rfl

theorem feed_cons (prog : Reading ρ A α) (a : A) (answers : List A) :
    prog.feed (a :: answers) = (prog.resume a).feed answers := rfl

theorem feed_concat (prog : Reading ρ A α) (answers : List A) (a : A) :
    prog.feed (answers ++ [a]) = (prog.feed answers).resume a := List.foldl_concat ..

/-! ### The order of the reads -/

@[simp]
theorem readsIn_done (names : List ρ) (result : α) :
    ReadsIn names (.done result : Reading ρ A α) := trivial

/-- A program may pass over the names at the front. -/
theorem ReadsIn.append_left (h : ReadsIn names prog) (skipped : List ρ) :
    ReadsIn (skipped ++ names) prog := by
  cases prog with
  | done result => trivial
  | read name next =>
    obtain ⟨before, after, rfl, hnext⟩ := h
    exact ⟨skipped ++ before, after, (List.append_assoc ..).symm, hnext⟩

theorem ReadsIn.bind {f : α → Reading ρ A β} {names' : List ρ} (h : ReadsIn names prog)
    (hf : ∀ result, ReadsIn names' (f result)) : ReadsIn (names ++ names') (prog.bind f) := by
  induction prog generalizing names with
  | done result => exact (hf result).append_left names
  | read name next ih =>
    obtain ⟨before, after, rfl, hnext⟩ := h
    exact ⟨before, after ++ names', by rw [List.append_assoc, List.cons_append],
      fun a => ih a (hnext a)⟩

theorem ReadsIn.resume (h : ReadsIn names prog) (a : A) : ReadsIn names (prog.resume a) := by
  cases prog with
  | done result => trivial
  | read name next =>
    obtain ⟨before, after, rfl, hnext⟩ := h
    rw [List.append_cons]
    exact (hnext a).append_left _

theorem ReadsIn.feed (h : ReadsIn names prog) (answers : List A) :
    ReadsIn names (prog.feed answers) := by
  induction answers generalizing prog with
  | nil => exact h
  | cons a answers ih => exact ih (h.resume a)

/-- Only the answers to the names of the list matter. -/
theorem ReadsIn.eval_congr (h : ReadsIn names prog) (hfound : ∀ name ∈ names,
    found name = found' name) : prog.eval found = prog.eval found' := by
  induction prog generalizing names with
  | done result => rfl
  | read name next ih =>
    obtain ⟨before, after, rfl, hnext⟩ := h
    have hname : found name = found' name := hfound name (by simp)
    rw [eval_read, eval_read, hname]
    exact ih _ (hnext _) fun other hother => hfound other (by simp [hother])

/-! ### Programs that make no read twice -/

/-- **No read twice.** When the names are different, the program comes to the same result with one
answer for each name; the answers are those that were found, or `a₀` where nothing was read. -/
theorem exists_found [DecidableEq ρ] (h : ReadsIn names prog) (hnames : names.Nodup) (a₀ : A)
    (answers : List A) : ∃ found : ρ → A, (∀ name, found name = a₀ ∨ found name ∈ answers) ∧
      (prog.feed answers).eval found = prog.eval found := by
  induction answers generalizing prog names with
  | nil => exact ⟨fun _ => a₀, fun _ => .inl rfl, rfl⟩
  | cons a answers ih =>
    cases prog with
    | done result =>
      obtain ⟨found, hfound, heval⟩ := ih h hnames
      exact ⟨found, fun name => (hfound name).imp_right (List.mem_cons_of_mem a), heval⟩
    | read name next =>
      obtain ⟨before, after, rfl, hnext⟩ := h
      have hrest : (name :: after).Nodup := hnames.of_append_right
      obtain ⟨hname, hafter⟩ := List.nodup_cons.mp hrest
      obtain ⟨found, hfound, heval⟩ := ih (hnext a) hafter
      -- the answer to this read; the later ones do not ask for it again
      have hsame : ∀ other ∈ after, Function.update found name a other = found other :=
        fun other hother => Function.update_of_ne (ne_of_mem_of_not_mem hother hname) ..
      refine ⟨Function.update found name a, fun other => ?_, ?_⟩
      · by_cases hother : other = name
        · subst hother
          exact .inr (by simp)
        · rw [Function.update_of_ne hother]
          exact (hfound other).imp_right (List.mem_cons_of_mem a)
      · rw [feed_cons, Reading.resume, ((hnext a).feed answers).eval_congr hsame, heval, eval_read,
          Function.update_self, (hnext a).eval_congr hsame]

/-- A memory that has stood still. -/
theorem eval_feed_of_eq {a : A} {answers : List A} (h : ∀ b ∈ answers, b = a) :
    (prog.feed answers).eval (fun _ => a) = prog.eval fun _ => a := by
  induction answers generalizing prog with
  | nil => rfl
  | cons b answers ih =>
    obtain ⟨rfl, hanswers⟩ := List.forall_mem_cons.mp h
    rw [feed_cons, ih hanswers]
    cases prog with
    | done result => rfl
    | read name next => rfl

end Reading
