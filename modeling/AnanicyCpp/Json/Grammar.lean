import AnanicyCpp.Library.Text

/-!
# JSON texts

The grammar of JSON as a set of texts. Where an object ends does not depend on what the text says:
it is the brace that closes the first one, when the braces inside strings are not counted. No proper
part at the start of an object text is therefore the text of a value.

## Main definitions

* `isJsonSpace`, `IsBlank` : the blanks between tokens.
* `JsonText.Derives` : the grammar, by category; `JsonText.ValueText`, `JsonText.ObjectText`.
* `JsonText.Scan`, `JsonText.scan` : the open braces after a text.
* `JsonText.Balanced` : a text that opens and closes its braces.

## Main results

* `JsonText.Derives.balanced` : every text of the grammar is balanced.
* `JsonText.ObjectText.eq_of_prefix` : an object text has no balanced part at its start.
-/

namespace AnanicyCpp

/-- The blanks that JSON allows between tokens. -/
def isJsonSpace (c : Char) : Bool := [' ', '\t', '\n', '\r'].contains c

def IsBlank (s : Text) : Prop := ∀ c ∈ s, isJsonSpace c

theorem IsBlank.nil : IsBlank [] := fun _ h => absurd h List.not_mem_nil

namespace JsonText

/-! ### The grammar -/

def Digits (s : Text) : Prop := s ≠ [] ∧ ∀ c ∈ s, c.isDigit

/-- `int`: no leading zeros. -/
def IntText (s : Text) : Prop := s = ['0'] ∨ Digits s ∧ s.head? ≠ some '0'

/-- `[ frac ]` -/
def FracText (s : Text) : Prop := s = [] ∨ ∃ digits, Digits digits ∧ s = '.' :: digits

/-- `[ exp ]` -/
def ExpText (s : Text) : Prop :=
  s = [] ∨ ∃ e sign digits, e ∈ ['e', 'E'] ∧ sign ∈ [[], ['+'], ['-']] ∧ Digits digits ∧
    s = e :: (sign ++ digits)

/-- `number` -/
def NumberText (s : Text) : Prop :=
  ∃ sign int frac exp, sign ∈ [[], ['-']] ∧ IntText int ∧ FracText frac ∧ ExpText exp ∧
    s = sign ++ int ++ frac ++ exp

def isHexDigit (c : Char) : Bool :=
  c.isDigit || ('a' ≤ c && c ≤ 'f') || ('A' ≤ c && c ≤ 'F')

/-- `char`: a character of a string, or an escape sequence. -/
inductive CharText : Text → Prop
  | unescaped (c : Char) : c ≠ '"' → c ≠ '\\' → ' ' ≤ c → CharText [c]
  | escaped (c : Char) : c ∈ ['"', '\\', '/', 'b', 'f', 'n', 'r', 't'] → CharText ['\\', c]
  | unicode (digits : Text) : digits.length = 4 → (∀ c ∈ digits, isHexDigit c) →
      CharText ('\\' :: 'u' :: digits)

/-- `string` -/
def StringText (s : Text) : Prop :=
  ∃ chars : List Text, (∀ char ∈ chars, CharText char) ∧ s = '"' :: (chars.flatten ++ ['"'])

def literals : List Text := ["false".toList, "null".toList, "true".toList]

/-- The categories of the grammar. An element and a member stand with the blanks around them. -/
inductive Category where
  | value
  | object
  | element
  | elements
  | member
  | members

/-- The texts of each category. -/
inductive Derives : Category → Text → Prop
  | literal {s : Text} : s ∈ literals → Derives .value s
  | number {s : Text} : NumberText s → Derives .value s
  | string {s : Text} : StringText s → Derives .value s
  | emptyArray {s : Text} : IsBlank s → Derives .value ('[' :: (s ++ [']']))
  | array {s : Text} : Derives .elements s → Derives .value ('[' :: (s ++ [']']))
  | objectValue {s : Text} : Derives .object s → Derives .value s
  | emptyObject {s : Text} : IsBlank s → Derives .object ('{' :: (s ++ ['}']))
  | object {s : Text} : Derives .members s → Derives .object ('{' :: (s ++ ['}']))
  | element {p s q : Text} : IsBlank p → Derives .value s → IsBlank q →
      Derives .element (p ++ s ++ q)
  | lastElement {s : Text} : Derives .element s → Derives .elements s
  | moreElements {s rest : Text} : Derives .element s → Derives .elements rest →
      Derives .elements (s ++ ',' :: rest)
  | member {p key q s : Text} : IsBlank p → StringText key → IsBlank q → Derives .element s →
      Derives .member (p ++ key ++ q ++ ':' :: s)
  | lastMember {s : Text} : Derives .member s → Derives .members s
  | moreMembers {s rest : Text} : Derives .member s → Derives .members rest →
      Derives .members (s ++ ',' :: rest)

def ValueText (s : Text) : Prop := Derives .value s

def ObjectText (s : Text) : Prop := Derives .object s

/-- A string without escape sequences. -/
theorem StringText.of_plain {s : Text}
    (h : s.all (fun c => c != '"' && c != '\\' && decide (' ' ≤ c)) = true) :
    StringText ('"' :: (s ++ ['"'])) := by
  refine ⟨s.map fun c => [c], ?_, by rw [← List.flatMap_def, List.flatMap_singleton']⟩
  intro char hchar
  obtain ⟨c, hc, rfl⟩ := List.mem_map.mp hchar
  have hplain := List.all_eq_true.mp h c hc
  simp only [Bool.and_eq_true, bne_iff_ne, decide_eq_true_eq] at hplain
  exact CharText.unescaped c hplain.1.1 hplain.1.2 hplain.2

/-! ### Counting braces -/

/-- Where a scan stands with respect to strings. -/
inductive Mode where
  | outside
  | inside
  | escaped
deriving DecidableEq

/-- The number of open braces, and the mode. -/
structure Scan where
  depth : ℕ
  mode : Mode
deriving DecidableEq

/-- A character moves a scan on, unless it closes a brace that is not open. -/
def Scan.step : Scan → Char → Option Scan
  | ⟨depth, .outside⟩, c =>
    if c = '"' then some ⟨depth, .inside⟩
    else if c = '{' then some ⟨depth + 1, .outside⟩
    else if c = '}' then
      match depth with
      | 0 => none
      | depth + 1 => some ⟨depth, .outside⟩
    else some ⟨depth, .outside⟩
  | ⟨depth, .inside⟩, c =>
    if c = '"' then some ⟨depth, .outside⟩
    else if c = '\\' then some ⟨depth, .escaped⟩
    else some ⟨depth, .inside⟩
  | ⟨depth, .escaped⟩, _ => some ⟨depth, .inside⟩

def scan (start : Scan) (s : Text) : Option Scan := s.foldlM Scan.step start

/-- All braces of the text are closed, and so are its strings. -/
def Balanced (s : Text) : Prop := scan ⟨0, .outside⟩ s = some ⟨0, .outside⟩

theorem scan_append (start : Scan) (s t : Text) :
    scan start (s ++ t) = (scan start s).bind fun state => scan state t :=
  List.foldlM_append

theorem scan_cons (start : Scan) (c : Char) (s : Text) :
    scan start (c :: s) = (start.step c).bind fun state => scan state s :=
  List.foldlM_cons

theorem Scan.step_add {start next : Scan} {c : Char} (h : start.step c = some next) (k : ℕ) :
    Scan.step ⟨start.depth + k, start.mode⟩ c = some ⟨next.depth + k, next.mode⟩ := by
  obtain ⟨depth, mode⟩ := start
  cases mode with
  | outside =>
    simp only [Scan.step] at h ⊢
    split_ifs at h ⊢ with hquote hopen hclose
    · obtain rfl := Option.some.inj h
      rfl
    · obtain rfl := Option.some.inj h
      exact congrArg (fun d => some (Scan.mk d .outside)) (Nat.add_right_comm depth k 1)
    · cases depth with
      | zero => exact absurd h nofun
      | succ depth =>
        obtain rfl := Option.some.inj h
        rw [Nat.add_right_comm depth 1 k]
    · obtain rfl := Option.some.inj h
      rfl
  | inside =>
    simp only [Scan.step] at h ⊢
    split_ifs at h ⊢ with hquote hback <;> obtain rfl := Option.some.inj h <;> rfl
  | escaped =>
    obtain rfl := Option.some.inj h
    rfl

/-- What is open in front of a text stays open. -/
theorem scan_add {start state : Scan} {s : Text} (h : scan start s = some state) (k : ℕ) :
    scan ⟨start.depth + k, start.mode⟩ s = some ⟨state.depth + k, state.mode⟩ := by
  induction s generalizing start with
  | nil =>
    obtain rfl := Option.some.inj h
    rfl
  | cons c s ih =>
    rw [scan_cons, Option.bind_eq_some_iff] at h
    obtain ⟨next, hnext, hrest⟩ := h
    rw [scan_cons, Scan.step_add hnext, Option.bind_some, ih hrest]

namespace Balanced

theorem nil : Balanced [] := rfl

theorem append {s t : Text} (hs : Balanced s) (ht : Balanced t) : Balanced (s ++ t) := by
  rw [Balanced, scan_append, hs, Option.bind_some, ht]

/-- A character that is no quotation mark and no brace. -/
theorem cons {c : Char} {s : Text} (hc : c ∉ ['"', '{', '}']) (hs : Balanced s) :
    Balanced (c :: s) := by
  simp only [List.mem_cons, List.not_mem_nil, or_false, not_or] at hc
  rw [Balanced, scan_cons, Scan.step, if_neg hc.1, if_neg hc.2.1, if_neg hc.2.2, Option.bind_some,
    hs]

theorem singleton {c : Char} (hc : c ∉ ['"', '{', '}']) : Balanced [c] := cons hc nil

theorem of_notMem {s : Text} (h : ∀ c ∈ s, c ∉ ['"', '{', '}']) : Balanced s := by
  induction s with
  | nil => exact nil
  | cons c s ih =>
    exact cons (h c List.mem_cons_self) (ih fun d hd => h d (List.mem_cons_of_mem c hd))

theorem object {s : Text} (hs : Balanced s) : Balanced ('{' :: (s ++ ['}'])) := by
  have hinner : scan ⟨1, .outside⟩ s = some ⟨1, .outside⟩ := scan_add hs 1
  have hopen : Scan.step ⟨0, .outside⟩ '{' = some ⟨1, .outside⟩ := rfl
  rw [Balanced, scan_cons, hopen, Option.bind_some, scan_append, hinner]
  rfl

end Balanced

/-! ### The grammar is balanced -/

theorem scan_inside {s : Text} (h : ∀ c ∈ s, c ≠ '"' ∧ c ≠ '\\') (depth : ℕ) :
    scan ⟨depth, .inside⟩ s = some ⟨depth, .inside⟩ := by
  induction s with
  | nil => rfl
  | cons c s ih =>
    obtain ⟨hquote, hback⟩ := h c List.mem_cons_self
    rw [scan_cons, Scan.step, if_neg hquote, if_neg hback, Option.bind_some,
      ih fun d hd => h d (List.mem_cons_of_mem c hd)]

theorem ne_of_isHexDigit {c : Char} (h : isHexDigit c = true) : c ≠ '"' ∧ c ≠ '\\' := by
  constructor <;> rintro rfl <;> exact absurd h (by decide)

theorem scan_charText {char : Text} (h : CharText char) (depth : ℕ) :
    scan ⟨depth, .inside⟩ char = some ⟨depth, .inside⟩ := by
  cases h with
  | unescaped c hquote hback hcontrol => exact scan_inside (by simp [hquote, hback]) depth
  | escaped c hc => rfl
  | unicode digits hlength hdigits =>
    exact scan_inside (fun c hc => ne_of_isHexDigit (hdigits c hc)) depth

theorem scan_chars {chars : List Text} (h : ∀ char ∈ chars, CharText char) (depth : ℕ) :
    scan ⟨depth, .inside⟩ chars.flatten = some ⟨depth, .inside⟩ := by
  induction chars with
  | nil => rfl
  | cons char chars ih =>
    rw [List.flatten_cons, scan_append, scan_charText (h char List.mem_cons_self),
      Option.bind_some, ih fun d hd => h d (List.mem_cons_of_mem char hd)]

theorem StringText.balanced {s : Text} (h : StringText s) : Balanced s := by
  obtain ⟨chars, hchars, rfl⟩ := h
  have hquote : Scan.step ⟨0, .outside⟩ '"' = some ⟨0, .inside⟩ := rfl
  rw [Balanced, scan_cons, hquote, Option.bind_some, scan_append, scan_chars hchars]
  rfl

theorem isBlank_balanced {s : Text} (h : IsBlank s) : Balanced s := by
  refine Balanced.of_notMem fun c hc => ?_
  have hspace := h c hc
  intro hmem
  simp only [List.mem_cons, List.not_mem_nil, or_false] at hmem
  rcases hmem with rfl | rfl | rfl <;> exact absurd hspace (by decide)

theorem Digits.balanced {s : Text} (h : Digits s) : Balanced s := by
  refine Balanced.of_notMem fun c hc hmem => ?_
  have hdigit := h.2 c hc
  simp only [List.mem_cons, List.not_mem_nil, or_false] at hmem
  rcases hmem with rfl | rfl | rfl <;> exact absurd hdigit (by decide)

theorem NumberText.balanced {s : Text} (h : NumberText s) : Balanced s := by
  obtain ⟨sign, int, frac, exp, hsign, hint, hfrac, hexp, rfl⟩ := h
  have hsigns : ∀ sign : Text, sign ∈ [[], ['+'], ['-']] → Balanced sign := by
    intro sign h
    simp only [List.mem_cons, List.not_mem_nil, or_false] at h
    rcases h with rfl | rfl | rfl
    · exact Balanced.nil
    · exact Balanced.singleton (by decide)
    · exact Balanced.singleton (by decide)
  have hsign' : Balanced sign := hsigns sign (by
    simp only [List.mem_cons, List.not_mem_nil, or_false] at hsign ⊢
    exact hsign.imp_right Or.inr)
  have hint' : Balanced int := by
    rcases hint with rfl | ⟨hdigits, -⟩
    · exact Balanced.singleton (by decide)
    · exact hdigits.balanced
  have hfrac' : Balanced frac := by
    rcases hfrac with rfl | ⟨digits, hdigits, rfl⟩
    · exact Balanced.nil
    · exact Balanced.cons (by decide) hdigits.balanced
  have hexp' : Balanced exp := by
    rcases hexp with rfl | ⟨e, sign, digits, he, hsign, hdigits, rfl⟩
    · exact Balanced.nil
    · refine Balanced.cons ?_ ((hsigns sign hsign).append hdigits.balanced)
      simp only [List.mem_cons, List.not_mem_nil, or_false] at he
      rcases he with rfl | rfl <;> decide
  exact ((hsign'.append hint').append hfrac').append hexp'

/-- **Every text of the grammar is balanced.** -/
theorem Derives.balanced {category : Category} {s : Text} (h : Derives category s) :
    Balanced s := by
  induction h with
  | literal h =>
    have hliterals : literals.all (·.all fun c => !(['"', '{', '}'].contains c)) = true := by
      decide +kernel
    refine Balanced.of_notMem fun c hc => ?_
    have hnot := List.all_eq_true.mp (List.all_eq_true.mp hliterals _ h) c hc
    rwa [Bool.not_eq_true', List.contains_eq_mem, decide_eq_false_iff_not] at hnot
  | number h => exact h.balanced
  | string h => exact h.balanced
  | emptyArray h =>
    exact Balanced.cons (by decide) ((isBlank_balanced h).append (Balanced.singleton (by decide)))
  | array _ ih => exact Balanced.cons (by decide) (ih.append (Balanced.singleton (by decide)))
  | objectValue _ ih => exact ih
  | emptyObject h => exact (isBlank_balanced h).object
  | object _ ih => exact ih.object
  | element hp _ hq ih => exact ((isBlank_balanced hp).append ih).append (isBlank_balanced hq)
  | lastElement _ ih => exact ih
  | moreElements _ _ ih ihrest => exact ih.append (Balanced.cons (by decide) ihrest)
  | member hp hkey hq _ ih =>
    exact (((isBlank_balanced hp).append hkey.balanced).append (isBlank_balanced hq)).append
      (Balanced.cons (by decide) ih)
  | lastMember _ ih => exact ih
  | moreMembers _ _ ih ihrest => exact ih.append (Balanced.cons (by decide) ihrest)

namespace ObjectText

theorem exists_eq {s : Text} (h : ObjectText s) :
    ∃ body, s = '{' :: (body ++ ['}']) ∧ Balanced body := by
  cases h with
  | emptyObject hblank => exact ⟨_, rfl, isBlank_balanced hblank⟩
  | object hmembers => exact ⟨_, rfl, hmembers.balanced⟩

theorem ne_nil {s : Text} (h : ObjectText s) : s ≠ [] := by
  obtain ⟨body, rfl, -⟩ := h.exists_eq
  exact List.cons_ne_nil _ _

/-- **An object text has no balanced part at its start.** The first brace is closed by the last
character only. -/
theorem eq_of_prefix {s t : Text} (hs : ObjectText s) (ht : Balanced t) (hne : t ≠ [])
    (htake : t <+: s) : t = s := by
  obtain ⟨body, rfl, hbody⟩ := hs.exists_eq
  obtain rfl | ⟨t, rfl, hpart⟩ := List.prefix_cons_iff.mp htake
  · exact absurd rfl hne
  · rcases List.prefix_concat_iff.mp hpart with rfl | ⟨rest, rfl⟩
    · rfl
    · -- A part of the body, after which the first brace is still open.
      rw [Balanced, scan_append, Option.bind_eq_some_iff] at hbody
      obtain ⟨state, hstate, -⟩ := hbody
      have hopen : Scan.step ⟨0, .outside⟩ '{' = some ⟨1, .outside⟩ := rfl
      have hstill : scan ⟨1, .outside⟩ t = some ⟨state.depth + 1, state.mode⟩ :=
        scan_add hstate 1
      rw [Balanced, scan_cons, hopen, Option.bind_some, hstill] at ht
      exact absurd (Scan.mk.inj (Option.some.inj ht)).1 (Nat.succ_ne_zero _)

end ObjectText

theorem ValueText.ne_nil {s : Text} (h : ValueText s) : s ≠ [] := by
  cases h with
  | literal h =>
    rintro rfl
    exact absurd h (by decide +kernel)
  | number h =>
    obtain ⟨sign, int, frac, exp, -, hint, -, -, rfl⟩ := h
    have hne : int ≠ [] := by
      rcases hint with rfl | ⟨hdigits, -⟩
      · exact List.cons_ne_nil _ _
      · exact hdigits.1
    simp [hne]
  | string h =>
    obtain ⟨chars, -, rfl⟩ := h
    exact List.cons_ne_nil _ _
  | emptyArray h => exact List.cons_ne_nil _ _
  | array h => exact List.cons_ne_nil _ _
  | objectValue h => exact ObjectText.ne_nil h

end JsonText

end AnanicyCpp
