import Mathlib.Algebra.Group.Int.Defs
import Mathlib.Data.List.Basic
import Mathlib.Data.List.DropRight
import Mathlib.Data.String.Basic

/-!
# Character sequences

The operations of `std::string` and of line-oriented reading that index into the text. A text is
the list of its characters, one for each byte; no operation does more with a character than
compare it, so a statement about all texts covers all byte strings.

## Main definitions

* `Text` : the characters of a string.
* `Text.findFirstOf` : the index of the first occurrence of a character.
* `Text.getlines` : the lines that a `std::getline` loop delivers.
* `Text.strip` : removal of one character at both ends.
* `Text.toInt32` : the number that a text starts with.
* `Text.cStr`, `Text.beforeNul` : a string as a C string.
* `Text.find` : the index of the first occurrence of a text.
* `Text.filename` : the last component of a path.
* `Text.findFrom` : the index of a character from a position on.
* `Text.toSize`, `Text.toUInt32`, `Text.extractUnsigned` : reading an unsigned number.

## Main results

* `Text.findFirstOf_append_cons` : the first occurrence after a prefix without the character.
* `Text.take_append_add` : a cut behind a prefix.
* `Text.find_eq_some` : what an occurrence says about the text.
* `Text.filename_append_cons` : the last component behind a slash.
* `Text.toInt32_toDigits`, `Text.extractUnsigned_toDigits` : reading back the decimal digits of a
  number.
-/

/-- The characters of a `std::string`. -/
abbrev Text := List Char

namespace Text

/-- `find_first_of(c)`: the index of the first `c`, `none` for `npos`. -/
def findFirstOf (c : Char) (s : Text) : Option ℕ :=
  s.findIdx? (· == c)

/-- The lines that `while (std::getline(in, line))` delivers: the pieces between line feeds, except
that nothing follows a final line feed. -/
def getlines (content : Text) : List Text :=
  let pieces := content.splitOn '\n'
  if pieces.getLast? = some [] then pieces.dropLast else pieces

/-- The number that the decimal digits at the start of a text denote. -/
def leadingNat (s : Text) : ℕ :=
  Nat.ofDigitChars 10 (s.takeWhile Char.isDigit) 0

/-- The same with an optional minus sign. -/
def leadingInt : Text → ℤ
  | '-' :: s => -leadingNat s
  | s => leadingNat s

/-- `std::from_chars` on an `int`, stored into a variable that is `0` before: without a digit, and
for a number outside the range of `int`, the variable keeps its `0`. -/
def toInt32 (s : Text) : Int32 :=
  if -2 ^ 31 ≤ leadingInt s ∧ leadingInt s < 2 ^ 31 then Int32.ofInt (leadingInt s) else 0

/-- The same for `std::size_t`, whose texts have no sign. -/
def toSize (s : Text) : UInt64 :=
  if leadingNat s < 2 ^ 64 then UInt64.ofNat (leadingNat s) else 0

/-- The same for `std::uint32_t`. -/
def toUInt32 (s : Text) : UInt32 :=
  if leadingNat s < 2 ^ 32 then UInt32.ofNat (leadingNat s) else 0

/-- The blanks that formatted input skips. -/
def isSpace (c : Char) : Bool := [' ', '\t', '\n', '\r', Char.ofNat 11, Char.ofNat 12].contains c

/-- `stream >> n` for an `unsigned` that is `0` before: the magnitude is read, a minus sign negates
it modulo `2^32`, and a magnitude that is too large gives the largest value. -/
def extractUnsigned (s : Text) : UInt32 :=
  let limited (magnitude : ℕ) : ℕ := min magnitude (2 ^ 32 - 1)
  match s.dropWhile isSpace with
  | '-' :: digits =>
      if leadingNat digits < 2 ^ 32 then -UInt32.ofNat (leadingNat digits)
      else UInt32.ofNat (limited (leadingNat digits))
  | '+' :: digits => UInt32.ofNat (limited (leadingNat digits))
  | digits => UInt32.ofNat (limited (leadingNat digits))

/-- The decimal text of an integer. -/
def ofInt : ℤ → Text
  | .ofNat n => Nat.toDigits 10 n
  | .negSucc n => '-' :: Nat.toDigits 10 (n + 1)

/-- Spaces and tabs. -/
def isTabOrSpace (c : Char) : Bool := c == ' ' || c == '\t'

/-- Remove every leading and every trailing `c`. -/
def strip (c : Char) (s : Text) : Text :=
  (s.dropWhile (· == c)).rdropWhile (· == c)

/-- What `c_str()` shows to a reader of C strings: the text in front of the first NUL. -/
def cStr (s : String) : String :=
  String.ofList (s.toList.takeWhile (· != Char.ofNat 0))

/-- The NUL that ends a C string. -/
def nul : Char := Char.ofNat 0

/-- The part of a text that a reader of C strings sees. -/
def beforeNul (s : Text) : Text := s.takeWhile (· != nul)

/-- `find(needle)`: the index of the first occurrence, `none` for `npos`. -/
def find (needle : Text) : Text → Option ℕ
  | [] => if needle.isEmpty then some 0 else none
  | c :: s => if needle.isPrefixOf (c :: s) then some 0 else (find needle s).map (· + 1)

/-- The index of the first character from the position on that meets the condition. -/
def findFrom (p : Char → Bool) (s : Text) (pos : ℕ) : Option ℕ :=
  ((s.drop pos).findIdx? p).map (pos + ·)

/-- `fs::path::filename`: what follows the last slash. -/
def filename (path : Text) : Text := path.rtakeWhile (· != '/')

/-! ### Up to a character -/

section UpTo

variable {c : Char} {s : Text}

theorem forall_bne (h : c ∉ s) : ∀ d ∈ s, (d != c) = true :=
  fun _ hd => bne_iff_ne.mpr (ne_of_mem_of_not_mem hd h)

theorem not_mem_takeWhile_bne (c : Char) (s : Text) : c ∉ s.takeWhile (· != c) :=
  fun h => absurd (List.mem_takeWhile_imp h) (by simp)

theorem takeWhile_bne (h : c ∉ s) : s.takeWhile (· != c) = s :=
  List.takeWhile_eq_self_iff.mpr (forall_bne h)

theorem takeWhile_bne_append_cons (h : c ∉ s) (rest : Text) :
    (s ++ c :: rest).takeWhile (· != c) = s := by
  rw [List.takeWhile_append_of_pos (forall_bne h), List.takeWhile_cons_of_neg (by simp),
    List.append_nil]

theorem dropWhile_bne_append_cons (h : c ∉ s) (rest : Text) :
    (s ++ c :: rest).dropWhile (· != c) = c :: rest := by
  rw [List.dropWhile_append_of_pos (forall_bne h), List.dropWhile_cons_of_neg (by simp)]

end UpTo

/-! ### Searching -/

theorem findFirstOf_append_cons {c : Char} {p : Text} (h : c ∉ p) (s : Text) :
    findFirstOf c (p ++ c :: s) = some p.length := by
  have hp : p.findIdx? (· == c) = none := by
    rw [List.findIdx?_eq_none_iff]
    intro d hd
    exact beq_eq_false_iff_ne.mpr fun hdc => h (hdc ▸ hd)
  simp [findFirstOf, List.findIdx?_append, hp, List.findIdx?_cons]

/-- A cut that reaches `n` characters behind a prefix keeps the prefix and `n` more characters. -/
theorem take_append_add (p s : Text) (n : ℕ) :
    (p ++ s).take (p.length + n) = p ++ s.take n := by
  rw [List.take_append, List.take_of_length_le (Nat.le_add_right _ _), Nat.add_sub_cancel_left]

/-- Removal from the right end stops at the last character that is to be kept. -/
theorem rdropWhile_append_cons {drop : Char → Bool} {c : Char} (hc : drop c = false)
    (s t : Text) : (s ++ c :: t).rdropWhile drop = s ++ c :: t.rdropWhile drop := by
  induction t using List.reverseRecOn with
  | nil =>
      rw [List.rdropWhile_concat_neg _ _ _ (by simp [hc])]
      rfl
  | append_singleton t d ih =>
      rw [← List.cons_append, ← List.append_assoc]
      by_cases hd : drop d
      · rw [List.rdropWhile_concat_pos _ _ _ hd, List.rdropWhile_concat_pos _ _ _ hd, ih]
      · rw [List.rdropWhile_concat_neg _ _ _ hd, List.rdropWhile_concat_neg _ _ _ hd]
        simp

/-- The pieces of a text are made of its characters. -/
theorem subset_of_mem_splitOn {c : Char} {s piece : Text} (h : piece ∈ s.splitOn c) :
    piece ⊆ s := by
  induction s generalizing piece with
  | nil =>
      rw [List.splitOn_nil, List.mem_singleton] at h
      exact h ▸ List.Subset.refl _
  | cons d s ih =>
      rw [List.splitOn_cons_eq_if_modifyHead] at h
      split_ifs at h with hd
      · rcases List.mem_cons.mp h with rfl | h
        · exact List.nil_subset _
        · exact List.subset_cons_of_subset d (ih h)
      · obtain ⟨first, rest, hpieces⟩ := List.exists_cons_of_ne_nil (List.splitOn_ne_nil c s)
        rw [hpieces, List.modifyHead_cons] at h
        rw [hpieces] at ih
        rcases List.mem_cons.mp h with rfl | h
        · exact List.cons_subset_cons d (ih List.mem_cons_self)
        · exact List.subset_cons_of_subset d (ih (List.mem_cons_of_mem _ h))

/-- Every character other than the separator is in one of the pieces. -/
theorem exists_mem_splitOn {c d : Char} (hne : d ≠ c) {s : Text} (hd : d ∈ s) :
    ∃ piece ∈ s.splitOn c, d ∈ piece := by
  induction s with
  | nil => exact absurd hd List.not_mem_nil
  | cons e s ih =>
      rw [List.splitOn_cons_eq_if_modifyHead]
      obtain ⟨first, rest, hpieces⟩ := List.exists_cons_of_ne_nil (List.splitOn_ne_nil c s)
      rw [hpieces] at ih ⊢
      rcases List.mem_cons.mp hd with rfl | hd
      · rw [if_neg (by simpa using hne)]
        exact ⟨d :: first, List.mem_cons_self, List.mem_cons_self⟩
      · obtain ⟨piece, hpiece, hmem⟩ := ih hd
        split_ifs
        · exact ⟨piece, List.mem_cons_of_mem _ hpiece, hmem⟩
        · rcases List.mem_cons.mp hpiece with rfl | hpiece
          · exact ⟨e :: piece, List.mem_cons_self, List.mem_cons_of_mem _ hmem⟩
          · exact ⟨piece, List.mem_cons_of_mem _ hpiece, hmem⟩

/-- Where a search finds nothing. -/
theorem findFrom_eq_none {p : Char → Bool} {s : Text} {pos : ℕ} (h : findFrom p s pos = none) :
    ∀ c ∈ s.drop pos, p c = false := by
  rw [findFrom, Option.map_eq_none_iff] at h
  exact List.findIdx?_eq_none_iff.mp h

/-- What a search finds splits the rest of the text around it. -/
theorem findFrom_eq_some {p : Char → Bool} {s : Text} {pos i : ℕ} (h : findFrom p s pos = some i) :
    ∃ before c rest, s.drop pos = before ++ c :: rest ∧ i = pos + before.length ∧
      (∀ d ∈ before, p d = false) ∧ p c = true := by
  rw [findFrom] at h
  obtain ⟨n, hn, rfl⟩ := Option.map_eq_some_iff.mp h
  clear h
  generalize s.drop pos = rest at hn ⊢
  induction rest generalizing n with
  | nil => simp at hn
  | cons c rest ih =>
      rw [List.findIdx?_cons] at hn
      split_ifs at hn with hc
      · obtain rfl := Option.some.inj hn
        exact ⟨[], c, rest, rfl, rfl, by simp, hc⟩
      · obtain ⟨m, hm, rfl⟩ := Option.map_eq_some_iff.mp hn
        obtain ⟨before, d, after, rfl, hlength, hbefore, hd⟩ := ih m hm
        refine ⟨c :: before, d, after, rfl, ?_, ?_, hd⟩
        · rw [List.length_cons]
          omega
        · exact List.forall_mem_cons.mpr ⟨by simpa using hc, hbefore⟩

/-- The other way round. -/
theorem findFrom_of_drop {p : Char → Bool} {s before rest : Text} {c : Char} {pos : ℕ}
    (hdrop : s.drop pos = before ++ c :: rest) (hbefore : ∀ d ∈ before, p d = false)
    (hc : p c = true) : findFrom p s pos = some (pos + before.length) := by
  have hnone : before.findIdx? p = none := List.findIdx?_eq_none_iff.mpr hbefore
  rw [findFrom, hdrop, List.findIdx?_append, hnone, List.findIdx?_cons, if_pos hc]
  simp

/-- An occurrence splits the text around it. -/
theorem find_eq_some {needle s : Text} {i : ℕ} (h : find needle s = some i) :
    ∃ before after, s = before ++ (needle ++ after) ∧ before.length = i := by
  induction s generalizing i with
  | nil =>
      rw [find] at h
      split_ifs at h with hempty
      obtain rfl := Option.some.inj h
      exact ⟨[], [], by simpa using hempty, rfl⟩
  | cons c s ih =>
      rw [find] at h
      split_ifs at h with hprefix
      · obtain rfl := Option.some.inj h
        obtain ⟨after, hafter⟩ := List.isPrefixOf_iff_prefix.mp hprefix
        exact ⟨[], after, hafter.symm, rfl⟩
      · obtain ⟨j, hj, rfl⟩ := Option.map_eq_some_iff.mp h
        obtain ⟨before, after, rfl, rfl⟩ := ih hj
        exact ⟨c :: before, after, rfl, rfl⟩

/-- A text that occurs at the end of another is found. -/
theorem isSome_find_append (s needle : Text) : (find needle (s ++ needle)).isSome := by
  induction s with
  | nil => cases needle <;> simp [find, List.isPrefixOf_iff_prefix]
  | cons c s ih =>
      rw [List.cons_append, find]
      split_ifs
      · rfl
      · simpa using ih

theorem not_mem_filename (path : Text) : '/' ∉ filename path := fun h => by
  have hchar := List.mem_takeWhile_imp (List.mem_reverse.mp h)
  simp at hchar

theorem filename_append_cons (dir : Text) {b : Text} (h : '/' ∉ b) :
    filename (dir ++ '/' :: b) = b := by
  induction b using List.reverseRecOn with
  | nil =>
      rw [filename, List.rtakeWhile_concat_neg _ _ _ (by simp)]
  | append_singleton b c ih =>
      rw [List.mem_append, not_or] at h
      have hc : (c != '/') = true := forall_bne h.2 c (List.mem_singleton_self c)
      rw [← List.cons_append, ← List.append_assoc, filename,
        List.rtakeWhile_concat_pos (· != '/') _ c hc]
      exact congrArg (· ++ [c]) (ih h.1)

theorem isDigit_of_mem_toDigits {n : ℕ} {c : Char} (hc : c ∈ Nat.toDigits 10 n) :
    c.isDigit = true :=
  Nat.isDigit_of_mem_toDigits (by omega) le_rfl hc

theorem leadingNat_toDigits (n : ℕ) : leadingNat (Nat.toDigits 10 n) = n := by
  rw [leadingNat, List.takeWhile_eq_self_iff.mpr fun _ => isDigit_of_mem_toDigits,
    Nat.ofDigitChars_ten_toDigits]

theorem toUInt32_toDigits {n : ℕ} (hn : n < 2 ^ 32) :
    toUInt32 (Nat.toDigits 10 n) = UInt32.ofNat n := by
  rw [toUInt32, leadingNat_toDigits, if_pos hn]

theorem leadingInt_toDigits (n : ℕ) : leadingInt (Nat.toDigits 10 n) = n := by
  unfold leadingInt
  split
  · rename_i digits h
    have hminus : Char.isDigit '-' = true := isDigit_of_mem_toDigits (h ▸ List.mem_cons_self)
    exact absurd hminus (by decide)
  · rw [leadingNat_toDigits]

theorem leadingNat_append {s : Text} (h : ∀ c ∈ s, c.isDigit) {c : Char} (hc : c.isDigit = false)
    (rest : Text) : leadingNat (s ++ c :: rest) = leadingNat s := by
  rw [leadingNat, leadingNat, List.takeWhile_append_of_pos h,
    List.takeWhile_cons_of_neg (by simp [hc]), List.append_nil, List.takeWhile_eq_self_iff.mpr h]

theorem leadingNat_toDigits_append (n : ℕ) {c : Char} (hc : c.isDigit = false) (rest : Text) :
    leadingNat (Nat.toDigits 10 n ++ c :: rest) = n :=
  (leadingNat_append (fun _ hd => isDigit_of_mem_toDigits hd) hc rest).trans (leadingNat_toDigits n)

theorem isSpace_eq_false_of_isDigit {c : Char} (hc : c.isDigit) : isSpace c = false := by
  by_contra hspace
  rw [Bool.not_eq_false, isSpace, List.contains_iff_mem] at hspace
  simp only [List.mem_cons, List.not_mem_nil, or_false] at hspace
  rcases hspace with rfl | rfl | rfl | rfl | rfl | rfl <;> exact absurd hc (by decide)

/-- A text that starts with a digit has no sign to look for. -/
theorem extractUnsigned_cons {c : Char} (hc : c.isDigit) (rest : Text) :
    extractUnsigned (c :: rest) = UInt32.ofNat (min (leadingNat (c :: rest)) (2 ^ 32 - 1)) := by
  have hdrop : (c :: rest).dropWhile isSpace = c :: rest :=
    List.dropWhile_cons_of_neg (by simp [isSpace_eq_false_of_isDigit hc])
  unfold extractUnsigned
  rw [hdrop]
  split
  · rename_i h
    obtain rfl := (List.cons.inj h).1
    exact absurd hc (by decide)
  · rename_i h
    obtain rfl := (List.cons.inj h).1
    exact absurd hc (by decide)
  · rfl

theorem extractUnsigned_toDigits (n : ℕ) {c : Char} (hc : c.isDigit = false) (rest : Text) :
    extractUnsigned (Nat.toDigits 10 n ++ c :: rest) = UInt32.ofNat (min n (2 ^ 32 - 1)) := by
  have hne : Nat.toDigits 10 n ≠ [] := Nat.toDigits_ne_nil
  obtain ⟨d, digits, hcons⟩ := List.exists_cons_of_ne_nil hne
  have hd : d.isDigit = true := isDigit_of_mem_toDigits (hcons ▸ List.mem_cons_self)
  have hread := leadingNat_toDigits_append n hc rest
  rw [hcons, List.cons_append] at hread ⊢
  rw [extractUnsigned_cons hd, hread]

theorem extractUnsigned_minus_toDigits {n : ℕ} (hn : n < 2 ^ 32) {c : Char}
    (hc : c.isDigit = false) (rest : Text) :
    extractUnsigned ('-' :: (Nat.toDigits 10 n ++ c :: rest)) = -UInt32.ofNat n := by
  have hread := leadingNat_toDigits_append n hc rest
  exact (if_pos (by rwa [hread])).trans (by rw [hread])

/-- The decimal text of a number that fits in an `int` reads back as the number. -/
theorem toInt32_toDigits {n : ℕ} (hn : n < 2 ^ 31) :
    toInt32 (Nat.toDigits 10 n) = Int32.ofNat n := by
  rw [toInt32, leadingInt_toDigits, if_pos (by omega)]
  rfl

end Text
