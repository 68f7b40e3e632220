import AnanicyCpp.Library.Text
import Mathlib.Tactic.SplitIfs

/-!
# Numbers in texts

`std::stoull` and `std::stoll`. They skip blanks, take a sign and read digits up to the first
character that is none; what follows is not looked at. A decimal literal is a text that is a number
as a whole.

## Main definitions

* `stoull`, `stoll` : the conversions, with their exceptions.
* `Numeral.negative`, `Numeral.digits`, `Numeral.leadingNumber` : what they read.
* `Numeral.decimal` : the number that a decimal literal denotes.

## Main results

* `stoull_eq_ok_iff`, `stoll_eq_ok_iff` : when a conversion succeeds, and with what.
* `Numeral.leadingNumber_of_decimal` : a literal is read as the number that it denotes.
-/

namespace Numeral

/-- What stands behind the blanks at the start of a text. -/
def signed (s : Text) : Text := s.dropWhile Text.isSpace

def negative (s : Text) : Bool :=
  match signed s with
  | '-' :: _ => true
  | _ => false

/-- What stands behind the blanks and the sign. -/
def digits (s : Text) : Text :=
  match signed s with
  | '-' :: digits => digits
  | '+' :: digits => digits
  | digits => digits

/-- There is a digit to read. -/
def HasDigit (s : Text) : Prop := ((digits s).headD ' ').isDigit = true

instance (s : Text) : Decidable (HasDigit s) := inferInstanceAs (Decidable (_ = true))

/-- The number that is read. -/
def leadingNumber (s : Text) : ℤ :=
  if negative s then -Text.leadingNat (digits s) else Text.leadingNat (digits s)

/-- The number that a text of digits denotes. -/
def wholeNat (s : Text) : Option ℕ :=
  if s ≠ [] ∧ s.all Char.isDigit then some (Nat.ofDigitChars 10 s 0) else none

/-- The number that a decimal literal denotes, with or without a sign in front of its digits. -/
def decimal (sign : Bool) : Text → Option ℤ
  | '-' :: s => if sign then (wholeNat s).map fun n : ℕ => -(n : ℤ) else none
  | '+' :: s => if sign then (wholeNat s).map fun n : ℕ => (n : ℤ) else none
  | s => (wholeNat s).map fun n : ℕ => (n : ℤ)

theorem natAbs_leadingNumber (s : Text) :
    (leadingNumber s).natAbs = Text.leadingNat (digits s) := by
  rw [leadingNumber]
  split_ifs <;> simp

/-- A text that starts with neither a blank nor a sign. -/
theorem signed_cons {c : Char} (hc : Text.isSpace c = false) (s : Text) :
    signed (c :: s) = c :: s :=
  List.dropWhile_cons_of_neg (by simp [hc])

theorem wholeNat_eq_some_iff {s : Text} {n : ℕ} :
    wholeNat s = some n ↔
      (s.headD ' ').isDigit = true ∧ (∀ c ∈ s, c.isDigit = true) ∧ Text.leadingNat s = n := by
  rw [wholeNat, Text.leadingNat]
  cases s with
  | nil => simp
  | cons c s =>
    by_cases hall : ∀ d ∈ c :: s, d.isDigit = true
    · rw [if_pos ⟨List.cons_ne_nil c s, List.all_eq_true.mpr hall⟩,
        List.takeWhile_eq_self_iff.mpr hall, Option.some.injEq]
      exact ⟨fun h => ⟨hall c List.mem_cons_self, hall, h⟩, fun h => h.2.2⟩
    · rw [if_neg fun h => hall (List.all_eq_true.mp h.2)]
      exact iff_of_false (fun h => Option.some_ne_none n h.symm) fun h => hall h.2.1

/-- A text that starts with a digit has no sign. -/
theorem leadingNumber_digit {c : Char} (hc : c.isDigit = true) (s : Text) :
    HasDigit (c :: s) ∧ leadingNumber (c :: s) = Text.leadingNat (c :: s) := by
  have hsigned := signed_cons (Text.isSpace_eq_false_of_isDigit hc) s
  have hminus : c ≠ '-' := fun h => absurd (h ▸ hc) (by decide)
  have hplus : c ≠ '+' := fun h => absurd (h ▸ hc) (by decide)
  have hdigits : digits (c :: s) = c :: s := by
    rw [digits, hsigned]
    split <;> simp_all
  have hnegative : negative (c :: s) = false := by
    rw [negative, hsigned]
    split <;> simp_all
  rw [HasDigit, leadingNumber, hdigits, hnegative]
  exact ⟨hc, rfl⟩

theorem leadingNumber_minus (s : Text) :
    (HasDigit ('-' :: s) ↔ (s.headD ' ').isDigit = true) ∧
    leadingNumber ('-' :: s) = -(Text.leadingNat s : ℤ) := by
  have hsigned : signed ('-' :: s) = '-' :: s := signed_cons (by decide) s
  rw [HasDigit, leadingNumber, digits, negative, hsigned]
  exact ⟨Iff.rfl, rfl⟩

theorem leadingNumber_plus (s : Text) :
    (HasDigit ('+' :: s) ↔ (s.headD ' ').isDigit = true) ∧
    leadingNumber ('+' :: s) = Text.leadingNat s := by
  have hsigned : signed ('+' :: s) = '+' :: s := signed_cons (by decide) s
  rw [HasDigit, leadingNumber, digits, negative, hsigned]
  exact ⟨Iff.rfl, rfl⟩

/-- **A literal is read as the number that it denotes.** -/
theorem leadingNumber_of_decimal {sign : Bool} {s : Text} {z : ℤ} (h : decimal sign s = some z) :
    HasDigit s ∧ leadingNumber s = z := by
  unfold decimal at h
  split at h
  · next s =>
    split_ifs at h
    obtain ⟨n, hn, rfl⟩ := Option.map_eq_some_iff.mp h
    obtain ⟨hhead, -, hvalue⟩ := wholeNat_eq_some_iff.mp hn
    obtain ⟨hdigit, hnumber⟩ := leadingNumber_minus s
    exact ⟨hdigit.mpr hhead, by rw [hnumber, hvalue]⟩
  · next s =>
    split_ifs at h
    obtain ⟨n, hn, rfl⟩ := Option.map_eq_some_iff.mp h
    obtain ⟨hhead, -, hvalue⟩ := wholeNat_eq_some_iff.mp hn
    obtain ⟨hdigit, hnumber⟩ := leadingNumber_plus s
    exact ⟨hdigit.mpr hhead, by rw [hnumber, hvalue]⟩
  · obtain ⟨n, hn, rfl⟩ := Option.map_eq_some_iff.mp h
    obtain ⟨hhead, -, hvalue⟩ := wholeNat_eq_some_iff.mp hn
    cases s with
    | nil => exact absurd hhead (by decide)
    | cons c s =>
      rw [List.headD_cons] at hhead
      obtain ⟨hdigit, hnumber⟩ := leadingNumber_digit hhead s
      exact ⟨hdigit, by rw [hnumber, hvalue]⟩

end Numeral

namespace AnanicyCpp

/-- The exceptions of `std::stoull`. -/
inductive StdException where
  | invalidArgument
  | outOfRange
deriving DecidableEq

/-- `std::stoull`: blanks and a sign may stand in front of the digits, and a minus sign negates
modulo `2^64`. -/
def stoull (s : Text) : Except StdException UInt64 :=
  let read (negative : Bool) (digits : Text) : Except StdException UInt64 :=
    if !(digits.headD ' ').isDigit then .error .invalidArgument
    else if 2 ^ 64 ≤ Text.leadingNat digits then .error .outOfRange
    else
      let n := UInt64.ofNat (Text.leadingNat digits)
      .ok (if negative then -n else n)
  match s.dropWhile Text.isSpace with
  | '-' :: digits => read true digits
  | '+' :: digits => read false digits
  | digits => read false digits

/-- `std::stoll`: the same for a signed number, whose sign counts. -/
def stoll (s : Text) : Except StdException Int64 :=
  let read (negative : Bool) (digits : Text) : Except StdException Int64 :=
    let n : ℤ := if negative then -Text.leadingNat digits else Text.leadingNat digits
    if !(digits.headD ' ').isDigit then .error .invalidArgument
    else if n < -2 ^ 63 ∨ 2 ^ 63 ≤ n then .error .outOfRange
    else .ok (Int64.ofInt n)
  match s.dropWhile Text.isSpace with
  | '-' :: digits => read true digits
  | '+' :: digits => read false digits
  | digits => read false digits

open Numeral

/-- The conversion looks at a text through its sign and its digits. -/
theorem stoull_eq (s : Text) :
    stoull s =
      if ¬HasDigit s then .error .invalidArgument
      else if 2 ^ 64 ≤ Text.leadingNat (digits s) then .error .outOfRange
      else .ok (if negative s then -UInt64.ofNat (Text.leadingNat (digits s))
        else UInt64.ofNat (Text.leadingNat (digits s))) := by
  unfold stoull HasDigit negative digits signed
  split <;> simp [*]

theorem stoll_eq (s : Text) :
    stoll s =
      if ¬HasDigit s then .error .invalidArgument
      else if leadingNumber s < -2 ^ 63 ∨ 2 ^ 63 ≤ leadingNumber s then .error .outOfRange
      else .ok (Int64.ofInt (leadingNumber s)) := by
  unfold stoll HasDigit leadingNumber negative digits signed
  split <;> simp [*]

/-- The word that `stoull` returns is the number modulo `2 ^ 64`. -/
theorem toNat_signed {k : ℕ} (hk : k < 2 ^ 64) (minus : Bool) :
    ((if minus then -UInt64.ofNat k else UInt64.ofNat k).toNat : ℤ) =
      (if minus then -(k : ℤ) else k) % 2 ^ 64 := by
  have hword : (UInt64.ofNat k).toNat = k := UInt64.toNat_ofNat_of_lt' hk
  cases minus with
  | true =>
    rw [if_pos rfl, if_pos rfl, UInt64.toNat_neg, hword]
    change (((2 ^ 64 - k) % 2 ^ 64 : ℕ) : ℤ) = -(k : ℤ) % 2 ^ 64
    omega
  | false =>
    rw [if_neg Bool.false_ne_true, if_neg Bool.false_ne_true, hword]
    omega

theorem stoull_eq_ok_iff {s : Text} {n : UInt64} :
    stoull s = .ok n ↔ HasDigit s ∧ (leadingNumber s).natAbs < 2 ^ 64 ∧
      (n.toNat : ℤ) = leadingNumber s % 2 ^ 64 := by
  rw [stoull_eq, natAbs_leadingNumber]
  by_cases hdigit : HasDigit s
  · by_cases hbound : Text.leadingNat (digits s) < 2 ^ 64
    · rw [if_neg (not_not.mpr hdigit), if_neg (by omega), and_iff_right hdigit,
        and_iff_right hbound, leadingNumber, ← toNat_signed hbound, Except.ok.injEq, eq_comm,
        ← UInt64.toNat_inj, Int.natCast_inj]
    · rw [if_neg (not_not.mpr hdigit), if_pos (by omega)]
      exact iff_of_false nofun fun h => hbound h.2.1
  · rw [if_pos hdigit]
    exact iff_of_false nofun fun h => hdigit h.1

theorem exists_stoull_eq_ok {s : Text} (hdigit : HasDigit s)
    (hbound : (leadingNumber s).natAbs < 2 ^ 64) : ∃ n, stoull s = .ok n := by
  refine ⟨UInt64.ofNat (leadingNumber s % 2 ^ 64).toNat,
    stoull_eq_ok_iff.mpr ⟨hdigit, hbound, ?_⟩⟩
  have hlt : (leadingNumber s % 2 ^ 64).toNat < 2 ^ 64 := by omega
  rw [UInt64.toNat_ofNat_of_lt' hlt]
  omega

theorem stoll_eq_ok_iff {s : Text} {n : Int64} :
    stoll s = .ok n ↔ HasDigit s ∧ (-2 ^ 63 ≤ leadingNumber s ∧ leadingNumber s < 2 ^ 63) ∧
      n.toInt = leadingNumber s := by
  rw [stoll_eq]
  by_cases hdigit : HasDigit s
  · by_cases hbound : -2 ^ 63 ≤ leadingNumber s ∧ leadingNumber s < 2 ^ 63
    · have hvalue : (Int64.ofInt (leadingNumber s)).toInt = leadingNumber s :=
        Int64.toInt_ofInt_of_le hbound.1 hbound.2
      rw [if_neg (not_not.mpr hdigit), if_neg (by omega), and_iff_right hdigit,
        and_iff_right hbound, Except.ok.injEq, eq_comm, ← Int64.toInt_inj, hvalue]
    · rw [if_neg (not_not.mpr hdigit), if_pos (by omega)]
      exact iff_of_false nofun fun h => hbound h.2.1
  · rw [if_pos hdigit]
    exact iff_of_false nofun fun h => hdigit h.1

end AnanicyCpp
