import AnanicyCpp.Library.Fallible
import AnanicyCpp.Startup
import Mathlib.Algebra.Order.Ring.Int
import Mathlib.Data.Nat.Cast.Basic

/-!
# The value of an argument as a number

`argument_value::value<T>`. A signed type goes through `std::stoll` and an unsigned one through
`std::stoull`, whatever its width; both throw, and both read the number at the start of a text only.
The result is then converted to the type, which drops the high bits. No value is returned only where
the argument has none.

## Main definitions

* `IntegralType`, `IntegralType.Contains`, `IntegralType.narrow` : the integral types, their numbers
  and the conversion to them.
* `IntegralType.value` : the function.
* `IntegralType.denoted` : the number of the type that a text denotes as a whole, if any.

## Main results

* `IntegralType.benchmarkCount_eq` : the number of processes that `main` reads.
* `IntegralType.value_eq_denoted_iff` : when the function returns what the text denotes.
-/

namespace AnanicyCpp

/-- The integral types other than `bool`. -/
structure IntegralType where
  signed : Bool
  bits : ℕ
  pos_bits : 0 < bits
  bits_le : bits ≤ 64

namespace IntegralType

def uint32 : IntegralType := ⟨false, 32, by decide, by decide⟩

def uint64 : IntegralType := ⟨false, 64, by decide, by decide⟩

/-- The numbers of the type. -/
def Contains (T : IntegralType) (z : ℤ) : Prop :=
  if T.signed then -2 ^ (T.bits - 1) ≤ z ∧ z < 2 ^ (T.bits - 1) else 0 ≤ z ∧ z < 2 ^ T.bits

instance (T : IntegralType) (z : ℤ) : Decidable (T.Contains z) :=
  inferInstanceAs (Decidable (ite ..))

/-- The conversion to the type keeps the low bits. -/
def narrow (T : IntegralType) (z : ℤ) : ℤ :=
  if T.signed then z.bmod (2 ^ T.bits) else z % 2 ^ T.bits

/-- `argument_value::value<T>`, for the value of the argument. -/
def value (T : IntegralType) : Option Text → Except StdException (Option ℤ)
  | none => .ok none
  | some value =>
    if T.signed then (stoll value).map fun n => some (T.narrow n.toInt)
    else (stoull value).map fun n => some (T.narrow n.toNat)

/-- `main` reads `benchmark-count` as a `uint32_t`. -/
theorem benchmarkCount_eq (parser : ArgumentParser) :
    (benchmarkCount parser).map (Option.map fun n : UInt32 => (n.toNat : ℤ)) =
      uint32.value (parser.valueOf "benchmark-count".toList) := by
  rw [benchmarkCount]
  cases parser.valueOf "benchmark-count".toList with
  | none => rfl
  | some text =>
    change ((stoull text).map fun n => some n.toUInt32).map _ =
      (stoull text).map fun n => some (uint32.narrow n.toNat)
    cases stoull text with
    | error e => rfl
    | ok n =>
      have hnarrow : (n.toUInt32.toNat : ℤ) = uint32.narrow n.toNat := by
        rw [UInt64.toNat_toUInt32]
        exact Int.natCast_emod ..
      exact congrArg (fun z => Except.ok (some z)) hnarrow

/-! ### What the text denotes -/

/-- The number that the whole text denotes, where it is a decimal literal and the type has this
number. `sign` says whether a literal may start with a sign. -/
def denoted (T : IntegralType) (sign : Bool) (text : Text) : Option ℤ :=
  (Numeral.decimal sign text).filter fun z => T.Contains z

variable {T : IntegralType} {z : ℤ}

/-- What both conversions read holds the numbers of the type, and nothing is dropped from them. -/
theorem contains_signed (hsigned : T.signed = true) (h : T.Contains z) :
    (-2 ^ 63 ≤ z ∧ z < 2 ^ 63) ∧ T.narrow z = z := by
  rw [Contains, if_pos hsigned] at h
  have hbits := T.bits_le
  have hpow : (2 : ℤ) ^ (T.bits - 1) ≤ 2 ^ 63 := pow_le_pow_right₀ (by decide) (by omega)
  have hhalf : ((2 ^ T.bits : ℕ) : ℤ) = 2 * 2 ^ (T.bits - 1) := by
    rw [Nat.cast_pow, ← pow_succ', Nat.sub_add_cancel T.pos_bits]
    rfl
  refine ⟨by omega, ?_⟩
  rw [narrow, if_pos hsigned, Int.bmod_eq_iff (Nat.two_pow_pos _), hhalf]
  refine ⟨by omega, by omega, ?_⟩
  rw [Int.sub_self]
  exact Int.dvd_zero _

theorem contains_unsigned (hsigned : T.signed = false) (h : T.Contains z) :
    (0 ≤ z ∧ z < 2 ^ 64) ∧ T.narrow z = z := by
  rw [Contains, if_neg (by simp [hsigned])] at h
  have hpow : (2 : ℤ) ^ T.bits ≤ 2 ^ 64 := pow_le_pow_right₀ (by decide) T.bits_le
  rw [narrow, if_neg (by simp [hsigned])]
  exact ⟨⟨h.1, by omega⟩, Int.emod_eq_of_lt h.1 h.2⟩

/-- A literal of the type is what the function returns for it. -/
theorem value_of_decimal {sign : Bool} {text : Text} (hz : Numeral.decimal sign text = some z)
    (h : T.Contains z) : T.value (some text) = .ok (some z) := by
  obtain ⟨hdigit, hnumber⟩ := Numeral.leadingNumber_of_decimal hz
  rw [value]
  cases hsigned : T.signed with
  | true =>
    obtain ⟨hrange, hnarrow⟩ := contains_signed hsigned h
    have hread : stoll text = .ok (Int64.ofInt z) :=
      stoll_eq_ok_iff.mpr ⟨hdigit, hnumber ▸ hrange,
        (Int64.toInt_ofInt_of_le hrange.1 hrange.2).trans hnumber.symm⟩
    rw [if_pos rfl, hread]
    refine congrArg (fun n => Except.ok (some n)) ?_
    rw [Int64.toInt_ofInt_of_le hrange.1 hrange.2, hnarrow]
  | false =>
    obtain ⟨hrange, hnarrow⟩ := contains_unsigned hsigned h
    obtain ⟨n, hn⟩ := exists_stoull_eq_ok hdigit (by rw [hnumber]; omega)
    have hvalue : (n.toNat : ℤ) = z := by
      rw [(stoull_eq_ok_iff.mp hn).2.2, hnumber]
      exact Int.emod_eq_of_lt hrange.1 hrange.2
    rw [if_neg Bool.false_ne_true, hn]
    refine congrArg (fun n => Except.ok (some n)) ?_
    rw [hvalue, hnarrow]

/-- The function never returns no value for an argument that has one. -/
theorem value_ne_none (text : Text) : T.value (some text) ≠ .ok none := by
  intro h
  rw [value] at h
  split_ifs at h
  · obtain ⟨n, -, hn⟩ := Fallible.map_eq_ok_iff.mp h
    exact Option.some_ne_none _ hn
  · obtain ⟨n, -, hn⟩ := Fallible.map_eq_ok_iff.mp h
    exact Option.some_ne_none _ hn

/-- **When the value is what the text denotes.** For every text of an argument, the function returns
the number that the whole text denotes in the type, and no value where there is none, exactly when
there is one: every other text throws or is read as some number. -/
theorem value_eq_denoted_iff (T : IntegralType) (sign : Bool) (text : Text) :
    T.value (some text) = .ok (T.denoted sign text) ↔
      ∃ z, Numeral.decimal sign text = some z ∧ T.Contains z := by
  constructor
  · intro h
    cases hdenoted : T.denoted sign text with
    | none => exact absurd (hdenoted ▸ h) (value_ne_none text)
    | some z =>
      obtain ⟨hz, hcontains⟩ := Option.filter_eq_some_iff.mp hdenoted
      exact ⟨z, hz, of_decide_eq_true hcontains⟩
  · rintro ⟨z, hz, h⟩
    rw [value_of_decimal hz h, denoted, hz, Option.filter_some, if_pos (decide_eq_true h)]

/-- A number of 33 bits is cut to 32. -/
theorem not_forall_value_eq_denoted :
    ¬ ∀ (T : IntegralType) (sign : Bool) (text : Text),
      T.value (some text) = .ok (T.denoted sign text) := by
  intro h
  have hvalue := h uint32 true "4294967296".toList
  exact absurd hvalue (by decide +kernel)

end IntegralType

end AnanicyCpp
