import Mathlib.Algebra.Group.Int.Defs
import Mathlib.Algebra.Group.Nat.Defs
import Mathlib.Tactic.SplitIfs

/-!
# Words of 32 bits

The signed and the unsigned reading of a word, and words that are put together of a low and a high
part by a shift and a disjunction.

## Main results

* `Word.toInt_toInt32`, `Word.toNat_toUInt32` : one reading in terms of the other.
* `Word.or_shiftRight`, `Word.or_and` : the parts of a disjunction.
* `Word.toInt_and_low`, `Word.toInt_shiftRight` : the parts of a word as a remainder and a quotient.
-/

namespace Word

theorem toInt_toInt32 (x : UInt32) : x.toInt32.toInt = (x.toNat : ℤ).bmod (2 ^ 32) :=
  BitVec.toInt_eq_toNat_bmod x.toBitVec

theorem toNat_toUInt32 (x : Int32) : (x.toUInt32.toNat : ℤ) = x.toInt % 2 ^ 32 := by
  have hx : x.toInt = (x.toUInt32.toNat : ℤ).bmod (2 ^ 32) := toInt_toInt32 x.toUInt32
  have hlt := x.toUInt32.toNat_lt
  have hmod : (x.toUInt32.toNat : ℤ).bmod (2 ^ 32) % 2 ^ 32 = (x.toUInt32.toNat : ℤ) % 2 ^ 32 :=
    Int.bmod_emod
  rw [hx, hmod]
  omega

/-- The low 32 bits, read as a signed number, are the number itself when it fits. -/
theorem bmod_eq_self_iff (n : ℤ) : n.bmod (2 ^ 32) = n ↔ -2 ^ 31 ≤ n ∧ n < 2 ^ 31 := by
  rw [Int.bmod_def]
  split_ifs <;> omega

theorem or_shiftRight (x y k : Int32) : (x ||| y) >>> k = x >>> k ||| y >>> k := by
  rw [← Int32.toBitVec_inj]
  simp only [Int32.toBitVec_shiftRight, Int32.toBitVec_or]
  exact BitVec.sshiftRight_or_distrib ..

theorem or_and (x y mask : Int32) : (x ||| y) &&& mask = x &&& mask ||| y &&& mask := by
  rw [← Int32.toBitVec_inj]
  exact BitVec.and_or_distrib_right

/-- Thirteen bits are shifted out: the quotient by `2 ^ 13`, rounded down. -/
theorem toInt_shiftRight (x : Int32) : (x >>> 13).toInt = x.toInt / 2 ^ 13 := by
  have hshift := BitVec.toInt_sshiftRight (x := x.toBitVec) (n := 13)
  exact hshift.trans (Int.shiftRight_eq_div_pow _ _)

/-- The low thirteen bits: the remainder modulo `2 ^ 13`. -/
theorem toInt_and_low (x : Int32) : (x &&& 0x1FFF).toInt = x.toInt % 2 ^ 13 := by
  have hlow : (x &&& 0x1FFF).toBitVec.toNat = x.toBitVec.toNat % 2 ^ 13 := by
    rw [← Nat.and_two_pow_sub_one_eq_mod]
    rfl
  have hmasked : (x &&& 0x1FFF).toInt = _ := BitVec.toInt_eq_toNat_cond _
  have hword : x.toInt = _ := BitVec.toInt_eq_toNat_cond _
  have hlt := x.toBitVec.isLt
  rw [hmasked, hword, hlow]
  split_ifs <;> omega

/-- A word that adds nothing to two set bits is one of the four words below them. -/
theorem three_or_eq_iff (x : Int32) : 3 ||| x = 3 ↔ 0 ≤ x.toInt ∧ x.toInt < 4 := by
  have hnat : 3 ||| x = 3 ↔ x.toBitVec.toNat < 4 := by
    rw [← Int32.toBitVec_inj, Int32.toBitVec_or, ← BitVec.toNat_inj, BitVec.toNat_or]
    constructor
    · intro h
      have hle : x.toBitVec.toNat ≤ (3 : Int32).toBitVec.toNat ||| x.toBitVec.toNat :=
        Nat.right_le_or
      rw [h] at hle
      exact Nat.lt_succ_of_le hle
    · intro h
      generalize x.toBitVec.toNat = n at h ⊢
      obtain rfl | rfl | rfl | rfl : n = 0 ∨ n = 1 ∨ n = 2 ∨ n = 3 := by omega
      all_goals rfl
  have hword : x.toInt = _ := BitVec.toInt_eq_toNat_cond _
  have hlt := x.toBitVec.isLt
  rw [hnat, hword]
  split_ifs <;> omega

end Word
