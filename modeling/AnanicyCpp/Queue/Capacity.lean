import Mathlib.Data.Nat.Bitwise

/-!
# The slots of the ring

The experimental build of the queue keeps its elements in a power of two of slots. A ticket belongs
to the slot at its low bits, after two groups of these have been swapped to put neighbours into
different cache lines. The swap moves no bit out of the index, so two tickets share a slot exactly
when they are a multiple of the capacity apart.

## Main definitions

* `Queue.remapIndex`, `Queue.size` : the index of a slot, and the number of slots that a constructor
  argument leads to.
* `Queue.Ring` : what the algorithm uses of the slots.
* `Queue.Ring.ofBits` : the slots of `AtomicQueueB2`.
-/

namespace AnanicyCpp

namespace Queue

/-! ### Indices -/

def remapIndexWithMix (bits : ℕ) (index mix : BitVec 32) : BitVec 32 :=
  index ^^^ mix ^^^ (mix <<< bits)

/-- Swap the lowest `bits` bits with the next ones. -/
def remapIndex (bits : ℕ) (index : BitVec 32) : BitVec 32 :=
  remapIndexWithMix bits index ((index ^^^ (index >>> bits)) &&& ((1#32 <<< bits) - 1))

/-- `SHUFFLE_BITS`, for cache lines of 64 states. -/
def shuffleBits : ℕ := 6

def orEqual (x : BitVec 32) (u : ℕ) : BitVec 32 := x ||| x >>> u

def roundUpToPowerOf2 (a : BitVec 32) : BitVec 32 :=
  orEqual (orEqual (orEqual (orEqual (orEqual (a - 1) 1) 2) 4) 8) 16 + 1

/-- `size_`, as the constructor of `AtomicQueueB2` computes it. -/
def size (requested : BitVec 32) : ℕ :=
  max (roundUpToPowerOf2 requested).toNat (1#32 <<< (shuffleBits * 2)).toNat

theorem toNat_mask {bits : ℕ} (hbits : bits < 32) :
    ((1#32 <<< bits) - 1).toNat = 2 ^ bits - 1 := by
  have hlt : 2 ^ bits < 2 ^ 32 := Nat.pow_lt_pow_right (by decide) hbits
  have hpos : 0 < 2 ^ bits := Nat.two_pow_pos bits
  simp [BitVec.toNat_sub, Nat.shiftLeft_eq]
  omega

theorem getLsbD_mask {bits : ℕ} (hbits : bits < 32) (i : ℕ) :
    ((1#32 <<< bits) - 1).getLsbD i = decide (i < bits) := by
  rw [BitVec.getLsbD, toNat_mask hbits, Nat.testBit_two_pow_sub_one]

theorem getLsbD_remapIndex {bits : ℕ} (hbits : 2 * bits ≤ 32) (index : BitVec 32) (i : ℕ) :
    (remapIndex bits index).getLsbD i =
      if i < bits then index.getLsbD (i + bits)
      else if i < 2 * bits then index.getLsbD (i - bits) else index.getLsbD i := by
  have hmask : ∀ i, ((1#32 <<< bits) - 1).getLsbD i = decide (i < bits) :=
    getLsbD_mask (by omega)
  simp only [remapIndex, remapIndexWithMix, BitVec.getLsbD_xor, BitVec.getLsbD_and, hmask,
    BitVec.getLsbD_shiftLeft, BitVec.getLsbD_ushiftRight]
  split_ifs with hlow hnext
  · simp [hlow, Nat.add_comm]
  · have hshift : i - bits < bits := by omega
    have hback : bits + (i - bits) = i := by omega
    have hi : i < 32 := by omega
    simp only [hlow, hshift, hback, hi, decide_true, decide_false, Bool.and_true, Bool.and_false,
      Bool.not_false, Bool.true_and, Bool.xor_false]
    rw [Bool.xor_left_comm, Bool.xor_self, Bool.xor_false]
  · have hshift : ¬i - bits < bits := by omega
    simp [hlow, hshift]

/-- The swap is its own inverse. -/
theorem remapIndex_remapIndex {bits : ℕ} (hbits : 2 * bits ≤ 32) (index : BitVec 32) :
    remapIndex bits (remapIndex bits index) = index := by
  apply BitVec.eq_of_getLsbD_eq
  intro i hi
  simp only [getLsbD_remapIndex hbits]
  split_ifs <;> first | omega | rfl | (congr 1; omega)

theorem remapIndex_injective {bits : ℕ} (hbits : 2 * bits ≤ 32) :
    Function.Injective (remapIndex bits) :=
  Function.LeftInverse.injective (remapIndex_remapIndex hbits)

/-- The swap stays among the slots. -/
theorem toNat_remapIndex_lt {bits k : ℕ} (hbits : 2 * bits ≤ k) (hk : k < 32) {index : BitVec 32}
    (hindex : index.toNat < 2 ^ k) : (remapIndex bits index).toNat < 2 ^ k := by
  refine Nat.lt_pow_two_of_testBit _ fun i hi => ?_
  have hbit : index.getLsbD i = false := Nat.testBit_lt_two_pow (hindex.trans_le
    (Nat.pow_le_pow_right (by decide) hi))
  have hsame := getLsbD_remapIndex (hbits.trans hk.le) index i
  rw [if_neg (by omega), if_neg (by omega), hbit] at hsame
  exact hsame

/-! ### Slots and tickets -/

/-- The slots of a ring: how many there are, and which one a ticket belongs to. -/
structure Ring where
  capacity : ℕ
  index : ℕ → ℕ
  capacity_pos : 0 < capacity
  index_eq_iff : ∀ ticket ticket', index ticket = index ticket' ↔
    ticket % capacity = ticket' % capacity

/-- `tail & (size_ - 1)` and `head & (size_ - 1)`; the tickets themselves wrap around at 32 bits. -/
def lowBits (k ticket : ℕ) : BitVec 32 := BitVec.ofNat 32 ticket &&& ((1#32 <<< k) - 1)

theorem toNat_lowBits {k : ℕ} (hk : k < 32) (ticket : ℕ) :
    (lowBits k ticket).toNat = ticket % 2 ^ k := by
  have hdvd : 2 ^ k ∣ 2 ^ 32 := pow_dvd_pow 2 hk.le
  rw [lowBits, BitVec.toNat_and, toNat_mask hk, BitVec.toNat_ofNat, Nat.and_two_pow_sub_one_eq_mod,
    Nat.mod_mod_of_dvd _ hdvd]

/-- The slots of `AtomicQueueB2` with `size_` equal to `2 ^ k`. -/
def Ring.ofBits (k : ℕ) (hk : k < 32) : Ring where
  capacity := 2 ^ k
  index ticket := (remapIndex shuffleBits (lowBits k ticket)).toNat
  capacity_pos := Nat.two_pow_pos k
  index_eq_iff ticket ticket' := by
    rw [BitVec.toNat_inj, (remapIndex_injective (by decide)).eq_iff, ← BitVec.toNat_inj,
      toNat_lowBits hk, toNat_lowBits hk]

/-- The index is one of the allocated slots, as the capacity is at least `1 << 12`. -/
theorem Ring.index_ofBits_lt {k : ℕ} (hk : k < 32) (hbits : 2 * shuffleBits ≤ k) (ticket : ℕ) :
    (Ring.ofBits k hk).index ticket < (Ring.ofBits k hk).capacity := by
  refine toNat_remapIndex_lt hbits hk ?_
  rw [toNat_lowBits hk]
  exact Nat.mod_lt _ (Nat.two_pow_pos k)

/-- The slots of `process_queue{INT16_MAX}`. -/
def processQueueRing : Ring := Ring.ofBits 15 (by decide)

theorem size_int16Max : size 32767#32 = processQueueRing.capacity := by decide

end Queue

end AnanicyCpp
