import Mathlib.Algebra.Divisibility.Basic
import Hart.Arithmetic
import Hart.Lane

/-!
# Lanes as numbers

The machine works on lanes with masks and shifts, and its meaning is arithmetic on numbers.  This
file is the bridge between the two.

* `wrap_emod`, `wrap_bmod` — a number and its remainder at a larger power of two wrap alike; this
  is why the carrier may be wider than the value.
* `Lane.unsigned_eq_wrap`, `Lane.unsigned_eq_wrap_toInt` — the low bits of a lane are what its
  unsigned and its signed reading wrap to.
* `Lane.toInt_signExtend` — the two shifts of `Lane.signExtend` read the low bits as a
  two's-complement number.
-/

set_option autoImplicit false

namespace Hart

/-! ## Wrapping -/

theorem natCast_wrap (bits : Nat) (x : Int) : (wrap bits x : Int) = x % 2 ^ bits := by
  have hpos : (0 : Int) < 2 ^ bits := Int.pow_pos (by decide)
  rw [wrap, Int.toNat_of_nonneg (Int.emod_nonneg x (Int.ne_of_gt hpos))]

theorem wrap_natCast (bits n : Nat) : wrap bits n = n % 2 ^ bits := by
  have hcast : (2 : Int) ^ bits = ((2 ^ bits : Nat) : Int) := by simp
  rw [wrap, hcast, ← Int.natCast_emod, Int.toNat_natCast]

/-- What wraps at a power of two may wrap at a larger one before. -/
theorem wrap_emod {bits n : Nat} (h : bits ≤ n) (x : Int) :
    wrap bits (x % 2 ^ n) = wrap bits x := by
  rw [wrap, wrap, Int.emod_emod_of_dvd x (pow_dvd_pow 2 h)]

/-- A term of a sum may wrap before the sum does. -/
theorem wrap_add_wrap (bits : Nat) (x y : Int) :
    wrap bits (x + wrap bits y) = wrap bits (x + y) := by
  rw [wrap, natCast_wrap, Int.add_emod_emod, wrap]

theorem wrap_wrap_add (bits : Nat) (x y : Int) :
    wrap bits (wrap bits x + y) = wrap bits (x + y) := by
  rw [wrap, natCast_wrap, Int.emod_add_emod, wrap]

theorem wrap_bmod {bits n : Nat} (h : bits ≤ n) (x : Int) :
    wrap bits (Int.bmod x (2 ^ n)) = wrap bits x := by
  rw [← wrap_emod h, ← wrap_emod h x]
  have hcast : ((2 ^ n : Nat) : Int) = 2 ^ n := by simp
  rw [← hcast, Int.bmod_emod]

/-! ## The number of a lane -/

namespace Lane

theorem unsigned_eq_mod (width : Nat) (v : Lane) : unsigned width v = v.toNat % 2 ^ width :=
  BitVec.toNat_setWidth width v

theorem unsigned_lt (width : Nat) (v : Lane) : unsigned width v < 2 ^ width :=
  (v.setWidth width).isLt

theorem unsigned_of_lt {width : Nat} {v : Lane} (h : v.toNat < 2 ^ width) :
    unsigned width v = v.toNat := by
  rw [unsigned_eq_mod, Nat.mod_eq_of_lt h]

@[simp]
theorem unsigned_zero (width : Nat) : unsigned width 0 = 0 :=
  unsigned_of_lt (Nat.two_pow_pos width)

theorem unsigned_eq_wrap (width : Nat) (v : Lane) : unsigned width v = wrap width v.toNat := by
  rw [unsigned_eq_mod, wrap_natCast]

theorem unsigned_eq_wrap_toInt {width : Nat} (h : width ≤ 64) (v : Lane) :
    unsigned width v = wrap width v.toInt := by
  rw [unsigned_eq_wrap, BitVec.toInt_eq_toNat_bmod, wrap_bmod h]

theorem toNat_mask {width : Nat} (h : width ≤ 64) : (mask width).toNat = 2 ^ width - 1 := by
  have hsplit : 2 ^ 64 = 2 ^ (64 - width) * 2 ^ width := by rw [← Nat.pow_add]; congr 1; omega
  have hpos : 0 < 2 ^ (64 - width) := Nat.two_pow_pos _
  rw [mask, BitVec.toNat_ushiftRight, BitVec.toNat_allOnes, Nat.shiftRight_eq_div_pow, hsplit,
    Nat.mul_sub_div 0 _ _ (Nat.mul_pos hpos (Nat.two_pow_pos width)), Nat.zero_div]

/-- Masking a lane leaves the number that its low bits stand for. -/
theorem toNat_and_mask (v : Lane) {width : Nat} (h : width ≤ 64) :
    (v &&& mask width).toNat = unsigned width v := by
  rw [BitVec.toNat_and, toNat_mask h, Nat.and_two_pow_sub_one_eq_mod, unsigned_eq_mod]

theorem toNat_and_mask_lt (v : Lane) {width : Nat} (h : width ≤ 64) :
    (v &&& mask width).toNat < 2 ^ width := by
  rw [toNat_and_mask v h]
  exact unsigned_lt width v

/-- A mask leaves a lane as it is if the lane has no bits above the width. -/
theorem and_mask_of_lt {width : Nat} (h : width ≤ 64) {v : Lane} (hv : v.toNat < 2 ^ width) :
    v &&& mask width = v := by
  rw [← BitVec.toNat_inj, toNat_and_mask v h, unsigned_of_lt hv]

theorem unsigned_and_mask {width : Nat} (h : width ≤ 64) (v : Lane) :
    unsigned width (v &&& mask width) = unsigned width v := by
  rw [← toNat_and_mask _ h, ← toNat_and_mask v h, BitVec.and_assoc, BitVec.and_self]

/-- Two lanes are the same behind a mask if their low bits stand for the same number. -/
theorem and_mask_inj {width : Nat} (h : width ≤ 64) {v v' : Lane} :
    v' &&& mask width = v &&& mask width ↔ unsigned width v' = unsigned width v := by
  rw [← BitVec.toNat_inj, toNat_and_mask v' h, toNat_and_mask v h]

theorem toNat_ofBool (b : Bool) : (ofBool b).toNat = if b then 1 else 0 := by
  cases b <;> rfl

/-- The lane of a truth value survives every mask that leaves a bit. -/
theorem unsigned_ofBool {width : Nat} (h : 0 < width) (b : Bool) :
    unsigned width (ofBool b) = if b then 1 else 0 := by
  have hlt : 1 < 2 ^ width := Nat.one_lt_two_pow (by omega)
  cases b
  · simp [unsigned_eq_mod, ofBool]
  · simp [unsigned_eq_mod, ofBool, Nat.mod_eq_of_lt hlt]

/-! ## Sign extension -/

/-- Sign extension in the lane is the cut to the low bits, extended again. -/
theorem signExtend_eq_signExtend_setWidth (v : Lane) {bits : Nat} (hpos : 0 < bits)
    (h : bits ≤ 64) : signExtend v bits = (v.setWidth bits).signExtend 64 := by
  ext i hi
  rw [signExtend, BitVec.getElem_sshiftRight, BitVec.getElem_signExtend]
  by_cases hlow : i < bits
  · rw [dif_pos (by omega), dif_pos hlow, BitVec.getElem_shiftLeft, BitVec.getElem_setWidth,
      BitVec.getLsbD_eq_getElem hi]
    simp [show ¬64 - bits + i < 64 - bits by omega]
  · rw [dif_neg (by omega), dif_neg hlow, BitVec.msb_eq_getLsbD_last, BitVec.msb_eq_getLsbD_last,
      BitVec.getLsbD_shiftLeft, BitVec.getLsbD_setWidth]
    have hlast : 63 - (64 - bits) = bits - 1 := by omega
    simp [hlast, show ¬63 < 64 - bits by omega, show bits - 1 < bits by omega]

theorem toInt_signExtend (v : Lane) {bits : Nat} (hpos : 0 < bits) (h : bits ≤ 64) :
    (signExtend v bits).toInt = twosComplement bits v.toNat := by
  rw [signExtend_eq_signExtend_setWidth v hpos h, BitVec.toInt_signExtend_of_le h,
    BitVec.toInt_setWidth, twosComplement]

end Lane
end Hart
