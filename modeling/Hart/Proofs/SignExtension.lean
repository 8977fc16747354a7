import Hart.Access
import Hart.Proofs.TwosComplement

/-!
# Sign extension is exact

`Lane.signExtend` moves the low bits of a lane to its top and back again.  What comes out is the one
signed number of that many bits which leaves the same remainder
(`Lane.toInt_signExtend_eq_iff`), at every number of bits from one to the whole lane.  The rest
follows from its being the only one, or from its depending on nothing but the low bits: a mask
before it changes nothing, a mask behind it undoes it, and a number that has few enough bits already
is extended to itself.

A load has three tables: its size, whether its sign is kept, and the value that is loaded.  The third
follows from the other two (`Load.extend_eq`), and so a load is a sign extension or a mask.

`Lane.signExtend_exact` is all of it.
-/

set_option autoImplicit false

namespace Hart

/-! ## Signed numbers -/

/-- Some bits stand for the only signed number of that many bits which leaves their remainder. -/
theorem twosComplement_eq_iff {bits n : Nat} (hpos : 0 < bits) {x : Int} :
    twosComplement bits n = x ↔
      -2 ^ (bits - 1) ≤ x ∧ x < 2 ^ (bits - 1) ∧ x % 2 ^ bits = n % 2 ^ bits := by
  have hhalf : (2 : Int) ^ bits = 2 * 2 ^ (bits - 1) := by
    rw [← pow_succ', Nat.sub_add_cancel hpos]
  have hcast : ((2 ^ bits : Nat) : Int) = 2 ^ bits := by simp
  rw [twosComplement, Int.bmod_eq_iff (Nat.two_pow_pos bits), hcast, Int.dvd_iff_emod_eq_zero,
    ← Int.emod_eq_emod_iff_emod_sub_eq_zero]
  constructor
  · rintro ⟨hlow, hhigh, hmod⟩
    exact ⟨by omega, by omega, hmod⟩
  · rintro ⟨hlow, hhigh, hmod⟩
    exact ⟨by omega, by omega, hmod⟩

namespace Lane

/-! ## Sign extension -/

theorem toInt_signExtend_eq_iff (v : Lane) {bits : Nat} (hpos : 0 < bits) (h : bits ≤ 64)
    {x : Int} :
    (signExtend v bits).toInt = x ↔
      -2 ^ (bits - 1) ≤ x ∧ x < 2 ^ (bits - 1) ∧ x % 2 ^ bits = v.toNat % 2 ^ bits := by
  rw [toInt_signExtend v hpos h, twosComplement_eq_iff hpos]

/-- The bits above do not matter. -/
theorem signExtend_congr {bits : Nat} (hpos : 0 < bits) (h : bits ≤ 64) {v v' : Lane}
    (hv : unsigned bits v' = unsigned bits v) : signExtend v' bits = signExtend v bits := by
  have hcut : v'.setWidth bits = v.setWidth bits := BitVec.toNat_inj.1 hv
  rw [signExtend_eq_signExtend_setWidth v' hpos h, signExtend_eq_signExtend_setWidth v hpos h, hcut]

/-- Sign extension keeps the bits that it extends. -/
theorem unsigned_signExtend (v : Lane) {bits : Nat} (hpos : 0 < bits) (h : bits ≤ 64) :
    unsigned bits (signExtend v bits) = unsigned bits v := by
  rw [unsigned_eq_wrap_toInt h, toInt_signExtend v hpos h, twosComplement, wrap_bmod (Nat.le_refl _),
    ← unsigned_eq_wrap]

/-- A number of few enough bits is extended to itself. -/
theorem signExtend_of_bounds {v : Lane} {bits : Nat} (hpos : 0 < bits) (h : bits ≤ 64)
    (hlow : -2 ^ (bits - 1) ≤ v.toInt) (hhigh : v.toInt < 2 ^ (bits - 1)) :
    signExtend v bits = v := by
  have hmod : v.toInt % 2 ^ bits = v.toNat % 2 ^ bits := by
    rw [← natCast_wrap, ← natCast_wrap, ← unsigned_eq_wrap_toInt h, unsigned_eq_wrap]
  exact BitVec.toInt_inj.1 ((toInt_signExtend_eq_iff v hpos h).2 ⟨hlow, hhigh, hmod⟩)

/-- What is extended from fewer bits is not changed by an extension from more. -/
theorem signExtend_signExtend (v : Lane) {k bits : Nat} (hpos : 0 < k) (hk : k ≤ bits)
    (h : bits ≤ 64) : signExtend (signExtend v k) bits = signExtend v k := by
  obtain ⟨hlow, hhigh, -⟩ := (toInt_signExtend_eq_iff v hpos (Nat.le_trans hk h)).1 rfl
  have hpow : (2 : Int) ^ (k - 1) ≤ 2 ^ (bits - 1) := by
    exact_mod_cast Nat.pow_le_pow_right (by decide) (Nat.sub_le_sub_right hk 1)
  exact signExtend_of_bounds (Nat.lt_of_lt_of_le hpos hk) h (by omega) (by omega)

/-! ## Words of 32 bits in a lane -/

/-- A word is extended in a lane as it is extended in itself. -/
theorem setWidth_signExtend_setWidth (x : BitVec 32) {bits : Nat} (hpos : 0 < bits)
    (h : bits ≤ 32) :
    (signExtend (x.setWidth 64) bits).setWidth 32 = (x.setWidth bits).signExtend 32 := by
  have hwide : bits ≤ 64 := Nat.le_trans h (by decide)
  rw [signExtend_eq_signExtend_setWidth _ hpos hwide, BitVec.setWidth_setWidth_of_le x hwide]
  ext i hi
  have hlane : i < 64 := Nat.lt_trans hi (by decide)
  rw [BitVec.getElem_setWidth, BitVec.getLsbD_eq_getElem hlane, BitVec.getElem_signExtend,
    BitVec.getElem_signExtend]

/-- A word is cut by the mask of a lane as it is cut in itself. -/
theorem setWidth_and_mask (x : BitVec 32) {bits : Nat} (h : bits ≤ 32) :
    x.setWidth 64 &&& mask bits = ((x.setWidth bits).setWidth 32).setWidth 64 := by
  have hwide : bits ≤ 64 := Nat.le_trans h (by decide)
  have hcut : unsigned bits (x.setWidth 64) = (x.setWidth bits).toNat := by
    rw [unsigned, BitVec.setWidth_setWidth_of_le x hwide]
  have hword : ((x.setWidth bits).setWidth 32).toNat = (x.setWidth bits).toNat :=
    BitVec.toNat_setWidth_of_le h
  rw [← BitVec.toNat_inj, toNat_and_mask _ hwide, hcut, ← hword]
  exact (BitVec.toNat_setWidth_of_le (by decide)).symm

end Lane

/-! ## Loads -/

namespace Load

theorem bytes_pos (l : Load) : 0 < l.bytes := by
  cases l <;> decide

theorem bytes_le (l : Load) : l.bytes ≤ 4 := by
  cases l <;> decide

/-- The three tables agree. -/
theorem extend_eq (l : Load) (raw : BitVec 32) :
    l.extend raw =
      if l.isSigned then (raw.setWidth (8 * l.bytes)).signExtend 32
      else (raw.setWidth (8 * l.bytes)).setWidth 32 := by
  cases l with
  | byte | half | byteUnsigned | halfUnsigned => rfl
  | word => simp [extend, isSigned, bytes]

/-- Data with the same low bytes load the same value. -/
theorem extend_congr (l : Load) {raw raw' : BitVec 32}
    (h : raw'.setWidth (8 * l.bytes) = raw.setWidth (8 * l.bytes)) :
    l.extend raw' = l.extend raw := by
  rw [extend_eq, h, ← extend_eq]

/-- The value that is loaded has the low bytes of the data. -/
theorem setWidth_extend (l : Load) (raw : BitVec 32) :
    (l.extend raw).setWidth (8 * l.bytes) = raw.setWidth (8 * l.bytes) := by
  have hle : 8 * l.bytes ≤ 32 := Nat.mul_le_mul_left 8 l.bytes_le
  rw [extend_eq]
  split
  · ext i hi
    rw [BitVec.getElem_setWidth, BitVec.getLsbD_eq_getElem (Nat.lt_of_lt_of_le hi hle),
      BitVec.getElem_signExtend, dif_pos hi]
  · rw [BitVec.setWidth_setWidth_of_le _ hle, BitVec.setWidth_eq]

end Load

/-- **Sign extension is exact at every number of bits**, from one to the whole lane.  It answers the
only signed number of that many bits which leaves the same remainder.  A mask before it changes
nothing and a mask behind it takes it back, and what is extended from fewer bits stays as it is.  A
load of any kind is the sign extension of its bytes, cut to a word, or their mask; so it depends on
its bytes alone, and loading its value again gives the same. -/
theorem Lane.signExtend_exact (v : Lane) {bits : Nat} (hpos : 1 ≤ bits) (hle : bits ≤ 64) :
    (∀ x : Int, (signExtend v bits).toInt = x ↔
      -2 ^ (bits - 1) ≤ x ∧ x < 2 ^ (bits - 1) ∧ x % 2 ^ bits = v.toNat % 2 ^ bits) ∧
    signExtend (v &&& mask bits) bits = signExtend v bits ∧
    signExtend v bits &&& mask bits = v &&& mask bits ∧
    (∀ k, 1 ≤ k → k ≤ bits → signExtend (signExtend v k) bits = signExtend v k) ∧
    ∀ (l : Load) (raw : BitVec 32),
      (l.isSigned = true →
        l.extend raw = (signExtend (raw.setWidth 64) (8 * l.bytes)).setWidth 32) ∧
      (l.isSigned = false → (l.extend raw).setWidth 64 = raw.setWidth 64 &&& mask (8 * l.bytes)) ∧
      (∀ raw' : BitVec 32, raw'.toNat % 2 ^ (8 * l.bytes) = raw.toNat % 2 ^ (8 * l.bytes) →
        l.extend raw' = l.extend raw) ∧
      l.extend (l.extend raw) = l.extend raw := by
  refine ⟨fun x ↦ toInt_signExtend_eq_iff v hpos hle, ?_, ?_, ?_, fun l raw ↦ ⟨?_, ?_, ?_, ?_⟩⟩
  · exact signExtend_congr hpos hle (unsigned_and_mask hle v)
  · exact (and_mask_inj hle).2 (unsigned_signExtend v hpos hle)
  · exact fun k hk hkbits ↦ signExtend_signExtend v hk hkbits hle
  · intro hsigned
    rw [setWidth_signExtend_setWidth raw (Nat.mul_pos (by decide) l.bytes_pos)
      (Nat.mul_le_mul_left 8 l.bytes_le), l.extend_eq, if_pos hsigned]
  · intro hunsigned
    rw [setWidth_and_mask raw (Nat.mul_le_mul_left 8 l.bytes_le), l.extend_eq,
      if_neg (Bool.eq_false_iff.1 hunsigned)]
  · intro raw' hmod
    refine l.extend_congr (BitVec.toNat_inj.1 ?_)
    rw [BitVec.toNat_setWidth, BitVec.toNat_setWidth, hmod]
  · exact l.extend_congr (l.setWidth_extend raw)

/-- Thirteen bits, as many as the offset of a branch has: the fourteenth is dropped, the top one
spreads over the lane, and the twelfth alone would have given the same number. -/
theorem Lane.signExtend_exact_thirteen :
    (1 ≤ 13 ∧ 13 ≤ 64) ∧ (signExtend 0x3ffe 13).toInt = -2 ∧
      signExtend 0x3ffe 13 &&& mask 13 = 0x1ffe ∧
      signExtend (signExtend 0x3ffe 12) 13 = signExtend 0x3ffe 12 ∧
      Load.half.extend 0x12348000 = 0xffff8000 := by
  have hpos : 1 ≤ 13 := by decide
  have hle : 13 ≤ 64 := by decide
  obtain ⟨hiff, _, hmask, hnarrow, hload⟩ := signExtend_exact 0x3ffe hpos hle
  refine ⟨⟨hpos, hle⟩, (hiff (-2)).2 (by decide), hmask.trans (by decide),
    hnarrow 12 (by decide) (by decide), ?_⟩
  exact ((hload .half 0x12348000).1 rfl).trans (by decide)

end Hart
