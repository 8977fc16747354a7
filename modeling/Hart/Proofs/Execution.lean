import Hart.Alu
import Hart.Comparator
import Hart.Proofs.TwosComplement

/-!
# Execution at a width

The arithmetic unit and the comparator compute on lanes what `Operation.apply` and
`Comparison.Holds` say on numbers.  Both cut their operands first, so only the numbers that the low
bits stand for count.

* `Alu.toNat_execute_out` — the result of the unit, for every operation at every width.
* `Alu.execute_eq_apply` — all that the unit of a width answers: its result and zero flag, the
  selector codes, and the function on 32-bit values.
* `Comparator.compare_eq_true_iff` — the answer of the comparator, for every comparison.
-/

set_option autoImplicit false

namespace Hart

open Lane

/-! ## The three units

Every lemma here speaks of the low bits of an answer whose operands are already cut, since that is
how the unit of a width calls them. -/

namespace Alu

theorem unsigned_add {bits : Nat} (h : bits ≤ 64) (a b : Lane) :
    unsigned bits (a + b) = wrap bits (a.toNat + b.toNat) := by
  rw [unsigned_eq_wrap, BitVec.toNat_add, Int.natCast_emod, Int.natCast_add, Int.natCast_pow]
  exact wrap_emod h _

theorem unsigned_sub {bits : Nat} (h : bits ≤ 64) (a b : Lane) :
    unsigned bits (a - b) = wrap bits (a.toNat - b.toNat) := by
  have hcast : ((2 ^ 64 - b.toNat + a.toNat : Nat) : Int) = a.toNat - b.toNat + 2 ^ 64 := by
    have := b.isLt
    omega
  have hmod : ((2 ^ 64 - b.toNat + a.toNat : Nat) : Int) % 2 ^ 64 =
      (a.toNat - b.toNat) % 2 ^ 64 := by
    rw [hcast, Int.add_emod_right]
  rw [unsigned_eq_wrap, BitVec.toNat_sub, Int.natCast_emod, Int.natCast_pow]
  exact (congrArg (wrap bits) hmod).trans (wrap_emod h _)

/-- The amount of a shift is the remainder by the width, since a width is a power of two. -/
theorem shiftAmount_eq_mod (w : Width) (b : Lane) : shiftAmount w.bits b = b.toNat % w.bits := by
  have hmask : ∀ k : Nat, b.toNat &&& (2 ^ k - 1) = b.toNat % 2 ^ k :=
    Nat.and_two_pow_sub_one_eq_mod b.toNat
  rw [shiftAmount, BitVec.toNat_and]
  cases w with
  | w8 => exact hmask 3
  | w16 => exact hmask 4
  | w32 => exact hmask 5
  | w64 => exact hmask 6

theorem unsigned_shiftLeft {bits : Nat} (h : bits ≤ 64) (a : Lane) (n : Nat) :
    unsigned bits (a <<< n) = wrap bits (a.toNat * 2 ^ n) := by
  rw [unsigned_eq_wrap, BitVec.toNat_shiftLeft, Nat.shiftLeft_eq, Int.natCast_emod,
    Int.natCast_mul, Int.natCast_pow, Int.natCast_pow]
  exact wrap_emod h _

theorem unsigned_shiftRight {bits : Nat} {a : Lane} (ha : a.toNat < 2 ^ bits) (n : Nat) :
    unsigned bits (a >>> n) = a.toNat / 2 ^ n := by
  have hdiv : (a >>> n).toNat = a.toNat / 2 ^ n := by
    rw [BitVec.toNat_ushiftRight, Nat.shiftRight_eq_div_pow]
  rw [unsigned_of_lt, hdiv]
  exact hdiv ▸ Nat.lt_of_le_of_lt (Nat.div_le_self _ _) ha

theorem unsigned_sshiftRight {bits : Nat} (hpos : 0 < bits) (h : bits ≤ 64) (a : Lane) (n : Nat) :
    unsigned bits ((signExtend a bits).sshiftRight n) =
      wrap bits (twosComplement bits a.toNat / 2 ^ n) := by
  rw [unsigned_eq_wrap_toInt h, BitVec.toInt_sshiftRight, toInt_signExtend a hpos h,
    Int.shiftRight_eq_div_pow, Int.natCast_pow]
  rfl

/-- Each operation, on operands that have no bits above the width. -/
theorem unsigned_compute (w : Width) (o : Operation) {a b : Lane} (ha : a.toNat < 2 ^ w.bits)
    (hb : b.toNat < 2 ^ w.bits) :
    unsigned w.bits (compute w.bits o a b) = o.apply w.bits a.toNat b.toNat := by
  have hpos := w.bits_pos
  have hle := w.bits_le
  cases o with
  | add => exact unsigned_add hle a b
  | sub => exact unsigned_sub hle a b
  | and => exact unsigned_of_lt (BitVec.toNat_and a b ▸ Nat.and_lt_two_pow _ hb)
  | or => exact unsigned_of_lt (BitVec.toNat_or a b ▸ Nat.or_lt_two_pow ha hb)
  | xor => exact unsigned_of_lt (BitVec.toNat_xor a b ▸ Nat.xor_lt_two_pow ha hb)
  | slt =>
    rw [compute, logic, unsigned_ofBool hpos, BitVec.slt_eq_decide, toInt_signExtend a hpos hle,
      toInt_signExtend b hpos hle]
    simp only [decide_eq_true_eq, Operation.apply]
  | sltu =>
    rw [compute, logic, unsigned_ofBool hpos]
    simp only [BitVec.ult_iff_toNat_lt, Operation.apply]
  | sll =>
    rw [compute, shift, shiftAmount_eq_mod, unsigned_shiftLeft hle, Operation.apply]
  | srl =>
    rw [compute, shift, shiftAmount_eq_mod, unsigned_shiftRight ha, Operation.apply]
  | sra =>
    rw [compute, shift, shiftAmount_eq_mod, unsigned_and_mask hle, unsigned_sshiftRight hpos hle,
      Operation.apply]

/-- **The result of the unit is the result of the operation** on the numbers that the low bits of
the operands stand for. -/
theorem toNat_execute_out (alu : Alu) (o : Operation) (a b : Lane) :
    (alu.execute o a b).out.toNat =
      o.apply alu.width.bits (unsigned alu.width.bits a) (unsigned alu.width.bits b) := by
  have hle := alu.width.bits_le
  have hcut : ∀ v : Lane, (v &&& alu.mask).toNat < 2 ^ alu.width.bits :=
    fun v ↦ toNat_and_mask_lt v hle
  rw [execute, AluOutput.ofResult, mask, toNat_and_mask _ hle, ← mask,
    unsigned_compute _ _ (hcut a) (hcut b), mask, toNat_and_mask a hle, toNat_and_mask b hle]

theorem toNat_execute_out_lt (alu : Alu) (o : Operation) (a b : Lane) :
    (alu.execute o a b).out.toNat < 2 ^ alu.width.bits := by
  rw [← execute_out_and_mask]
  exact toNat_and_mask_lt _ alu.width.bits_le

/-! ## The unit of a width -/

theorem zero_execute_iff {alu : Alu} {o : Operation} {a b : Lane} :
    (alu.execute o a b).zero = true ↔ (alu.execute o a b).out.toNat = 0 :=
  decide_eq_true_iff.trans BitVec.toNat_inj.symm

/-- Operands with the same low bits give the same answer, the zero flag included. -/
theorem execute_congr (alu : Alu) (o : Operation) {a a' b b' : Lane}
    (ha : unsigned alu.width.bits a' = unsigned alu.width.bits a)
    (hb : unsigned alu.width.bits b' = unsigned alu.width.bits b) :
    alu.execute o a' b' = alu.execute o a b := by
  have ha' : a' &&& alu.mask = a &&& alu.mask := (and_mask_inj alu.width.bits_le).2 ha
  have hb' : b' &&& alu.mask = b &&& alu.mask := (and_mask_inj alu.width.bits_le).2 hb
  rw [← execute_and_mask, ha', hb', execute_and_mask]

/-- The selector code of an operation executes it. -/
theorem executeCode_code (alu : Alu) (o : Operation) (a b : Lane) :
    alu.executeCode o.code a b = alu.execute o a b := by
  rw [executeCode, Operation.ofCode?_code]

theorem executeCode_of_le {code : Nat} (h : 10 ≤ code) (alu : Alu) (a b : Lane) :
    alu.executeCode code a b = { out := 0, zero := true } := by
  rw [executeCode, Operation.ofCode?_eq_none_iff.2 h]
  rfl

/-- Words of 32 bits lose nothing on their way through the unit and back. -/
theorem execute32_eq (o : Operation) (x y : BitVec 32) :
    let answer := execute { width := .w32 } o (x.setWidth 64) (y.setWidth 64)
    (execute32 o x y).1.setWidth 64 = answer.out ∧ (execute32 o x y).2 = answer.zero := by
  intro answer
  have hlt : answer.out.toNat < 2 ^ 32 := toNat_execute_out_lt _ _ _ _
  refine ⟨?_, rfl⟩
  rw [← BitVec.toNat_inj, BitVec.toNat_setWidth, execute32, BitVec.toNat_setWidth,
    Nat.mod_eq_of_lt hlt, Nat.mod_eq_of_lt answer.out.isLt]

/-- **The unit of a width computes the operations at that width.**  A unit is made from its number
of bits, by itself or as part of a configuration, and there are four.  Its result is what the
operation makes of the operands modulo a power of two, it is below that power, and the zero flag
says whether it is zero; bits of the operands above the width never matter.  The operations have
the codes below ten in their order, and every other code answers zero.  The function on 32-bit
values is the unit of that width. -/
theorem execute_eq_apply (alu : Alu) (o : Operation) (a b : Lane) :
    let w := alu.width.bits
    let result := o.apply w (a.toNat % 2 ^ w) (b.toNat % 2 ^ w)
    (w ∈ [8, 16, 32, 64] ∧ (∀ n, ofBits n = .ok alu ↔ n = w) ∧
      ∀ c, ofConfig c = .ok alu ↔ c.xlen = w) ∧
    (alu.execute o a b).out.toNat = result ∧
    ((alu.execute o a b).zero = true ↔ result = 0) ∧
    result < 2 ^ w ∧
    (∀ a' b' : Lane, a'.toNat % 2 ^ w = a.toNat % 2 ^ w → b'.toNat % 2 ^ w = b.toNat % 2 ^ w →
      alu.execute o a' b' = alu.execute o a b) ∧
    (alu.executeCode o.code a b = alu.execute o a b ∧
      Operation.all.map Operation.code = List.range 10 ∧
      ∀ code ≥ 10, alu.executeCode code a b = { out := 0, zero := true }) ∧
    ∀ x y : BitVec 32, (execute32 o x y).1.toNat = o.apply 32 x.toNat y.toNat ∧
      ((execute32 o x y).1.setWidth 64, (execute32 o x y).2) =
        ((execute { width := .w32 } o (x.setWidth 64) (y.setWidth 64)).out,
          (execute { width := .w32 } o (x.setWidth 64) (y.setWidth 64)).zero) := by
  intro w result
  have hout : (alu.execute o a b).out.toNat = result := by
    rw [toNat_execute_out, unsigned_eq_mod, unsigned_eq_mod]
  refine ⟨⟨?_, fun n ↦ ofBits_eq_ok_iff, fun c ↦ ofBits_eq_ok_iff⟩, hout, ?_, ?_, ?_, ?_, ?_⟩
  · obtain ⟨width⟩ := alu
    cases width <;> decide
  · rw [zero_execute_iff, hout]
  · rw [← hout]
    exact alu.toNat_execute_out_lt o a b
  · intro a' b' ha hb
    refine alu.execute_congr o ?_ ?_
    · rw [unsigned_eq_mod, unsigned_eq_mod, ha]
    · rw [unsigned_eq_mod, unsigned_eq_mod, hb]
  · refine ⟨alu.executeCode_code o a b, rfl, ?_⟩
    intro code hcode
    exact executeCode_of_le hcode alu a b
  · intro x y
    have hx : unsigned 32 (x.setWidth 64) = x.toNat := by
      rw [unsigned, BitVec.setWidth_setWidth_of_le x (by decide), BitVec.setWidth_eq]
    have hy : unsigned 32 (y.setWidth 64) = y.toNat := by
      rw [unsigned, BitVec.setWidth_setWidth_of_le y (by decide), BitVec.setWidth_eq]
    obtain ⟨hwide, hzero⟩ := execute32_eq o x y
    refine ⟨?_, Prod.ext hwide hzero⟩
    have hvalue := toNat_execute_out { width := .w32 } o (x.setWidth 64) (y.setWidth 64)
    rw [← hwide, BitVec.toNat_setWidth_of_le (by decide)] at hvalue
    exact hvalue.trans (congrArg₂ (o.apply 32) hx hy)

end Alu

/-! ## The comparator -/

namespace Comparator

/-- **The answer of the comparator is the comparison** of the numbers that the low bits of the
operands stand for. -/
theorem compare_eq_true_iff (k : Comparator) (c : Comparison) (a b : Lane) :
    k.compare c a b = true ↔
      c.Holds k.width.bits (unsigned k.width.bits a) (unsigned k.width.bits b) := by
  have hpos := k.width.bits_pos
  have hle := k.width.bits_le
  rw [← toNat_and_mask a hle, ← toNat_and_mask b hle]
  cases c with
  | equal => exact beq_iff_eq.trans BitVec.toNat_inj.symm
  | notEqual => exact bne_iff_ne.trans (not_congr BitVec.toNat_inj.symm)
  | lessThan =>
    rw [compare, BitVec.slt_iff_toInt_lt, toInt_signExtend _ hpos hle, toInt_signExtend _ hpos hle]
    rfl
  | lessThanU => exact BitVec.ult_iff_toNat_lt
  | greaterEqual =>
    rw [compare, BitVec.sle_iff_toInt_le, toInt_signExtend _ hpos hle, toInt_signExtend _ hpos hle]
    rfl
  | greaterEqualU => exact BitVec.ule_iff_toNat_le

end Comparator
end Hart
