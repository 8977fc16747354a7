import Hart.Funct
import Hart.Immediate
import Hart.Proofs.TwosComplement
import Hart.Semantics

/-!
# Fields and immediates as numbers

`Word` cuts a word into bit vectors and assembles its immediates from them; `Semantics` reads the
same word with quotients and remainders.  Here every field and every immediate is shown to be the
number that the other side reads.

* `Word.toNat_slice` — a slice of bits is a quotient's remainder.
* `Word.toInt_immediate` — the five assembled immediates are the manual's signed numbers.
* `Semantics.opcode?_eq_op?` — the two opcode tables agree on every word.
-/

set_option autoImplicit false

namespace Hart

theorem toNat_append_eq_add {m n : Nat} (x : BitVec m) (y : BitVec n) :
    (x ++ y).toNat = x.toNat * 2 ^ n + y.toNat := by
  rw [BitVec.toNat_append, ← Nat.shiftLeft_add_eq_or_of_lt y.isLt, Nat.shiftLeft_eq]

/-! ## Fields -/

namespace Word

theorem toNat_slice (w : Word) (high low : Nat) :
    (w.extractLsb' low (high + 1 - low)).toNat = Semantics.slice w high low := by
  rw [BitVec.extractLsb'_toNat, Nat.shiftRight_eq_div_pow, Semantics.slice]

@[simp]
theorem toNat_opcode (w : Word) : w.opcode.toNat = Semantics.slice w 6 0 :=
  w.toNat_slice 6 0

@[simp]
theorem toNat_rd (w : Word) : w.rd.toNat = Semantics.rd w :=
  w.toNat_slice 11 7

@[simp]
theorem toNat_funct3 (w : Word) : w.funct3.toNat = Semantics.slice w 14 12 :=
  w.toNat_slice 14 12

@[simp]
theorem toNat_rs1 (w : Word) : w.rs1.toNat = Semantics.rs1 w :=
  w.toNat_slice 19 15

@[simp]
theorem toNat_rs2 (w : Word) : w.rs2.toNat = Semantics.rs2 w :=
  w.toNat_slice 24 20

theorem isAlternate_iff (w : Word) : w.isAlternate = true ↔ Semantics.slice w 30 30 = 1 := by
  rw [isAlternate_eq_getLsbD, BitVec.getLsbD, Nat.testBit_eq_decide_div_mod_eq,
    decide_eq_true_iff]
  rfl

end Word

/-- The two tables of opcodes agree. -/
theorem Semantics.opcode?_eq_op? (w : Word) : Semantics.opcode? w = w.op? := by
  have h : ∀ code : BitVec 7, ofCode? code.toNat = Opcode.ofCode? code := by decide
  rw [opcode?, ← w.toNat_opcode, h, Word.op?]

/-! ## Immediates -/

namespace Word

/-- An immediate of fewer than 32 bits is the signed number of its bits. -/
theorem toInt_signExtend {n : Nat} (x : BitVec n) (h : n ≤ 32) :
    (x.signExtend 32).toInt = twosComplement n x.toNat := by
  rw [BitVec.toInt_signExtend_of_le h, BitVec.toInt_eq_toNat_bmod, twosComplement]

theorem toInt_immI (w : Word) : w.immI.toInt = Semantics.immI w := by
  rw [immI, toInt_signExtend _ (by decide), w.toNat_slice 31 20, Semantics.immI]

theorem toInt_immS (w : Word) : w.immS.toInt = Semantics.immS w := by
  rw [immS, toInt_signExtend _ (by decide), toNat_append_eq_add, w.toNat_slice 31 25,
    w.toNat_slice 11 7, Semantics.immS]

theorem toInt_immB (w : Word) : w.immB.toInt = Semantics.immB w := by
  rw [immB, toInt_signExtend _ (by decide), Semantics.immB]
  simp only [toNat_append_eq_add]
  rw [w.toNat_slice 31 31, w.toNat_slice 7 7, w.toNat_slice 30 25, w.toNat_slice 11 8]
  congr 1
  simp
  omega

theorem toInt_immU (w : Word) : w.immU.toInt = Semantics.immU w := by
  rw [immU, BitVec.toInt_eq_toNat_bmod, toNat_append_eq_add, w.toNat_slice 31 12, Semantics.immU,
    twosComplement, BitVec.toNat_ofNat, Nat.zero_mod, Nat.add_zero]

theorem toInt_immJ (w : Word) : w.immJ.toInt = Semantics.immJ w := by
  rw [immJ, toInt_signExtend _ (by decide), Semantics.immJ]
  simp only [toNat_append_eq_add]
  rw [w.toNat_slice 31 31, w.toNat_slice 19 12, w.toNat_slice 20 20, w.toNat_slice 30 21]
  congr 1
  simp
  omega

end Word

theorem Layout.toInt_immediate (l : Layout) (w : Word) :
    (l.immediate w).toInt = Semantics.immediate l w := by
  cases l with
  | r => rfl
  | i => exact w.toInt_immI
  | s => exact w.toInt_immS
  | b => exact w.toInt_immB
  | u => exact w.toInt_immU
  | j => exact w.toInt_immJ

/-- **The immediate of a word is the manual's.** -/
theorem Word.toInt_immediate {w : Word} {o : Opcode} (h : w.op? = some o) :
    w.immediate.toInt = Semantics.immediate o.layout w := by
  rw [immediate_of_op? h, o.layout.toInt_immediate]

end Hart
