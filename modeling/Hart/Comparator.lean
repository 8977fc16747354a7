import Hart.Lane
import Hart.Operation
import Hart.Width

/-!
# The comparator

A comparator is bound to a width.  It cuts both operands to the width; the signed orders then read
the top bit of the width as the sign, and the unsigned ones compare magnitudes.
-/

set_option autoImplicit false

namespace Hart

/-- A comparator of a given width. -/
structure Comparator where
  width : Width
  deriving DecidableEq, Repr

namespace Comparator

/-- The comparator of a number of bits, if that is a width. -/
def ofBits (bits : Nat) : Except Fault Comparator := do
  let width ← Width.ofBits bits
  return { width }

/-- The mask of the comparator's width. -/
def mask (comparator : Comparator) : Lane :=
  Lane.mask comparator.width.bits

/-- Whether the comparison holds of two operands. -/
def compare (comparator : Comparator) (c : Comparison) (a b : Lane) : Bool :=
  let a := a &&& comparator.mask
  let b := b &&& comparator.mask
  let signedA := Lane.signExtend a comparator.width.bits
  let signedB := Lane.signExtend b comparator.width.bits
  match c with
  | .equal => a == b
  | .notEqual => a != b
  | .lessThan => signedA.slt signedB
  | .greaterEqual => signedB.sle signedA
  | .lessThanU => a.ult b
  | .greaterEqualU => b.ule a

theorem ofBits_eq_ok_iff {n : Nat} {k : Comparator} : ofBits n = .ok k ↔ n = k.width.bits := by
  obtain ⟨width⟩ := k
  rw [← Width.ofBits_eq_ok_iff, ofBits]
  cases Width.ofBits n with
  | error f => simp only [bind, Except.bind, reduceCtorEq]
  | ok w => simp only [bind, Except.bind, pure, Except.pure, Except.ok.injEq, mk.injEq]

/-- Bits of the operands above the width never matter. -/
theorem compare_and_mask (comparator : Comparator) (c : Comparison) (a b : Lane) :
    comparator.compare c (a &&& comparator.mask) (b &&& comparator.mask) =
      comparator.compare c a b := by
  simp [compare, BitVec.and_assoc]

end Comparator

/-- Whether the comparison holds of two 32-bit values. -/
def compare32 (c : Comparison) (a b : BitVec 32) : Bool :=
  Comparator.compare { width := .w32 } c (a.setWidth 64) (b.setWidth 64)

end Hart
