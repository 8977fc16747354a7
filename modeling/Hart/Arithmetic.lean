import Mathlib.Algebra.Group.Int.Defs
import Mathlib.Algebra.Group.Nat.Defs
import Hart.Operation

/-!
# What operations and comparisons mean

The operations and comparisons as arithmetic on numbers, at any number of bits, with no lane and no
mask in sight.  Operands and results are natural numbers below `2 ^ bits`; an operation that looks
at signs reads them as the numbers that two's complement makes of them.

A unit that works on lanes is right when it agrees with these.
-/

set_option autoImplicit false

namespace Hart

/-- The natural number below `2 ^ bits` that a number leaves. -/
def wrap (bits : Nat) (x : Int) : Nat :=
  (x % 2 ^ bits).toNat

/-- The signed number that `bits` bits stand for. -/
def twosComplement (bits n : Nat) : Int :=
  Int.bmod n (2 ^ bits)

/-- The result of an operation.  The amount of a shift is the second operand modulo the number of
bits. -/
def Operation.apply (bits : Nat) (o : Operation) (a b : Nat) : Nat :=
  match o with
  | .add => wrap bits (a + b)
  | .sub => wrap bits (a - b)
  | .and => a &&& b
  | .or => a ||| b
  | .xor => a ^^^ b
  | .slt => if twosComplement bits a < twosComplement bits b then 1 else 0
  | .sltu => if a < b then 1 else 0
  | .sll => wrap bits (a * 2 ^ (b % bits))
  | .srl => a / 2 ^ (b % bits)
  | .sra => wrap bits (twosComplement bits a / 2 ^ (b % bits))

/-- The comparison is true of two operands. -/
def Comparison.Holds (bits : Nat) (c : Comparison) (a b : Nat) : Prop :=
  match c with
  | .equal => a = b
  | .notEqual => a ≠ b
  | .lessThan => twosComplement bits a < twosComplement bits b
  | .lessThanU => a < b
  | .greaterEqual => twosComplement bits b ≤ twosComplement bits a
  | .greaterEqualU => b ≤ a

instance (bits : Nat) (c : Comparison) (a b : Nat) : Decidable (c.Holds bits a b) := by
  cases c <;> simp only [Comparison.Holds] <;> infer_instance

end Hart
