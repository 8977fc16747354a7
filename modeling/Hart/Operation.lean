/-!
# Operations and comparisons

The ten operations of the arithmetic unit, with the selector codes that name them, and the six
comparisons of the comparator.
-/

set_option autoImplicit false

namespace Hart

/-- An operation of the arithmetic unit. -/
inductive Operation where
  /-- Wrapping addition. -/
  | add
  /-- Wrapping subtraction. -/
  | sub
  /-- Bitwise and. -/
  | and
  /-- Bitwise or. -/
  | or
  /-- Bitwise exclusive or. -/
  | xor
  /-- One if less, as signed numbers, and zero if not. -/
  | slt
  /-- One if less, as unsigned numbers, and zero if not. -/
  | sltu
  /-- Shift left. -/
  | sll
  /-- Shift right, filling with zeros. -/
  | srl
  /-- Shift right, filling with the sign. -/
  | sra
  deriving DecidableEq, Repr

namespace Operation

/-- The operations in the order of their codes. -/
def all : List Operation :=
  [add, sub, and, or, xor, slt, sltu, sll, srl, sra]

/-- The selector code of an operation. -/
def code : Operation → Nat
  | add => 0
  | sub => 1
  | and => 2
  | or => 3
  | xor => 4
  | slt => 5
  | sltu => 6
  | sll => 7
  | srl => 8
  | sra => 9

/-- The operation of a selector code; a code from ten on has none. -/
def ofCode? (n : Nat) : Option Operation :=
  all[n]?

theorem ofCode?_code (o : Operation) : ofCode? o.code = some o := by
  cases o <;> rfl

theorem ofCode?_eq_none_iff {n : Nat} : ofCode? n = none ↔ 10 ≤ n := by
  simp [ofCode?, all]

end Operation

/-- A comparison of two operands.  The orders come in a signed and an unsigned reading. -/
inductive Comparison where
  | equal
  | notEqual
  | lessThan
  | lessThanU
  | greaterEqual
  | greaterEqualU
  deriving DecidableEq, Repr

end Hart
