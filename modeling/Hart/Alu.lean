import Hart.Config
import Hart.Lane
import Hart.Operation

/-!
# The arithmetic unit

Three units work on lanes: `Alu.arithmetic`, `Alu.logic` and `Alu.shift`.  They take their operands
as they come, and answer zero to an operation of another unit.

An `Alu` is bound to a width.  It cuts both operands to the width, lets the unit of the operation
work, and cuts the result; so the bits of an operand above the width never matter, and the result
has none (`Alu.execute_and_mask`, `Alu.execute_out_and_mask`).
-/

set_option autoImplicit false

namespace Hart

/-- What the arithmetic unit answers. -/
structure AluOutput where
  /-- The result, cut to the width. -/
  out : Lane := 0
  /-- Whether the result is zero. -/
  zero : Bool := false
  deriving DecidableEq, Repr

/-- The output of a result, with its zero flag. -/
def AluOutput.ofResult (out : Lane) : AluOutput where
  out
  zero := out = 0

/-- An arithmetic unit of a given width. -/
structure Alu where
  width : Width
  deriving DecidableEq, Repr

namespace Alu

/-! ## The three units

A comparison of the logic unit reads its operands at the width when it is signed and as whole lanes
when it is not.  A shift takes its amount from the low bits of the second operand, as many as
number the bits of the width; the bits that a left shift pushes beyond the width are left to the
caller to cut. -/

/-- Addition and subtraction, wrapping at the lane. -/
def arithmetic : Operation → Lane → Lane → Lane
  | .add, a, b => a + b
  | .sub, a, b => a - b
  | _, _, _ => 0

/-- Bitwise operations and set-less-than at `bits` bits. -/
def logic (bits : Nat) : Operation → Lane → Lane → Lane
  | .or, a, b => a ||| b
  | .and, a, b => a &&& b
  | .xor, a, b => a ^^^ b
  | .slt, a, b => .ofBool ((Lane.signExtend a bits).slt (Lane.signExtend b bits))
  | .sltu, a, b => .ofBool (a.ult b)
  | _, _, _ => 0

/-- The amount of a shift at `bits` bits, a power of two. -/
def shiftAmount (bits : Nat) (b : Lane) : Nat :=
  (b &&& (BitVec.ofNat 64 bits - 1)).toNat

/-- Shifts at `bits` bits. -/
def shift (bits : Nat) : Operation → Lane → Lane → Lane
  | .sll, a, b => a <<< shiftAmount bits b
  | .srl, a, b => a >>> shiftAmount bits b
  | .sra, a, b => (Lane.signExtend a bits).sshiftRight (shiftAmount bits b) &&& Lane.mask bits
  | _, _, _ => 0

/-! ## The unit of a width -/

/-- The unit of a number of bits, if that is a width. -/
def ofBits (bits : Nat) : Except Fault Alu := do
  let width ← Width.ofBits bits
  return { width }

/-- The unit of a configuration.  Only the width matters, so the register count is not looked at.
-/
def ofConfig (c : Config) : Except Fault Alu :=
  ofBits c.xlen

/-- The mask of the unit's width. -/
def mask (alu : Alu) : Lane :=
  Lane.mask alu.width.bits

/-- The answer of the unit of the operation, before it is cut to the width. -/
def compute (bits : Nat) (o : Operation) (a b : Lane) : Lane :=
  match o with
  | .add | .sub => arithmetic o a b
  | .and | .or | .xor | .slt | .sltu => logic bits o a b
  | .sll | .srl | .sra => shift bits o a b

/-- Executes an operation at the width of the unit. -/
def execute (alu : Alu) (o : Operation) (a b : Lane) : AluOutput :=
  .ofResult (compute alu.width.bits o (a &&& alu.mask) (b &&& alu.mask) &&& alu.mask)

/-- Executes the operation of a selector code.  A code without an operation answers zero. -/
def executeCode (alu : Alu) (code : Nat) (a b : Lane) : AluOutput :=
  match Operation.ofCode? code with
  | some o => alu.execute o a b
  | none => .ofResult 0

theorem ofBits_eq_ok_iff {n : Nat} {alu : Alu} : ofBits n = .ok alu ↔ n = alu.width.bits := by
  obtain ⟨width⟩ := alu
  rw [← Width.ofBits_eq_ok_iff, ofBits]
  cases Width.ofBits n with
  | error f => simp only [bind, Except.bind, reduceCtorEq]
  | ok w => simp only [bind, Except.bind, pure, Except.pure, Except.ok.injEq, mk.injEq]

/-- Bits of the operands above the width never matter. -/
theorem execute_and_mask (alu : Alu) (o : Operation) (a b : Lane) :
    alu.execute o (a &&& alu.mask) (b &&& alu.mask) = alu.execute o a b := by
  simp [execute, BitVec.and_assoc]

/-- The result has no bits above the width. -/
theorem execute_out_and_mask (alu : Alu) (o : Operation) (a b : Lane) :
    (alu.execute o a b).out &&& alu.mask = (alu.execute o a b).out := by
  simp [execute, AluOutput.ofResult, BitVec.and_assoc]

end Alu

/-! ## Words of 32 bits -/

/-- Executes an operation on two 32-bit values, answering the result and the zero flag. -/
def execute32 (o : Operation) (a b : BitVec 32) : BitVec 32 × Bool :=
  let answer := Alu.execute { width := .w32 } o (a.setWidth 64) (b.setWidth 64)
  (answer.out.setWidth 32, answer.zero)

end Hart
