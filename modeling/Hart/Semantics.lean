import Hart.Arithmetic
import Hart.Opcode

/-!
# What words mean

The base instructions as the manual of the instruction set describes them: every word says which
registers it reads, and which register it gives which number.  There are no control signals here,
no operand selection and no staged write; slices of the word are numbers, immediates are signed
numbers, and a machine is the list of its registers' values.

* `Semantics.value?` — the value that a word gives its destination register.
* `Semantics.address?`, `Semantics.comparison` — what a load, a store and a branch do with the
  values of their sources.
* `Semantics.step` — the registers after a word.  A word that names a register beyond the machine
  is skipped.
* `Semantics.run` — the registers after a list of words with their program counters.
-/

set_option autoImplicit false

namespace Hart
namespace Semantics

/-! ## Slices and immediates -/

/-- Bits `high` down to `low` of a word, as a number. -/
def slice (w : Word) (high low : Nat) : Nat :=
  w.toNat / 2 ^ low % 2 ^ (high + 1 - low)

/-- The opcode of the number that the low seven bits of a word are. -/
def ofCode? : Nat → Option Opcode
  | 0x03 => some .load
  | 0x13 => some .opImm
  | 0x17 => some .auipc
  | 0x23 => some .store
  | 0x33 => some .op
  | 0x37 => some .lui
  | 0x63 => some .branch
  | 0x67 => some .jalr
  | 0x6f => some .jal
  | _ => none

/-- The opcode of a word, if it is recognized. -/
def opcode? (w : Word) : Option Opcode :=
  ofCode? (slice w 6 0)

/-- The immediate of layout I: a signed number of 12 bits. -/
def immI (w : Word) : Int :=
  twosComplement 12 (slice w 31 20)

/-- The immediate of layout S: a signed number of 12 bits in two slices. -/
def immS (w : Word) : Int :=
  twosComplement 12 (slice w 31 25 * 2 ^ 5 + slice w 11 7)

/-- The immediate of layout B: a signed, even number of 13 bits in four slices. -/
def immB (w : Word) : Int :=
  twosComplement 13
    (slice w 31 31 * 2 ^ 12 + slice w 7 7 * 2 ^ 11 + slice w 30 25 * 2 ^ 5 + slice w 11 8 * 2)

/-- The immediate of layout U: the upper 20 bits of a signed number of 32 bits. -/
def immU (w : Word) : Int :=
  twosComplement 32 (slice w 31 12 * 2 ^ 12)

/-- The immediate of layout J: a signed, even number of 21 bits in four slices. -/
def immJ (w : Word) : Int :=
  twosComplement 21
    (slice w 31 31 * 2 ^ 20 + slice w 19 12 * 2 ^ 12 + slice w 20 20 * 2 ^ 11 + slice w 30 21 * 2)

/-- The immediate of a layout; layout R has none, which counts as zero. -/
def immediate : Layout → Word → Int
  | .r, _ => 0
  | .i, w => immI w
  | .s, w => immS w
  | .b, w => immB w
  | .u, w => immU w
  | .j, w => immJ w

/-! ## Registers -/

/-- The destination register. -/
def rd (w : Word) : Nat := slice w 11 7

/-- The first source register. -/
def rs1 (w : Word) : Nat := slice w 19 15

/-- The second source register. -/
def rs2 (w : Word) : Nat := slice w 24 20

/-- The value of a register.  Register zero may be hardwired, and then it is zero. -/
def value (hardwireZero : Bool) (regs : List Nat) (i : Nat) : Nat :=
  if i = 0 ∧ hardwireZero then 0 else regs.getD i 0

/-- The registers that a word of an opcode reads. -/
def sources (o : Opcode) (w : Word) : List Nat :=
  match o with
  | .op | .branch | .store => [rs1 w, rs2 w]
  | .opImm | .load | .jalr => [rs1 w]
  | .lui | .auipc | .jal => []

/-! ## The effect of a word -/

/-- The operation of an arithmetic word.  Bit 30 asks for subtraction, where both operands are
registers, and for the right shift that fills with the sign. -/
def operation (twoRegisters : Bool) (w : Word) : Operation :=
  match slice w 14 12 with
  | 0 => if twoRegisters && slice w 30 30 = 1 then .sub else .add
  | 1 => .sll
  | 2 => .slt
  | 3 => .sltu
  | 4 => .xor
  | 5 => if slice w 30 30 = 1 then .sra else .srl
  | 6 => .or
  | _ => .and

/-- The comparison of a branch.  The two encodings that are left over test for equality. -/
def comparison (w : Word) : Comparison :=
  match slice w 14 12 with
  | 1 => .notEqual
  | 4 => .lessThan
  | 5 => .greaterEqual
  | 6 => .lessThanU
  | 7 => .greaterEqualU
  | _ => .equal

/-- The address that a load or a store presents to memory; the value of its first source register
is `a`. -/
def address? (bits : Nat) (w : Word) (a : Nat) : Option Nat :=
  match opcode? w with
  | some .load => some (wrap bits (a + immI w))
  | some .store => some (wrap bits (a + immS w))
  | _ => none

/-- The number that a word of an opcode gives its destination register, at `bits` bits.  The value
of a register is looked up with `x`.  Loads and jumps write a register too, and get its value from
elsewhere. -/
def value? (bits : Nat) (o : Opcode) (w : Word) (pc : Nat) (x : Nat → Nat) : Option Nat :=
  match o with
  | .lui => some (wrap bits (immU w))
  | .auipc => some (wrap bits (pc + immU w))
  | .opImm => some ((operation false w).apply bits (x (rs1 w)) (wrap bits (immI w)))
  | .op => some ((operation true w).apply bits (x (rs1 w)) (x (rs2 w)))
  | .load | .jalr | .store | .branch | .jal => none

/-- The registers after a word at a program counter.  Nothing happens to them if the word is not
recognized, if it has no value for a register, or if a register that it names is beyond the
machine; and register zero may be hardwired. -/
def step (bits : Nat) (hardwireZero : Bool) (regs : List Nat) (w : Word) (pc : Nat) : List Nat :=
  match opcode? w with
  | none => regs
  | some o =>
    match value? bits o w pc (value hardwireZero regs) with
    | none => regs
    | some value =>
      if (∀ i ∈ rd w :: sources o w, i < regs.length) ∧ ¬(rd w = 0 ∧ hardwireZero) then
        regs.set (rd w) value
      else
        regs

/-- The registers after a list of words with their program counters. -/
def run (bits : Nat) (hardwireZero : Bool) (regs : List Nat) : List (Word × Nat) → List Nat
  | [] => regs
  | (w, pc) :: steps => run bits hardwireZero (step bits hardwireZero regs w pc) steps

end Semantics
end Hart
