import Hart.Access
import Hart.Operation
import Hart.Word

/-!
# Minor opcodes

What the three bits of `funct3` say depends on the major opcode: the size of a load or a store, the
comparison of a branch, or a family of arithmetic operations.  Loads, stores and branches leave
some encodings unused, and a decoder reads those as the first of the table (`Load.ofFunct3`,
`Store.ofFunct3`, `Comparison.ofFunct3`).  The eight arithmetic families use them all
(`Family.ofFunct3_funct3`, `Family.funct3_ofFunct3`).

One bit of `funct7` tells the two members of a family apart where a family has two.
-/

set_option autoImplicit false

namespace Hart

/-! ## Loads and stores -/

namespace Load

/-- The minor opcode of a load. -/
def funct3 : Load → BitVec 3
  | byte => 0b000
  | half => 0b001
  | word => 0b010
  | byteUnsigned => 0b100
  | halfUnsigned => 0b101

/-- The load of a minor opcode; unused encodings load a byte. -/
def ofFunct3 : BitVec 3 → Load
  | 0b001 => half
  | 0b010 => word
  | 0b100 => byteUnsigned
  | 0b101 => halfUnsigned
  | _ => byte

@[simp]
theorem ofFunct3_funct3 (l : Load) : ofFunct3 l.funct3 = l := by
  cases l <;> rfl

end Load

namespace Store

/-- The minor opcode of a store. -/
def funct3 : Store → BitVec 3
  | byte => 0b000
  | half => 0b001
  | word => 0b010

/-- The store of a minor opcode; unused encodings store a byte. -/
def ofFunct3 : BitVec 3 → Store
  | 0b001 => half
  | 0b010 => word
  | _ => byte

@[simp]
theorem ofFunct3_funct3 (s : Store) : ofFunct3 s.funct3 = s := by
  cases s <;> rfl

end Store

/-! ## Branches -/

namespace Comparison

/-- The minor opcode of a branch on the comparison. -/
def funct3 : Comparison → BitVec 3
  | equal => 0b000
  | notEqual => 0b001
  | lessThan => 0b100
  | greaterEqual => 0b101
  | lessThanU => 0b110
  | greaterEqualU => 0b111

/-- The comparison of a branch; the two unused encodings test for equality. -/
def ofFunct3 : BitVec 3 → Comparison
  | 0b001 => notEqual
  | 0b100 => lessThan
  | 0b101 => greaterEqual
  | 0b110 => lessThanU
  | 0b111 => greaterEqualU
  | _ => equal

@[simp]
theorem ofFunct3_funct3 (c : Comparison) : ofFunct3 c.funct3 = c := by
  cases c <;> rfl

end Comparison

/-! ## Arithmetic -/

/-- A family of arithmetic operations that share a minor opcode. -/
inductive Family where
  | addSub
  | sll
  | slt
  | sltu
  | xor
  | srlSra
  | or
  | and
  deriving DecidableEq, Repr

namespace Family

/-- The minor opcode of a family. -/
def funct3 : Family → BitVec 3
  | addSub => 0b000
  | sll => 0b001
  | slt => 0b010
  | sltu => 0b011
  | xor => 0b100
  | srlSra => 0b101
  | or => 0b110
  | and => 0b111

/-- The family of a minor opcode. -/
def ofFunct3 : BitVec 3 → Family
  | 0b000 => addSub
  | 0b001 => sll
  | 0b010 => slt
  | 0b011 => sltu
  | 0b100 => xor
  | 0b101 => srlSra
  | 0b110 => or
  | _ => and

@[simp]
theorem ofFunct3_funct3 (f : Family) : ofFunct3 f.funct3 = f := by
  cases f <;> rfl

@[simp]
theorem funct3_ofFunct3 (b : BitVec 3) : (ofFunct3 b).funct3 = b := by
  revert b
  decide

end Family

/-! ## The function field -/

namespace Funct7

/-- The field of the first member of a family: addition, and the shift that fills with zeros. -/
def base : BitVec 7 := 0b0000000

/-- The field of the second member: subtraction, and the shift that fills with the sign. -/
def alternate : BitVec 7 := 0b0100000

/-- The one bit of the field that selects the second member. -/
def alternateBit : BitVec 7 := 0b0100000

end Funct7

/-- Whether a word asks for the second member of its family. -/
def Word.isAlternate (w : Word) : Bool :=
  w.funct7 &&& Funct7.alternateBit != 0

/-- The second member is asked for by bit 30 of the word. -/
theorem Word.isAlternate_eq_getLsbD (w : Word) : w.isAlternate = w.getLsbD 30 := by
  have h : w.funct7 &&& Funct7.alternateBit = bif w.getLsbD 30 then 0b0100000#7 else 0 := by
    ext i hi
    match i, hi with
    | 0, _ | 1, _ | 2, _ | 3, _ | 4, _ | 5, _ | 6, _ =>
      cases hw : w.getLsbD 30 <;> simp_all [Word.funct7, Funct7.alternateBit]
  rw [Word.isAlternate, h]
  cases w.getLsbD 30 <;> rfl

end Hart
