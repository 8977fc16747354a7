/-!
# Instruction words

A word has 32 bits, and every layout keeps its six fields at the same places.  Whether a field
means anything is a matter of the word's opcode.
-/

set_option autoImplicit false

namespace Hart

/-- An instruction as it is fetched. -/
abbrev Word := BitVec 32

namespace Word

/-- The major opcode, bits 6 to 0. -/
def opcode (w : Word) : BitVec 7 := w.extractLsb' 0 7

/-- The destination register, bits 11 to 7. -/
def rd (w : Word) : BitVec 5 := w.extractLsb' 7 5

/-- The minor opcode, bits 14 to 12. -/
def funct3 (w : Word) : BitVec 3 := w.extractLsb' 12 3

/-- The first source register, bits 19 to 15. -/
def rs1 (w : Word) : BitVec 5 := w.extractLsb' 15 5

/-- The second source register, bits 24 to 20. -/
def rs2 (w : Word) : BitVec 5 := w.extractLsb' 20 5

/-- The function field, bits 31 to 25. -/
def funct7 (w : Word) : BitVec 7 := w.extractLsb' 25 7

/-- The six fields, from the top bit down, are the whole word. -/
theorem fields_append (w : Word) :
    w.funct7 ++ w.rs2 ++ w.rs1 ++ w.funct3 ++ w.rd ++ w.opcode = w := by
  simp only [funct7, rs2, rs1, funct3, rd, opcode,
    BitVec.extractLsb'_append_extractLsb'_eq_extractLsb']
  simp

end Word
end Hart
