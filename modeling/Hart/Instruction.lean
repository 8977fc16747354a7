import Hart.Immediate

/-!
# Decoded instructions

An `Instruction` is a word taken apart: its six fields, its opcode when it is recognized, and its
immediate.  `Word.decode` is total and silent; a word that is not recognized shows in `op` alone.
-/

set_option autoImplicit false

namespace Hart

/-- A word taken apart.  Register fields are numbers, so that they index a register file. -/
structure Instruction where
  /-- The word itself. -/
  raw : Word := 0
  /-- The major opcode, if it is recognized. -/
  op : Option Opcode := none
  /-- The seven bits of the opcode field. -/
  opcode : BitVec 7 := 0
  /-- The destination register field. -/
  rd : Nat := 0
  /-- The first source register field. -/
  rs1 : Nat := 0
  /-- The second source register field. -/
  rs2 : Nat := 0
  /-- The minor opcode field. -/
  funct3 : BitVec 3 := 0
  /-- The function field. -/
  funct7 : BitVec 7 := 0
  /-- The immediate, signed. -/
  imm : BitVec 32 := 0
  deriving DecidableEq, Repr

/-- Takes a word apart. -/
def Word.decode (w : Word) : Instruction where
  raw := w
  op := w.op?
  opcode := w.opcode
  rd := w.rd.toNat
  rs1 := w.rs1.toNat
  rs2 := w.rs2.toNat
  funct3 := w.funct3
  funct7 := w.funct7
  imm := w.immediate

end Hart
