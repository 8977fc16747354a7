import Mathlib.Algebra.Group.Int.Defs
import Mathlib.Algebra.Group.Nat.Defs
import Hart.Instruction

/-!
# Encoding instructions

The other direction of `Word.decode`: a word is laid out from its opcode and operands.  An opcode
uses the operands that its layout has and no others, and of the immediate the bits that the layout
keeps.  Which layout that is, the encoder knows by itself and does not ask the decoder.

* `Opcode.format` — the layout that the words of an opcode are laid out in.
* `Layout.Fits` — the immediates that a layout keeps whole: its range, and its alignment.
* `Layout.Carries` — a decoded word shows the operands that its layout places.
* `Instruction.operands` — the operands of a decoded word, to lay it out again.
-/

set_option autoImplicit false

namespace Hart

/-- Everything that a layout may place beside the opcode. -/
structure Operands where
  rd : BitVec 5 := 0
  rs1 : BitVec 5 := 0
  rs2 : BitVec 5 := 0
  funct3 : BitVec 3 := 0
  funct7 : BitVec 7 := 0
  imm : BitVec 32 := 0
  deriving DecidableEq, Repr

/-- The word with the given code and operands, from its top bit down. -/
def Layout.encode : Layout → BitVec 7 → Operands → Word
  | .r, code, x => x.funct7 ++ x.rs2 ++ x.rs1 ++ x.funct3 ++ x.rd ++ code
  | .i, code, x => x.imm.extractLsb' 0 12 ++ x.rs1 ++ x.funct3 ++ x.rd ++ code
  | .s, code, x =>
    x.imm.extractLsb' 5 7 ++ x.rs2 ++ x.rs1 ++ x.funct3 ++ x.imm.extractLsb' 0 5 ++ code
  | .b, code, x =>
    x.imm.extractLsb' 12 1 ++ x.imm.extractLsb' 5 6 ++ x.rs2 ++ x.rs1 ++ x.funct3 ++
      x.imm.extractLsb' 1 4 ++ x.imm.extractLsb' 11 1 ++ code
  | .u, code, x => x.imm.extractLsb' 12 20 ++ x.rd ++ code
  | .j, code, x =>
    x.imm.extractLsb' 20 1 ++ x.imm.extractLsb' 1 10 ++ x.imm.extractLsb' 11 1 ++
      x.imm.extractLsb' 12 8 ++ x.rd ++ code

/-- The layout that the words of an opcode are laid out in. -/
def Opcode.format : Opcode → Layout
  | .lui => .u
  | .auipc => .u
  | .jal => .j
  | .jalr => .i
  | .branch => .b
  | .load => .i
  | .store => .s
  | .opImm => .i
  | .op => .r

/-- The word of an opcode with the given operands. -/
def Opcode.encode (o : Opcode) (x : Operands) : Word :=
  o.format.encode o.code x

/-- The immediate is in the range of the layout and aligned as the layout needs.  Layout R has no
immediate but zero. -/
def Layout.Fits : Layout → BitVec 32 → Prop
  | .r, imm => imm = 0
  | .i, imm | .s, imm => -2048 ≤ imm.toInt ∧ imm.toInt ≤ 2047
  | .b, imm => -4096 ≤ imm.toInt ∧ imm.toInt ≤ 4094 ∧ 2 ∣ imm.toInt
  | .u, imm => 4096 ∣ imm.toInt
  | .j, imm => -2 ^ 20 ≤ imm.toInt ∧ imm.toInt ≤ 2 ^ 20 - 2 ∧ 2 ∣ imm.toInt

instance (l : Layout) (imm : BitVec 32) : Decidable (l.Fits imm) := by
  cases l <;> simp only [Layout.Fits] <;> infer_instance

/-- The decoded word has the given operands, of those that the layout places.  The immediate counts
as an operand of every layout. -/
def Layout.Carries (l : Layout) (x : Operands) (y : Instruction) : Prop :=
  y.imm = x.imm ∧
    match l with
    | .r =>
      y.rd = x.rd.toNat ∧ y.rs1 = x.rs1.toNat ∧ y.rs2 = x.rs2.toNat ∧ y.funct3 = x.funct3 ∧
        y.funct7 = x.funct7
    | .i => y.rd = x.rd.toNat ∧ y.rs1 = x.rs1.toNat ∧ y.funct3 = x.funct3
    | .s | .b => y.rs1 = x.rs1.toNat ∧ y.rs2 = x.rs2.toNat ∧ y.funct3 = x.funct3
    | .u | .j => y.rd = x.rd.toNat

/-- The operands of a decoded word. -/
def Instruction.operands (x : Instruction) : Operands where
  rd := BitVec.ofNat 5 x.rd
  rs1 := BitVec.ofNat 5 x.rs1
  rs2 := BitVec.ofNat 5 x.rs2
  funct3 := x.funct3
  funct7 := x.funct7
  imm := x.imm

end Hart
