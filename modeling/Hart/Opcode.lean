import Hart.Word

/-!
# Major opcodes and their layouts

Nine major opcodes of the 32-bit base integer set are recognized; the fence and system opcodes are
not among them.  Each opcode has a code of seven bits and one of the six layouts, and the code
tells the opcode (`Opcode.ofCode?_eq_some_iff`).
-/

set_option autoImplicit false

namespace Hart

/-- The six ways in which a word places its operands. -/
inductive Layout where
  | r | i | s | b | u | j
  deriving DecidableEq, Repr

/-- A recognized major opcode. -/
inductive Opcode where
  /-- Arithmetic of two registers. -/
  | op
  /-- Arithmetic of a register and an immediate. -/
  | opImm
  /-- Load from memory. -/
  | load
  /-- Indirect jump and link. -/
  | jalr
  /-- Store to memory. -/
  | store
  /-- Conditional branch. -/
  | branch
  /-- Upper immediate added to the program counter. -/
  | auipc
  /-- Upper immediate. -/
  | lui
  /-- Direct jump and link. -/
  | jal
  deriving DecidableEq, Repr

namespace Opcode

/-- The seven bits of an opcode. -/
def code : Opcode → BitVec 7
  | op => 0b0110011
  | opImm => 0b0010011
  | load => 0b0000011
  | jalr => 0b1100111
  | store => 0b0100011
  | branch => 0b1100011
  | auipc => 0b0010111
  | lui => 0b0110111
  | jal => 0b1101111

/-- The opcode of a code, if it is recognized. -/
def ofCode? : BitVec 7 → Option Opcode
  | 0b0110011 => some op
  | 0b0010011 => some opImm
  | 0b0000011 => some load
  | 0b1100111 => some jalr
  | 0b0100011 => some store
  | 0b1100011 => some branch
  | 0b0010111 => some auipc
  | 0b0110111 => some lui
  | 0b1101111 => some jal
  | _ => none

/-- The opcode of a number: a number beyond seven bits is the code of none. -/
def ofNat? (n : Nat) : Option Opcode :=
  if n < 128 then ofCode? (BitVec.ofNat 7 n) else none

/-- The layout of the words with a given opcode. -/
def layout : Opcode → Layout
  | op => .r
  | opImm | load | jalr => .i
  | store => .s
  | branch => .b
  | auipc | lui => .u
  | jal => .j

/-- Whether the words of the opcode jump always.  Their link value is the business of whoever keeps
the program counter. -/
def isJump : Opcode → Bool
  | jal | jalr => true
  | _ => false

@[simp]
theorem ofCode?_code (o : Opcode) : ofCode? o.code = some o := by
  cases o <;> rfl

theorem ofCode?_eq_some_iff {c : BitVec 7} {o : Opcode} : ofCode? c = some o ↔ c = o.code := by
  constructor
  · intro h
    unfold ofCode? at h
    split at h <;> first | (cases h; rfl) | cases h
  · rintro rfl
    exact ofCode?_code o

end Opcode

/-- The opcode of a word, if it is recognized. -/
def Word.op? (w : Word) : Option Opcode :=
  Opcode.ofCode? w.opcode

end Hart
