import Hart.Event
import Hart.Funct
import Hart.Opcode

/-!
# Control signals

A bundle of control signals tells the datapath what to do with a word.  Signals that mean nothing
for a word keep their defaults, so the bundle of all defaults is the one that does nothing.

`Word.control` gives every word a bundle.  An opcode that is not recognized gets the idle bundle;
the class of an opcode fixes all signals but the operation, the comparison and the size of an
access, which the minor opcode selects.  The four set-less-than instructions add and compare: their
comparison is in `comparison`, and the datapath takes the result from there.
-/

set_option autoImplicit false

namespace Hart

/-- Where the value of the destination register comes from. -/
inductive WriteSource where
  | unit
  | memory
  deriving DecidableEq, Repr

/-- Where the first operand comes from. -/
inductive SourceA where
  | reg1
  | pc
  | zero
  deriving DecidableEq, Repr

/-- Where the second operand comes from. -/
inductive SourceB where
  | reg2
  | imm
  deriving DecidableEq, Repr

/-- A bundle of control signals.  Its defaults do nothing. -/
structure Control where
  /-- The operation of the arithmetic unit. -/
  operation : Operation := .add
  /-- The comparison of the comparator. -/
  comparison : Comparison := .equal
  /-- The destination register is written. -/
  regWrite : Bool := false
  /-- Memory is written. -/
  memWrite : Bool := false
  /-- Memory is read. -/
  memRead : Bool := false
  /-- The source of what the destination register gets. -/
  writeSource : WriteSource := .unit
  /-- The source of the first operand. -/
  sourceA : SourceA := .reg1
  /-- The source of the second operand. -/
  sourceB : SourceB := .reg2
  /-- The word is a conditional branch. -/
  branch : Bool := false
  /-- The size of a load. -/
  load : Load := .byte
  /-- The size of a store. -/
  store : Store := .byte
  deriving DecidableEq, Repr

namespace Control

/-- The bundle that does nothing. -/
def idle : Control := {}

/-- Whether a bundle does nothing: no register or memory access and no branch. -/
def isNop (c : Control) : Bool :=
  !c.regWrite && !c.memWrite && !c.memRead && !c.branch

/-- Operation and comparison of a family.  Subtraction has no immediate form, so only a word of two
registers subtracts; both forms of the right shift have both members. -/
def ofFamily (twoRegisters alternate : Bool) : Family → Operation × Comparison
  | .addSub => (if twoRegisters && alternate then .sub else .add, .equal)
  | .sll => (.sll, .equal)
  | .slt => (.add, .lessThan)
  | .sltu => (.add, .lessThanU)
  | .xor => (.xor, .equal)
  | .srlSra => (if alternate then .sra else .srl, .equal)
  | .or => (.or, .equal)
  | .and => (.and, .equal)

/-- The bundle of an opcode, given the minor opcode and whether the second member of the family is
asked for. -/
def ofOpcode (o : Opcode) (funct3 : BitVec 3) (alternate : Bool) : Control :=
  match o with
  | .op =>
    let (operation, comparison) := ofFamily true alternate (.ofFunct3 funct3)
    { operation, comparison, regWrite := true }
  | .opImm =>
    let (operation, comparison) := ofFamily false alternate (.ofFunct3 funct3)
    { operation, comparison, regWrite := true, sourceB := .imm }
  | .load =>
    { regWrite := true, memRead := true, writeSource := .memory, sourceB := .imm,
      load := .ofFunct3 funct3 }
  | .jalr => { regWrite := true, sourceB := .imm }
  | .store => { memWrite := true, sourceB := .imm, store := .ofFunct3 funct3 }
  | .branch => { branch := true, comparison := .ofFunct3 funct3 }
  | .auipc => { regWrite := true, sourceA := .pc, sourceB := .imm }
  | .lui | .jal => { regWrite := true, sourceA := .zero, sourceB := .imm }

/-- Whether the bundle reads the first source register. -/
def readsRs1 (c : Control) : Bool :=
  c.sourceA = .reg1

/-- Whether the bundle reads the second source register: as an operand, or as the data of a store.
-/
def readsRs2 (c : Control) : Bool :=
  c.sourceB = .reg2 || c.memWrite

end Control

namespace Word

/-- The control signals of a word, and what is reported while they are found: an opcode that is not
recognized. -/
def controlReported (w : Word) : Control × List Event :=
  match w.op? with
  | some o => (.ofOpcode o w.funct3 w.isAlternate, [])
  | none => (.idle, [.unrecognizedOpcode w])

/-- The control signals of a word. -/
def control (w : Word) : Control :=
  w.controlReported.1

/-- What giving a word its control signals reports. -/
def controlEvents (w : Word) : List Event :=
  w.controlReported.2

theorem controlReported_of_op? {w : Word} {o : Opcode} (h : w.op? = some o) :
    w.controlReported = (.ofOpcode o w.funct3 w.isAlternate, []) := by
  rw [controlReported, h]

theorem controlReported_of_op?_eq_none {w : Word} (h : w.op? = none) :
    w.controlReported = (.idle, [.unrecognizedOpcode w]) := by
  rw [controlReported, h]

theorem control_of_op? {w : Word} {o : Opcode} (h : w.op? = some o) :
    w.control = .ofOpcode o w.funct3 w.isAlternate := by
  rw [control, controlReported_of_op? h]

theorem control_of_op?_eq_none {w : Word} (h : w.op? = none) : w.control = .idle := by
  rw [control, controlReported_of_op?_eq_none h]

theorem controlEvents_of_op? {w : Word} {o : Opcode} (h : w.op? = some o) :
    w.controlEvents = [] := by
  rw [controlEvents, controlReported_of_op? h]

theorem controlEvents_of_op?_eq_none {w : Word} (h : w.op? = none) :
    w.controlEvents = [.unrecognizedOpcode w] := by
  rw [controlEvents, controlReported_of_op?_eq_none h]

end Word
end Hart
