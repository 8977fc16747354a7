import Hart.Alu
import Hart.Control
import Hart.Instruction

/-!
# Evaluations

An `Evaluation` is everything that the datapath finds out about one word.  What the word does to
the rest of the machine is read off it: a branch is taken (`branchTaken`), memory is accessed at an
address (`memAddr`), or a register gets a value (`writeBack`).
-/

set_option autoImplicit false

namespace Hart

/-- What the datapath derives from a word. -/
structure Evaluation where
  /-- The program counter that the word was evaluated at. -/
  pc : Lane
  /-- The word taken apart. -/
  instruction : Instruction
  /-- The control signals of the word. -/
  control : Control
  /-- The first operand, cut to the width. -/
  opA : Lane
  /-- The second operand, cut to the width. -/
  opB : Lane
  /-- The answer of the arithmetic unit. -/
  alu : AluOutput
  /-- The answer of the comparator; for a branch, whether it is taken. -/
  holds : Bool
  /-- The value for the destination register, where the unit supplies it. -/
  result : Lane
  /-- The value of the second source register, where memory is written. -/
  storeData : Option Lane
  deriving DecidableEq, Repr

namespace Evaluation

/-- Whether the word is a conditional branch that is taken. -/
def branchTaken (e : Evaluation) : Bool :=
  e.control.branch && e.holds

/-- The address that a load or a store presents to memory. -/
def memAddr (e : Evaluation) : Option Lane :=
  if e.control.memRead || e.control.memWrite then some e.alu.out else none

/-- Whether the word is a jump. -/
def isJump (e : Evaluation) : Bool :=
  e.instruction.op.any Opcode.isJump

/-- The register that the word writes, and its value.  There is none where memory supplies the
value, nor for a jump, whose link value comes with the next program counter. -/
def writeBack (e : Evaluation) : Option (Nat × Lane) :=
  if e.control.regWrite && e.control.writeSource = .unit && !e.isJump then
    some (e.instruction.rd, e.result)
  else
    none

end Evaluation
end Hart
