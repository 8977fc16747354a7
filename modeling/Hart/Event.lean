import Hart.Lane
import Hart.Operation
import Hart.Word

/-!
# Events

What a machine reports while it works.  An event is data; its level, its text and its named fields
are read off it, so that whoever records events need not know how they arise.
-/

set_option autoImplicit false

namespace Hart

/-- How detailed an event is. -/
inductive Level where
  | debug
  | trace
  deriving DecidableEq, Repr

/-- Something that happened in a machine. -/
inductive Event where
  /-- The immediate of a word was asked for, and its opcode has no layout. -/
  | noImmediateLayout (word : Word)
  /-- A word was given control signals, and its opcode is not recognized. -/
  | unrecognizedOpcode (word : Word)
  /-- A word was evaluated. -/
  | evaluated (pc : Lane) (word : Word) (operation : Operation) (comparison : Comparison)
      (opA opB result : Lane)
  /-- A register took the value that was staged for it. -/
  | committed (register : Nat) (value : Lane)
  deriving DecidableEq, Repr

/-- The value of a named field of an event. -/
inductive FieldValue where
  | number (value : Nat)
  | operation (value : Operation)
  | comparison (value : Comparison)
  deriving DecidableEq, Repr

namespace Event

/-- The level of an event: the two that need tracing to be on are traces. -/
def level : Event → Level
  | noImmediateLayout _ | unrecognizedOpcode _ => .debug
  | evaluated .. | committed .. => .trace

/-- The text of an event. -/
def message : Event → String
  | noImmediateLayout _ => "no immediate layout for opcode, using 0"
  | unrecognizedOpcode _ => "unrecognized opcode, emitting no-op control"
  | evaluated .. => "evaluate"
  | committed .. => "register commit"

/-- The named fields of an event. -/
def fields : Event → List (String × FieldValue)
  | noImmediateLayout w | unrecognizedOpcode w =>
    [("inst", .number w.toNat), ("opcode", .number w.opcode.toNat)]
  | evaluated pc w operation comparison opA opB result =>
    [("pc", .number pc.toNat), ("inst", .number w.toNat), ("alu", .operation operation),
      ("cmp", .comparison comparison), ("op_a", .number opA.toNat), ("op_b", .number opB.toNat),
      ("result", .number result.toNat)]
  | committed register value => [("reg", .number register), ("value", .number value.toNat)]

end Event
end Hart
