/-!
# Faults

Decoding and executing are total, so a fault arises at two edges only: when a machine is
configured, and when a register beyond the file is named.  A fault is a cause; its wording is
`Fault.message`.
-/

set_option autoImplicit false

namespace Hart

/-- Why a configuration text was not read.  Texts are read from left to right and the first fault
wins, so these three exclude each other. -/
inductive TextFault where
  /-- The text ends too early. -/
  | truncated
  /-- The text breaks the grammar of JSON. -/
  | malformed
  /-- The text is JSON so far, and not a configuration: a value of the wrong type or out of the
  range of its field, a key that names no field, or a field given twice. -/
  | mistyped
  deriving DecidableEq, Repr

/-- Why a machine was not built or a register not accessed. -/
inductive Fault where
  /-- The datapath width `bits` is not a power of two from 8 to 64. -/
  | unsupportedWidth (bits : Nat)
  /-- A register file of `count` registers has none, or more than a five-bit field can name. -/
  | invalidRegisterCount (count : Nat)
  /-- Register `index` is not one of the `count` registers of the file. -/
  | registerOutOfRange (index count : Nat)
  /-- The configuration text could not be read. -/
  | unreadable (cause : TextFault)
  deriving DecidableEq, Repr

/-- The wording of a fault.  That of an unreadable text ends with what its reader has to say, which
is the reader's own wording and is supplied by whoever has it. -/
def Fault.message (f : Fault) (explanation : String := "") : String :=
  match f with
  | .unsupportedWidth bits =>
    s!"unsupported datapath width: {bits} (expected a power of two in 8..=64)"
  | .invalidRegisterCount count => s!"invalid register count: {count} (expected 1..=32)"
  | .registerOutOfRange index count =>
    s!"register x{index} out of range for a {count}-entry register file"
  | .unreadable _ => "invalid configuration: " ++ explanation

end Hart
