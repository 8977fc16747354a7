import Hart.Width

/-!
# Machine configurations

Four parameters shape a machine.  A `Config` may hold any numbers; `Config.validate` accepts those
a machine can be built from (`Config.validate_eq_ok_iff`), and of two faults reports the width
(`Config.validate_eq_error_iff`).
-/

set_option autoImplicit false

namespace Hart

/-- The parameters of a machine.  The defaults are those of the 32-bit base machine. -/
structure Config where
  /-- The width of the datapath and of the registers, in bits. -/
  xlen : Nat := 32
  /-- The number of registers. -/
  regCount : Nat := 32
  /-- Register zero always reads zero. -/
  hardwireZero : Bool := true
  /-- Evaluations and register writes are reported as events. -/
  trace : Bool := false
  deriving DecidableEq, Repr

namespace Config

/-- The most registers a configuration may ask for. -/
def maxRegCount : Nat := 32

/-- The width of the machine, if one can be built with these parameters. -/
def validate (c : Config) : Except Fault Width := do
  let width ← Width.ofBits c.xlen
  if c.regCount = 0 ∨ maxRegCount < c.regCount then
    throw (.invalidRegisterCount c.regCount)
  return width

theorem validate_eq_ok_iff {c : Config} {w : Width} :
    c.validate = .ok w ↔ c.xlen = w.bits ∧ 0 < c.regCount ∧ c.regCount ≤ maxRegCount := by
  rw [← Width.ofBits_eq_ok_iff, validate]
  cases Width.ofBits c.xlen with
  | error f => simp only [bind, Except.bind, reduceCtorEq, false_and]
  | ok v =>
    by_cases h : c.regCount = 0 ∨ maxRegCount < c.regCount
    · simp only [bind, Except.bind, h, if_true, throw, throwThe, MonadExceptOf.throw, reduceCtorEq,
        false_iff]
      omega
    · have hcount : 0 < c.regCount ∧ c.regCount ≤ maxRegCount := by omega
      simp only [bind, Except.bind, pure, Except.pure, h, if_false, hcount, and_self, and_true]

/-- The width is checked first, so its fault is the one that is reported. -/
theorem validate_eq_error_iff {c : Config} {f : Fault} :
    c.validate = .error f ↔
      (¬Width.Valid c.xlen ∧ f = .unsupportedWidth c.xlen) ∨
        (Width.Valid c.xlen ∧ ¬(0 < c.regCount ∧ c.regCount ≤ maxRegCount) ∧
          f = .invalidRegisterCount c.regCount) := by
  rw [validate]
  by_cases hwidth : Width.Valid c.xlen
  · by_cases h : c.regCount = 0 ∨ maxRegCount < c.regCount
    · have hcount : ¬(0 < c.regCount ∧ c.regCount ≤ maxRegCount) := by omega
      simp only [Width.ofBits, hwidth, dite_true, bind, Except.bind, h, if_true, throw, throwThe,
        MonadExceptOf.throw, Except.error.injEq, not_true_eq_false, false_and, hcount,
        not_false_eq_true, true_and, false_or, eq_comm]
    · have hcount : 0 < c.regCount ∧ c.regCount ≤ maxRegCount := by omega
      simp only [Width.ofBits, hwidth, dite_true, bind, Except.bind, pure, Except.pure, h, if_false,
        reduceCtorEq, not_true_eq_false, false_and, hcount, and_self, and_false, or_self]
  · simp only [Width.ofBits, hwidth, dite_false, bind, Except.bind, Except.error.injEq,
      not_false_eq_true, true_and, false_and, or_false, eq_comm]

end Config
end Hart
