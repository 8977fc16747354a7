import Hart.Fault

/-!
# Reading text

A reader takes a text as a list of characters and answers what it read together with the rest of
the text, or the first fault from the left.  What a reader consumed is what it does not hand on.

The readers stand for a library of streaming readers of JSON.  This is what is assumed of it.

* It goes through a text once, from left to right, and stops at the first fault.  What stands to
  the right of that is never looked at.
* It accepts the grammar of JSON and nothing beyond it, with four blank characters, and nothing but
  blanks behind the value.
* A number, a string or a word is read to its end before it is judged by whoever asked for it; of a
  value with parts the kind is known from its first character, and it is judged there.
* It tells three categories of faults apart: the text ends where more is needed (`truncated`), a
  character breaks the grammar (`malformed`), and whoever asked for a value cannot use the one that
  was read (`mistyped`).
-/

set_option autoImplicit false

namespace Hart
namespace Json

/-- What a reader answers: what it read, and the rest of the text. -/
abbrev Reading (α : Type) := Except TextFault (α × List Char)

/-- The four characters that may stand between tokens. -/
def isBlank (c : Char) : Bool :=
  c = ' ' || c = '\t' || c = '\n' || c = '\r'

/-- The text from its first character on that is not blank. -/
def skipBlanks (cs : List Char) : List Char :=
  cs.dropWhile isBlank

/-- Reads exactly the given characters, and answers a value known beforehand. -/
def literal {α : Type} (value : α) : List Char → List Char → Reading α
  | [], cs => .ok (value, cs)
  | _ :: _, [] => .error .truncated
  | e :: es, c :: cs => if c = e then literal value es cs else .error .malformed

/-- Reading a literal succeeds on the texts that begin with it. -/
theorem literal_eq_ok_iff {α : Type} {value v : α} {es cs rest : List Char} :
    literal value es cs = .ok (v, rest) ↔ v = value ∧ cs = es ++ rest := by
  induction es generalizing cs with
  | nil => simp [literal, eq_comm]
  | cons e es ih =>
    cases cs with
    | nil => simp [literal]
    | cons c cs =>
      by_cases h : c = e
      · simp [literal, h, ih]
      · simp [literal, h]

end Json
end Hart
