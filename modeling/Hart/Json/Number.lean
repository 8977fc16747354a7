import Hart.Json.Binary64
import Hart.Json.Reader

/-!
# Numbers

A number has a whole part, and may have a sign before it, a fraction and an exponent behind it.
The whole part is zero or begins with another digit.  The numbers that matter here are the plain
natural ones of at most 64 bits; of any other it matters only that it is well formed and that its
value is finite.
-/

set_option autoImplicit false

namespace Hart
namespace Json

/-- A number, as far as it is told apart. -/
inductive Number where
  /-- Written with digits only, and a number of 64 bits. -/
  | natural (value : Nat)
  /-- Any other. -/
  | other
  deriving DecidableEq, Repr

/-! ## Digits -/

/-- The digits that a text begins with, and the rest. -/
def digits (cs : List Char) : List Char × List Char :=
  (cs.takeWhile Char.isDigit, cs.dropWhile Char.isDigit)

/-- Splitting off the digits loses nothing. -/
theorem digits_append (cs : List Char) : (digits cs).1 ++ (digits cs).2 = cs :=
  List.takeWhile_append_dropWhile

/-- The first part holds digits only. -/
theorem isDigit_of_mem_digits {cs : List Char} {c : Char} (h : c ∈ (digits cs).1) :
    c.isDigit = true :=
  List.all_eq_true.1 List.all_takeWhile c h

/-- The value of a digit. -/
def digitValue (c : Char) : Nat :=
  c.toNat - '0'.toNat

/-- The value of digits that stand behind a number. -/
def extendBy (start : Nat) (ds : List Char) : Nat :=
  ds.foldl (fun n d ↦ n * 10 + digitValue d) start

/-- Takes digits into a significand as long as it has 64 bits at most, and answers it with the
digits that were left out. -/
def absorb (significand : Nat) : List Char → Nat × List Char
  | [] => (significand, [])
  | d :: ds =>
    let next := significand * 10 + digitValue d
    if next < UInt64.size then absorb next ds else (significand, d :: ds)

/-! ## The parts of a number -/

/-- Reads one digit or more. -/
def someDigits (cs : List Char) : Reading (List Char) :=
  match digits cs, cs with
  | ([], _), [] => .error .truncated
  | ([], _), _ :: _ => .error .malformed
  | (d :: ds, rest), _ => .ok (d :: ds, rest)

/-- Reads the whole part: a zero that no digit follows, or digits that begin with another. -/
def wholePart (cs : List Char) : Reading (List Char) :=
  match someDigits cs with
  | .ok ('0' :: _ :: _, _) => .error .malformed
  | answer => answer

/-- Reads the fraction behind a point, if there is a point. -/
def fractionPart : List Char → Reading (Option (List Char))
  | '.' :: cs =>
    match someDigits cs with
    | .error f => .error f
    | .ok (ds, rest) => .ok (some ds, rest)
  | cs => .ok (none, cs)

/-- The sign that a text begins with, plus where there is none, and the rest. -/
def exponentSign : List Char → Int × List Char
  | '+' :: cs => (1, cs)
  | '-' :: cs => (-1, cs)
  | cs => (1, cs)

/-- Reads the exponent behind its letter, if there is a letter. -/
def exponentPart (cs : List Char) : Reading (Option Int) :=
  match cs with
  | 'e' :: cs | 'E' :: cs =>
    let (sign, cs) := exponentSign cs
    match someDigits cs with
    | .error f => .error f
    | .ok (ds, rest) => .ok (some (sign * extendBy 0 ds), rest)
  | cs => .ok (none, cs)

/-- Whether a number is beyond the range of its float.  The float is made of the digits that fit
the significand: a digit of the whole part that does not fit still counts as a place, and of the
fraction only the digits that fit do. -/
def isInfinite (whole fraction : List Char) (exponent : Int) : Bool :=
  let (significand, places) := absorb 0 whole
  let (significand, unused) := absorb significand fraction
  Binary64.overflows significand
    (exponent + places.length - (fraction.length - unused.length : Nat))

/-- Reads a number behind its sign. -/
def magnitude (negative : Bool) (cs : List Char) : Reading Number :=
  match wholePart cs with
  | .error f => .error f
  | .ok (whole, cs) =>
    match fractionPart cs with
    | .error f => .error f
    | .ok (fraction, cs) =>
      match exponentPart cs with
      | .error f => .error f
      | .ok (exponent, cs) =>
        if !negative && fraction.isNone && exponent.isNone && extendBy 0 whole < UInt64.size then
          .ok (.natural (extendBy 0 whole), cs)
        else if isInfinite whole (fraction.getD []) (exponent.getD 0) then
          .error .malformed
        else
          .ok (.other, cs)

/-- Reads a number. -/
def number : List Char → Reading Number
  | '-' :: cs => magnitude true cs
  | cs => magnitude false cs

end Json
end Hart
