import Hart.Json.Number
import Hart.Json.Quoted

/-!
# Scalars

The values that a field may be given: null, a truth value, a number or a string.  A scalar is read
to its end before anybody asks whether it is the right one.  A value that a bracket or a brace
opens is no scalar, and it is refused at once.
-/

set_option autoImplicit false

namespace Hart
namespace Json

/-- A value without parts. -/
inductive Scalar where
  | null
  | bool (value : Bool)
  | number (value : Number)
  | string (value : List Char)
  deriving DecidableEq, Repr

/-- Reads a scalar.  The first character tells its kind. -/
def scalar : List Char → Reading Scalar
  | [] => .error .truncated
  | 'n' :: cs => literal .null ['u', 'l', 'l'] cs
  | 't' :: cs => literal (.bool true) ['r', 'u', 'e'] cs
  | 'f' :: cs => literal (.bool false) ['a', 'l', 's', 'e'] cs
  | '"' :: cs =>
    match quoted cs with
    | .error f => .error f
    | .ok (s, rest) => .ok (.string s, rest)
  | '[' :: _ | '\x7b' :: _ => .error .mistyped
  | c :: cs =>
    if c = '-' || c.isDigit then
      match number (c :: cs) with
      | .error f => .error f
      | .ok (n, rest) => .ok (.number n, rest)
    else
      .error .malformed

end Json
end Hart
