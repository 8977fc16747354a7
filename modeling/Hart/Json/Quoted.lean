import Hart.Json.Reader

/-!
# Quoted strings

A string stands between two quotes.  Between them a character stands for itself, unless it is a
quote, a backslash or a control character; a backslash begins an escape.  The escape `u` gives a
code unit in four hexadecimal digits, and a code point beyond 16 bits is written as two such
escapes in a row, a high surrogate and a low one; a surrogate on its own is not a character.
-/

set_option autoImplicit false

namespace Hart
namespace Json

/-! ## Code units -/

/-- The value of a hexadecimal digit. -/
def hexValue? (c : Char) : Option Nat :=
  if '0' ≤ c ∧ c ≤ '9' then some (c.toNat - '0'.toNat)
  else if 'a' ≤ c ∧ c ≤ 'f' then some (c.toNat - 'a'.toNat + 10)
  else if 'A' ≤ c ∧ c ≤ 'F' then some (c.toNat - 'A'.toNat + 10)
  else none

/-- The number of bytes of a text in UTF-8. -/
def utf8Length (cs : List Char) : Nat :=
  cs.foldr (fun c n ↦ c.utf8Size + n) 0

/-- Reads a code unit of four hexadecimal digits.  Four bytes are looked at together: a text that
has fewer is too short, and otherwise they have to be digits. -/
def codeUnit : List Char → Reading Nat
  | a :: b :: c :: d :: cs =>
    match hexValue? a, hexValue? b, hexValue? c, hexValue? d with
    | some x, some y, some z, some t => .ok (((x * 16 + y) * 16 + z) * 16 + t, cs)
    | _, _, _, _ => .error .malformed
  | cs => .error (if utf8Length cs < 4 then .truncated else .malformed)

/-- Whether a code unit is the first half of a pair. -/
def isHighSurrogate (n : Nat) : Bool :=
  0xD800 ≤ n && n ≤ 0xDBFF

/-- Whether a code unit is the second half of a pair. -/
def isLowSurrogate (n : Nat) : Bool :=
  0xDC00 ≤ n && n ≤ 0xDFFF

/-- The character of a pair of surrogates. -/
def pairChar (high low : Nat) : Char :=
  Char.ofNat (0x10000 + (high - 0xD800) * 0x400 + (low - 0xDC00))

/-- Reads the character of one code unit, or of two that are a pair. -/
def codePoint (cs : List Char) : Reading Char :=
  match codeUnit cs with
  | .error f => .error f
  | .ok (high, cs) =>
    if isLowSurrogate high then
      .error .malformed
    else if isHighSurrogate high then
      match literal () ['\\', 'u'] cs with
      | .error f => .error f
      | .ok ((), cs) =>
        match codeUnit cs with
        | .error f => .error f
        | .ok (low, cs) =>
          if isLowSurrogate low then
            .ok (pairChar high low, cs)
          else
            .error .malformed
    else
      .ok (Char.ofNat high, cs)

/-! ## Escapes and strings -/

/-- Reads an escape after its backslash. -/
def escape : List Char → Reading Char
  | [] => .error .truncated
  | '"' :: cs => .ok ('"', cs)
  | '\\' :: cs => .ok ('\\', cs)
  | '/' :: cs => .ok ('/', cs)
  | 'b' :: cs => .ok ('\x08', cs)
  | 'f' :: cs => .ok ('\x0c', cs)
  | 'n' :: cs => .ok ('\n', cs)
  | 'r' :: cs => .ok ('\r', cs)
  | 't' :: cs => .ok ('\t', cs)
  | 'u' :: cs => codePoint cs
  | _ :: _ => .error .malformed

theorem length_of_codeUnit {cs rest : List Char} {n : Nat} (h : codeUnit cs = .ok (n, rest)) :
    rest.length < cs.length := by
  unfold codeUnit at h
  split at h
  · split at h
    · cases h; simp only [List.length_cons]; omega
    · cases h
  · cases h

theorem length_of_codePoint {cs rest : List Char} {c : Char} (h : codePoint cs = .ok (c, rest)) :
    rest.length < cs.length := by
  unfold codePoint at h
  split at h
  · cases h
  · rename_i hu
    have h₁ := length_of_codeUnit hu
    split at h
    · cases h
    · split at h
      · split at h
        · cases h
        · rename_i hl
          have h₂ := congrArg List.length (literal_eq_ok_iff.1 hl).2
          split at h
          · cases h
          · rename_i hv
            have h₃ := length_of_codeUnit hv
            split at h
            · simp only [Except.ok.injEq, Prod.mk.injEq] at h
              simp only [List.length_append] at h₂
              rw [← h.2]; omega
            · cases h
      · simp only [Except.ok.injEq, Prod.mk.injEq] at h
        rw [← h.2]; exact h₁

/-- An escape has at least one character. -/
theorem length_of_escape {cs rest : List Char} {c : Char} (h : escape cs = .ok (c, rest)) :
    rest.length < cs.length := by
  unfold escape at h
  split at h
  all_goals first
    | cases h; done
    | cases h; simp only [List.length_cons]; omega
    | exact Nat.lt_succ_of_lt (length_of_codePoint h)

/-- Reads a string after its opening quote, to the end of its closing one. -/
def quoted (cs : List Char) : Reading (List Char) :=
  match cs with
  | [] => .error .truncated
  | '"' :: cs => .ok ([], cs)
  | '\\' :: cs =>
    match _ : escape cs with
    | .error f => .error f
    | .ok (c, rest) =>
      match quoted rest with
      | .error f => .error f
      | .ok (s, rest) => .ok (c :: s, rest)
  | c :: cs =>
    if c < ' ' then
      .error .malformed
    else
      match quoted cs with
      | .error f => .error f
      | .ok (s, rest) => .ok (c :: s, rest)
termination_by cs.length
decreasing_by
  · have := length_of_escape ‹_›
    simp only [List.length_cons]; omega
  · simp

end Json
end Hart
