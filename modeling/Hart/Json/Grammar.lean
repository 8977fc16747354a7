import Hart.Json.Scalar

/-!
# The grammar of texts

What a text may look like, said without reading it.  The rules are those of the JSON grammar for
blanks, strings, truth values and plain natural numbers, and for lists of items between commas.
A string can be spelled in many ways and a token can be surrounded by any blanks, so these are
relations from what is written to its texts; the readers go the other way, and they are functions.

* `Spelled` – the texts of a string between its quotes, with every escape.
* `Token` – the text of a value that a field can have.
* `Listed` – items between commas, with nothing but blanks where there is no item.
-/

set_option autoImplicit false

namespace Hart
namespace Json

/-! ## Blanks -/

/-- A text of blanks only. -/
def Blanks (text : List Char) : Prop :=
  ∀ c ∈ text, c ∈ [' ', '\t', '\n', '\r']

theorem blanks_nil : Blanks [] := by
  simp [Blanks]

/-! ## Strings -/

/-- The hexadecimal digits of a value, of which a letter has two cases. -/
def HexDigit (n : Nat) (c : Char) : Prop :=
  n < 16 ∧ (c = n.digitChar ∨ c = n.digitChar.toUpper)

/-- The texts of a code unit: four hexadecimal digits, the most significant first. -/
inductive UnitText : Nat → List Char → Prop
  | mk {x y z t : Nat} {a b c d : Char} :
    HexDigit x a → HexDigit y b → HexDigit z c → HexDigit t d →
      UnitText (((x * 16 + y) * 16 + z) * 16 + t) [a, b, c, d]

/-- The code units of a character in UTF-16. -/
def utf16 (c : Char) : List Nat :=
  if c.toNat < 0x10000 then
    [c.toNat]
  else
    [0xD800 + (c.toNat - 0x10000) / 0x400, 0xDC00 + (c.toNat - 0x10000) % 0x400]

/-- The letters of the short escapes, each with the character it stands for. -/
def shortEscapes : List (Char × Char) :=
  [('"', '"'), ('\\', '\\'), ('/', '/'), ('b', '\x08'), ('f', '\x0c'), ('n', '\n'), ('r', '\r'),
    ('t', '\t')]

/-- The ways to write a character between quotes. -/
inductive Spelling : Char → List Char → Prop
  /-- As itself. -/
  | plain {c : Char} : ' ' ≤ c → c ≠ '"' → c ≠ '\\' → Spelling c [c]
  /-- As a backslash and a letter. -/
  | short {letter c : Char} : (letter, c) ∈ shortEscapes → Spelling c ['\\', letter]
  /-- As its code unit. -/
  | unit {c : Char} {n : Nat} {ds : List Char} :
    utf16 c = [n] → UnitText n ds → Spelling c ('\\' :: 'u' :: ds)
  /-- As its code units, where there are two. -/
  | pair {c : Char} {high low : Nat} {ds es : List Char} :
    utf16 c = [high, low] → UnitText high ds → UnitText low es →
      Spelling c ('\\' :: 'u' :: (ds ++ '\\' :: 'u' :: es))

/-- The texts of a string, without its quotes. -/
inductive Spelled : List Char → List Char → Prop
  | nil : Spelled [] []
  | cons {c : Char} {s t text : List Char} :
    Spelling c t → Spelled s text → Spelled (c :: s) (t ++ text)

/-! ## Values -/

/-- The text of a truth value or of a natural number.  A number is written in decimal: no sign, no
point, no exponent, and no zero before another digit. -/
inductive Token : Scalar → List Char → Prop
  | yes : Token (.bool true) ['t', 'r', 'u', 'e']
  | no : Token (.bool false) ['f', 'a', 'l', 's', 'e']
  | natural (n : Nat) : Token (.number (.natural n)) (Nat.toDigits 10 n)

/-! ## Items between commas -/

section Lists

variable {α : Type} (Item : α → List Char → Prop)

/-- The texts of one item or more, with a comma between each two. -/
inductive Separated : List α → List Char → Prop
  | last {a : α} {text : List Char} : Item a text → Separated [a] text
  | more {a : α} {as : List α} {t text : List Char} :
    Item a t → Separated as text → Separated (a :: as) (t ++ ',' :: text)

/-- The texts of any number of items. -/
inductive Listed : List α → List Char → Prop
  | none {text : List Char} : Blanks text → Listed [] text
  | some {as : List α} {text : List Char} : Separated Item as text → Listed as text

variable {Item} in
/-- If every item has a text, so has every list of them. -/
theorem exists_listed (h : ∀ a, ∃ text, Item a text) (as : List α) :
    ∃ text, Listed Item as text := by
  cases as with
  | nil => exact ⟨[], .none blanks_nil⟩
  | cons a as =>
    suffices hsep : ∃ text, Separated Item (a :: as) text from
      hsep.imp fun _ ↦ .some
    induction as generalizing a with
    | nil =>
      obtain ⟨t, ht⟩ := h a
      exact ⟨t, .last ht⟩
    | cons b as ih =>
      obtain ⟨t, ht⟩ := h a
      obtain ⟨text, htext⟩ := ih b
      exact ⟨_, .more ht htext⟩

end Lists

end Json
end Hart
