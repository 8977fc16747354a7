import Hart.Json.Number
import Hart.Json.Quoted
import Hart.RegisterFile

/-!
# Reading a dump

A dump can be read by one who knows only what an entry looks like: the number of a register in
decimal, blanks, an equals sign, and sixteen hexadecimal digits.  The reader takes each line by
itself, and it expects neither how many entries stand in a line nor which registers they name.
-/

set_option autoImplicit false

namespace Hart
namespace RegisterFile

/-! ## Lines -/

/-- The lines of a text.  Each has to be ended, the last one too. -/
def endedLines? : List Char → Option (List (List Char))
  | [] => some []
  | c :: cs =>
    if c = '\n' then
      (endedLines? cs).map ([] :: ·)
    else
      match endedLines? cs with
      | some (line :: lines) => some ((c :: line) :: lines)
      | _ => none

/-! ## Entries -/

/-- Reads the number of a register, in decimal and with or without blanks behind it, and the equals
sign. -/
def readIndex? (cs : List Char) : Option (Nat × List Char) :=
  match Json.digits cs with
  | ([], _) => none
  | (d :: ds, cs) =>
    match cs.dropWhile (· = ' ') with
    | '=' :: cs => some (Json.extendBy 0 (d :: ds), cs)
    | _ => none

/-- The value of hexadecimal digits that stand behind a number, if that is what they are. -/
def extendByHex? (start : Nat) : List Char → Option Nat
  | [] => some start
  | d :: ds => (Json.hexValue? d).bind fun value ↦ extendByHex? (start * 16 + value) ds

/-- Reads what a register holds: `0x` and sixteen hexadecimal digits. -/
def readContents? : List Char → Option (Lane × List Char)
  | '0' :: 'x' :: cs =>
    if 16 ≤ cs.length then
      (extendByHex? 0 (cs.take 16)).map fun n ↦ (BitVec.ofNat 64 n, cs.drop 16)
    else
      none
  | _ => none

/-- Reads an entry: `x`, the number of a register, and what the register holds. -/
def readRegister? : List Char → Option ((Nat × Lane) × List Char)
  | 'x' :: cs => do
    let (index, cs) ← readIndex? cs
    let (v, cs) ← readContents? cs
    return ((index, v), cs)
  | _ => none

theorem suffix_of_readIndex? {cs rest : List Char} {index : Nat}
    (h : readIndex? cs = some (index, rest)) : rest <:+ cs := by
  unfold readIndex? at h
  split at h
  · cases h
  · rename_i cs' hdigits
    have hdrop : cs' <:+ cs := ⟨_, hdigits ▸ Json.digits_append cs⟩
    split at h
    · rename_i hblanks
      cases h
      exact (List.suffix_cons _ _).trans ((hblanks ▸ List.dropWhile_suffix _).trans hdrop)
    · cases h

theorem suffix_of_readContents? {cs rest : List Char} {v : Lane}
    (h : readContents? cs = some (v, rest)) : rest <:+ cs := by
  unfold readContents? at h
  split at h
  · rename_i cs
    split at h
    · obtain ⟨_, _, hrest⟩ := Option.map_eq_some_iff.1 h
      obtain rfl := (Prod.mk.inj hrest).2
      exact (List.drop_suffix 16 cs).trans ⟨['0', 'x'], rfl⟩
    · cases h
  · cases h

/-- An entry has at least one character. -/
theorem length_of_readRegister? {cs rest : List Char} {entry : Nat × Lane}
    (h : readRegister? cs = some (entry, rest)) : rest.length < cs.length := by
  unfold readRegister? at h
  split at h
  · obtain ⟨⟨_, cs'⟩, hindex, h⟩ := Option.bind_eq_some_iff.1 h
    obtain ⟨⟨_, cs''⟩, hcontents, h⟩ := Option.bind_eq_some_iff.1 h
    cases h
    have hsuffix := (suffix_of_readContents? hcontents).trans (suffix_of_readIndex? hindex)
    exact Nat.lt_succ_of_le hsuffix.length_le
  · cases h

/-! ## Dumps -/

/-- Reads a line: one entry or more, with a blank between each and the next. -/
def readLine? (cs : List Char) : Option (List (Nat × Lane)) :=
  match _ : readRegister? cs with
  | some (entry, []) => some [entry]
  | some (entry, ' ' :: rest) => (readLine? rest).map (entry :: ·)
  | _ => none
termination_by cs.length
decreasing_by
  rename_i h
  exact Nat.lt_of_succ_lt (length_of_readRegister? h)

/-- Reads a dump, line by line. -/
def readDump? (text : String) : Option (List (List (Nat × Lane))) := do
  let lines ← endedLines? text.toList
  lines.mapM readLine?

end RegisterFile
end Hart
