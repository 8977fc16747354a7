import Hart.RegisterFile

/-!
# Dumping a register file

A dump lists the committed contents of every register, two to a line.  An entry is the name of the
register, padded to the width of the longest name, an equals sign, and the contents as sixteen
hexadecimal digits; the entries of a line are parted by a space, and every line is ended.
-/

set_option autoImplicit false

namespace Hart
namespace RegisterFile

/-- The hexadecimal digit of a number below sixteen. -/
def hexDigit (n : Nat) : Char :=
  if n < 10 then Char.ofNat ('0'.toNat + n) else Char.ofNat ('a'.toNat + (n - 10))

/-- The sixteen hexadecimal digits of a lane, the most significant first. -/
def hexDigits (v : Lane) : List Char :=
  (List.range 16).reverse.map fun k ↦ hexDigit ((v >>> (4 * k)).toNat % 16)

/-- The number of a register in decimal, padded on the right to two places. -/
def dumpIndex (index : Nat) : List Char :=
  let digits := Nat.toDigits 10 index
  digits ++ List.replicate (2 - digits.length) ' '

/-- The entry of one register. -/
def dumpEntry (index : Nat) (v : Lane) : List Char :=
  'x' :: dumpIndex index ++ '=' :: '0' :: 'x' :: hexDigits v

/-- The lines of the registers from number `index` on. -/
def dumpFrom (index : Nat) : List Lane → List Char
  | [] => []
  | [v] => dumpEntry index v ++ ['\n']
  | v :: v' :: vs =>
    dumpEntry index v ++ ' ' :: dumpEntry (index + 1) v' ++ '\n' :: dumpFrom (index + 2) vs

/-- The dump of a register file. -/
def dump (r : RegisterFile) : String :=
  String.ofList (dumpFrom 0 r.regs)

end RegisterFile
end Hart
