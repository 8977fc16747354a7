import Hart.Config
import Hart.Json.Scalar

/-!
# Configurations as text

A configuration is written as JSON: as an object, whose members name their fields in any order, or
as an array, whose elements stand in the order of the fields.  Fields that are not given keep their
defaults.

The text is read from left to right, and the first fault wins.  `Hart.Json.Reader` says what is
assumed of the reader of JSON.  The reader of a configuration is derived from the declaration of its
four fields, strict about keys, and this is what is assumed of it.

* It takes an object or an array.  The keys of an object may come in any order.  The elements of an
  array are the fields in the order of their declaration, and the last of them may be left out.
* A key that names no field, or a field that was given before, is refused as soon as the key is
  read; that is a fault of the kind `mistyped`, whatever follows.
* A value is refused where it is read, if the field has another type or a smaller range.
* A field that is not given has its default.  So the empty object and the empty array are texts of
  the default configuration.

Only what was read to its end is validated.

* `Config.members` reads the members of an object.  A key is judged as soon as it is read: it must
  name a field that was not given yet.
* `Config.elements` reads the elements of an array.
* `Config.ofChars` reads a whole text, and `Config.ofText` validates what it says.
-/

set_option autoImplicit false

namespace Hart
namespace Config

open Json

/-! ## Fields -/

/-- A field of a configuration. -/
inductive Field where
  | xlen
  | regCount
  | hardwireZero
  | trace
  deriving DecidableEq, Repr

/-- The fields, in the order of the elements of an array. -/
def Field.all : List Field :=
  [.xlen, .regCount, .hardwireZero, .trace]

/-- The key of a field. -/
def Field.key : Field → String
  | .xlen => "xlen"
  | .regCount => "reg_count"
  | .hardwireZero => "hardwire_x0"
  | .trace => "trace_instructions"

/-- The configuration with a field set to a value.  The width takes natural numbers of 32 bits, the
register count of 64, and the two flags take truth values. -/
def assign (c : Config) : Field → Scalar → Except TextFault Config
  | .xlen, .number (.natural n) =>
    if n < UInt32.size then .ok { c with xlen := n } else .error .mistyped
  | .regCount, .number (.natural n) =>
    if n < UInt64.size then .ok { c with regCount := n } else .error .mistyped
  | .hardwireZero, .bool b => .ok { c with hardwireZero := b }
  | .trace, .bool b => .ok { c with trace := b }
  | _, _ => .error .mistyped

/-! ## Objects -/

/-- Reads the colon and the value of a member behind its key. -/
def memberValue (c : Config) (f : Field) (cs : List Char) : Reading Config :=
  match skipBlanks cs with
  | [] => .error .truncated
  | ':' :: cs =>
    match scalar (skipBlanks cs) with
    | .error fault => .error fault
    | .ok (value, cs) =>
      match c.assign f value with
      | .error fault => .error fault
      | .ok c => .ok (c, cs)
  | _ :: _ => .error .malformed

/-- Reads the opening quote of a key, and the key. -/
def memberKey (cs : List Char) : Reading (List Char) :=
  match skipBlanks cs with
  | [] => .error .truncated
  | '"' :: cs => quoted cs
  | _ :: _ => .error .malformed

/-- Reads the members of an object, one at least, to the end of its closing brace.  `free` lists
the fields that may still be given. -/
def members (free : List Field) (c : Config) (cs : List Char) : Reading Config :=
  match memberKey cs with
  | .error fault => .error fault
  | .ok (key, cs) =>
    match _ : free.find? (fun f ↦ f.key.toList = key) with
    | none => .error .mistyped
    | some f =>
      match memberValue c f cs with
      | .error fault => .error fault
      | .ok (c, cs) =>
        match skipBlanks cs with
        | [] => .error .truncated
        | ',' :: cs => members (free.erase f) c cs
        | '}' :: cs => .ok (c, cs)
        | _ :: _ => .error .malformed
termination_by free.length
decreasing_by
  have hmem := List.mem_of_find?_eq_some ‹_›
  have := List.length_pos_of_mem hmem
  rw [List.length_erase_of_mem hmem]
  omega

/-- Reads an object behind its opening brace. -/
def object (cs : List Char) : Reading Config :=
  match skipBlanks cs with
  | '}' :: cs => .ok ({}, cs)
  | cs => members Field.all {} cs

/-! ## Arrays -/

/-- Reads the elements of an array, one for each of the given fields at most, to the end of its
closing bracket. -/
def elements : List Field → Config → List Char → Reading Config
  | [], _, _ => .error .malformed
  | f :: fs, c, cs =>
    match scalar (skipBlanks cs) with
    | .error fault => .error fault
    | .ok (value, cs) =>
      match c.assign f value with
      | .error fault => .error fault
      | .ok c =>
        match skipBlanks cs with
        | [] => .error .truncated
        | ',' :: cs => elements fs c cs
        | ']' :: cs => .ok (c, cs)
        | _ :: _ => .error .malformed

/-- Reads an array behind its opening bracket. -/
def array (cs : List Char) : Reading Config :=
  match skipBlanks cs with
  | ']' :: cs => .ok ({}, cs)
  | cs => elements Field.all {} cs

/-! ## Texts -/

/-- Reads an object or an array; a scalar is well formed at best. -/
def document (cs : List Char) : Reading Config :=
  match skipBlanks cs with
  | '{' :: cs => object cs
  | '[' :: cs => array cs
  | cs =>
    match scalar cs with
    | .error fault => .error fault
    | .ok _ => .error .mistyped

/-- Reads a whole text: nothing but blanks may follow the value. -/
def ofChars (cs : List Char) : Except TextFault Config :=
  match document cs with
  | .error fault => .error fault
  | .ok (c, rest) => if skipBlanks rest = [] then .ok c else .error .malformed

/-- Reads a configuration, and validates it when all of the text is read. -/
def ofText (text : String) : Except Fault Config :=
  match ofChars text.toList with
  | .error fault => .error (.unreadable fault)
  | .ok c =>
    match c.validate with
    | .error fault => .error fault
    | .ok _ => .ok c

end Config
end Hart
