import Hart.Datapath

/-!
# The machine in checked arithmetic

Decoding and executing once more, in an arithmetic that refuses what has no value: a shift by as
many bits as there are or more, a difference below zero, a sum that does not fit, and an index
beyond a list.  Such a refusal is a `Trap`, and not a fault of whoever uses the machine.

A word is cut here by shifting and masking, where `Word` takes slices of its bits, and an immediate
is put together from its pieces by shifting each to its place.  A width is a number of 32 bits, as a
unit keeps it, and nothing is assumed of it: what a width other than the four leads to is for the
arithmetic to say.

What the functions of this file compute, and for which widths they compute anything, is said in
terms of the functions of the same names that are total.
-/

set_option autoImplicit false

namespace Hart

/-- What a checked operation refuses. -/
inductive Trap where
  /-- A shift by at least the number of bits. -/
  | shift
  /-- A difference below zero. -/
  | underflow
  /-- A sum beyond the number of bits. -/
  | overflow
  /-- An index beyond the list. -/
  | index
  deriving DecidableEq, Repr

/-- Why a computation has no value. -/
inductive Stop where
  /-- An operation was refused. -/
  | trap (cause : Trap)
  /-- The machine reports a fault. -/
  | fault (cause : Fault)
  deriving DecidableEq, Repr

/-- A computation in checked arithmetic. -/
abbrev Checked := Except Stop

/-! ## Units and the widths they keep -/

/-- A caller can come to hold the unit, and the width that it keeps is the number. -/
inductive Alu.Keeps : Alu → BitVec 32 → Prop where
  | ofBits {bits : BitVec 32} {alu : Alu} : Alu.ofBits bits.toNat = .ok alu → Keeps alu bits
  | ofConfig {c : Config} {alu : Alu} :
    Alu.ofConfig c = .ok alu → Keeps alu (BitVec.ofNat 32 c.xlen)
  | base : Keeps { width := .w32 } 32

/-- A caller can come to hold the comparator, and the width that it keeps is the number. -/
inductive Comparator.Keeps : Comparator → BitVec 32 → Prop where
  | ofBits {bits : BitVec 32} {comparator : Comparator} :
    Comparator.ofBits bits.toNat = .ok comparator → Keeps comparator bits
  | base : Keeps { width := .w32 } 32

/-- A caller can come to hold the datapath, and the width that its units keep is the number. -/
inductive Datapath.Keeps : Datapath → BitVec 32 → Prop where
  | ofConfig {c : Config} {d : Datapath} :
    Datapath.ofConfig c = .ok d → Keeps d (BitVec.ofNat 32 c.xlen)
  | base : Keeps {} 32

namespace Checked

/-! ## Operations -/

section Operations

variable {m n : Nat} {α : Type}

/-- Shifts to the left.  The bits that are pushed out are lost, which is no reason to refuse. -/
def shiftLeft (x : BitVec n) (amount : BitVec m) : Checked (BitVec n) :=
  if amount.toNat < n then .ok (x <<< amount.toNat) else .error (.trap .shift)

/-- Shifts to the right, filling with zeros. -/
def shiftRight (x : BitVec n) (amount : BitVec m) : Checked (BitVec n) :=
  if amount.toNat < n then .ok (x >>> amount.toNat) else .error (.trap .shift)

/-- Shifts to the right, filling with the sign. -/
def shiftRightSigned (x : BitVec n) (amount : BitVec m) : Checked (BitVec n) :=
  if amount.toNat < n then .ok (x.sshiftRight amount.toNat) else .error (.trap .shift)

/-- The difference of two unsigned numbers. -/
def subtract (x y : BitVec n) : Checked (BitVec n) :=
  if x.usubOverflow y then .error (.trap .underflow) else .ok (x - y)

/-- The sum of two unsigned numbers. -/
def add (x y : BitVec n) : Checked (BitVec n) :=
  if x.uaddOverflow y then .error (.trap .overflow) else .ok (x + y)

/-- The element of a list at an index. -/
def get (xs : List α) (index : Nat) : Checked α :=
  match xs[index]? with
  | some x => .ok x
  | none => .error (.trap .index)

/-- The list with another element at an index. -/
def set (xs : List α) (index : Nat) (x : α) : Checked (List α) :=
  if index < xs.length then .ok (xs.set index x) else .error (.trap .index)

/-- A computation of the machine that needs no checked operation. -/
def faulting (result : Except Fault α) : Checked α :=
  result.mapError .fault

end Operations

/-! ## Lanes -/

/-- The lane whose low `width` bits are set. -/
def mask (width : BitVec 32) : Checked Lane :=
  if 64 ≤ width.toNat then
    return BitVec.allOnes 64
  else do
    let bit ← shiftLeft 1#64 width
    subtract bit 1#64

/-- The low `bits` bits of a lane, pushed to its top and back. -/
def signExtend (v : Lane) (bits : BitVec 32) : Checked Lane := do
  let amount ← subtract 64#32 bits
  let top ← shiftLeft v amount
  shiftRightSigned top amount

/-! ## Fields -/

/-- The bits of a word from `low` on that a mask lets through. -/
def slice (w : Word) (low : BitVec 32) (ones : Word) : Checked Word := do
  let shifted ← shiftRight w low
  return shifted &&& ones

/-- The opcode field, which is in its place already. -/
def opcode (w : Word) : Word := w &&& 0x7F

/-- The destination register. -/
def rd (w : Word) : Checked Word := slice w 7 0x1F

/-- The minor opcode. -/
def funct3 (w : Word) : Checked Word := slice w 12 0x7

/-- The first source register. -/
def rs1 (w : Word) : Checked Word := slice w 15 0x1F

/-- The second source register. -/
def rs2 (w : Word) : Checked Word := slice w 20 0x1F

/-- The function field. -/
def funct7 (w : Word) : Checked Word := slice w 25 0x7F

/-- The recognized opcode of a word. -/
def op? (w : Word) : Option Opcode :=
  Opcode.ofNat? (opcode w).toNat

/-! ## Immediates -/

/-- The bits of a word from `low` up to `high`. -/
def field (w : Word) (high low : BitVec 32) : Checked Word := do
  let shifted ← shiftRight w low
  let distance ← subtract high low
  let count ← add distance 1#32
  let bit ← shiftLeft 1#32 count
  let ones ← subtract bit 1#32
  return shifted &&& ones

/-- A field, moved to its place in an immediate. -/
def fieldAt (w : Word) (high low place : BitVec 32) : Checked Word := do
  let bits ← field w high low
  shiftLeft bits place

/-- The signed number that the low bits of an assembled immediate stand for. -/
def signed (raw : Word) (bits : BitVec 32) : Checked Word := do
  let v ← signExtend (raw.setWidth 64) bits
  return v.setWidth 32

/-- The immediate of layout I.  Its top bit is the top bit of the word. -/
def immI (w : Word) : Checked Word :=
  shiftRightSigned w 20#32

/-- The immediate of layout S. -/
def immS (w : Word) : Checked Word := do
  let high ← fieldAt w 31 25 5
  let low ← field w 11 7
  signed (high ||| low) 12

/-- The immediate of layout B. -/
def immB (w : Word) : Checked Word := do
  let bit12 ← fieldAt w 31 31 12
  let bit11 ← fieldAt w 7 7 11
  let high ← fieldAt w 30 25 5
  let low ← fieldAt w 11 8 1
  signed (bit12 ||| bit11 ||| high ||| low) 13

/-- The immediate of layout U, which is in its place already. -/
def immU (w : Word) : Word :=
  w &&& 0xFFFFF000

/-- The immediate of layout J. -/
def immJ (w : Word) : Checked Word := do
  let bit20 ← fieldAt w 31 31 20
  let high ← fieldAt w 19 12 12
  let bit11 ← fieldAt w 20 20 11
  let low ← fieldAt w 30 21 1
  signed (bit20 ||| high ||| bit11 ||| low) 21

/-- The immediate that a layout reads from a word. -/
def layoutImmediate : Layout → Word → Checked Word
  | .r, _ => return 0
  | .i, w => immI w
  | .s, w => immS w
  | .b, w => immB w
  | .u, w => return immU w
  | .j, w => immJ w

/-- The immediate of a word. -/
def immediate (w : Word) : Checked Word :=
  match op? w with
  | some o => layoutImmediate o.layout w
  | none => return 0

/-! ## The two decoders -/

/-- Takes a word apart. -/
def decode (w : Word) : Checked Instruction := do
  let rd ← rd w
  let rs1 ← rs1 w
  let rs2 ← rs2 w
  let funct3 ← funct3 w
  let funct7 ← funct7 w
  let imm ← immediate w
  return {
    raw := w
    op := op? w
    opcode := (opcode w).setWidth 7
    rd := rd.toNat
    rs1 := rs1.toNat
    rs2 := rs2.toNat
    funct3 := funct3.setWidth 3
    funct7 := funct7.setWidth 7
    imm }

/-- The control signals of a word.  The two function fields are cut out whether or not the opcode
looks at them. -/
def control (w : Word) : Checked Control :=
  match op? w with
  | some o => do
    let funct3 ← funct3 w
    let funct7 ← funct7 w
    return .ofOpcode o (funct3.setWidth 3) (funct7 &&& 0x20 != 0)
  | none => return .idle

/-! ## The units -/

/-- Bitwise operations and set-less-than; only the signed comparison needs a sign. -/
def logic (bits : BitVec 32) (o : Operation) (a b : Lane) : Checked Lane :=
  match o with
  | .slt => do
    let signedA ← signExtend a bits
    let signedB ← signExtend b bits
    return .ofBool (signedA.slt signedB)
  | o => return Alu.logic bits.toNat o a b

/-- The amount of a shift. -/
def shiftAmount (bits : BitVec 32) (b : Lane) : Checked (BitVec 32) := do
  let ones ← subtract (bits.setWidth 64) 1#64
  return (b &&& ones).setWidth 32

/-- Shifts.  The amount is found before the operation is looked at. -/
def shift (bits : BitVec 32) (o : Operation) (a b : Lane) : Checked Lane := do
  let amount ← shiftAmount bits b
  match o with
  | .sll => shiftLeft a amount
  | .srl => shiftRight a amount
  | .sra =>
    let v ← signExtend a bits
    let shifted ← shiftRightSigned v amount
    let ones ← mask bits
    return shifted &&& ones
  | _ => return 0

/-- The answer of the unit of the operation. -/
def compute (bits : BitVec 32) (o : Operation) (a b : Lane) : Checked Lane :=
  match o with
  | .add | .sub => return Alu.arithmetic o a b
  | .and | .or | .xor | .slt | .sltu => logic bits o a b
  | .sll | .srl | .sra => shift bits o a b

/-- Executes an operation. -/
def execute (bits : BitVec 32) (o : Operation) (a b : Lane) : Checked AluOutput := do
  let ones ← mask bits
  let out ← compute bits o (a &&& ones) (b &&& ones)
  return .ofResult (out &&& ones)

/-- Whether a comparison holds.  Both signs are found, whatever the comparison. -/
def compare (bits : BitVec 32) (c : Comparison) (a b : Lane) : Checked Bool := do
  let ones ← mask bits
  let a := a &&& ones
  let b := b &&& ones
  let signedA ← signExtend a bits
  let signedB ← signExtend b bits
  return match c with
    | .equal => a == b
    | .notEqual => a != b
    | .lessThan => signedA.slt signedB
    | .greaterEqual => signedB.sle signedA
    | .lessThanU => a.ult b
    | .greaterEqualU => b.ule a

/-! ## The register file -/

/-- The committed value of a register.  The index is compared with the number of registers first,
and the list is not looked at for a hardwired register. -/
def read (r : RegisterFile) (index : Nat) : Checked Lane :=
  if r.size ≤ index then throw (.fault (.registerOutOfRange index r.size))
  else if r.isHardwired index then return 0
  else get r.regs index

/-- Moves the staged write into its register, whose index was compared when the write was staged.
-/
def commit (r : RegisterFile) : Checked RegisterFile :=
  match r.staged with
  | none => return r
  | some (index, value) =>
    if r.isHardwired index then return { r with staged := none }
    else do
      let regs ← set r.regs index value
      return { r with regs, staged := none }

/-! ## The datapath -/

/-- The values of the source registers that the control signals select. -/
def readSources (c : Control) (x : Instruction) (regs : RegisterFile) : Checked (Lane × Lane) := do
  let rs1 ← if c.readsRs1 then read regs x.rs1 else pure 0
  let rs2 ← if c.readsRs2 then read regs x.rs2 else pure 0
  return (rs1, rs2)

/-- Evaluates a word in a datapath whose units keep `bits` as their width. -/
def evaluate (bits : BitVec 32) (w : Word) (pc : Lane) (regs : RegisterFile) :
    Checked Evaluation := do
  let x ← decode w
  let c ← control w
  let (rs1, rs2) ← readSources c x regs
  let ones ← mask bits
  let opA := c.sourceA.select rs1 pc &&& ones
  let opB := c.sourceB.select rs2 x.imm &&& ones
  let alu ← execute bits c.operation opA opB
  let holds ← compare bits c.comparison opA opB
  return {
    pc, instruction := x, control := c, opA, opB, alu, holds
    result := if !c.branch && c.comparison != .equal then .ofBool holds else alu.out
    storeData := if c.memWrite then some rs2 else none }

/-- Writes the value of the destination register, and commits it. -/
def retire (e : Evaluation) (regs : RegisterFile) : Checked RegisterFile :=
  match e.writeBack with
  | some (rd, value) => do
    let staged ← faulting (regs.write rd value)
    commit staged
  | none => return regs

end Checked
end Hart
