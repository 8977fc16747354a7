import Hart.Event
import Hart.Opcode

/-!
# Immediates

Each layout scatters its immediate over the word in its own way; the slices below stand from the
top bit of the immediate down.

| Layout | Slices of the word                              | Bits |
|--------|-------------------------------------------------|------|
| I      | `[31:20]`                                       | 12   |
| S      | `[31:25] [11:7]`                                | 12   |
| B      | `[31] [7] [30:25] [11:8]` and a zero            | 13   |
| U      | `[31:12]` and twelve zeros                      | 32   |
| J      | `[31] [19:12] [20] [30:21]` and a zero          | 21   |

An immediate is then extended from its top bit to 32 bits.  Layout R has none, and neither has a
word whose opcode is not recognized: their immediate is zero.
-/

set_option autoImplicit false

namespace Hart

namespace Word

/-- The immediate of layout I. -/
def immI (w : Word) : BitVec 32 :=
  (w.extractLsb' 20 12).signExtend 32

/-- The immediate of layout S. -/
def immS (w : Word) : BitVec 32 :=
  (w.extractLsb' 25 7 ++ w.extractLsb' 7 5).signExtend 32

/-- The immediate of layout B, always even. -/
def immB (w : Word) : BitVec 32 :=
  (w.extractLsb' 31 1 ++ w.extractLsb' 7 1 ++ w.extractLsb' 25 6 ++ w.extractLsb' 8 4 ++
    0#1).signExtend 32

/-- The immediate of layout U, whose top bit is in its place already. -/
def immU (w : Word) : BitVec 32 :=
  w.extractLsb' 12 20 ++ 0#12

/-- The immediate of layout J, always even. -/
def immJ (w : Word) : BitVec 32 :=
  (w.extractLsb' 31 1 ++ w.extractLsb' 12 8 ++ w.extractLsb' 20 1 ++ w.extractLsb' 21 10 ++
    0#1).signExtend 32

end Word

/-- The immediate that a layout reads from a word. -/
def Layout.immediate : Layout → Word → BitVec 32
  | .r, _ => 0
  | .i, w => w.immI
  | .s, w => w.immS
  | .b, w => w.immB
  | .u, w => w.immU
  | .j, w => w.immJ

namespace Word

/-- The immediate of a word, by the layout of its opcode, and what is reported while it is read: a
word without a layout is worth a remark, and its immediate is zero. -/
def immediateReported (w : Word) : BitVec 32 × List Event :=
  match w.op? with
  | some o => (o.layout.immediate w, [])
  | none => (0, [.noImmediateLayout w])

/-- The immediate of a word. -/
def immediate (w : Word) : BitVec 32 :=
  w.immediateReported.1

/-- What reading the immediate alone reports. -/
def immediateEvents (w : Word) : List Event :=
  w.immediateReported.2

theorem immediateReported_of_op? {w : Word} {o : Opcode} (h : w.op? = some o) :
    w.immediateReported = (o.layout.immediate w, []) := by
  rw [immediateReported, h]

theorem immediateReported_of_op?_eq_none {w : Word} (h : w.op? = none) :
    w.immediateReported = (0, [.noImmediateLayout w]) := by
  rw [immediateReported, h]

theorem immediate_of_op? {w : Word} {o : Opcode} (h : w.op? = some o) :
    w.immediate = o.layout.immediate w := by
  rw [immediate, immediateReported_of_op? h]

theorem immediate_of_op?_eq_none {w : Word} (h : w.op? = none) : w.immediate = 0 := by
  rw [immediate, immediateReported_of_op?_eq_none h]

theorem immediateEvents_of_op? {w : Word} {o : Opcode} (h : w.op? = some o) :
    w.immediateEvents = [] := by
  rw [immediateEvents, immediateReported_of_op? h]

theorem immediateEvents_of_op?_eq_none {w : Word} (h : w.op? = none) :
    w.immediateEvents = [.noImmediateLayout w] := by
  rw [immediateEvents, immediateReported_of_op?_eq_none h]

end Word
end Hart
