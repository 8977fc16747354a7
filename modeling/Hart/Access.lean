/-!
# Memory accesses

The widths of loads and stores, and what a load makes of the data that memory returns.
-/

set_option autoImplicit false

namespace Hart

/-- A load: its size, and for the two narrow sizes whether the sign is extended. -/
inductive Load where
  | byte
  | half
  | word
  | byteUnsigned
  | halfUnsigned
  deriving DecidableEq, Repr

namespace Load

/-- The size of the access in bytes. -/
def bytes : Load → Nat
  | byte | byteUnsigned => 1
  | half | halfUnsigned => 2
  | word => 4

/-- Whether the loaded value keeps its sign. -/
def isSigned : Load → Bool
  | byte | half | word => true
  | byteUnsigned | halfUnsigned => false

/-- The loaded value: the low bytes of the data, extended to 32 bits. -/
def extend : Load → BitVec 32 → BitVec 32
  | byte, data => (data.setWidth 8).signExtend 32
  | half, data => (data.setWidth 16).signExtend 32
  | word, data => data
  | byteUnsigned, data => (data.setWidth 8).setWidth 32
  | halfUnsigned, data => (data.setWidth 16).setWidth 32

end Load

/-- A store, by its size. -/
inductive Store where
  | byte
  | half
  | word
  deriving DecidableEq, Repr

/-- The size of the access in bytes. -/
def Store.bytes : Store → Nat
  | .byte => 1
  | .half => 2
  | .word => 4

end Hart
