/-!
# Lanes: 64-bit carriers of narrower values

Every value of the machine travels in a 64-bit lane and occupies its low bits.  Two functions fix
how a lane is cut to a width.

## What is here

* `Lane.unsigned w v` — the number that the low `w` bits of a lane stand for.
* `Lane.mask w` — the lane with exactly the low `w` bits set.
* `Lane.signExtend v b` — the low `b` bits of `v` read as a two's-complement number and spread over
  the whole lane.
-/

set_option autoImplicit false

namespace Hart

/-- A 64-bit carrier.  A value of `w` bits occupies its low `w` bits. -/
abbrev Lane := BitVec 64

namespace Lane

/-! ## Masks -/

/-- The natural number that the low bits of a lane stand for. -/
def unsigned (width : Nat) (v : Lane) : Nat :=
  (v.setWidth width).toNat

/-- The lane whose low `width` bits are set, and no other; every bit from width 64 on. -/
def mask (width : Nat) : Lane :=
  BitVec.allOnes 64 >>> (64 - width)

/-! ## Sign extension -/

/-- The low `bits` bits of `v`, read as a two's-complement number and spread over the lane.  The
bits of `v` above them are ignored. -/
def signExtend (v : Lane) (bits : Nat) : Lane :=
  (v <<< (64 - bits)).sshiftRight (64 - bits)

/-! ## Truth values -/

/-- The lane of a truth value: one or zero. -/
def ofBool (b : Bool) : Lane :=
  bif b then 1 else 0

end Lane
end Hart
