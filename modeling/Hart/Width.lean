import Hart.Fault

/-!
# Datapath widths

A machine can work at any number of bits that is within two bounds and a power of two.  A `Width` is
such a number with the evidence, and `Width.ofBits` is the check that supplies the evidence.

The bounds and the powers of two between them leave four widths (`Width.valid_iff_mem`), so what is
to be shown of every width is shown of those four (`Width.cases`).
-/

set_option autoImplicit false

namespace Hart
namespace Width

/-- The bits of the narrowest width. -/
def minBits : Nat := 8

/-- The bits of the widest width. -/
def maxBits : Nat := 64

/-- A machine can work at this number of bits. -/
def Valid (n : Nat) : Prop :=
  (minBits ≤ n ∧ n ≤ maxBits) ∧ n.isPowerOfTwo
  deriving Decidable

/-- The powers of two between the bounds, one by one. -/
theorem valid_iff_mem {n : Nat} : Valid n ↔ n ∈ [8, 16, 32, 64] := by
  constructor
  · rintro ⟨⟨hlow, hhigh⟩, k, rfl⟩
    -- The upper bound leaves seven exponents to try.
    have hk : k < 7 :=
      (Nat.pow_lt_pow_iff_right (by decide)).1 (Nat.lt_of_le_of_lt hhigh (by decide))
    revert hlow hhigh
    revert k
    decide
  · simp only [List.mem_cons, List.not_mem_nil, or_false]
    rintro (rfl | rfl | rfl | rfl) <;> decide

end Width

/-- The width of a datapath, of its operands and of its registers. -/
@[ext]
structure Width where
  /-- The number of bits. -/
  bits : Nat
  /-- The number was checked. -/
  valid : Width.Valid bits
  deriving DecidableEq, Repr

namespace Width

/-- The width of a number of bits, or the fault that names the number. -/
def ofBits (n : Nat) : Except Fault Width :=
  if h : Valid n then .ok ⟨n, h⟩ else .error (.unsupportedWidth n)

/-! ## The four widths -/

def w8 : Width := ⟨8, by decide⟩

def w16 : Width := ⟨16, by decide⟩

def w32 : Width := ⟨32, by decide⟩

def w64 : Width := ⟨64, by decide⟩

@[simp]
theorem bits_w8 : w8.bits = 8 := rfl

@[simp]
theorem bits_w16 : w16.bits = 16 := rfl

@[simp]
theorem bits_w32 : w32.bits = 32 := rfl

@[simp]
theorem bits_w64 : w64.bits = 64 := rfl

/-- What holds of the four widths holds of every width. -/
@[elab_as_elim, cases_eliminator]
theorem cases {motive : Width → Prop} (w8 : motive w8) (w16 : motive w16) (w32 : motive w32)
    (w64 : motive w64) (w : Width) : motive w := by
  obtain ⟨n, hn⟩ := w
  have hmem : n ∈ [8, 16, 32, 64] := valid_iff_mem.1 hn
  simp only [List.mem_cons, List.not_mem_nil, or_false] at hmem
  rcases hmem with rfl | rfl | rfl | rfl
  · exact w8
  · exact w16
  · exact w32
  · exact w64

/-! ## Small laws -/

@[simp]
theorem ofBits_bits (w : Width) : ofBits w.bits = .ok w :=
  dif_pos w.valid

theorem ofBits_eq_ok_iff {n : Nat} {w : Width} : ofBits n = .ok w ↔ n = w.bits := by
  constructor
  · intro h
    unfold ofBits at h
    split at h
    · cases h
      rfl
    · cases h
  · rintro rfl
    exact ofBits_bits w

theorem bits_le (w : Width) : w.bits ≤ 64 :=
  w.valid.1.2

theorem bits_pos (w : Width) : 0 < w.bits := by
  cases w <;> decide

end Width
end Hart
