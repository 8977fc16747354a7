import Hart.Encoding
import Hart.Proofs.Immediate

/-!
# Encoding and decoding undo each other

A layout scatters the operands over the word, and `Word.decode` collects them.  Both directions are
shown layout by layout: the slices of an encoded word are the pieces that were put there
(`Layout.carries_encode`), and the pieces of a decoded word, put back, are the word
(`Layout.encode_fields`).

* `Layout.immediate_encode` — an immediate that fits its layout comes back whole, with its sign.
* `Layout.fits_immediate` — what a layout reads from any word fits the layout.
* `Opcode.format_eq_layout` — the encoder and the decoder agree on the layout of an opcode.
* `Word.decode_encode_roundTrip` — the two directions for every opcode, and the words without one.

What makes an immediate come back is the same for all layouts.  It is cut to its low bits, which
loses nothing if they hold it (`signExtend_extractLsb'`); and the zeros that layouts B, U and J do
not store are the low bits of a multiple (`extractLsb'_zero_eq_zero_iff`).
-/

set_option autoImplicit false

namespace Hart

/-! ## Cutting an immediate and extending it again -/

/-- A slice below the sign is not touched by the extension. -/
theorem extractLsb'_signExtend {n : Nat} (x : BitVec n) {start len : Nat} (hn : n ≤ 32)
    (h : start + len ≤ n) :
    (x.signExtend 32).extractLsb' start len = x.extractLsb' start len := by
  ext i hi
  rw [BitVec.getElem_extractLsb', BitVec.getElem_extractLsb',
    BitVec.getLsbD_signExtend, decide_eq_true (by omega), if_pos (by omega), Bool.true_and]

/-- A number that `n + 1` bits can hold survives being cut to them. -/
theorem signExtend_extractLsb' {n : Nat} {v : BitVec 32} (hn : n < 32)
    (hlo : -2 ^ n ≤ v.toInt) (hhi : v.toInt < 2 ^ n) :
    (v.extractLsb' 0 (n + 1)).signExtend 32 = v := by
  have hpow : ((2 ^ (n + 1) : Nat) : Int) = 2 ^ n * 2 := by
    rw [Nat.pow_succ, Int.natCast_mul, Int.natCast_pow]
    rfl
  apply BitVec.eq_of_toInt_eq
  rw [BitVec.toInt_signExtend_of_le (by omega), BitVec.toInt_eq_toNat_bmod,
    BitVec.extractLsb'_toNat, Nat.shiftRight_zero, Int.natCast_emod, Int.emod_bmod,
    ← Int.bmod_bmod_of_dvd (Nat.pow_dvd_pow 2 (show n + 1 ≤ 32 by omega)),
    ← BitVec.toInt_eq_toNat_bmod]
  exact Int.bmod_eq_of_le_mul_two (by omega) (by omega)

/-- What `n + 1` bits extend to is in their range. -/
theorem toInt_signExtend_bounds {n : Nat} (hn : n < 32) (x : BitVec (n + 1)) :
    -2 ^ n ≤ (x.signExtend 32).toInt ∧ (x.signExtend 32).toInt < 2 ^ n := by
  rw [BitVec.toInt_signExtend_of_le (by omega)]
  exact ⟨x.le_toInt, x.toInt_lt⟩

/-- The low bits are zero exactly if the number is a multiple. -/
theorem extractLsb'_zero_eq_zero_iff {v : BitVec 32} {k : Nat} (hk : k ≤ 32) :
    v.extractLsb' 0 k = 0#k ↔ 2 ^ k ∣ v.toInt := by
  have hdvd : (2 : Int) ^ k ∣ ((2 ^ 32 : Nat) : Int) := by
    rw [Int.natCast_pow]
    exact pow_dvd_pow 2 hk
  have hmod : v.toInt % 2 ^ k = (v.toNat : Int) % 2 ^ k :=
    calc v.toInt % 2 ^ k
      _ = v.toInt % ((2 ^ 32 : Nat) : Int) % 2 ^ k := (Int.emod_emod_of_dvd _ hdvd).symm
      _ = (v.toNat : Int) % ((2 ^ 32 : Nat) : Int) % 2 ^ k := by
        rw [BitVec.toInt_eq_toNat_bmod, Int.bmod_emod]
      _ = (v.toNat : Int) % 2 ^ k := Int.emod_emod_of_dvd _ hdvd
  rw [← BitVec.toNat_inj, BitVec.extractLsb'_toNat, Nat.shiftRight_zero, BitVec.toNat_ofNat,
    Nat.zero_mod, Int.dvd_iff_emod_eq_zero, hmod]
  exact_mod_cast Iff.rfl

/-- A zero below the sign makes the number even. -/
theorem even_toInt_signExtend {n : Nat} (hn : n < 32) (x : BitVec n) :
    2 ∣ ((x ++ 0#1).signExtend 32).toInt := by
  apply (extractLsb'_zero_eq_zero_iff (k := 1) (by decide)).1
  rw [extractLsb'_signExtend _ (by omega) (by omega)]
  exact BitVec.extractLsb'_append_eq_right

/-! ## Decoding what was encoded

A slice of an encoded word is found by skipping the pieces that the layout places below it. -/

namespace Layout

theorem opcode_encode (l : Layout) (code : BitVec 7) (x : Operands) :
    (l.encode code x).opcode = code := by
  rw [Word.opcode]
  cases l <;> exact BitVec.extractLsb'_append_eq_right

theorem immI_encode {x : Operands} (h : Layout.i.Fits x.imm) (code : BitVec 7) :
    (encode .i code x).immI = x.imm := by
  have h0 : (encode .i code x).extractLsb' 20 12 = x.imm.extractLsb' 0 12 := by
    rw [encode]
    iterate 4 rw [BitVec.extractLsb'_append_eq_of_le (by decide)]
    exact BitVec.extractLsb'_eq_self
  obtain ⟨hlo, hhi⟩ := h
  rw [Word.immI, h0]
  exact signExtend_extractLsb' (by decide) hlo (Int.lt_of_le_of_lt hhi (by decide))

theorem immS_encode {x : Operands} (h : Layout.s.Fits x.imm) (code : BitVec 7) :
    (encode .s code x).immS = x.imm := by
  have h5 : (encode .s code x).extractLsb' 25 7 = x.imm.extractLsb' 5 7 := by
    rw [encode]
    iterate 5 rw [BitVec.extractLsb'_append_eq_of_le (by decide)]
    exact BitVec.extractLsb'_eq_self
  have h0 : (encode .s code x).extractLsb' 7 5 = x.imm.extractLsb' 0 5 := by
    rw [encode, BitVec.extractLsb'_append_eq_of_le (by decide)]
    exact BitVec.extractLsb'_append_eq_right
  obtain ⟨hlo, hhi⟩ := h
  rw [Word.immS, h5, h0,
    BitVec.extractLsb'_append_extractLsb'_eq_extractLsb' (by decide)]
  exact signExtend_extractLsb' (by decide) hlo (Int.lt_of_le_of_lt hhi (by decide))

theorem immB_encode {x : Operands} (h : Layout.b.Fits x.imm) (code : BitVec 7) :
    (encode .b code x).immB = x.imm := by
  have h12 : (encode .b code x).extractLsb' 31 1 = x.imm.extractLsb' 12 1 := by
    rw [encode]
    iterate 7 rw [BitVec.extractLsb'_append_eq_of_le (by decide)]
    exact BitVec.extractLsb'_eq_self
  have h11 : (encode .b code x).extractLsb' 7 1 = x.imm.extractLsb' 11 1 := by
    rw [encode, BitVec.extractLsb'_append_eq_of_le (by decide)]
    exact BitVec.extractLsb'_append_eq_right
  have h5 : (encode .b code x).extractLsb' 25 6 = x.imm.extractLsb' 5 6 := by
    rw [encode]
    iterate 6 rw [BitVec.extractLsb'_append_eq_of_le (by decide)]
    exact BitVec.extractLsb'_append_eq_right
  have h1 : (encode .b code x).extractLsb' 8 4 = x.imm.extractLsb' 1 4 := by
    rw [encode]
    iterate 2 rw [BitVec.extractLsb'_append_eq_of_le (by decide)]
    exact BitVec.extractLsb'_append_eq_right
  obtain ⟨hlo, hhi, heven⟩ := h
  have h0 : x.imm.extractLsb' 0 1 = 0#1 := (extractLsb'_zero_eq_zero_iff (by decide)).2 heven
  rw [Word.immB, h12, h11, h5, h1, ← h0]
  simp only [BitVec.extractLsb'_append_extractLsb'_eq_extractLsb']
  exact signExtend_extractLsb' (by decide) hlo (Int.lt_of_le_of_lt hhi (by decide))

theorem immU_encode {x : Operands} (h : Layout.u.Fits x.imm) (code : BitVec 7) :
    (encode .u code x).immU = x.imm := by
  have h12 : (encode .u code x).extractLsb' 12 20 = x.imm.extractLsb' 12 20 := by
    rw [encode]
    iterate 2 rw [BitVec.extractLsb'_append_eq_of_le (by decide)]
    exact BitVec.extractLsb'_eq_self
  have h0 : x.imm.extractLsb' 0 12 = 0#12 := (extractLsb'_zero_eq_zero_iff (by decide)).2 h
  rw [Word.immU, h12, ← h0,
    BitVec.extractLsb'_append_extractLsb'_eq_extractLsb' (by decide)]
  exact BitVec.extractLsb'_eq_self

theorem immJ_encode {x : Operands} (h : Layout.j.Fits x.imm) (code : BitVec 7) :
    (encode .j code x).immJ = x.imm := by
  have h20 : (encode .j code x).extractLsb' 31 1 = x.imm.extractLsb' 20 1 := by
    rw [encode]
    iterate 5 rw [BitVec.extractLsb'_append_eq_of_le (by decide)]
    exact BitVec.extractLsb'_eq_self
  have h12 : (encode .j code x).extractLsb' 12 8 = x.imm.extractLsb' 12 8 := by
    rw [encode]
    iterate 2 rw [BitVec.extractLsb'_append_eq_of_le (by decide)]
    exact BitVec.extractLsb'_append_eq_right
  have h11 : (encode .j code x).extractLsb' 20 1 = x.imm.extractLsb' 11 1 := by
    rw [encode]
    iterate 3 rw [BitVec.extractLsb'_append_eq_of_le (by decide)]
    exact BitVec.extractLsb'_append_eq_right
  have h1 : (encode .j code x).extractLsb' 21 10 = x.imm.extractLsb' 1 10 := by
    rw [encode]
    iterate 4 rw [BitVec.extractLsb'_append_eq_of_le (by decide)]
    exact BitVec.extractLsb'_append_eq_right
  obtain ⟨hlo, hhi, heven⟩ := h
  have h0 : x.imm.extractLsb' 0 1 = 0#1 := (extractLsb'_zero_eq_zero_iff (by decide)).2 heven
  rw [Word.immJ, h20, h12, h11, h1, ← h0]
  simp only [BitVec.extractLsb'_append_extractLsb'_eq_extractLsb']
  exact signExtend_extractLsb' (by decide) hlo (Int.lt_of_le_of_lt hhi (by decide))

/-- An immediate that fits is read back by the layout that placed it. -/
theorem immediate_encode {l : Layout} {x : Operands} (h : l.Fits x.imm) (code : BitVec 7) :
    l.immediate (l.encode code x) = x.imm := by
  cases l with
  | r => exact h.symm
  | i => exact immI_encode h code
  | s => exact immS_encode h code
  | b => exact immB_encode h code
  | u => exact immU_encode h code
  | j => exact immJ_encode h code

/-- A decoded word shows the fields that its layout owns. -/
theorem carries_encode (l : Layout) (code : BitVec 7) {x : Operands}
    (h : (l.encode code x).immediate = x.imm) : l.Carries x (l.encode code x).decode := by
  refine ⟨h, ?_⟩
  cases l <;>
    simp only [Word.decode, encode, Word.rd, Word.rs1, Word.rs2, Word.funct3, Word.funct7,
      BitVec.toNat_inj]
  all_goals repeat' apply And.intro
  -- Once the pieces below a field are skipped, what is left starts with the field.
  all_goals
    repeat rw [BitVec.extractLsb'_append_eq_of_le (by decide)]
    first
      | exact BitVec.extractLsb'_append_eq_right
      | exact BitVec.extractLsb'_eq_self

end Layout

namespace Opcode

/-- The encoder lays a word out as the decoder takes it apart. -/
theorem format_eq_layout (o : Opcode) : o.format = o.layout := by
  cases o <;> rfl

@[simp]
theorem op?_encode (o : Opcode) (x : Operands) : (o.encode x).op? = some o := by
  rw [Word.op?, encode, Layout.opcode_encode, ofCode?_code]

theorem immediate_encode {o : Opcode} {x : Operands} (h : o.format.Fits x.imm) :
    (o.encode x).immediate = x.imm := by
  rw [Word.immediate_of_op? (o.op?_encode x), encode, ← o.format_eq_layout,
    Layout.immediate_encode h]

end Opcode

/-! ## Encoding what was decoded -/

namespace Layout

theorem encode_immI (w : Word) :
    encode .i w.opcode ⟨w.rd, w.rs1, w.rs2, w.funct3, w.funct7, w.immI⟩ = w := by
  have h0 : w.immI.extractLsb' 0 12 = w.extractLsb' 20 12 := by
    rw [Word.immI, extractLsb'_signExtend _ (by decide) (by decide), BitVec.extractLsb'_eq_self]
  simp only [encode, h0, Word.rs1, Word.funct3, Word.rd, Word.opcode]
  iterate 4 rw [BitVec.extractLsb'_append_extractLsb'_eq_extractLsb' (by decide)]
  exact BitVec.extractLsb'_eq_self

theorem encode_immS (w : Word) :
    encode .s w.opcode ⟨w.rd, w.rs1, w.rs2, w.funct3, w.funct7, w.immS⟩ = w := by
  have h5 : w.immS.extractLsb' 5 7 = w.extractLsb' 25 7 := by
    rw [Word.immS, extractLsb'_signExtend _ (by decide) (by decide),
      BitVec.extractLsb'_append_eq_of_le (by decide)]
    exact BitVec.extractLsb'_eq_self
  have h0 : w.immS.extractLsb' 0 5 = w.extractLsb' 7 5 := by
    rw [Word.immS, extractLsb'_signExtend _ (by decide) (by decide)]
    exact BitVec.extractLsb'_append_eq_right
  rw [encode, h5, h0]
  exact w.fields_append

theorem encode_immB (w : Word) :
    encode .b w.opcode ⟨w.rd, w.rs1, w.rs2, w.funct3, w.funct7, w.immB⟩ = w := by
  have h12 : w.immB.extractLsb' 12 1 = w.extractLsb' 31 1 := by
    rw [Word.immB, extractLsb'_signExtend _ (by decide) (by decide)]
    iterate 4 rw [BitVec.extractLsb'_append_eq_of_le (by decide)]
    exact BitVec.extractLsb'_eq_self
  have h11 : w.immB.extractLsb' 11 1 = w.extractLsb' 7 1 := by
    rw [Word.immB, extractLsb'_signExtend _ (by decide) (by decide)]
    iterate 3 rw [BitVec.extractLsb'_append_eq_of_le (by decide)]
    exact BitVec.extractLsb'_append_eq_right
  have h5 : w.immB.extractLsb' 5 6 = w.extractLsb' 25 6 := by
    rw [Word.immB, extractLsb'_signExtend _ (by decide) (by decide)]
    iterate 2 rw [BitVec.extractLsb'_append_eq_of_le (by decide)]
    exact BitVec.extractLsb'_append_eq_right
  have h1 : w.immB.extractLsb' 1 4 = w.extractLsb' 8 4 := by
    rw [Word.immB, extractLsb'_signExtend _ (by decide) (by decide),
      BitVec.extractLsb'_append_eq_of_le (by decide)]
    exact BitVec.extractLsb'_append_eq_right
  simp only [encode, h12, h11, h5, h1, Word.rs2, Word.rs1, Word.funct3, Word.opcode]
  iterate 7 rw [BitVec.extractLsb'_append_extractLsb'_eq_extractLsb' (by decide)]
  exact BitVec.extractLsb'_eq_self

theorem encode_immU (w : Word) :
    encode .u w.opcode ⟨w.rd, w.rs1, w.rs2, w.funct3, w.funct7, w.immU⟩ = w := by
  have h12 : w.immU.extractLsb' 12 20 = w.extractLsb' 12 20 := by
    rw [Word.immU, BitVec.extractLsb'_append_eq_of_le (by decide)]
    exact BitVec.extractLsb'_eq_self
  simp only [encode, h12, Word.rd, Word.opcode]
  iterate 2 rw [BitVec.extractLsb'_append_extractLsb'_eq_extractLsb' (by decide)]
  exact BitVec.extractLsb'_eq_self

theorem encode_immJ (w : Word) :
    encode .j w.opcode ⟨w.rd, w.rs1, w.rs2, w.funct3, w.funct7, w.immJ⟩ = w := by
  have h20 : w.immJ.extractLsb' 20 1 = w.extractLsb' 31 1 := by
    rw [Word.immJ, extractLsb'_signExtend _ (by decide) (by decide)]
    iterate 4 rw [BitVec.extractLsb'_append_eq_of_le (by decide)]
    exact BitVec.extractLsb'_eq_self
  have h12 : w.immJ.extractLsb' 12 8 = w.extractLsb' 12 8 := by
    rw [Word.immJ, extractLsb'_signExtend _ (by decide) (by decide)]
    iterate 3 rw [BitVec.extractLsb'_append_eq_of_le (by decide)]
    exact BitVec.extractLsb'_append_eq_right
  have h11 : w.immJ.extractLsb' 11 1 = w.extractLsb' 20 1 := by
    rw [Word.immJ, extractLsb'_signExtend _ (by decide) (by decide)]
    iterate 2 rw [BitVec.extractLsb'_append_eq_of_le (by decide)]
    exact BitVec.extractLsb'_append_eq_right
  have h1 : w.immJ.extractLsb' 1 10 = w.extractLsb' 21 10 := by
    rw [Word.immJ, extractLsb'_signExtend _ (by decide) (by decide),
      BitVec.extractLsb'_append_eq_of_le (by decide)]
    exact BitVec.extractLsb'_append_eq_right
  simp only [encode, h20, h12, h11, h1, Word.rd, Word.opcode]
  iterate 5 rw [BitVec.extractLsb'_append_extractLsb'_eq_extractLsb' (by decide)]
  exact BitVec.extractLsb'_eq_self

/-- The slices of a word, put back where they were, are the word. -/
theorem encode_fields (l : Layout) (w : Word) :
    l.encode w.opcode ⟨w.rd, w.rs1, w.rs2, w.funct3, w.funct7, l.immediate w⟩ = w := by
  cases l with
  | r => exact w.fields_append
  | i => exact encode_immI w
  | s => exact encode_immS w
  | b => exact encode_immB w
  | u => exact encode_immU w
  | j => exact encode_immJ w

/-- Whatever the word, its immediate is in the range of the layout and aligned. -/
theorem fits_immediate (l : Layout) (w : Word) : l.Fits (l.immediate w) := by
  cases l with
  | r => rfl
  | i =>
    obtain ⟨hlo, hhi⟩ := toInt_signExtend_bounds (by decide) (w.extractLsb' 20 12)
    exact ⟨hlo, Int.le_of_lt_add_one hhi⟩
  | s =>
    obtain ⟨hlo, hhi⟩ :=
      toInt_signExtend_bounds (by decide) (w.extractLsb' 25 7 ++ w.extractLsb' 7 5)
    exact ⟨hlo, Int.le_of_lt_add_one hhi⟩
  | b =>
    have heven : 2 ∣ w.immB.toInt := even_toInt_signExtend (by decide) _
    obtain ⟨hlo, hhi⟩ : -4096 ≤ w.immB.toInt ∧ w.immB.toInt < 4096 :=
      toInt_signExtend_bounds (by decide) _
    refine ⟨hlo, ?_, heven⟩
    change w.immB.toInt ≤ 4094
    omega
  | u =>
    exact (extractLsb'_zero_eq_zero_iff (k := 12) (by decide)).1
      BitVec.extractLsb'_append_eq_right
  | j =>
    have heven : 2 ∣ w.immJ.toInt := even_toInt_signExtend (by decide) _
    obtain ⟨hlo, hhi⟩ : -2 ^ 20 ≤ w.immJ.toInt ∧ w.immJ.toInt < 2 ^ 20 :=
      toInt_signExtend_bounds (by decide) _
    refine ⟨hlo, ?_, heven⟩
    change w.immJ.toInt ≤ 2 ^ 20 - 2
    omega

end Layout

namespace Word

theorem operands_decode (w : Word) :
    w.decode.operands = ⟨w.rd, w.rs1, w.rs2, w.funct3, w.funct7, w.immediate⟩ := by
  simp only [Instruction.operands, decode, BitVec.ofNat_toNat, BitVec.setWidth_eq]

theorem encode_operands_decode {w : Word} {o : Opcode} (h : w.op? = some o) :
    o.encode w.decode.operands = w := by
  have hcode : w.opcode = o.code := Opcode.ofCode?_eq_some_iff.1 h
  rw [operands_decode, Opcode.encode, immediate_of_op? h, ← hcode, o.format_eq_layout,
    Layout.encode_fields]

/-- **Decoding inverts encoding, and encoding decoding.**  Operands that fit the layout of an
opcode come back out of the word that they are laid out in, the immediate by both functions that
read it.  A word with an opcode is laid out again, bit for bit, from what it decodes to, and its
immediate fits; a word without one has the immediate zero. -/
theorem decode_encode_roundTrip :
    (∀ (o : Opcode) (x : Operands), o.format.Fits x.imm →
      (o.encode x).decode.op = some o ∧ (o.encode x).decode.opcode = o.code ∧
        o.format.Carries x (o.encode x).decode ∧ (o.encode x).immediate = x.imm) ∧
    (∀ (w : Word) (o : Opcode), w.op? = some o →
      o.encode w.decode.operands = w ∧ o.format.Fits w.decode.imm) ∧
    (∀ w : Word, w.op? = none → w.decode.imm = 0 ∧ w.immediate = 0) := by
  refine ⟨?_, ?_, ?_⟩
  · intro o x h
    have himm : (o.encode x).immediate = x.imm := Opcode.immediate_encode h
    exact ⟨o.op?_encode x, o.format.opcode_encode o.code x, o.format.carries_encode o.code himm,
      himm⟩
  · intro w o h
    refine ⟨encode_operands_decode h, ?_⟩
    rw [decode, immediate_of_op? h, ← o.format_eq_layout]
    exact o.format.fits_immediate w
  · intro w h
    exact ⟨immediate_of_op?_eq_none h, immediate_of_op?_eq_none h⟩

/-- A branch four bytes back, its word, and a fence, whose opcode is not recognized. -/
theorem decode_encode_roundTrip_branch :
    (Layout.b.Fits (-4) ∧ (Opcode.branch.encode ⟨0, 1, 2, 1, 0, -4⟩).decode.imm = -4) ∧
    (op? 0xfe209ee3 = some .branch ∧
      Opcode.branch.encode (decode 0xfe209ee3).operands = 0xfe209ee3) ∧
    (op? 0x0000000f = none ∧ (decode 0x0000000f).imm = 0) := by
  obtain ⟨hdecode, hencode, hnone⟩ := decode_encode_roundTrip
  have hfits : Layout.b.Fits (-4) := by decide
  have hbranch : op? 0xfe209ee3 = some .branch := by decide
  have hfence : op? 0x0000000f = none := by decide
  exact ⟨⟨hfits, (hdecode .branch ⟨0, 1, 2, 1, 0, -4⟩ hfits).2.2.1.1⟩,
    ⟨hbranch, (hencode _ _ hbranch).1⟩, ⟨hfence, (hnone _ hfence).1⟩⟩

end Word
end Hart
