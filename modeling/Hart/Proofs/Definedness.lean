import Hart.Checked
import Hart.Proofs.Invariant
import Hart.Proofs.SetLessThan
import Hart.Proofs.SignExtension

/-!
# Decoding and executing never trap

In checked arithmetic the machine computes what it computes without: no shift is too far, no
difference is below zero, no sum is too large, and no index is beyond its list.

There is one lemma for every function of `Checked`, from the operations up, and each says that the
function has the value of its unchecked counterpart.  The lemmas of the operations have the
conditions as hypotheses, and they are met in two ways.  Where words are cut and immediates
assembled, the numbers are written in the program.  Where a unit works at its width, the width is
between one and 64, which `Alu.Keeps.toNat_eq` and its like have from the constructors; no other
property of the width matters.  `signExtend_eq` says what happens at the widths that do not qualify.

A machine may still report a fault, which `faulting` carries over.  `never_traps` is all of it.
-/

set_option autoImplicit false

namespace Hart

/-! ## The widths that are kept -/

theorem Width.toNat_ofNat_bits (w : Width) : (BitVec.ofNat 32 w.bits).toNat = w.bits := by
  cases w <;> rfl

theorem Alu.Keeps.toNat_eq {alu : Alu} {bits : BitVec 32} (h : alu.Keeps bits) :
    bits.toNat = alu.width.bits := by
  cases h with
  | ofBits h => exact Alu.ofBits_eq_ok_iff.1 h
  | ofConfig h => rw [Alu.ofBits_eq_ok_iff.1 h, Width.toNat_ofNat_bits]
  | base => rfl

theorem Comparator.Keeps.toNat_eq {comparator : Comparator} {bits : BitVec 32}
    (h : comparator.Keeps bits) : bits.toNat = comparator.width.bits := by
  cases h with
  | ofBits h => exact Comparator.ofBits_eq_ok_iff.1 h
  | base => rfl

theorem Datapath.Keeps.toNat_eq {d : Datapath} {bits : BitVec 32} (h : d.Keeps bits) :
    bits.toNat = d.width.bits := by
  cases h with
  | ofConfig h =>
    obtain ⟨w, hw, rfl⟩ := Datapath.ofConfig_eq_ok_iff.1 h
    rw [(Config.validate_eq_ok_iff.1 hw).1, Width.toNat_ofNat_bits]
    rfl
  | base => rfl

namespace Checked

/-! ## Operations -/

section Operations

variable {m n : Nat} {α β : Type}

@[simp]
theorem ok_bind (x : α) (f : α → Checked β) : (Except.ok x >>= f : Checked β) = f x := rfl

theorem shiftLeft_eq_ok (x : BitVec n) {amount : BitVec m} (h : amount.toNat < n) :
    shiftLeft x amount = .ok (x <<< amount.toNat) :=
  if_pos h

theorem shiftRight_eq_ok (x : BitVec n) {amount : BitVec m} (h : amount.toNat < n) :
    shiftRight x amount = .ok (x >>> amount.toNat) :=
  if_pos h

theorem shiftRightSigned_eq_ok (x : BitVec n) {amount : BitVec m} (h : amount.toNat < n) :
    shiftRightSigned x amount = .ok (x.sshiftRight amount.toNat) :=
  if_pos h

theorem subtract_eq_ok {x y : BitVec n} (h : y.toNat ≤ x.toNat) : subtract x y = .ok (x - y) := by
  rw [subtract, if_neg]
  simpa [BitVec.usubOverflow] using h

theorem subtract_eq_error {x y : BitVec n} (h : x.toNat < y.toNat) :
    subtract x y = .error (.trap .underflow) := by
  rw [subtract, if_pos]
  simpa [BitVec.usubOverflow] using h

theorem add_eq_ok {x y : BitVec n} (h : x.toNat + y.toNat < 2 ^ n) : add x y = .ok (x + y) := by
  rw [add, if_neg]
  simpa [BitVec.uaddOverflow] using h

theorem get_eq_ok {xs : List α} {index : Nat} (h : index < xs.length) :
    get xs index = .ok xs[index] := by
  rw [get, List.getElem?_eq_getElem h]

theorem set_eq_ok {xs : List α} {index : Nat} (h : index < xs.length) (x : α) :
    set xs index x = .ok (xs.set index x) :=
  if_pos h

/-- One less than a power of two is a number of ones. -/
theorem subtract_one_shiftLeft {k : Nat} (h : k < n) :
    subtract (1#n <<< k) 1#n = .ok (BitVec.ofNat n (2 ^ k - 1)) := by
  have hlt : 2 ^ k < 2 ^ n := Nat.pow_lt_pow_right (by decide) h
  have hpos := Nat.two_pow_pos k
  have hone : (1#n).toNat = 1 := by
    rw [BitVec.toNat_ofNat, Nat.mod_eq_of_lt (by omega)]
  have hbit : (1#n <<< k).toNat = 2 ^ k := by
    rw [BitVec.toNat_shiftLeft, hone, Nat.one_shiftLeft, Nat.mod_eq_of_lt hlt]
  have hle : (1#n).toNat ≤ (1#n <<< k).toNat := by
    rw [hone, hbit]
    exact hpos
  rw [subtract_eq_ok hle, Except.ok.injEq, ← BitVec.toNat_inj, BitVec.toNat_sub_of_le hle, hone,
    hbit, BitVec.toNat_ofNat, Nat.mod_eq_of_lt (by omega)]

end Operations

/-! ## Lanes -/

/-- A mask is defined for every width. -/
@[simp]
theorem mask_eq (width : BitVec 32) : mask width = .ok (Lane.mask width.toNat) := by
  by_cases h : 64 ≤ width.toNat
  · rw [mask, if_pos h, Lane.mask, Nat.sub_eq_zero_of_le h, BitVec.ushiftRight_zero]
    rfl
  · have hlt : width.toNat < 64 := Nat.not_le.1 h
    rw [mask, if_neg h, shiftLeft_eq_ok _ hlt, ok_bind, subtract_one_shiftLeft hlt,
      Except.ok.injEq, ← BitVec.toNat_inj, Lane.toNat_mask (Nat.le_of_lt hlt), BitVec.toNat_ofNat]
    have hpow : 2 ^ width.toNat < 2 ^ 64 := Nat.pow_lt_pow_right (by decide) hlt
    exact Nat.mod_eq_of_lt (by omega)

/-- Sign extension is defined for the numbers of bits from one to 64.  Beyond, no number of bits is
left; and to push no bit at all to the top of the lane is to push all of them out. -/
theorem signExtend_eq (v : Lane) (bits : BitVec 32) :
    signExtend v bits =
      if 64 < bits.toNat then .error (.trap .underflow)
      else if bits.toNat = 0 then .error (.trap .shift)
      else .ok (Lane.signExtend v bits.toNat) := by
  by_cases hgt : 64 < bits.toNat
  · rw [if_pos hgt, signExtend, subtract_eq_error (x := 64#32) hgt]
    rfl
  have hle : bits.toNat ≤ (64#32).toNat := Nat.not_lt.1 hgt
  have hamount : (64#32 - bits).toNat = 64 - bits.toNat := BitVec.toNat_sub_of_le hle
  rw [if_neg hgt, signExtend, subtract_eq_ok hle, ok_bind]
  by_cases hzero : bits.toNat = 0
  · have hshift : shiftLeft v (64#32 - bits) = .error (.trap .shift) := by
      refine if_neg ?_
      rw [hamount, hzero]
      decide
    rw [if_pos hzero, hshift]
    rfl
  · have hlt : (64#32 - bits).toNat < 64 := by omega
    rw [if_neg hzero, shiftLeft_eq_ok v hlt, ok_bind, shiftRightSigned_eq_ok _ hlt, hamount,
      Lane.signExtend]

theorem signExtend_eq_ok (v : Lane) {bits : BitVec 32} (hpos : 0 < bits.toNat)
    (hle : bits.toNat ≤ 64) : signExtend v bits = .ok (Lane.signExtend v bits.toNat) := by
  rw [signExtend_eq, if_neg (Nat.not_lt.2 hle), if_neg (Nat.ne_of_gt hpos)]

/-! ## Fields -/

/-- Shifting and masking takes a slice of the bits. -/
theorem ushiftRight_and_ones (w : Word) (low : Nat) {n : Nat} (h : n ≤ 32) :
    w >>> low &&& BitVec.ofNat 32 (2 ^ n - 1) = (w.extractLsb' low n).setWidth 32 := by
  have hpow : 2 ^ n ≤ 2 ^ 32 := Nat.pow_le_pow_right (by decide) h
  have hpos := Nat.two_pow_pos n
  have hones : (2 ^ n - 1) % 2 ^ 32 = 2 ^ n - 1 := Nat.mod_eq_of_lt (by omega)
  rw [← BitVec.toNat_inj, BitVec.toNat_and, BitVec.toNat_ushiftRight, BitVec.toNat_ofNat, hones,
    Nat.and_two_pow_sub_one_eq_mod, BitVec.toNat_setWidth_of_le h, BitVec.extractLsb'_toNat]

theorem slice_eq_ok (w : Word) (low : BitVec 32) (n : Nat) (hlow : low.toNat < 32) (hn : n ≤ 32) :
    slice w low (BitVec.ofNat 32 (2 ^ n - 1)) = .ok ((w.extractLsb' low.toNat n).setWidth 32) := by
  rw [slice, shiftRight_eq_ok w hlow, ok_bind, ushiftRight_and_ones w _ hn]
  rfl

@[simp]
theorem rd_eq (w : Word) : rd w = .ok (w.rd.setWidth 32) :=
  slice_eq_ok w 7 5 (by decide) (by decide)

@[simp]
theorem funct3_eq (w : Word) : funct3 w = .ok (w.funct3.setWidth 32) :=
  slice_eq_ok w 12 3 (by decide) (by decide)

@[simp]
theorem rs1_eq (w : Word) : rs1 w = .ok (w.rs1.setWidth 32) :=
  slice_eq_ok w 15 5 (by decide) (by decide)

@[simp]
theorem rs2_eq (w : Word) : rs2 w = .ok (w.rs2.setWidth 32) :=
  slice_eq_ok w 20 5 (by decide) (by decide)

@[simp]
theorem funct7_eq (w : Word) : funct7 w = .ok (w.funct7.setWidth 32) :=
  slice_eq_ok w 25 7 (by decide) (by decide)

@[simp]
theorem opcode_eq (w : Word) : opcode w = w.opcode.setWidth 32 := by
  have h := ushiftRight_and_ones w 0 (n := 7) (by decide)
  rw [BitVec.ushiftRight_zero] at h
  exact h

@[simp]
theorem op?_eq (w : Word) : op? w = w.op? := by
  have hnat : (opcode w).toNat = w.opcode.toNat := by
    rw [opcode_eq, BitVec.toNat_setWidth_of_le (by decide)]
  rw [op?, hnat, Opcode.ofNat?, if_pos w.opcode.isLt, BitVec.ofNat_toNat, BitVec.setWidth_eq,
    Word.op?]

/-- A field is defined where it begins within the word and has fewer bits than the word. -/
theorem field_eq_ok (w : Word) {high low : BitVec 32} (hlow : low.toNat < 32)
    (hle : low.toNat ≤ high.toNat) (hproper : high.toNat < low.toNat + 31) :
    field w high low =
      .ok ((w.extractLsb' low.toNat (high.toNat + 1 - low.toNat)).setWidth 32) := by
  have hdistance : (high - low).toNat = high.toNat - low.toNat := BitVec.toNat_sub_of_le hle
  have hsum : (high - low).toNat + (1#32).toNat < 2 ^ 32 := by
    rw [hdistance]
    show _ + 1 < 2 ^ 32
    omega
  have hcount : (high - low + 1#32).toNat = high.toNat + 1 - low.toNat := by
    rw [BitVec.toNat_add, Nat.mod_eq_of_lt hsum, hdistance]
    show _ + 1 = _
    omega
  have hlt : (high - low + 1#32).toNat < 32 := by omega
  rw [field, shiftRight_eq_ok w hlow, ok_bind, subtract_eq_ok hle, ok_bind, add_eq_ok hsum,
    ok_bind, shiftLeft_eq_ok _ hlt, ok_bind, subtract_one_shiftLeft hlt, ok_bind,
    ushiftRight_and_ones w _ (Nat.le_of_lt hlt), hcount]
  rfl

theorem fieldAt_eq_ok (w : Word) {high low place : BitVec 32}
    (h : low.toNat < 32 ∧ low.toNat ≤ high.toNat ∧ high.toNat < low.toNat + 31 ∧
      place.toNat < 32) :
    fieldAt w high low place =
      .ok ((w.extractLsb' low.toNat (high.toNat + 1 - low.toNat)).setWidth 32 <<<
        place.toNat) := by
  obtain ⟨hlow, hle, hproper, hplace⟩ := h
  rw [fieldAt, field_eq_ok w hlow hle hproper, ok_bind, shiftLeft_eq_ok _ hplace]

theorem setWidth_setWidth_self {n : Nat} (x : BitVec n) (h : n ≤ 32) :
    (x.setWidth 32).setWidth n = x := by
  rw [BitVec.setWidth_setWidth_of_le x h, BitVec.setWidth_eq]

/-! ## Immediates -/

/-- Bits that stand side by side are moved to their places one by one. -/
theorem setWidth_append_eq_or {m n : Nat} (x : BitVec m) (y : BitVec n) :
    (x ++ y).setWidth 32 = x.setWidth 32 <<< n ||| y.setWidth 32 := by
  ext i hi
  simp only [BitVec.getElem_or, BitVec.getElem_shiftLeft, BitVec.getElem_setWidth,
    BitVec.getLsbD_append]
  by_cases hlow : i < n
  · simp only [hlow, if_true, decide_true, Bool.not_true, Bool.false_and, Bool.false_or]
  · have hhigh : y.getLsbD i = false := BitVec.getLsbD_of_ge y i (Nat.not_lt.1 hlow)
    simp only [hlow, hhigh, if_false, decide_false, Bool.not_false, Bool.true_and, Bool.or_false]

/-- Four pieces and the zero below them, each at the place that the pieces behind it leave. -/
theorem setWidth_append_four {k l m n : Nat} (x : BitVec k) (y : BitVec l) (z : BitVec m)
    (t : BitVec n) :
    (x ++ y ++ z ++ t ++ 0#1).setWidth 32 =
      x.setWidth 32 <<< (l + m + n + 1) ||| y.setWidth 32 <<< (m + n + 1) |||
        z.setWidth 32 <<< (n + 1) ||| t.setWidth 32 <<< 1 := by
  have hzero : (0#1).setWidth 32 = 0#32 := rfl
  simp only [setWidth_append_eq_or, BitVec.shiftLeft_or_distrib, ← BitVec.shiftLeft_add, hzero,
    BitVec.or_zero]

theorem signed_eq_ok (raw : Word) {bits : BitVec 32} (hpos : 0 < bits.toNat)
    (hle : bits.toNat ≤ 32) :
    signed raw bits = .ok ((raw.setWidth bits.toNat).signExtend 32) := by
  rw [signed, signExtend_eq_ok _ hpos (Nat.le_trans hle (by decide)), ok_bind,
    ← Lane.setWidth_signExtend_setWidth raw hpos hle]
  rfl

/-- An immediate that is assembled from its bits is extended from the top one. -/
theorem signed_setWidth {n : Nat} (x : BitVec n) {bits : BitVec 32} (hbits : bits.toNat = n)
    (hpos : 0 < n) (hle : n ≤ 32) : signed (x.setWidth 32) bits = .ok (x.signExtend 32) := by
  subst hbits
  rw [signed_eq_ok _ hpos hle, setWidth_setWidth_self x hle]

@[simp]
theorem immI_eq (w : Word) : immI w = .ok w.immI := by
  rw [immI, shiftRightSigned_eq_ok w (by decide), Except.ok.injEq, Word.immI]
  show w.sshiftRight 20 = _
  ext i hi
  rw [BitVec.getElem_sshiftRight, BitVec.getElem_signExtend]
  by_cases hlow : i < 12
  · rw [dif_pos (by omega), dif_pos hlow, BitVec.getElem_extractLsb', BitVec.getLsbD_eq_getElem]
  · rw [dif_neg (by omega), dif_neg hlow]
    simp [BitVec.msb_eq_getLsbD_last]

@[simp]
theorem immS_eq (w : Word) : immS w = .ok w.immS := by
  have hhigh : fieldAt w 31 25 5 = .ok ((w.extractLsb' 25 7).setWidth 32 <<< 5) :=
    fieldAt_eq_ok w (by decide)
  have hlow : field w 11 7 = .ok ((w.extractLsb' 7 5).setWidth 32) :=
    field_eq_ok w (by decide) (by decide) (by decide)
  rw [immS, hhigh, ok_bind, hlow, ok_bind, ← setWidth_append_eq_or]
  exact signed_setWidth _ rfl (by decide) (by decide)

@[simp]
theorem immB_eq (w : Word) : immB w = .ok w.immB := by
  have h12 : fieldAt w 31 31 12 = .ok ((w.extractLsb' 31 1).setWidth 32 <<< 12) :=
    fieldAt_eq_ok w (by decide)
  have h11 : fieldAt w 7 7 11 = .ok ((w.extractLsb' 7 1).setWidth 32 <<< 11) :=
    fieldAt_eq_ok w (by decide)
  have hhigh : fieldAt w 30 25 5 = .ok ((w.extractLsb' 25 6).setWidth 32 <<< 5) :=
    fieldAt_eq_ok w (by decide)
  have hlow : fieldAt w 11 8 1 = .ok ((w.extractLsb' 8 4).setWidth 32 <<< 1) :=
    fieldAt_eq_ok w (by decide)
  have hraw := setWidth_append_four (w.extractLsb' 31 1) (w.extractLsb' 7 1) (w.extractLsb' 25 6)
    (w.extractLsb' 8 4)
  simp only [Nat.reduceAdd] at hraw
  rw [immB, h12, ok_bind, h11, ok_bind, hhigh, ok_bind, hlow, ok_bind, ← hraw]
  exact signed_setWidth _ rfl (by decide) (by decide)

@[simp]
theorem immJ_eq (w : Word) : immJ w = .ok w.immJ := by
  have h20 : fieldAt w 31 31 20 = .ok ((w.extractLsb' 31 1).setWidth 32 <<< 20) :=
    fieldAt_eq_ok w (by decide)
  have hhigh : fieldAt w 19 12 12 = .ok ((w.extractLsb' 12 8).setWidth 32 <<< 12) :=
    fieldAt_eq_ok w (by decide)
  have h11 : fieldAt w 20 20 11 = .ok ((w.extractLsb' 20 1).setWidth 32 <<< 11) :=
    fieldAt_eq_ok w (by decide)
  have hlow : fieldAt w 30 21 1 = .ok ((w.extractLsb' 21 10).setWidth 32 <<< 1) :=
    fieldAt_eq_ok w (by decide)
  have hraw := setWidth_append_four (w.extractLsb' 31 1) (w.extractLsb' 12 8) (w.extractLsb' 20 1)
    (w.extractLsb' 21 10)
  simp only [Nat.reduceAdd] at hraw
  rw [immJ, h20, ok_bind, hhigh, ok_bind, h11, ok_bind, hlow, ok_bind, ← hraw]
  exact signed_setWidth _ rfl (by decide) (by decide)

/-- Twelve bits are cleared, and the others are in their place. -/
@[simp]
theorem immU_eq (w : Word) : immU w = w.immU := by
  have hsplit : w.extractLsb' 12 20 ++ w.extractLsb' 0 12 = w :=
    (BitVec.extractLsb'_append_extractLsb'_eq_extractLsb' rfl).trans BitVec.extractLsb'_eq_self
  have hones : 0xFFFFF000#32 = BitVec.allOnes 20 ++ 0#12 := by decide
  calc w &&& 0xFFFFF000#32
      = (w.extractLsb' 12 20 ++ w.extractLsb' 0 12) &&& (BitVec.allOnes 20 ++ 0#12) := by
        rw [hsplit, hones]
    _ = w.extractLsb' 12 20 ++ 0#12 := by
        rw [BitVec.and_append, BitVec.and_allOnes, BitVec.and_zero]

@[simp]
theorem immediate_eq (w : Word) : immediate w = .ok w.immediate := by
  rw [immediate, op?_eq, Word.immediate, Word.immediateReported]
  cases w.op? with
  | none => rfl
  | some o =>
    show layoutImmediate o.layout w = .ok (o.layout.immediate w)
    cases o.layout with
    | r => rfl
    | i => exact immI_eq w
    | s => exact immS_eq w
    | b => exact immB_eq w
    | u => exact congrArg Except.ok (immU_eq w)
    | j => exact immJ_eq w

/-! ## The two decoders -/

@[simp]
theorem decode_eq (w : Word) : decode w = .ok w.decode := by
  have hregister (x : BitVec 5) : (x.setWidth 32).toNat = x.toNat :=
    BitVec.toNat_setWidth_of_le (by decide)
  have hopcode := setWidth_setWidth_self w.opcode (by decide)
  have hfunct3 := setWidth_setWidth_self w.funct3 (by decide)
  have hfunct7 := setWidth_setWidth_self w.funct7 (by decide)
  simp only [decode, rd_eq, rs1_eq, rs2_eq, funct3_eq, funct7_eq, immediate_eq, op?_eq, opcode_eq,
    ok_bind, hregister, hopcode, hfunct3, hfunct7]
  rfl

@[simp]
theorem control_eq (w : Word) : control w = .ok w.control := by
  -- The bit is bit 30 of the word either way, and there are only 128 fields to compare.
  have halternate : ∀ x : BitVec 7,
      (x.setWidth 32 &&& 0x20 != 0) = (x &&& Funct7.alternateBit != 0) := by decide
  rw [control, op?_eq, Word.control, Word.controlReported]
  cases w.op? with
  | none => rfl
  | some o =>
    simp only [funct3_eq, funct7_eq, ok_bind, halternate,
      setWidth_setWidth_self w.funct3 (by decide)]
    rfl

/-! ## The units -/

section Units

variable {bits : BitVec 32}

/-- The amount of a shift is below the width, whatever the second operand. -/
theorem shiftAmount_lt {n : Nat} (hpos : 0 < n) (hle : n ≤ 64) (b : Lane) :
    Alu.shiftAmount n b < n := by
  have hn : (BitVec.ofNat 64 n).toNat = n := by
    rw [BitVec.toNat_ofNat, Nat.mod_eq_of_lt (by omega)]
  have hone : (1#64).toNat ≤ (BitVec.ofNat 64 n).toNat := hn.symm ▸ hpos
  have hones : (BitVec.ofNat 64 n - 1#64).toNat = n - 1 := by
    rw [BitVec.toNat_sub_of_le hone, hn]
    rfl
  have hand : Alu.shiftAmount n b ≤ n - 1 := by
    rw [Alu.shiftAmount, BitVec.toNat_and, ← hones]
    exact Nat.and_le_right
  omega

theorem exists_shiftAmount (hpos : 0 < bits.toNat) (hle : bits.toNat ≤ 64) (b : Lane) :
    ∃ amount, shiftAmount bits b = .ok amount ∧
      amount.toNat = Alu.shiftAmount bits.toNat b ∧ amount.toNat < bits.toNat := by
  have hone : (1#64).toNat ≤ (bits.setWidth 64).toNat := by
    rw [BitVec.toNat_setWidth_of_le (by decide)]
    exact hpos
  have hlt := shiftAmount_lt hpos hle b
  have hamount : ((b &&& (bits.setWidth 64 - 1#64)).setWidth 32).toNat =
      Alu.shiftAmount bits.toNat b := by
    rw [Alu.shiftAmount, BitVec.ofNat_toNat] at hlt ⊢
    rw [BitVec.toNat_setWidth]
    exact Nat.mod_eq_of_lt (Nat.lt_trans hlt (Nat.lt_of_le_of_lt hle (by decide)))
  rw [shiftAmount, subtract_eq_ok hone, ok_bind]
  exact ⟨_, rfl, hamount, hamount ▸ hlt⟩

theorem shift_eq_ok (hpos : 0 < bits.toNat) (hle : bits.toNat ≤ 64) (o : Operation) (a b : Lane) :
    shift bits o a b = .ok (Alu.shift bits.toNat o a b) := by
  obtain ⟨amount, hamount, heq, hbits⟩ := exists_shiftAmount hpos hle b
  have hlt : amount.toNat < 64 := Nat.lt_of_lt_of_le hbits hle
  rw [shift, hamount, ok_bind]
  cases o with
  | sll => simp only [shiftLeft_eq_ok a hlt, heq, Alu.shift]
  | srl => simp only [shiftRight_eq_ok a hlt, heq, Alu.shift]
  | sra =>
    simp only [signExtend_eq_ok a hpos hle, ok_bind, shiftRightSigned_eq_ok _ hlt, mask_eq, heq,
      Alu.shift]
    rfl
  | add | sub | and | or | xor | slt | sltu => rfl

theorem logic_eq_ok (hpos : 0 < bits.toNat) (hle : bits.toNat ≤ 64) (o : Operation) (a b : Lane) :
    logic bits o a b = .ok (Alu.logic bits.toNat o a b) := by
  cases o with
  | slt =>
    simp only [logic, signExtend_eq_ok _ hpos hle, ok_bind]
    rfl
  | add | sub | and | or | xor | sltu | sll | srl | sra => rfl

theorem compute_eq_ok (hpos : 0 < bits.toNat) (hle : bits.toNat ≤ 64) (o : Operation)
    (a b : Lane) : compute bits o a b = .ok (Alu.compute bits.toNat o a b) := by
  cases o with
  | add | sub => rfl
  | and | or | xor | slt | sltu =>
    rw [compute, Alu.compute]
    exact logic_eq_ok hpos hle _ a b
  | sll | srl | sra =>
    rw [compute, Alu.compute]
    exact shift_eq_ok hpos hle _ a b

end Units

theorem execute_eq_ok {bits : BitVec 32} {alu : Alu} (h : bits.toNat = alu.width.bits)
    (o : Operation) (a b : Lane) : execute bits o a b = .ok (alu.execute o a b) := by
  have hpos : 0 < bits.toNat := h ▸ alu.width.bits_pos
  have hle : bits.toNat ≤ 64 := h ▸ alu.width.bits_le
  simp only [execute, mask_eq, ok_bind, compute_eq_ok hpos hle]
  rw [Alu.execute, Alu.mask, ← h]
  rfl

theorem compare_eq_ok {bits : BitVec 32} {comparator : Comparator}
    (h : bits.toNat = comparator.width.bits) (c : Comparison) (a b : Lane) :
    compare bits c a b = .ok (comparator.compare c a b) := by
  have hpos : 0 < bits.toNat := h ▸ comparator.width.bits_pos
  have hle : bits.toNat ≤ 64 := h ▸ comparator.width.bits_le
  simp only [compare, mask_eq, ok_bind, signExtend_eq_ok _ hpos hle]
  rw [Comparator.compare.eq_def, Comparator.mask, ← h]
  cases c <;> rfl

/-! ## The register file -/

theorem faulting_bind {α β : Type} (x : Except Fault α) (f : α → Except Fault β) :
    faulting (x >>= f) = faulting x >>= fun a ↦ faulting (f a) := by
  cases x <;> rfl

/-- A fault is no trap. -/
theorem faulting_ne_trap {α : Type} (x : Except Fault α) (cause : Trap) :
    faulting x ≠ .error (.trap cause) := by
  cases x <;> rintro ⟨⟩

theorem read_eq (r : RegisterFile) (index : Nat) : read r index = faulting (r.read index) := by
  rw [read]
  by_cases h : r.size ≤ index
  · rw [if_pos h, RegisterFile.read_eq_error_iff.2 ⟨h, rfl⟩]
    rfl
  · have hlt : index < r.regs.length := Nat.not_le.1 h
    rw [if_neg h, RegisterFile.read, List.getElem?_eq_getElem hlt, get_eq_ok hlt]
    dsimp only
    split <;> rfl

theorem commit_eq_ok {r : RegisterFile} (h : ∀ index v, r.staged = some (index, v) → index < r.size) :
    commit r = .ok r.commit := by
  rw [commit, RegisterFile.commit]
  cases hstaged : r.staged with
  | none => rfl
  | some write =>
    obtain ⟨index, v⟩ := write
    have hlt : index < r.regs.length := h index v hstaged
    simp only [set_eq_ok hlt, ok_bind]
    split <;> rfl

/-! ## The datapath -/

theorem readSources_eq (c : Control) (x : Instruction) (regs : RegisterFile) :
    readSources c x regs = faulting (Datapath.readSources c x regs) := by
  rw [readSources, Datapath.readSources]
  cases c.readsRs1 <;> cases c.readsRs2 <;>
    simp only [read_eq, if_true, Bool.false_eq_true, if_false, pure_bind, faulting_bind] <;>
    rfl

theorem evaluate_eq {bits : BitVec 32} {d : Datapath} (h : bits.toNat = d.width.bits) (w : Word)
    (pc : Lane) (regs : RegisterFile) :
    evaluate bits w pc regs = faulting (d.evaluate w pc regs) := by
  have halu (o : Operation) (a b : Lane) : execute bits o a b = .ok (d.alu.execute o a b) :=
    execute_eq_ok h o a b
  have hcomparator (c : Comparison) (a b : Lane) :
      compare bits c a b = .ok (d.comparator.compare c a b) :=
    compare_eq_ok (h.trans (congrArg Width.bits d.width_comparator.symm)) c a b
  simp only [evaluate, decode_eq, control_eq, readSources_eq, mask_eq, ok_bind, halu, hcomparator,
    Datapath.evaluate, faulting_bind]
  refine bind_congr fun sources ↦ ?_
  rw [h]
  rfl

theorem retire_eq (e : Evaluation) (regs : RegisterFile) :
    retire e regs = faulting (Datapath.retire e regs) := by
  rw [retire]
  rcases hback : e.writeBack with _ | ⟨index, v⟩
  · rw [Datapath.retire_of_writeBack_eq_none hback]
    rfl
  · rw [Datapath.retire_of_writeBack_eq_some hback]
    dsimp only
    rcases hwrite : regs.write index v with f | staged
    · rfl
    · obtain ⟨hlt, rfl⟩ := RegisterFile.write_eq_ok_iff.1 hwrite
      -- The write compared the index that the commit relies on.
      show commit { regs with staged := some (index, v &&& regs.mask) } = .ok _
      refine commit_eq_ok fun i u hstaged ↦ ?_
      cases hstaged
      exact hlt

/-- **Decoding and executing never trap.**  Both decoders and the immediate have their value for
every word, and the fields and extensions that they are made of wherever they stay within the word.
A mask is defined for every width, and an extension for the widths from one to 64.  The units that
are built have such a width: the amount of a shift is below it, and so no shift is too far, and they
answer every operation and comparison of any operands.  A word is evaluated and an evaluation
retired in any register file, with the result or the fault that they have without checks.  The
register that a commit writes is one of the file, in every file that a caller can come to hold. -/
theorem never_traps :
    (∀ w : Word,
      decode w = .ok w.decode ∧ control w = .ok w.control ∧ immediate w = .ok w.immediate) ∧
    (∀ (w : Word) (high low : BitVec 32), low.toNat < 32 → low.toNat ≤ high.toNat →
      high.toNat < low.toNat + 31 →
      field w high low =
        .ok ((w.extractLsb' low.toNat (high.toNat + 1 - low.toNat)).setWidth 32)) ∧
    (∀ (raw : Word) (bits : BitVec 32), 1 ≤ bits.toNat → bits.toNat ≤ 32 →
      signed raw bits = .ok ((raw.setWidth bits.toNat).signExtend 32)) ∧
    (∀ width : BitVec 32, mask width = .ok (Lane.mask width.toNat)) ∧
    (∀ (v : Lane) (bits : BitVec 32), 1 ≤ bits.toNat → bits.toNat ≤ 64 →
      signExtend v bits = .ok (Lane.signExtend v bits.toNat)) ∧
    (∀ (alu : Alu) (bits : BitVec 32), alu.Keeps bits → ∀ (o : Operation) (a b : Lane),
      (∃ amount, shiftAmount bits b = .ok amount ∧
        amount.toNat < alu.width.bits ∧ amount.toNat < 64) ∧
      shift bits o a b = .ok (Alu.shift alu.width.bits o a b) ∧
      execute bits o a b = .ok (alu.execute o a b)) ∧
    (∀ (comparator : Comparator) (bits : BitVec 32), comparator.Keeps bits →
      ∀ (c : Comparison) (a b : Lane), compare bits c a b = .ok (comparator.compare c a b)) ∧
    (∀ (d : Datapath) (bits : BitVec 32), d.Keeps bits →
      ∀ (w : Word) (pc : Lane) (r : RegisterFile) (cause : Trap),
        evaluate bits w pc r = faulting (d.evaluate w pc r) ∧
        evaluate bits w pc r ≠ .error (.trap cause)) ∧
    (∀ (e : Evaluation) (r : RegisterFile) (cause : Trap),
      retire e r = faulting (Datapath.retire e r) ∧ retire e r ≠ .error (.trap cause)) ∧
    (∀ r : RegisterFile, r.Reachable → commit r = .ok r.commit) := by
  refine ⟨fun w ↦ ⟨decode_eq w, control_eq w, immediate_eq w⟩, fun w _ _ ↦ field_eq_ok w,
    fun raw _ ↦ signed_eq_ok raw, mask_eq, fun v _ ↦ signExtend_eq_ok v, ?_, ?_, ?_, ?_, ?_⟩
  · intro alu bits hkeeps o a b
    have hbits := hkeeps.toNat_eq
    have hpos : 0 < bits.toNat := hbits ▸ alu.width.bits_pos
    have hle : bits.toNat ≤ 64 := hbits ▸ alu.width.bits_le
    obtain ⟨amount, hamount, -, hlt⟩ := exists_shiftAmount hpos hle b
    exact ⟨⟨amount, hamount, hbits ▸ hlt, Nat.lt_of_lt_of_le hlt hle⟩,
      hbits ▸ shift_eq_ok hpos hle o a b, execute_eq_ok hbits o a b⟩
  · exact fun _ _ hkeeps ↦ compare_eq_ok hkeeps.toNat_eq
  · intro d bits hkeeps w pc r cause
    have hevaluate := evaluate_eq hkeeps.toNat_eq w pc r
    exact ⟨hevaluate, hevaluate ▸ faulting_ne_trap _ cause⟩
  · intro e r cause
    have hretire := retire_eq e r
    exact ⟨hretire, hretire ▸ faulting_ne_trap _ cause⟩
  · intro r hr
    exact commit_eq_ok fun index v hstaged ↦ (hr.wellFormed.staged_lt index v hstaged).1

/-- At the full width, the longest shift of the least number leaves nothing but its sign. -/
theorem never_traps_sixty_four :
    Alu.Keeps { width := .w64 } 64 ∧
      execute 64 .sra 0x8000000000000000 0xff = .ok { out := 0xffffffffffffffff, zero := false } ∧
      ∃ r, RegisterFile.ofCount 2 = .ok r ∧ commit r = .ok r := by
  obtain ⟨-, -, -, -, -, hunit, -, -, -, hcommit⟩ := never_traps
  have hkeeps : Alu.Keeps { width := .w64 } 64 := .ofBits rfl
  have hbuild : RegisterFile.ofCount 2 = .ok ⟨[0, 0], .w32, true, false, none⟩ := rfl
  obtain ⟨-, -, hexecute⟩ := hunit _ 64 hkeeps .sra 0x8000000000000000 0xff
  exact ⟨hkeeps, hexecute.trans (by decide), _, hbuild, hcommit _ (.ofCount hbuild)⟩

end Checked
end Hart
