import Hart.Proofs.Execution
import Hart.Proofs.Immediate
import Hart.Proofs.Invariant

/-!
# What an evaluation finds out

`Datapath.evaluate` works with control signals, selected operands and lanes.  This file says what
comes out of it in terms of the word and the committed values alone.

* `Datapath.evaluate_eq_ok_iff_value` — an evaluation is a total function of the committed values,
  and fails only for a register that the word reads.
* `Datapath.toNat_alu_out`, `Datapath.holds_iff` — the answers of the two units.
* `Datapath.writeBack_evaluateWith` — the value for the destination register is the manual's.
  Set-less-than takes a way of its own, and `Operation.signals` is that way.
-/

set_option autoImplicit false

namespace Hart

open Lane

/-! ## Control signals

The signals of a word depend on its opcode, its minor opcode and one more bit.  The manual's tables
are about the same three things. -/

namespace Word

/-- The registers that the signals ask for are those that the word reads. -/
theorem forall_sources_lt_iff {w : Word} {o : Opcode} (h : w.op? = some o) (n : Nat) :
    (∀ i ∈ Semantics.sources o w, i < n) ↔
      (w.control.readsRs1 = true → Semantics.rs1 w < n) ∧
        (w.control.readsRs2 = true → Semantics.rs2 w < n) := by
  rw [control_of_op? h]
  cases o <;>
    simp [Control.ofOpcode, Control.readsRs1, Control.readsRs2, Semantics.sources]

theorem ofFunct3_funct3_eq_comparison (w : Word) :
    Comparison.ofFunct3 w.funct3 = Semantics.comparison w := by
  rw [Semantics.comparison, ← toNat_funct3]
  generalize w.funct3 = c
  revert c
  decide

end Word

/-- How an operation is carried out.  Set-less-than is an addition, whose result is dropped, and a
comparison; every other operation goes with the comparison that is the default. -/
def Operation.signals : Operation → Operation × Comparison
  | .slt => (.add, .lessThan)
  | .sltu => (.add, .lessThanU)
  | o => (o, .equal)

theorem Control.ofFamily_eq_signals (twoRegisters : Bool) (w : Word) :
    ofFamily twoRegisters w.isAlternate (.ofFunct3 w.funct3) =
      (Semantics.operation twoRegisters w).signals := by
  rw [Semantics.operation, ← Word.toNat_funct3]
  simp only [← Word.isAlternate_iff]
  generalize w.funct3 = c
  generalize w.isAlternate = alternate
  revert c alternate twoRegisters
  decide

namespace Datapath

/-! ## Reading the sources -/

/-- The value of a register that is not read does not matter. -/
theorem evaluateWith_congr (d : Datapath) {w : Word} {a a' b b' : Lane} (pc : Lane)
    (ha : w.control.readsRs1 = true → a = a') (hb : w.control.readsRs2 = true → b = b') :
    d.evaluateWith w pc a b = d.evaluateWith w pc a' b' := by
  have hA : w.control.sourceA.select a pc = w.control.sourceA.select a' pc := by
    cases hs : w.control.sourceA with
    | reg1 => exact ha (by rw [Control.readsRs1, hs]; rfl)
    | pc => rfl
    | zero => rfl
  have hB : w.control.sourceB.select b w.decode.imm = w.control.sourceB.select b' w.decode.imm := by
    cases hs : w.control.sourceB with
    | reg2 => exact hb (by rw [Control.readsRs2, hs]; rfl)
    | imm => rfl
  have hStore : (if w.control.memWrite then some b else none) =
      if w.control.memWrite then some b' else none := by
    by_cases hs : w.control.memWrite = true
    · rw [hb (by rw [Control.readsRs2, hs, Bool.or_true])]
    · rw [if_neg hs, if_neg hs]
  simp only [evaluateWith, hA, hB, hStore]

theorem evaluate_eq_ok_iff_value {d : Datapath} {w : Word} {pc : Lane} {r : RegisterFile}
    {e : Evaluation} :
    d.evaluate w pc r = .ok e ↔
      ((w.control.readsRs1 = true → Semantics.rs1 w < r.size) ∧
        (w.control.readsRs2 = true → Semantics.rs2 w < r.size)) ∧
      e = d.evaluateWith w pc (r.value (Semantics.rs1 w)) (r.value (Semantics.rs2 w)) := by
  have hport : ∀ (reads : Bool) (index : Nat) (v : Lane),
      (if reads then r.read index else .ok 0) = .ok v ↔
        (reads = true → index < r.size) ∧ v = if reads then r.value index else 0 := by
    intro reads index v
    cases reads with
    | false =>
      simp only [Bool.false_eq_true, if_false, false_imp_iff, true_and, Except.ok.injEq]
      exact eq_comm
    | true => simp only [if_true, true_imp_iff, RegisterFile.read_eq_ok_iff]
  have h1 : w.decode.rs1 = Semantics.rs1 w := w.toNat_rs1
  have h2 : w.decode.rs2 = Semantics.rs2 w := w.toNat_rs2
  simp only [evaluate_eq_ok_iff, readSources_eq_ok_iff, hport, h1, h2]
  constructor
  · rintro ⟨a, b, ⟨⟨hlt1, rfl⟩, hlt2, rfl⟩, rfl⟩
    exact ⟨⟨hlt1, hlt2⟩, d.evaluateWith_congr pc (fun h ↦ if_pos h) fun h ↦ if_pos h⟩
  · rintro ⟨⟨hlt1, hlt2⟩, rfl⟩
    exact ⟨_, _, ⟨⟨hlt1, rfl⟩, hlt2, rfl⟩,
      d.evaluateWith_congr pc (fun h ↦ (if_pos h).symm) fun h ↦ (if_pos h).symm⟩

/-- An evaluation fails for the first source register that is beyond the file. -/
theorem evaluate_eq_error_iff {d : Datapath} {w : Word} {pc : Lane} {r : RegisterFile}
    {fault : Fault} :
    d.evaluate w pc r = .error fault ↔
      (w.control.readsRs1 = true ∧ r.size ≤ w.decode.rs1 ∧
        fault = .registerOutOfRange w.decode.rs1 r.size) ∨
      ((w.control.readsRs1 = true → w.decode.rs1 < r.size) ∧ w.control.readsRs2 = true ∧
        r.size ≤ w.decode.rs2 ∧ fault = .registerOutOfRange w.decode.rs2 r.size) := by
  rw [evaluate, readSources, r.read_eq, r.read_eq]
  by_cases hlt1 : w.decode.rs1 < r.size <;> by_cases hlt2 : w.decode.rs2 < r.size <;>
    cases w.control.readsRs1 <;> cases w.control.readsRs2 <;>
    simp [hlt1, hlt2, Nat.not_le.2, Nat.not_lt.1, bind, Except.bind, pure, Except.pure, eq_comm]

/-! ## The two units -/

theorem toNat_alu_out (d : Datapath) (w : Word) (pc a b : Lane) :
    (d.evaluateWith w pc a b).alu.out.toNat =
      w.control.operation.apply d.width.bits
        (unsigned d.width.bits (w.control.sourceA.select a pc))
        (unsigned d.width.bits (w.control.sourceB.select b w.immediate)) := by
  have hcut : (d.evaluateWith w pc a b).alu =
      d.alu.execute w.control.operation (w.control.sourceA.select a pc)
        (w.control.sourceB.select b w.immediate) := d.alu.execute_and_mask _ _ _
  rw [hcut, Alu.toNat_execute_out]
  rfl

theorem holds_iff (d : Datapath) (w : Word) (pc a b : Lane) :
    (d.evaluateWith w pc a b).holds = true ↔
      w.control.comparison.Holds d.width.bits
        (unsigned d.width.bits (w.control.sourceA.select a pc))
        (unsigned d.width.bits (w.control.sourceB.select b w.immediate)) := by
  have hcut : (d.evaluateWith w pc a b).holds =
      d.comparator.compare w.control.comparison (w.control.sourceA.select a pc)
        (w.control.sourceB.select b w.immediate) := by
    rw [← d.comparator.compare_and_mask, d.mask_comparator]
    rfl
  rw [hcut, Comparator.compare_eq_true_iff, d.comparator_eq]

theorem unsigned_select_imm (width : Width) (b : Lane) (imm : BitVec 32) :
    unsigned width.bits (SourceB.imm.select b imm) = wrap width.bits imm.toInt := by
  rw [unsigned_eq_wrap_toInt width.bits_le, SourceB.select,
    BitVec.toInt_signExtend_of_le (by decide)]

/-- Every sum that the machine forms is with an immediate. -/
theorem apply_add_select_imm (width : Width) (n : Nat) (b : Lane) (imm : BitVec 32) :
    Operation.add.apply width.bits n (unsigned width.bits (SourceB.imm.select b imm)) =
      wrap width.bits (n + imm.toInt) := by
  rw [unsigned_select_imm, Operation.apply, wrap_add_wrap]

/-! ## The result -/

/-- The result of a word whose signals are those of an operation. -/
theorem toNat_result_of_signals (d : Datapath) {w : Word} {o : Operation} (pc a b : Lane)
    (hsignals : (w.control.operation, w.control.comparison) = o.signals)
    (hbranch : w.control.branch = false) :
    (d.evaluateWith w pc a b).result.toNat =
      o.apply d.width.bits (unsigned d.width.bits (w.control.sourceA.select a pc))
        (unsigned d.width.bits (w.control.sourceB.select b w.immediate)) := by
  have hresult : (d.evaluateWith w pc a b).result =
      if !w.control.branch && w.control.comparison != .equal then
        .ofBool (d.evaluateWith w pc a b).holds
      else (d.evaluateWith w pc a b).alu.out := rfl
  have hout := d.toNat_alu_out w pc a b
  have hholds := d.holds_iff w pc a b
  -- Only the two comparing operations take their result from the comparator.
  cases o with
  | slt | sltu =>
    obtain ⟨_, hcomparison⟩ := Prod.mk.inj hsignals
    rw [hcomparison] at hholds
    rw [hresult, hbranch, hcomparison, if_pos (by decide), toNat_ofBool]
    simp only [hholds]
    rfl
  | _ =>
    obtain ⟨hoperation, hcomparison⟩ := Prod.mk.inj hsignals
    rw [hresult, hbranch, hcomparison, if_neg (by decide), hout, hoperation]

theorem result_lt (d : Datapath) (w : Word) (pc a b : Lane) :
    (d.evaluateWith w pc a b).result.toNat < 2 ^ d.width.bits := by
  have hout : (d.evaluateWith w pc a b).alu.out.toNat < 2 ^ d.width.bits :=
    d.alu.toNat_execute_out_lt _ _ _
  have hbool : ∀ holds : Bool, (ofBool holds).toNat < 2 ^ d.width.bits := by
    intro holds
    rw [toNat_ofBool]
    have hone : 1 < 2 ^ d.width.bits := Nat.one_lt_two_pow (Nat.ne_of_gt d.width.bits_pos)
    split <;> omega
  simp only [evaluateWith] at hout ⊢
  split
  · exact hbool _
  · exact hout

/-- The destination register and the result, for the words that have both. -/
theorem writeBack_eq (d : Datapath) (w : Word) (pc a b : Lane) :
    (d.evaluateWith w pc a b).writeBack =
      if w.control.regWrite && w.control.writeSource = .unit && !w.op?.any Opcode.isJump then
        some (Semantics.rd w, (d.evaluateWith w pc a b).result)
      else none := by
  rw [← w.toNat_rd]
  rfl

theorem writeBack_lt {d : Datapath} {w : Word} {pc a b v : Lane} {index : Nat}
    (h : (d.evaluateWith w pc a b).writeBack = some (index, v)) : v.toNat < 2 ^ d.width.bits := by
  rw [writeBack_eq] at h
  split at h
  · obtain ⟨_, rfl⟩ := Prod.mk.inj (Option.some.inj h)
    exact d.result_lt w pc a b
  · cases h

/-- **The value for the destination register is the manual's.** -/
theorem writeBack_evaluateWith (d : Datapath) {w : Word} {o : Opcode} (h : w.op? = some o)
    (pc : Lane) {a b : Lane} {x : Nat → Nat}
    (ha : unsigned d.width.bits a = x (Semantics.rs1 w))
    (hb : unsigned d.width.bits b = x (Semantics.rs2 w)) :
    (d.evaluateWith w pc a b).writeBack.map (fun back ↦ (back.1, back.2.toNat)) =
      (Semantics.value? d.width.bits o w pc.toNat x).map fun n ↦ (Semantics.rd w, n) := by
  have hc := Word.control_of_op? h
  have himm : ∀ b' : Lane, unsigned d.width.bits (SourceB.imm.select b' w.immediate) =
      wrap d.width.bits (Semantics.immediate o.layout w) := by
    intro b'
    rw [unsigned_select_imm, Word.toInt_immediate h]
  have hresult : ∀ {p : Operation},
      (w.control.operation, w.control.comparison) = p.signals → w.control.branch = false → _ :=
    d.toNat_result_of_signals pc a b
  have hsome : ∀ n, (d.evaluateWith w pc a b).result.toNat = n →
      (some (Semantics.rd w, (d.evaluateWith w pc a b).result)).map
        (fun back ↦ (back.1, back.2.toNat)) = some (Semantics.rd w, n) := by
    rintro _ rfl
    rfl
  rw [writeBack_eq, h]
  rw [hc] at hresult ⊢
  cases o with
  | op =>
    refine hsome _ ?_
    rw [hresult (Control.ofFamily_eq_signals true w) rfl, ← ha, ← hb]
    rfl
  | opImm =>
    refine hsome _ ?_
    rw [hresult (Control.ofFamily_eq_signals false w) rfl, ← ha]
    exact congrArg (Operation.apply _ _ _) (himm b)
  | lui =>
    refine hsome _ ?_
    rw [hresult (p := .add) rfl rfl]
    refine (apply_add_select_imm d.width (unsigned d.width.bits 0) b w.immediate).trans ?_
    rw [unsigned_zero, Word.toInt_immediate h]
    exact congrArg (wrap d.width.bits) (Int.zero_add _)
  | auipc =>
    refine hsome _ ?_
    rw [hresult (p := .add) rfl rfl]
    refine (apply_add_select_imm d.width (unsigned d.width.bits pc) b w.immediate).trans ?_
    rw [unsigned_eq_wrap, wrap_wrap_add, Word.toInt_immediate h]
    rfl
  | load | store | branch | jalr | jal => rfl

end Datapath
end Hart
