import Hart.Proofs.Evaluation

/-!
# What a word does to the rest of the machine

The caller of the datapath reads off an evaluation whether a branch is taken, where memory is
accessed, what is stored there and where a jump goes.  None of these is a field that the word fills
in by itself: they are derived from signals, from the answers of the two units and from the opcode,
and here they are shown to be what the manual says of the word.

* `Datapath.branchTaken_iff`, `Datapath.memAddr_evaluateWith`, `Datapath.storeData_evaluateWith`,
  `Datapath.toNat_alu_out_of_sum` — one output each, for any values of the sources.
* `Datapath.shows_iff` — the kinds of effect exclude each other, and the opcode tells which it is.
* `Datapath.evaluate_outcomes` — all of it for a reachable register file.
-/

set_option autoImplicit false

namespace Hart

open Lane

/-! ## Kinds of effect -/

/-- The kinds of effect that a word has on the machine. -/
inductive Effect where
  /-- A register gets a value of the unit. -/
  | writeBack
  /-- Memory is read or written. -/
  | memory
  /-- A branch is taken or not. -/
  | branch
  /-- The program counter jumps. -/
  | jump
  /-- There is none. -/
  | nothing
  deriving DecidableEq, Repr

/-- The kind of effect of an opcode, if there is one. -/
def Effect.ofOpcode? : Option Opcode → Effect
  | some .op | some .opImm | some .lui | some .auipc => writeBack
  | some .load | some .store => memory
  | some .branch => branch
  | some .jal | some .jalr => jump
  | none => nothing

/-- Whether an evaluation shows an effect of the kind. -/
def Evaluation.shows (e : Evaluation) : Effect → Bool
  | .writeBack => e.writeBack.isSome
  | .memory => e.memAddr.isSome
  | .branch => e.control.branch
  | .jump => e.isJump
  | .nothing => e.control.isNop

/-! ## One output at a time -/

theorem Word.control_branch_iff {w : Word} : w.control.branch = true ↔ w.op? = some .branch := by
  rcases ho : w.op? with _ | o
  · rw [control_of_op?_eq_none ho]
    decide
  · rw [control_of_op? ho]
    cases o <;> simp [Control.ofOpcode]

theorem Word.isNop_control_iff {w : Word} : w.control.isNop = true ↔ w.op? = none := by
  rcases ho : w.op? with _ | o
  · rw [control_of_op?_eq_none ho]
    decide
  · rw [control_of_op? ho]
    cases o <;> simp [Control.ofOpcode, Control.isNop]

namespace Datapath

/-- A branch is taken if its comparison holds of the values of its sources. -/
theorem branchTaken_iff (d : Datapath) (w : Word) (pc a b : Lane) :
    (d.evaluateWith w pc a b).branchTaken = true ↔ w.op? = some .branch ∧
      (Semantics.comparison w).Holds d.width.bits (unsigned d.width.bits a)
        (unsigned d.width.bits b) := by
  have htaken : (d.evaluateWith w pc a b).branchTaken =
      (w.control.branch && (d.evaluateWith w pc a b).holds) := rfl
  rw [htaken, Bool.and_eq_true, Word.control_branch_iff, holds_iff,
    ← w.ofFunct3_funct3_eq_comparison]
  refine and_congr_right fun ho ↦ ?_
  rw [Word.control_of_op? ho]
  rfl

/-- The sum of a source and the immediate, which is an address or the target of a jump. -/
theorem toNat_alu_out_of_sum (d : Datapath) {w : Word} {o : Opcode} (h : w.op? = some o)
    (pc a b : Lane) (hadd : w.control.operation = .add) (himm : w.control.sourceB = .imm) :
    (d.evaluateWith w pc a b).alu.out.toNat =
      wrap d.width.bits (unsigned d.width.bits (w.control.sourceA.select a pc) +
        Semantics.immediate o.layout w) := by
  rw [toNat_alu_out, hadd, himm, apply_add_select_imm, Word.toInt_immediate h]

theorem memAddr_evaluateWith (d : Datapath) (w : Word) (pc a b : Lane) :
    (d.evaluateWith w pc a b).memAddr.map BitVec.toNat =
      Semantics.address? d.width.bits w (unsigned d.width.bits a) := by
  have haddr : (d.evaluateWith w pc a b).memAddr =
      if w.control.memRead || w.control.memWrite then some (d.evaluateWith w pc a b).alu.out
      else none := rfl
  rw [haddr, Semantics.address?, Semantics.opcode?_eq_op?]
  rcases ho : w.op? with _ | o
  · rw [Word.control_of_op?_eq_none ho]
    rfl
  · have hsum := d.toNat_alu_out_of_sum ho pc a b
    rw [Word.control_of_op? ho] at hsum ⊢
    cases o with
    | load => exact congrArg some (hsum rfl rfl)
    | store => exact congrArg some (hsum rfl rfl)
    | _ => rfl

theorem storeData_evaluateWith (d : Datapath) (w : Word) (pc a b : Lane) :
    (d.evaluateWith w pc a b).storeData = if w.op? = some .store then some b else none := by
  have hstore : (d.evaluateWith w pc a b).storeData =
      if w.control.memWrite then some b else none := rfl
  rw [hstore]
  rcases ho : w.op? with _ | o
  · rw [Word.control_of_op?_eq_none ho]
    rfl
  · rw [Word.control_of_op? ho]
    cases o <;> rfl

/-- The register that is written, for the words whose result is a register's value. -/
theorem map_fst_writeBack (d : Datapath) (w : Word) (pc a b : Lane) :
    (d.evaluateWith w pc a b).writeBack.map Prod.fst =
      if Effect.ofOpcode? w.op? = .writeBack then some (Semantics.rd w) else none := by
  rw [writeBack_eq]
  rcases ho : w.op? with _ | o
  · rw [Word.control_of_op?_eq_none ho]
    rfl
  · rw [Word.control_of_op? ho]
    cases o <;> rfl

/-! ## Exactly one effect -/

/-- An evaluation shows the effect that the opcode tells, and no other. -/
theorem shows_iff (d : Datapath) (w : Word) (pc a b : Lane) (k : Effect) :
    (d.evaluateWith w pc a b).shows k = true ↔ k = Effect.ofOpcode? w.op? := by
  cases k with
  | writeBack =>
    have hback : (d.evaluateWith w pc a b).shows .writeBack =
        ((d.evaluateWith w pc a b).writeBack.map Prod.fst).isSome := Option.isSome_map.symm
    rw [hback, map_fst_writeBack]
    rcases w.op? with _ | o
    · simp [Effect.ofOpcode?]
    · cases o <;> simp [Effect.ofOpcode?]
  | memory =>
    have haddr : (d.evaluateWith w pc a b).shows .memory =
        ((d.evaluateWith w pc a b).memAddr.map BitVec.toNat).isSome := Option.isSome_map.symm
    rw [haddr, memAddr_evaluateWith, Semantics.address?, Semantics.opcode?_eq_op?]
    rcases w.op? with _ | o
    · simp [Effect.ofOpcode?]
    · cases o <;> simp [Effect.ofOpcode?]
  | branch =>
    have hbranch : (d.evaluateWith w pc a b).shows .branch = w.control.branch := rfl
    rw [hbranch, Word.control_branch_iff]
    rcases w.op? with _ | o
    · decide
    · cases o <;> decide
  | jump =>
    have hjump : (d.evaluateWith w pc a b).shows .jump = w.op?.any Opcode.isJump := rfl
    rw [hjump]
    rcases w.op? with _ | o
    · decide
    · cases o <;> decide
  | nothing =>
    have hnop : (d.evaluateWith w pc a b).shows .nothing = w.control.isNop := rfl
    rw [hnop, Word.isNop_control_iff]
    rcases w.op? with _ | o
    · decide
    · cases o <;> decide

/-- **Branches, memory accesses and jumps are the manual's.**  Let an evaluation of a word succeed,
on a reachable register file of the datapath's width.  The registers that the word reads can then
be read.  A branch is taken if its comparison holds of the two values; loads and stores address the
sum of the first and the immediate, and a store stores the second; a jump goes to the sum of its
base and the immediate; and the register that is written is the word's destination.  The word has
exactly one kind of effect. -/
theorem evaluate_outcomes {d : Datapath} {r : RegisterFile} {w : Word} {pc : Lane}
    {e : Evaluation} (hr : r.Reachable) (hwidth : r.width = d.width)
    (he : d.evaluate w pc r = .ok e) :
    (∀ o, Semantics.opcode? w = some o → ∀ i ∈ Semantics.sources o w, r.read i = .ok (r.value i)) ∧
    (e.branchTaken = true ↔ Semantics.opcode? w = some .branch ∧
      (Semantics.comparison w).Holds d.width.bits (r.value (Semantics.rs1 w)).toNat
        (r.value (Semantics.rs2 w)).toNat) ∧
    e.memAddr.map BitVec.toNat =
      Semantics.address? d.width.bits w (r.value (Semantics.rs1 w)).toNat ∧
    e.storeData =
      (if Semantics.opcode? w = some .store then some (r.value (Semantics.rs2 w)) else none) ∧
    (Semantics.opcode? w = some .jalr → e.alu.out.toNat =
      wrap d.width.bits ((r.value (Semantics.rs1 w)).toNat + Semantics.immI w)) ∧
    (Semantics.opcode? w = some .jal → e.alu.out.toNat =
      wrap d.width.bits (Semantics.immJ w)) ∧
    e.writeBack.map Prod.fst =
      (if Semantics.opcode? w ∈ [some .op, some .opImm, some .lui, some .auipc] then
        some (Semantics.rd w) else none) ∧
    ∃! k, e.shows k = true := by
  obtain ⟨hreads, rfl⟩ := evaluate_eq_ok_iff_value.1 he
  have hvalue : ∀ i, unsigned d.width.bits (r.value i) = (r.value i).toNat :=
    hwidth ▸ hr.wellFormed.unsigned_value
  rw [Semantics.opcode?_eq_op?, ← hvalue, ← hvalue]
  refine ⟨?_, d.branchTaken_iff w pc _ _, d.memAddr_evaluateWith w pc _ _,
    d.storeData_evaluateWith w pc _ _, ?_, ?_, ?_, ?_⟩
  · intro o ho i hi
    have hlt := (Word.forall_sources_lt_iff ho r.size).2 hreads
    exact RegisterFile.read_eq_ok_iff.2 ⟨hlt i hi, rfl⟩
  · intro ho
    have hc := Word.control_of_op? ho
    rw [d.toNat_alu_out_of_sum ho pc _ _ (hc ▸ rfl) (hc ▸ rfl), hc]
    rfl
  · intro ho
    have hc := Word.control_of_op? ho
    have hzero : unsigned d.width.bits (SourceA.zero.select (r.value (Semantics.rs1 w)) pc) = 0 :=
      unsigned_zero d.width.bits
    have hsource : w.control.sourceA = .zero := hc ▸ rfl
    rw [d.toNat_alu_out_of_sum ho pc _ _ (hc ▸ rfl) (hc ▸ rfl), hsource, hzero]
    exact congrArg (wrap d.width.bits) (Int.zero_add _)
  · rw [d.map_fst_writeBack]
    rcases w.op? with _ | o
    · rfl
    · cases o <;> rfl
  · refine ⟨_, (d.shows_iff w pc _ _ _).2 rfl, ?_⟩
    intro k hk
    exact (d.shows_iff w pc _ _ k).1 hk

/-- A store eight bytes above `x1`, which holds 250: at eight bits the address wraps. -/
theorem evaluate_outcomes_store :
    ∃ (r : RegisterFile) (e : Evaluation), r.Reachable ∧
      evaluate (.ofWidth .w8 false) 0x0020a423 0 r = .ok e ∧ e.memAddr.map BitVec.toNat = some 2 ∧
        ∃! k, e.shows k = true := by
  have hfresh : RegisterFile.ofConfig { xlen := 8, regCount := 4 } =
      .ok ⟨[0, 0, 0, 0], .w8, true, false, none⟩ := rfl
  have hr := ((RegisterFile.Reachable.ofConfig hfresh).perform (.write 1 250)).perform .commit
  have he : evaluate (.ofWidth .w8 false) 0x0020a423 0 ⟨[0, 250, 0, 0], .w8, true, false, none⟩ =
      .ok _ := rfl
  obtain ⟨_, _, haddr, _, _, _, _, hone⟩ := evaluate_outcomes hr rfl he
  exact ⟨_, _, hr, he, haddr.trans (by decide), hone⟩

end Datapath
end Hart
