import Hart.Proofs.Reordering

/-!
# What cannot influence an evaluation

An evaluation has three inputs beside the word: the committed registers, the write that is staged,
and the program counter.  Of the registers it looks at the ports of the word only, at the staged
write not at all, and at the counter only for a word that adds to it, where the bits above the width
are cut away like those of any operand.  Whatever differs elsewhere between two machines leaves
their evaluations alike, except that each one keeps the counter it was asked with.

* `Word.control_sourceA_eq_pc_iff` — the one opcode whose words take the counter for an operand.
* `Datapath.evaluate_counter` — evaluating at another counter.
* `Datapath.evaluate_staged`, `Datapath.evaluate_set` — evaluating with another write staged, and
  with another value in a register that is not a port.
* `Datapath.evaluate_noninterference` — two machines at once.
-/

set_option autoImplicit false

namespace Hart

open Lane

namespace Word

theorem control_sourceA_eq_pc_iff {w : Word} :
    w.control.sourceA = .pc ↔ w.op? = some .auipc := by
  rcases ho : w.op? with _ | o
  · rw [control_of_op?_eq_none ho]
    decide
  · rw [control_of_op? ho]
    cases o <;> simp [Control.ofOpcode]

end Word

namespace Datapath

/-! ## The program counter -/

/-- Operands are cut to the width, so that counters with the same low bits are one operand. -/
theorem evaluateWith_counter (d : Datapath) {w : Word} {pc pc' : Lane}
    (h : w.op? = some .auipc → unsigned d.width.bits pc' = unsigned d.width.bits pc) (a b : Lane) :
    d.evaluateWith w pc' a b = { d.evaluateWith w pc a b with pc := pc' } := by
  have hA : w.control.sourceA.select a pc' &&& d.alu.mask =
      w.control.sourceA.select a pc &&& d.alu.mask := by
    cases hs : w.control.sourceA with
    | pc => exact (and_mask_inj d.width.bits_le).2 (h (Word.control_sourceA_eq_pc_iff.1 hs))
    | reg1 | zero => rfl
  simp only [evaluateWith, hA]

theorem evaluate_counter (d : Datapath) {w : Word} {pc pc' : Lane}
    (h : w.op? = some .auipc → unsigned d.width.bits pc' = unsigned d.width.bits pc)
    (r : RegisterFile) :
    d.evaluate w pc' r = (d.evaluate w pc r).map fun e ↦ { e with pc := pc' } := by
  rw [evaluate, evaluate]
  rcases readSources w.control w.decode r with fault | ⟨a, b⟩
  · rfl
  · exact congrArg Except.ok (d.evaluateWith_counter h a b)

/-! ## The register file -/

theorem evaluate_staged (d : Datapath) (w : Word) (pc : Lane) (r : RegisterFile)
    (staged : Option (Nat × Lane)) :
    d.evaluate w pc { r with staged } = d.evaluate w pc r :=
  rfl

theorem evaluate_set (d : Datapath) {w : Word} {i : Nat} (h : i ∉ w.ports) (pc : Lane)
    (r : RegisterFile) (v : Lane) :
    d.evaluate w pc { r with regs := r.regs.set i v } = d.evaluate w pc r := by
  refine d.evaluate_congr pc List.length_set fun j hj ↦ ?_
  have hne : i ≠ j := by
    rintro rfl
    exact h hj
  rw [RegisterFile.value, RegisterFile.value, List.getD_eq_getElem?_getD,
    List.getD_eq_getElem?_getD, List.getElem?_set_ne hne]
  rfl

/-! ## Two machines -/

/-- **Nothing but the ports of a word, and the counter where the word adds to it, has a part in its
evaluation.**  Let two files answer alike when the selected sources are read, a fault being an
answer, and let the counters agree modulo the power of two where the word is an upper immediate
added to the counter.  The files may differ in everything else.  Then the word is refused by both
with the same fault, or its two evaluations differ in the counter that they carry and nowhere else;
so the operands, the answers of the two units, the result, the data and the address of an access,
the outcome of a branch and what is written back are the same.  In particular no staged write, no
register that is not a port and, but for that one opcode, no counter can be told apart. -/
theorem evaluate_noninterference (d : Datapath) (w : Word) (r r' : RegisterFile) (pc pc' : Lane)
    (hrs1 : w.control.sourceA = .reg1 → r'.read w.decode.rs1 = r.read w.decode.rs1)
    (hrs2 : w.control.sourceB = .reg2 ∨ w.control.memWrite = true →
      r'.read w.decode.rs2 = r.read w.decode.rs2)
    (hpc : Semantics.opcode? w = some .auipc →
      pc'.toNat % 2 ^ d.width.bits = pc.toNat % 2 ^ d.width.bits) :
    d.evaluate w pc' r' = (d.evaluate w pc r).map (fun e ↦ { e with pc := pc' }) ∧
    (∀ e e' : Evaluation, d.evaluate w pc r = .ok e → d.evaluate w pc' r' = .ok e' →
      e'.opA = e.opA ∧ e'.opB = e.opB ∧ e'.alu = e.alu ∧ e'.holds = e.holds ∧
        e'.result = e.result ∧ e'.storeData = e.storeData ∧ e'.branchTaken = e.branchTaken ∧
        e'.memAddr = e.memAddr ∧ e'.writeBack = e.writeBack) ∧
    (∀ staged, d.evaluate w pc { r with staged } = d.evaluate w pc r) ∧
    (∀ i ∉ w.ports, ∀ v,
      d.evaluate w pc { r with regs := r.regs.set i v } = d.evaluate w pc r) ∧
    (Semantics.opcode? w ≠ some .auipc → ∀ counter,
      d.evaluate w counter r = (d.evaluate w pc r).map fun e ↦ { e with pc := counter }) := by
  rw [Semantics.opcode?_eq_op?] at hpc ⊢
  have hreads : d.evaluate w pc r' = d.evaluate w pc r := by
    refine d.evaluate_congr_of_read pc (fun hreads ↦ ?_) fun hreads ↦ ?_
    · exact hrs1 (of_decide_eq_true hreads)
    · rw [Control.readsRs2, Bool.or_eq_true, decide_eq_true_iff] at hreads
      exact hrs2 hreads
  have hboth : d.evaluate w pc' r' = (d.evaluate w pc r).map (fun e ↦ { e with pc := pc' }) := by
    rw [← hreads]
    refine d.evaluate_counter (fun ho ↦ ?_) r'
    rw [unsigned_eq_mod, unsigned_eq_mod, hpc ho]
  refine ⟨hboth, ?_, d.evaluate_staged w pc r, fun i hi v ↦ d.evaluate_set hi pc r v, ?_⟩
  · intro e e' he he'
    rw [he, he'] at hboth
    obtain rfl : e' = { e with pc := pc' } := Except.ok.inj hboth
    exact ⟨rfl, rfl, rfl, rfl, rfl, rfl, rfl, rfl, rfl⟩
  · intro hne counter
    exact d.evaluate_counter (fun ho ↦ absurd ho hne) r

/-- A store on a datapath of eight bits, and two files that agree in `x1` and `x2` alone: they
differ in `x3` and `x0`, in their width, in whether `x0` is hardwired and in what is staged. -/
theorem evaluate_noninterference_store :
    let r : RegisterFile := ⟨[0, 250, 7, 0], .w32, true, false, none⟩
    let r' : RegisterFile := ⟨[9, 250, 7, 3], .w64, false, true, some (1, 99)⟩
    let d : Datapath := .ofWidth .w8 false
    ∃ e e' : Evaluation, d.evaluate 0x0020a423 0 r = .ok e ∧
      d.evaluate 0x0020a423 0x1000 r' = .ok e' ∧ e'.memAddr = e.memAddr ∧
      e'.storeData = e.storeData := by
  intro r r' d
  have he : d.evaluate 0x0020a423 0 r = .ok _ := rfl
  have he' : d.evaluate 0x0020a423 0x1000 r' = .ok _ := rfl
  obtain ⟨_, hsame, _, _, _⟩ := evaluate_noninterference d 0x0020a423 r r' 0 0x1000
    (fun _ ↦ rfl) (fun _ ↦ rfl) nofun
  obtain ⟨_, _, _, _, _, hstore, _, haddr, _⟩ := hsame _ _ he he'
  exact ⟨_, _, he, he', haddr, hstore⟩

end Datapath

end Hart
