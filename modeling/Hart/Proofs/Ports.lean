import Hart.Proofs.Effect

/-!
# The source ports of a word

Which source registers an evaluation asks for is decided by the control signals, not by the
opcode.  An evaluation looks at these ports of the file and at nothing else in it, and it is refused
for the first of them that is missing.

For a recognized word the ports are the sources that the manual names, though the signals do not
show it at once: a store takes its immediate for an operand, and reads the second source all the
same.  The bundle of an unrecognized word does nothing, and yet its signals are the defaults, which
select both source registers as operands: such a word is a no-op on every file that has the two
registers which its bits happen to name, and is refused on the others.

* `Word.ports`, `Word.ports_of_op?` — the ports of a word, and of a recognized one.
* `Datapath.evaluate_congr_of_read`, `Datapath.evaluate_eq_error_iff_find?` — the two facts above.
* `Datapath.evaluate_recognized` — which recognized words are refused on a file, and that nothing
  but a source of theirs can be the reason.
* `Word.readsRs1_of_op?_eq_none`, `Word.readsRs2_of_op?_eq_none` — an unrecognized word reads both.
* `Datapath.evaluate_unrecognized` — what becomes of it, on any file.
* `Datapath.evaluate_fence_refused` — a fence is refused by a file of sixteen registers.
-/

set_option autoImplicit false

namespace Hart

/-! ## Ports -/

/-- Of the sources of a word, the first that has a property is the first source if that has it, and
else the second. -/
theorem Semantics.eq_of_find?_sources {o : Opcode} {w : Word} {p : Nat → Bool} {i : Nat}
    (h : (sources o w).find? p = some i) : i = if p (rs1 w) then rs1 w else rs2 w := by
  cases o with
  | op | branch | store =>
    rw [sources, List.find?_cons] at h
    split at h
    · rename_i hfirst
      rw [if_pos hfirst, Option.some.inj h]
    · rename_i hfirst
      rw [if_neg (Bool.eq_false_iff.1 hfirst)]
      exact List.mem_singleton.1 (List.mem_of_find?_eq_some h)
  | opImm | load | jalr =>
    have hfirst : i = rs1 w := List.mem_singleton.1 (List.mem_of_find?_eq_some h)
    rw [if_pos (hfirst ▸ List.find?_some h), hfirst]
  | lui | auipc | jal => cases h

namespace Word

/-- The registers that a word reads, by its control signals. -/
def ports (w : Word) : List Nat :=
  (if w.control.readsRs1 then [w.decode.rs1] else []) ++
    if w.control.readsRs2 then [w.decode.rs2] else []

/-- The ports of a recognized word are its sources. -/
theorem ports_of_op? {w : Word} {o : Opcode} (h : w.op? = some o) :
    w.ports = Semantics.sources o w := by
  have h1 : w.decode.rs1 = Semantics.rs1 w := w.toNat_rs1
  have h2 : w.decode.rs2 = Semantics.rs2 w := w.toNat_rs2
  rw [ports, control_of_op? h, h1, h2]
  cases o <;> rfl

end Word

namespace Datapath

/-- An evaluation looks at the file through the ports of the word. -/
theorem evaluate_congr_of_read (d : Datapath) {w : Word} {r r' : RegisterFile} (pc : Lane)
    (h1 : w.control.readsRs1 = true → r'.read w.decode.rs1 = r.read w.decode.rs1)
    (h2 : w.control.readsRs2 = true → r'.read w.decode.rs2 = r.read w.decode.rs2) :
    d.evaluate w pc r' = d.evaluate w pc r := by
  have hsources : readSources w.control w.decode r' = readSources w.control w.decode r := by
    rw [readSources, readSources]
    cases hreads1 : w.control.readsRs1 <;> cases hreads2 : w.control.readsRs2 <;>
      simp [h1, h2, hreads1, hreads2]
  rw [evaluate, evaluate, hsources]

/-- An evaluation is refused for the first port that is missing. -/
theorem evaluate_eq_error_iff_find? {d : Datapath} {w : Word} {pc : Lane} {r : RegisterFile}
    {fault : Fault} :
    d.evaluate w pc r = .error fault ↔
      ∃ i, w.ports.find? (r.size ≤ ·) = some i ∧ fault = .registerOutOfRange i r.size := by
  rw [evaluate_eq_error_iff, Word.ports]
  simp only [← Nat.not_le]
  by_cases hle1 : r.size ≤ w.decode.rs1 <;> by_cases hle2 : r.size ≤ w.decode.rs2 <;>
    cases w.control.readsRs1 <;> cases w.control.readsRs2 <;> simp [hle1, hle2]

theorem exists_evaluate_eq_error_iff {d : Datapath} {w : Word} {pc : Lane} {r : RegisterFile} :
    (∃ fault, d.evaluate w pc r = .error fault) ↔ ∃ i ∈ w.ports, r.size ≤ i := by
  simp only [evaluate_eq_error_iff_find?]
  constructor
  · rintro ⟨_, i, hi, _⟩
    exact ⟨i, List.mem_of_find?_eq_some hi, by simpa using List.find?_some hi⟩
  · rintro ⟨i, hi, hle⟩
    have hfound : (w.ports.find? (r.size ≤ ·)).isSome = true :=
      List.find?_isSome.2 ⟨i, hi, decide_eq_true hle⟩
    obtain ⟨j, hj⟩ := Option.isSome_iff_exists.1 hfound
    exact ⟨_, j, hj, rfl⟩

/-! ## Words that are recognized -/

/-- **A recognized word is refused exactly where a source of its is missing.**  On every file, an
operation on registers, a branch and a store are refused if the file lacks one of the two sources;
an operation with an immediate, a load and an indirect jump if it lacks the first; and no other
recognized word is ever refused.  The fault names the size of the file, and the first source if that
is missing, else the second.  Nothing else in a word matters: words of one opcode with the same
sources are refused alike, whatever their destination and their immediate. -/
theorem evaluate_recognized (d : Datapath) (r : RegisterFile) {w : Word} {o : Opcode}
    (h : Semantics.opcode? w = some o) (pc : Lane) :
    ((∃ fault, d.evaluate w pc r = .error fault) ↔
      (o ∈ [.op, .branch, .store] ∧ (r.size ≤ Semantics.rs1 w ∨ r.size ≤ Semantics.rs2 w)) ∨
        (o ∈ [.opImm, .load, .jalr] ∧ r.size ≤ Semantics.rs1 w)) ∧
    (∀ fault, d.evaluate w pc r = .error fault →
      fault = .registerOutOfRange
        (if r.size ≤ Semantics.rs1 w then Semantics.rs1 w else Semantics.rs2 w) r.size) ∧
    ∀ (w' : Word) (pc' : Lane), Semantics.opcode? w' = some o →
      Semantics.sources o w' = Semantics.sources o w →
      ∀ fault, d.evaluate w' pc' r = .error fault ↔ d.evaluate w pc r = .error fault := by
  rw [Semantics.opcode?_eq_op?] at h
  have hports := Word.ports_of_op? h
  refine ⟨?_, ?_, ?_⟩
  · rw [exists_evaluate_eq_error_iff, hports]
    cases o <;> simp [Semantics.sources]
  · intro fault hfault
    rw [evaluate_eq_error_iff_find?, hports] at hfault
    obtain ⟨i, hi, rfl⟩ := hfault
    rw [Semantics.eq_of_find?_sources hi]
    simp only [decide_eq_true_eq]
  · intro w' pc' h' hsources fault
    rw [Semantics.opcode?_eq_op?] at h'
    rw [evaluate_eq_error_iff_find?, evaluate_eq_error_iff_find?, Word.ports_of_op? h', hports,
      hsources]

/-- Sixteen registers are too few for a sum that has `x20` for its second source, and enough for an
upper immediate whose bits would name `x31` there. -/
theorem evaluate_recognized_sixteen :
    let r : RegisterFile := ⟨List.replicate 16 0, .w32, true, false, none⟩
    r.Reachable ∧ Semantics.opcode? 0x014100b3 = some .op ∧
      evaluate {} 0x014100b3 0 r = .error (.registerOutOfRange 20 16) ∧
      Semantics.opcode? 0xfffff0b7 = some .lui ∧
      ¬∃ fault, evaluate {} 0xfffff0b7 0 r = .error fault := by
  intro r
  have hbuild : RegisterFile.ofCount 16 = .ok r := rfl
  have hop : Semantics.opcode? 0x014100b3 = some .op := rfl
  have hlui : Semantics.opcode? 0xfffff0b7 = some .lui := rfl
  refine ⟨.ofCount hbuild, hop, ?_, hlui, ?_⟩
  · obtain ⟨hfails, hfault, _⟩ := evaluate_recognized {} r hop 0
    obtain ⟨fault, hrefused⟩ := hfails.2 (by decide)
    rw [hrefused, hfault fault hrefused]
    decide
  · rw [(evaluate_recognized {} r hlui 0).1]
    decide

end Datapath

/-! ## Words that are not recognized -/

theorem Word.readsRs1_of_op?_eq_none {w : Word} (h : w.op? = none) :
    w.control.readsRs1 = true := by
  rw [control_of_op?_eq_none h]
  rfl

theorem Word.readsRs2_of_op?_eq_none {w : Word} (h : w.op? = none) :
    w.control.readsRs2 = true := by
  rw [control_of_op?_eq_none h]
  rfl

namespace Datapath

/-- An evaluation of an unrecognized word shows no effect of any kind. -/
theorem evaluateWith_of_op?_eq_none (d : Datapath) {w : Word} (h : w.op? = none)
    (pc a b : Lane) :
    let e := d.evaluateWith w pc a b
    e.control.branch = false ∧ e.branchTaken = false ∧ e.isJump = false ∧ e.memAddr = none ∧
      e.storeData = none ∧ e.writeBack = none := by
  intro e
  have hcontrol : e.control = .idle := Word.control_of_op?_eq_none h
  have hjump : e.isJump = w.op?.any Opcode.isJump := rfl
  refine ⟨?_, ?_, ?_, ?_, ?_, ?_⟩
  · rw [hcontrol]
    rfl
  · rw [Evaluation.branchTaken, hcontrol]
    rfl
  · rw [hjump, h]
    rfl
  · rw [Evaluation.memAddr, hcontrol]
    rfl
  · rw [storeData_evaluateWith, h, if_neg nofun]
  · rw [Evaluation.writeBack, hcontrol]
    rfl

/-- **An unrecognized word does nothing, where it is not refused.**  On every file it is evaluated
if the file has the registers in the places of the two sources, and all 32 registers will do; else
it is refused for the first of them that is missing.  The evaluation is no branch and no jump, it
accesses no memory, stores nothing and writes no register, and its retirement leaves every file as
it is, the staged write included. -/
theorem evaluate_unrecognized (d : Datapath) (r : RegisterFile) {w : Word}
    (h : Semantics.opcode? w = none) (pc : Lane) :
    (Semantics.rs1 w < r.size → Semantics.rs2 w < r.size → ∃ e, d.evaluate w pc r = .ok e) ∧
    (r.size = maxRegisters → ∃ e, d.evaluate w pc r = .ok e) ∧
    (r.size ≤ Semantics.rs1 w →
      d.evaluate w pc r = .error (.registerOutOfRange (Semantics.rs1 w) r.size)) ∧
    (Semantics.rs1 w < r.size → r.size ≤ Semantics.rs2 w →
      d.evaluate w pc r = .error (.registerOutOfRange (Semantics.rs2 w) r.size)) ∧
    ∀ e, d.evaluate w pc r = .ok e →
      e.control.branch = false ∧ e.branchTaken = false ∧ e.isJump = false ∧ e.memAddr = none ∧
        e.storeData = none ∧ e.writeBack = none ∧ ∀ s : RegisterFile, retire e s = .ok s := by
  rw [Semantics.opcode?_eq_op?] at h
  have hrs1 := Word.readsRs1_of_op?_eq_none h
  have hrs2 := Word.readsRs2_of_op?_eq_none h
  have h1 : w.decode.rs1 = Semantics.rs1 w := w.toNat_rs1
  have h2 : w.decode.rs2 = Semantics.rs2 w := w.toNat_rs2
  have hok : Semantics.rs1 w < r.size → Semantics.rs2 w < r.size →
      ∃ e, d.evaluate w pc r = .ok e := by
    intro hlt1 hlt2
    exact ⟨_, evaluate_eq_ok_iff_value.2 ⟨⟨fun _ ↦ hlt1, fun _ ↦ hlt2⟩, rfl⟩⟩
  refine ⟨hok, ?_, ?_, ?_, ?_⟩
  · intro hsize
    refine hok ?_ ?_
    · rw [hsize, ← w.toNat_rs1]
      exact w.rs1.isLt
    · rw [hsize, ← w.toNat_rs2]
      exact w.rs2.isLt
  · intro hle
    rw [← h1] at hle ⊢
    exact evaluate_eq_error_iff.2 (.inl ⟨hrs1, hle, rfl⟩)
  · intro hlt hle
    rw [← h1] at hlt
    rw [← h2] at hle ⊢
    exact evaluate_eq_error_iff.2 (.inr ⟨fun _ ↦ hlt, hrs2, hle, rfl⟩)
  · intro e he
    obtain ⟨_, rfl⟩ := evaluate_eq_ok_iff_value.1 he
    obtain ⟨hbranch, htaken, hjump, haddr, hstore, hback⟩ :=
      d.evaluateWith_of_op?_eq_none h pc (r.value (Semantics.rs1 w)) (r.value (Semantics.rs2 w))
    exact ⟨hbranch, htaken, hjump, haddr, hstore, hback, retire_of_writeBack_eq_none hback⟩

/-- An environment call on a file of one register, in which a write is staged. -/
theorem evaluate_unrecognized_ecall :
    let r : RegisterFile := ⟨[0], .w32, true, false, some (0, 7)⟩
    Semantics.opcode? 0x00000073 = none ∧
      ∃ e, evaluate {} 0x00000073 0 r = .ok e ∧ e.writeBack = none ∧ retire e r = .ok r := by
  intro r
  have hnone : Semantics.opcode? 0x00000073 = none := rfl
  obtain ⟨hok, _, _, _, hidle⟩ := evaluate_unrecognized {} r hnone 0
  obtain ⟨e, he⟩ := hok (by decide) (by decide)
  obtain ⟨_, _, _, _, _, hback, hretire⟩ := hidle e he
  exact ⟨hnone, e, he, hback, hretire r⟩

/-- Not every unrecognized word is evaluated.  A fence names no register, but the last five of the
eight bits that say what it orders are in the place of the second source; sixteen registers are
too few for them. -/
theorem evaluate_fence_refused :
    ∃ r : RegisterFile, r.Reachable ∧ r.size = 16 ∧ Semantics.opcode? 0x0ff0000f = none ∧
      evaluate {} 0x0ff0000f 0 r = .error (.registerOutOfRange 31 16) := by
  have hbuild : RegisterFile.ofCount 16 =
      .ok ⟨List.replicate 16 0, .w32, true, false, none⟩ := rfl
  exact ⟨_, .ofCount hbuild, rfl, rfl, rfl⟩

end Datapath
end Hart
