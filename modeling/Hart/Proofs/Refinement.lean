import Hart.Proofs.Evaluation
import Hart.Run

/-!
# Running is what the manual says

The datapath and the register file together go through a list of words as `Semantics.run` does.
The machine of `Semantics` is the list of the register file's numbers (`RegisterFile.numbers`); a
staged write is no part of it, since a retirement stages a write of its own and commits that.

* `Datapath.numbers_step` — one word, which the file may refuse.
* `Datapath.numbers_run` — a list of words, by induction: a step keeps the settings and the
  invariant of the file.
* `Datapath.run_refines` — the same for the machine of any configuration, from any file that it
  can come to.
-/

set_option autoImplicit false

namespace Hart

open Lane

/-! ## Registers after a retirement -/

namespace RegisterFile

/-- A write that is committed sets its register, unless the register is hardwired. -/
theorem numbers_commit_of_write {r r' : RegisterFile} {index : Nat} {v : Lane}
    (h : r.write index v = .ok r') :
    r'.commit.numbers =
      if index = 0 ∧ r.hardwireZero = true then r.numbers
      else r.numbers.set index (unsigned r.width.bits v) := by
  obtain ⟨_, rfl⟩ := write_eq_ok_iff.1 h
  rw [numbers, regs_commit rfl]
  simp only [isHardwired_iff]
  split
  · rfl
  · rw [List.map_set, mask, toNat_and_mask v r.width.bits_le, numbers]

end RegisterFile

/-! ## One word -/

namespace Datapath

/-- A word that names a source beyond the file is skipped. -/
theorem step_of_not_sources {d : Datapath} {r : RegisterFile} {w : Word} {o : Opcode} {pc : Lane}
    (ho : w.op? = some o) (h : ¬∀ i ∈ Semantics.sources o w, i < r.size) :
    (d.step r w pc).2 = r := by
  rcases he : d.evaluate w pc r with f | e
  · rw [step_of_refused he]
  · obtain ⟨hlt, _⟩ := evaluate_eq_ok_iff_value.1 he
    exact absurd ((Word.forall_sources_lt_iff ho r.size).2 hlt) h

theorem step_of_writeBack_eq_none {d : Datapath} {r : RegisterFile} {w : Word} {pc : Lane}
    (h : (d.evaluateWith w pc (r.value (Semantics.rs1 w)) (r.value (Semantics.rs2 w))).writeBack =
      none) : (d.step r w pc).2 = r := by
  rcases he : d.evaluate w pc r with f | e
  · rw [step_of_refused he]
  · obtain ⟨_, rfl⟩ := evaluate_eq_ok_iff_value.1 he
    rw [step_of_evaluate_eq_ok he, retireOn_eq_retire, retire_of_writeBack_eq_none h]

/-- A word that is evaluated sets its destination register, if the file has it. -/
theorem numbers_step_of_writeBack {d : Datapath} {r : RegisterFile} {w : Word} {pc : Lane}
    {e : Evaluation} {index : Nat} {v : Lane} (he : d.evaluate w pc r = .ok e)
    (hback : e.writeBack = some (index, v)) :
    (d.step r w pc).2.numbers =
      if index < r.size ∧ ¬(index = 0 ∧ r.hardwireZero = true) then
        r.numbers.set index (unsigned r.width.bits v)
      else r.numbers := by
  rcases hw : r.write index v with f | staged
  · have hretire : retire e r = .error f := by
      rw [retire_of_writeBack_eq_some hback, hw]
      rfl
    have hge : ¬index < r.size := Nat.not_lt.2 (RegisterFile.write_eq_error_iff.1 hw).1
    rw [step_of_evaluate_eq_ok he, retireOn_eq_retire, hretire]
    simp only [hge, false_and, if_false]
  · have hretire : retire e r = .ok staged.commit := by
      rw [retire_of_writeBack_eq_some hback, hw]
      rfl
    have hlt : index < r.size := (RegisterFile.write_eq_ok_iff.1 hw).1
    rw [step_of_evaluate_eq_ok he, retireOn_eq_retire, hretire]
    simp only [RegisterFile.numbers_commit_of_write hw, hlt, true_and]
    by_cases hzero : index = 0 ∧ r.hardwireZero = true
    · rw [if_pos hzero, if_neg (not_not.2 hzero)]
    · rw [if_neg hzero, if_pos hzero]

/-- A word with a value gives it to its destination register, if the file has all the registers
that the word names. -/
theorem numbers_step_of_value {d : Datapath} {r : RegisterFile} {w : Word} {o : Opcode}
    {pc v : Lane} (hwidth : r.width = d.width) (ho : w.op? = some o)
    (hback : (d.evaluateWith w pc (r.value (Semantics.rs1 w))
      (r.value (Semantics.rs2 w))).writeBack = some (Semantics.rd w, v)) :
    (d.step r w pc).2.numbers =
      if (∀ i ∈ Semantics.rd w :: Semantics.sources o w, i < r.numbers.length) ∧
          ¬(Semantics.rd w = 0 ∧ r.hardwireZero = true) then
        r.numbers.set (Semantics.rd w) v.toNat
      else r.numbers := by
  have hnamed : (∀ i ∈ Semantics.rd w :: Semantics.sources o w, i < r.numbers.length) ↔
      Semantics.rd w < r.size ∧ ∀ i ∈ Semantics.sources o w, i < r.size := by
    rw [List.forall_mem_cons, r.length_numbers]
  by_cases hsources : ∀ i ∈ Semantics.sources o w, i < r.size
  · have hreads := (Word.forall_sources_lt_iff ho r.size).1 hsources
    have he : d.evaluate w pc r = .ok _ := evaluate_eq_ok_iff_value.2 ⟨hreads, rfl⟩
    rw [numbers_step_of_writeBack he hback, hwidth, unsigned_of_lt (writeBack_lt hback)]
    simp only [hnamed, and_iff_left hsources]
  · rw [step_of_not_sources ho hsources]
    simp only [hnamed, hsources, false_and, and_false, if_false]

/-- **A step of the machine is a step of the manual's.** -/
theorem numbers_step {d : Datapath} {r : RegisterFile} (h : r.WellFormed)
    (hwidth : r.width = d.width) (w : Word) (pc : Lane) :
    (d.step r w pc).2.numbers =
      Semantics.step d.width.bits r.hardwireZero r.numbers w pc.toNat := by
  have hvalue : ∀ i, unsigned d.width.bits (r.value i) =
      Semantics.value r.hardwireZero r.numbers i := by
    intro i
    rw [← hwidth, h.unsigned_value, r.toNat_value]
  rw [Semantics.step, Semantics.opcode?_eq_op?]
  -- An unrecognized word may be refused or evaluated; it writes nothing in either case.
  rcases ho : w.op? with _ | o
  · have hback : (d.evaluateWith w pc (r.value (Semantics.rs1 w))
        (r.value (Semantics.rs2 w))).writeBack = none := by
      rw [writeBack_eq, Word.control_of_op?_eq_none ho]
      rfl
    rw [step_of_writeBack_eq_none hback]
  · have hwriteBack := d.writeBack_evaluateWith ho pc (hvalue _) (hvalue _)
    dsimp only
    rcases hv : Semantics.value? d.width.bits o w pc.toNat
        (Semantics.value r.hardwireZero r.numbers) with _ | n
    · rw [hv] at hwriteBack
      rw [step_of_writeBack_eq_none (Option.map_eq_none_iff.1 hwriteBack)]
    · rw [hv] at hwriteBack
      obtain ⟨⟨index, v⟩, hback, hpair⟩ := Option.map_eq_some_iff.1 hwriteBack
      obtain ⟨rfl, rfl⟩ := Prod.mk.inj hpair
      exact numbers_step_of_value hwidth ho hback

/-! ## A list of words -/

/-- A step leads to a file that the caller can hold. -/
theorem reaches_step (d : Datapath) (r : RegisterFile) (w : Word) (pc : Lane) :
    r.Reaches (d.step r w pc).2 := by
  rcases he : d.evaluate w pc r with f | e
  · rw [step_of_refused he]
    exact .refl
  · rw [step_of_evaluate_eq_ok he]
    exact r.reaches_retireOn e

/-- A run goes through the registers as the manual's does: the settings and the invariant of the
file carry over from step to step. -/
theorem numbers_run {d : Datapath} {r : RegisterFile} (h : r.WellFormed)
    (hwidth : r.width = d.width) (steps : List (Word × Lane)) :
    (d.run r steps).2.numbers =
      Semantics.run d.width.bits r.hardwireZero r.numbers
        (steps.map fun s ↦ (s.1, s.2.toNat)) := by
  induction steps generalizing r with
  | nil => rfl
  | cons s steps ih =>
    obtain ⟨w, pc⟩ := s
    have hreach := d.reaches_step r w pc
    have hsame := hreach.sameSettings
    rw [run_cons, ih (hreach.wellFormed h) (hsame.width.trans hwidth), numbers_step h hwidth,
      hsame.hardwireZero]
    rfl

/-- **Whole programs run as the manual says.**  A configuration that is accepted has a datapath and
a register file.  From every file that this one reaches, with whatever staged in it, every list of
words leads to the registers that the manual's machine ends with. -/
theorem run_refines {c : Config} {width : Width} (hc : c.validate = .ok width) :
    ∃ (d : Datapath) (r₀ : RegisterFile), ofConfig c = .ok d ∧ RegisterFile.ofConfig c = .ok r₀ ∧
      ∀ (r : RegisterFile), r₀.Reaches r → ∀ steps : List (Word × Lane),
        (d.run r steps).2.regs.map BitVec.toNat =
          Semantics.run c.xlen c.hardwireZero (r.regs.map BitVec.toNat)
            (steps.map fun s ↦ (s.1, s.2.toNat)) := by
  have hd : ofConfig c = .ok (.ofWidth width c.trace) := ofConfig_of_validate hc
  have hr₀ := RegisterFile.ofConfig_of_validate hc
  refine ⟨_, _, hd, hr₀, fun r hreach steps ↦ ?_⟩
  have hsame := hreach.sameSettings
  have hwf := hreach.wellFormed (RegisterFile.Fresh.wellFormed (.inr ⟨c, hr₀⟩))
  rw [(Config.validate_eq_ok_iff.1 hc).1]
  have hrun := numbers_run (d := .ofWidth width c.trace) hwf hsame.width steps
  rw [hsame.hardwireZero] at hrun
  exact hrun

/-- Four words at eight bits and with four registers: `x1` gets five, `x2` its negative, `x3` tells
that the negative is less, and `x9` is beyond the file. -/
theorem run_refines_four_words :
    ∃ (d : Datapath) (r₀ : RegisterFile), ofConfig { xlen := 8, regCount := 4 } = .ok d ∧
      RegisterFile.ofConfig { xlen := 8, regCount := 4 } = .ok r₀ ∧
      (d.run r₀ [(0x00500093, 0), (0x40100133, 4), (0x001121b3, 8), (0x001004b3, 12)]).2.regs.map
        BitVec.toNat = [0, 5, 251, 1] := by
  have hc : Config.validate { xlen := 8, regCount := 4 } = .ok .w8 := rfl
  obtain ⟨d, r₀, hd, hr₀, hrun⟩ := run_refines hc
  refine ⟨d, r₀, hd, hr₀, (hrun r₀ .refl _).trans ?_⟩
  obtain rfl := Except.ok.inj hr₀
  decide

end Datapath
end Hart
