import Hart.Proofs.Effect
import Hart.Proofs.Retirement

/-!
# Values and the width they have to fit

Values travel in lanes that are wider than most machines.  Three masks keep them within the width:
the datapath cuts its operands, the arithmetic unit its answer, and the register file what is
written to it.  Two values take ways of their own.  The result of a set-less-than word comes from
the comparator, and is a truth value; the data of a store come out of the register file and meet no
mask of the datapath at all, so that only the invariant of the file says how large they are.

* `Datapath.toNat_opA_lt`, `Datapath.toNat_opB_lt`, `Datapath.memAddr_lt` — what an evaluation
  shows, for any values of the sources (`Datapath.result_lt` is the same for the result).
* `Datapath.storeData_lt` — the data of a store, which have the width of the file.
* `Datapath.read_of_retire` — what a retirement leaves in a register, which is cut to the width of
  the file.
* `Datapath.evaluate_within_width` — a datapath and a register file of any two widths.
-/

set_option autoImplicit false

namespace Hart

open Lane

namespace Datapath

/-! ## What an evaluation shows -/

theorem toNat_opA_lt (d : Datapath) (w : Word) (pc a b : Lane) :
    (d.evaluateWith w pc a b).opA.toNat < 2 ^ d.width.bits :=
  toNat_and_mask_lt _ d.width.bits_le

theorem toNat_opB_lt (d : Datapath) (w : Word) (pc a b : Lane) :
    (d.evaluateWith w pc a b).opB.toNat < 2 ^ d.width.bits :=
  toNat_and_mask_lt _ d.width.bits_le

theorem toNat_alu_out_lt (d : Datapath) (w : Word) (pc a b : Lane) :
    (d.evaluateWith w pc a b).alu.out.toNat < 2 ^ d.width.bits :=
  d.alu.toNat_execute_out_lt _ _ _

/-- An address is an answer of the arithmetic unit. -/
theorem memAddr_lt {d : Datapath} {w : Word} {pc a b v : Lane}
    (h : (d.evaluateWith w pc a b).memAddr = some v) : v.toNat < 2 ^ d.width.bits := by
  rw [Evaluation.memAddr] at h
  split at h
  · obtain rfl := Option.some.inj h
    exact d.toNat_alu_out_lt w pc a b
  · cases h

/-- The data of a store are the value of a register, whatever the width of the datapath. -/
theorem storeData_lt {d : Datapath} {r : RegisterFile} {w : Word} {pc v : Lane} {e : Evaluation}
    (hr : r.WellFormed) (he : d.evaluate w pc r = .ok e) (hv : e.storeData = some v) :
    v.toNat < 2 ^ r.width.bits := by
  obtain ⟨_, rfl⟩ := evaluate_eq_ok_iff_value.1 he
  rw [storeData_evaluateWith] at hv
  split at hv
  · obtain rfl := Option.some.inj hv
    exact hr.value_lt _
  · cases hv

/-! ## What a retirement leaves -/

theorem eq_result_of_writeBack {e : Evaluation} {rd : Nat} {v : Lane}
    (h : e.writeBack = some (rd, v)) : v = e.result := by
  rw [Evaluation.writeBack] at h
  split at h
  · exact (Prod.mk.inj (Option.some.inj h)).2.symm
  · cases h

/-- After a retirement the destination register reads the value, cut to the width of the file. -/
theorem read_of_retire {e : Evaluation} {r r' : RegisterFile} {rd : Nat} {v : Lane}
    (h : retire e r = .ok r') (hback : e.writeBack = some (rd, v)) :
    r'.read rd = .ok (if r.isHardwired rd then 0 else v &&& r.mask) := by
  rw [retire_eq_ok_iff, hback] at h
  obtain ⟨staged, hw, rfl⟩ := h
  have hlt : rd < r.size := (RegisterFile.write_eq_ok_iff.1 hw).1
  rw [RegisterFile.commit_of_write hw, RegisterFile.read_eq_ok_iff, RegisterFile.value_put_self hlt]
  exact ⟨(RegisterFile.SameSettings.put r rd v).size.symm ▸ hlt, rfl⟩

/-! ## Two widths -/

/-- **No value leaves its width.**  A datapath evaluates a word on a register file, and the two may
have different widths.  The operands, the answer of the arithmetic unit, the result and the address
of an access are numbers of the datapath's width, and the zero flag tells whether the answer is
zero.  The data of a store are too, if the file is no wider than the datapath.  If it is no
narrower, a retirement loses nothing: the destination register then reads the result, unless it is
hardwired.  The file that the evaluation is retired on need not be the one that it was made on. -/
theorem evaluate_within_width {d : Datapath} {r : RegisterFile} {w : Word} {pc : Lane}
    {e : Evaluation} (hr : r.Reachable) (he : d.evaluate w pc r = .ok e) :
    (e.opA.toNat < 2 ^ d.width.bits ∧ e.opB.toNat < 2 ^ d.width.bits ∧
      e.alu.out.toNat < 2 ^ d.width.bits ∧ e.result.toNat < 2 ^ d.width.bits ∧
      ∀ v, e.memAddr = some v → v.toNat < 2 ^ d.width.bits) ∧
    (e.alu.zero = true ↔ e.alu.out = 0) ∧
    (r.width.bits ≤ d.width.bits → ∀ v, e.storeData = some v → v.toNat < 2 ^ d.width.bits) ∧
    ∀ s s' : RegisterFile, d.width.bits ≤ s.width.bits → retire e s = .ok s' →
      ∀ rd v, e.writeBack = some (rd, v) → s.isHardwired rd = false →
        v = e.result ∧ s'.read rd = .ok e.result := by
  refine ⟨?_, ?_, ?_, ?_⟩
  · obtain ⟨_, rfl⟩ := evaluate_eq_ok_iff_value.1 he
    exact ⟨d.toNat_opA_lt w pc _ _, d.toNat_opB_lt w pc _ _, d.toNat_alu_out_lt w pc _ _,
      d.result_lt w pc _ _, fun _ ↦ memAddr_lt⟩
  · obtain ⟨_, rfl⟩ := evaluate_eq_ok_iff_value.1 he
    exact decide_eq_true_iff
  · intro hle v hv
    exact Nat.lt_of_lt_of_le (storeData_lt hr.wellFormed he hv)
      (Nat.pow_le_pow_right (by decide) hle)
  · intro s s' hle hretire rd v hback hhard
    obtain rfl := eq_result_of_writeBack hback
    refine ⟨rfl, ?_⟩
    obtain ⟨_, rfl⟩ := evaluate_eq_ok_iff_value.1 he
    have hlt := Nat.lt_of_lt_of_le (writeBack_lt hback) (Nat.pow_le_pow_right (by decide) hle)
    rw [read_of_retire hretire hback, hhard, RegisterFile.mask, and_mask_of_lt s.width.bits_le hlt]
    rfl

/-- Eight bits and 32.  On the narrow datapath the sum of 250 and ten is four, and so it is in the
wide file that it is retired on; a store above the largest number of eight bits wraps its address.
The wide datapath stores what it finds in a narrow file. -/
theorem evaluate_within_width_mixed :
    let d : Datapath := .ofWidth .w8 false
    let d' : Datapath := .ofWidth .w32 false
    ∃ (r r' s : RegisterFile) (e e' : Evaluation), r.Reachable ∧ r'.Reachable ∧
      r.width = .w32 ∧ r'.width = .w8 ∧
      d.evaluate 0x00a08193 0 r = .ok e ∧ retire e r = .ok s ∧ e.result = 4 ∧
      s.read 3 = .ok e.result ∧
      d'.evaluate 0x0020a423 0 r' = .ok e' ∧ e'.storeData = some 7 ∧ (7 : Lane).toNat < 2 ^ 32 := by
  intro d d'
  have hfresh : RegisterFile.ofCount 4 = .ok ⟨[0, 0, 0, 0], .w32, true, false, none⟩ := rfl
  have hr := ((RegisterFile.Reachable.ofCount hfresh).perform (.write 1 250)).perform .commit
  have hfresh' : RegisterFile.ofConfig { xlen := 8, regCount := 4 } =
      .ok ⟨[0, 0, 0, 0], .w8, true, false, none⟩ := rfl
  have hr' := ((RegisterFile.Reachable.ofConfig hfresh').perform (.write 2 7)).perform .commit
  let r : RegisterFile := ⟨[0, 250, 0, 0], .w32, true, false, none⟩
  let s : RegisterFile := ⟨[0, 250, 0, 4], .w32, true, false, none⟩
  have he : d.evaluate 0x00a08193 0 r = .ok _ := rfl
  have he' : d'.evaluate 0x0020a423 0 ⟨[0, 0, 7, 0], .w8, true, false, none⟩ = .ok _ := rfl
  obtain ⟨_, _, _, hread⟩ := evaluate_within_width hr he
  obtain ⟨_, _, hstore, _⟩ := evaluate_within_width hr' he'
  refine ⟨r, _, s, _, _, hr, hr', rfl, rfl, he, by decide, by decide, ?_, he', rfl, ?_⟩
  · exact (hread r s (by decide) (by decide) 3 _ rfl rfl).2
  · exact hstore (by decide) 7 rfl

end Datapath
end Hart
