import Hart.Proofs.Invariant
import Hart.Proofs.SetLessThan

/-!
# Who builds a machine, and of what

The same two things are checked in several places.  A number of bits is checked wherever a unit is
made, and a number of registers by the validation of a configuration and again, against a bound of
its own, where a register file is built; and what is built of a configuration that was validated
goes through the checks of its parts a second time.

* `Width.verdict_ofBits`, `Config.verdict_validate`, `RegisterFile.verdict_build` — what each check
  accepts, and its fault.
* `RegisterFile.build_of_validate`, `Datapath.ofConfig_of_validate` — of a configuration that was
  validated, no part is refused.
* `Config.constructors_agree` — so the constructors accept the same numbers and report the same
  faults, and what they build has those numbers.
-/

set_option autoImplicit false

namespace Hart

/-! ## Checks -/

/-- Whether something was built, and the fault if it was not. -/
def verdict {α : Type} (built : Except Fault α) : Except Fault Unit :=
  built.map fun _ ↦ ()

/-- What is built around the answer of a check has the verdict of the check. -/
@[simp]
theorem verdict_map {α β : Type} (check : Except Fault α) (f : α → β) :
    verdict (check.map f) = verdict check := by
  cases check <;> rfl

namespace Width

theorem verdict_ofBits (n : Nat) :
    verdict (ofBits n) =
      if n ∈ [8, 16, 32, 64] then .ok () else .error (.unsupportedWidth n) := by
  by_cases h : Valid n
  · rw [ofBits, dif_pos h, if_pos (valid_iff_mem.1 h)]
    rfl
  · rw [ofBits, dif_neg h, if_neg (mt valid_iff_mem.2 h)]
    rfl

end Width

namespace Config

/-- A machine can be built with these parameters. -/
def Legal (c : Config) : Prop :=
  c.xlen ∈ [8, 16, 32, 64] ∧ 1 ≤ c.regCount ∧ c.regCount ≤ 32
  deriving Decidable

/-- What is wrong with parameters that no machine can be built with: the width, or else the number
of registers. -/
def firstFault (c : Config) : Fault :=
  if c.xlen ∈ [8, 16, 32, 64] then .invalidRegisterCount c.regCount
  else .unsupportedWidth c.xlen

theorem exists_validate_iff {c : Config} : (∃ w, c.validate = .ok w) ↔ c.Legal := by
  constructor
  · rintro ⟨w, hw⟩
    obtain ⟨hxlen, hpos, hle⟩ := validate_eq_ok_iff.1 hw
    exact ⟨Width.valid_iff_mem.1 (hxlen ▸ w.valid), hpos, hle⟩
  · rintro ⟨hxlen, hpos, hle⟩
    exact ⟨⟨c.xlen, Width.valid_iff_mem.2 hxlen⟩, validate_eq_ok_iff.2 ⟨rfl, hpos, hle⟩⟩

theorem validate_of_not_legal {c : Config} (h : ¬c.Legal) : c.validate = .error c.firstFault := by
  rw [validate_eq_error_iff, firstFault, Width.valid_iff_mem]
  by_cases hxlen : c.xlen ∈ [8, 16, 32, 64]
  · have hcount : ¬(0 < c.regCount ∧ c.regCount ≤ maxRegCount) := fun hcount ↦ h ⟨hxlen, hcount⟩
    exact .inr ⟨hxlen, hcount, if_pos hxlen⟩
  · exact .inl ⟨hxlen, if_neg hxlen⟩

theorem verdict_validate (c : Config) :
    verdict c.validate = if c.Legal then .ok () else .error c.firstFault := by
  by_cases h : c.Legal
  · obtain ⟨w, hw⟩ := exists_validate_iff.2 h
    rw [hw, if_pos h]
    rfl
  · rw [validate_of_not_legal h, if_neg h]
    rfl

end Config

/-! ## Constructors

A unit is a width with a structure around it.  What is made of a configuration is made of its parts,
each of which is checked again. -/

theorem Alu.ofBits_eq_map (n : Nat) : ofBits n = (Width.ofBits n).map Alu.mk := by
  rw [ofBits]
  cases Width.ofBits n <;> rfl

theorem Comparator.ofBits_eq_map (n : Nat) : ofBits n = (Width.ofBits n).map Comparator.mk := by
  rw [ofBits]
  cases Width.ofBits n <;> rfl

theorem Datapath.verdict_ofConfig (c : Config) : verdict (ofConfig c) = verdict c.validate := by
  rcases hc : c.validate with fault | w
  · rw [ofConfig, hc]
    rfl
  · rw [ofConfig_of_validate hc]
    rfl

namespace RegisterFile

theorem verdict_build (count : Nat) (width : Width) (hardwireZero trace : Bool) :
    verdict (build count width hardwireZero trace) =
      if 1 ≤ count ∧ count ≤ 32 then .ok () else .error (.invalidRegisterCount count) := by
  rw [build, maxRegisters]
  by_cases h : count = 0 ∨ 32 < count
  · have hcount : ¬(1 ≤ count ∧ count ≤ 32) := by omega
    rw [if_pos h, if_neg hcount]
    rfl
  · have hcount : 1 ≤ count ∧ count ≤ 32 := by omega
    rw [if_neg h, if_pos hcount]
    rfl

theorem verdict_ofConfig (c : Config) : verdict (ofConfig c) = verdict c.validate := by
  rcases hc : c.validate with fault | w
  · rw [ofConfig, hc]
    rfl
  · rw [ofConfig_of_validate hc]
    rfl

end RegisterFile

/-! ## What is built -/

/-- A fresh file reads zero in all its registers. -/
theorem RegisterFile.Fresh.read_eq {r : RegisterFile} (h : r.Fresh) {index : Nat}
    (hlt : index < r.size) : r.read index = .ok 0 := by
  have hvalue := value_reset r index
  rw [h.reset_eq] at hvalue
  exact read_eq_ok_iff.2 ⟨hlt, hvalue.symm⟩

/-- A register file keeps of a written value what the width has room for. -/
theorem RegisterFile.exists_write_commit {r : RegisterFile} {index : Nat} (hlt : index < r.size)
    (v : Lane) :
    ∃ r' u, r.write index v = .ok r' ∧ u.toNat = v.toNat % 2 ^ r.width.bits ∧
      r'.staged = some (index, u) ∧
      r'.commit.read index = .ok (if r.isHardwired index then 0 else u) := by
  let r' : RegisterFile := { r with staged := some (index, v &&& r.mask) }
  refine ⟨r', v &&& r.mask, write_eq_ok_iff.2 ⟨hlt, rfl⟩, ?_, rfl, ?_⟩
  · rw [mask, Lane.toNat_and_mask v r.width.bits_le, Lane.unsigned_eq_mod]
  · have hvalue := value_commit_of_staged (r := r') rfl hlt
    exact read_eq_ok_iff.2 ⟨r'.size_commit.symm ▸ hlt, hvalue.symm⟩

/-- **All ways to build a machine agree on what it can be built of.**  Validating a configuration,
building its register file and building its datapath have the same verdict, whatever its numbers:
the widths are 8, 16, 32 and 64, which are the powers of two within the bounds, the register counts
those from one to 32, and of two faults the width is reported.  The arithmetic unit and the
comparator look at the width alone, and a file without a configuration at the count alone, with the
same verdicts.  What is built has the width and the count of the configuration: both units work at
that width, every register reads zero, and a written value is cut to the width.  The constructors of
the units, and the one that the file is built by, check what was checked before, and succeed. -/
theorem Config.constructors_agree (c : Config) :
    (∀ built ∈ [verdict c.validate, verdict (RegisterFile.ofConfig c),
        verdict (Datapath.ofConfig c)],
      built = if c.Legal then .ok () else .error c.firstFault) ∧
    (∀ n, (Width.Valid n ↔ n ∈ [8, 16, 32, 64]) ∧
      ∀ built ∈ [verdict (Width.ofBits n), verdict (Alu.ofBits n), verdict (Comparator.ofBits n),
          verdict (Alu.ofConfig { c with xlen := n })],
        built = if n ∈ [8, 16, 32, 64] then .ok () else .error (.unsupportedWidth n)) ∧
    (∀ n, verdict (RegisterFile.ofCount n) =
      if 1 ≤ n ∧ n ≤ 32 then .ok () else .error (.invalidRegisterCount n)) ∧
    (c.Legal → ∃ w r d, c.validate = .ok w ∧ RegisterFile.ofConfig c = .ok r ∧
      Datapath.ofConfig c = .ok d ∧
      (d.alu.width.bits = c.xlen ∧ d.comparator.width.bits = c.xlen) ∧
      (r.size = c.regCount ∧ ∀ i < c.regCount, r.read i = .ok 0) ∧
      (∀ i < c.regCount, ∀ v : Lane, ∃ r' u, r.write i v = .ok r' ∧
        u.toNat = v.toNat % 2 ^ c.xlen ∧ r'.staged = some (i, u) ∧
        r'.commit.read i = .ok (if i = 0 ∧ c.hardwireZero = true then 0 else u)) ∧
      (Alu.ofConfig c = .ok d.alu ∧ Comparator.ofBits c.xlen = .ok d.comparator ∧
        RegisterFile.build c.regCount w c.hardwireZero c.trace = .ok r)) := by
  refine ⟨?_, fun n ↦ ⟨Width.valid_iff_mem, ?_⟩, fun n ↦ RegisterFile.verdict_build n _ _ _,
    fun hlegal ↦ ?_⟩
  · rw [RegisterFile.verdict_ofConfig, Datapath.verdict_ofConfig, c.verdict_validate]
    simp only [List.mem_cons, List.not_mem_nil, or_false, or_self, forall_eq]
  · rw [Alu.ofConfig, Alu.ofBits_eq_map, Comparator.ofBits_eq_map, verdict_map, verdict_map,
      Width.verdict_ofBits]
    simp only [List.mem_cons, List.not_mem_nil, or_false, or_self, forall_eq]
  · obtain ⟨w, hvalid⟩ := exists_validate_iff.2 hlegal
    have hw : c.xlen = w.bits := (validate_eq_ok_iff.1 hvalid).1
    let r : RegisterFile := ⟨List.replicate c.regCount 0, w, c.hardwireZero, c.trace, none⟩
    have hr : RegisterFile.ofConfig c = .ok r := RegisterFile.ofConfig_of_validate hvalid
    have hsize : r.size = c.regCount := List.length_replicate
    refine ⟨w, r, _, hvalid, hr, Datapath.ofConfig_of_validate hvalid, ⟨hw.symm, hw.symm⟩,
      ⟨hsize, fun i hi ↦ ?_⟩, fun i hi v ↦ ?_, ?_, ?_, RegisterFile.build_of_validate hvalid⟩
    · exact RegisterFile.Fresh.read_eq (.inr ⟨c, hr⟩) (hsize.symm ▸ hi)
    · obtain ⟨r', u, hwrite, hu, hstaged, hread⟩ :=
        RegisterFile.exists_write_commit (r := r) (hsize.symm ▸ hi) v
      simp only [RegisterFile.isHardwired_iff] at hread
      exact ⟨r', u, hwrite, hw ▸ hu, hstaged, hread⟩
    · exact Alu.ofBits_eq_ok_iff.2 hw
    · exact Comparator.ofBits_eq_ok_iff.2 hw

/-- Two faults at once, of which the width is reported, and a machine of three registers. -/
theorem Config.constructors_agree_sixteen :
    verdict (RegisterFile.ofConfig { xlen := 24, regCount := 33 }) =
        .error (.unsupportedWidth 24) ∧
      ∃ r d, RegisterFile.ofConfig { xlen := 16, regCount := 3 } = .ok r ∧
        Datapath.ofConfig { xlen := 16, regCount := 3 } = .ok d ∧
        d.alu.width.bits = 16 ∧ r.size = 3 := by
  constructor
  · exact (constructors_agree { xlen := 24, regCount := 33 }).1 _ (by simp)
  · obtain ⟨-, -, -, hbuilt⟩ := constructors_agree { xlen := 16, regCount := 3 }
    obtain ⟨w, r, d, -, hr, hd, ⟨halu, -⟩, ⟨hsize, -⟩, -⟩ := hbuilt (by decide)
    exact ⟨r, d, hr, hd, halu, hsize⟩

end Hart
