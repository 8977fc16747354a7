import Mathlib.Data.Int.ModEq
import Hart.Proofs.Effect
import Hart.Proofs.Retirement

/-!
# A narrow machine is the truncation of a wide one

Sums, differences and bitwise operations make the low bits of their result of the low bits of their
operands; so does a left shift whose amount both machines take alike.  A program of such words runs
on a narrow machine as it does on a wide one, but for the bits that the narrow one has no room for.
Comparisons and right shifts look at high bits, and are left out.

* `Operation.apply_mod`, `Operation.sll_apply_mod` — the operations, as arithmetic on numbers.
* `Word.truncates` — the words, by their opcode and operation.
* `Datapath.evaluateWith_narrows` — one evaluation, whose sources agree in the low bits.
* `RegisterFile.Narrows` — the relation of two files that a step keeps (`Datapath.step_narrows`),
  and therefore a run (`Datapath.run_narrows`).  It speaks of the committed values only; a staged
  write cannot come between, as a retirement stages a write of its own.
* `Datapath.run_narrows_of_config` — the same for the machines of one configuration.
-/

set_option autoImplicit false

namespace Hart

open Lane

/-! ## Numbers -/

theorem wrap_eq_wrap_iff {bits : Nat} {x y : Int} :
    wrap bits x = wrap bits y ↔ x ≡ y [ZMOD 2 ^ bits] := by
  rw [← Int.natCast_inj, natCast_wrap, natCast_wrap]
  rfl

/-- What is left of a number at a larger power of two leaves the same at a smaller one. -/
theorem wrap_mod {n m : Nat} (h : n ≤ m) (x : Int) : wrap m x % 2 ^ n = wrap n x := by
  rw [← wrap_natCast, natCast_wrap, wrap_emod h]

theorem modEq_natCast_mod (bits a : Nat) : ((a % 2 ^ bits : Nat) : Int) ≡ a [ZMOD 2 ^ bits] := by
  rw [← wrap_eq_wrap_iff, wrap_natCast, wrap_natCast, Nat.mod_mod]

namespace Operation

/-- The operations whose low bits are made of the low bits of the operands. -/
def keepsLow : Operation → Bool
  | add | sub | and | or | xor => true
  | slt | sltu | sll | srl | sra => false

theorem apply_mod {n m : Nat} (h : n ≤ m) {o : Operation} (ho : o.keepsLow = true) (a b : Nat) :
    o.apply m a b % 2 ^ n = o.apply n (a % 2 ^ n) (b % 2 ^ n) := by
  cases o with
  | add =>
    refine (wrap_mod h _).trans (wrap_eq_wrap_iff.2 ?_)
    exact ((modEq_natCast_mod n a).add (modEq_natCast_mod n b)).symm
  | sub =>
    refine (wrap_mod h _).trans (wrap_eq_wrap_iff.2 ?_)
    exact ((modEq_natCast_mod n a).sub (modEq_natCast_mod n b)).symm
  | and => exact Nat.and_mod_two_pow
  | or => exact Nat.or_mod_two_pow
  | xor => exact Nat.xor_mod_two_pow
  | slt | sltu | sll | srl | sra => cases ho

/-- The amount of a shift that the narrow machine has all of is the same for both. -/
theorem shiftAmount_eq {w : Width} {imm : Int} (himm : imm % 64 < w.bits) :
    wrap w.bits imm % w.bits = (imm % 64).toNat := by
  rw [wrap]
  cases w <;>
    simp only [Width.bits_w8, Width.bits_w16, Width.bits_w32, Width.bits_w64] at himm ⊢ <;> omega

theorem sll_apply_mod {w w' : Width} (h : w.bits ≤ w'.bits) (a : Nat) {imm : Int}
    (himm : imm % 64 < w.bits) :
    Operation.sll.apply w'.bits a (wrap w'.bits imm) % 2 ^ w.bits =
      Operation.sll.apply w.bits (a % 2 ^ w.bits) (wrap w.bits imm) := by
  rw [Operation.apply, Operation.apply, shiftAmount_eq himm, shiftAmount_eq (by omega)]
  refine (wrap_mod h _).trans (wrap_eq_wrap_iff.2 ?_)
  exact ((modEq_natCast_mod w.bits a).mul_right _).symm

end Operation

namespace Lane

/-- A number of a lane at fewer bits is what its number at more bits leaves. -/
theorem unsigned_mod {n m : Nat} (h : n ≤ m) (v : Lane) : unsigned m v % 2 ^ n = unsigned n v := by
  rw [unsigned_eq_mod, unsigned_eq_mod, Nat.mod_mod_of_dvd _ (Nat.pow_dvd_pow 2 h)]

end Lane

/-! ## Words -/

namespace Word

/-- The low bits of what the word does are made of the low bits of what it reads: it is no
set-less-than, and no shift but one to the left, by an amount that is below `bits`. -/
def truncates (bits : Nat) (w : Word) : Bool :=
  match Semantics.opcode? w with
  | some .op => (Semantics.operation true w).keepsLow
  | some .opImm =>
    (Semantics.operation false w).keepsLow ||
      (Semantics.operation false w = .sll && Semantics.immI w % 2 ^ 6 < bits)
  | some .load | some .store | some .branch | some .jal | some .jalr | some .lui | some .auipc
  | none => true

theorem signals_of_keepsLow {o : Operation} (h : o.keepsLow = true) : o.signals = (o, .equal) := by
  cases o <;> first | rfl | cases h

/-- What the control signals of such a word ask for. -/
theorem control_of_truncates {bits : Nat} {w : Word} (h : w.truncates bits = true) :
    (w.control.operation.keepsLow = true ∨ (w.control.operation = .sll ∧
      w.control.sourceB = .imm ∧ w.immediate.toInt % 64 < bits)) ∧
    (w.control.branch = true ∨ w.control.comparison = .equal) := by
  rw [truncates, Semantics.opcode?_eq_op?] at h
  rcases ho : w.op? with _ | o
  · rw [control_of_op?_eq_none ho]
    exact ⟨.inl rfl, .inr rfl⟩
  · have hfamily := fun twoRegisters ↦ Control.ofFamily_eq_signals twoRegisters w
    have himm := toInt_immediate ho
    rw [ho] at h
    rw [control_of_op? ho]
    cases o with
    | op =>
      have hsignals := (hfamily true).trans (signals_of_keepsLow h)
      refine ⟨.inl ?_, .inr (congrArg Prod.snd hsignals)⟩
      exact (congrArg (fun p ↦ p.1.keepsLow) hsignals).trans h
    | opImm =>
      simp only [Bool.or_eq_true, Bool.and_eq_true, decide_eq_true_eq] at h
      rcases h with h | ⟨h, hbound⟩
      · have hsignals := (hfamily false).trans (signals_of_keepsLow h)
        refine ⟨.inl ?_, .inr (congrArg Prod.snd hsignals)⟩
        exact (congrArg (fun p ↦ p.1.keepsLow) hsignals).trans h
      · have hsignals := (hfamily false).trans (congrArg Operation.signals h)
        exact ⟨.inr ⟨congrArg Prod.fst hsignals, rfl, himm ▸ hbound⟩,
          .inr (congrArg Prod.snd hsignals)⟩
    | branch => exact ⟨.inl rfl, .inl rfl⟩
    | load | store | jalr | jal | lui | auipc => exact ⟨.inl rfl, .inr rfl⟩

end Word

/-! ## Evaluations -/

namespace Datapath

theorem unsigned_selectA (source : SourceA) {bits : Nat} {a a' : Lane} (pc : Lane)
    (h : unsigned bits a = unsigned bits a') :
    unsigned bits (source.select a pc) = unsigned bits (source.select a' pc) := by
  cases source with
  | reg1 => exact h
  | pc | zero => rfl

theorem unsigned_selectB (source : SourceB) {bits : Nat} {b b' : Lane} (imm : BitVec 32)
    (h : unsigned bits b = unsigned bits b') :
    unsigned bits (source.select b imm) = unsigned bits (source.select b' imm) := by
  cases source with
  | reg2 => exact h
  | imm => rfl

variable {d d' : Datapath} {w : Word} {a a' b b' : Lane}

theorem toNat_alu_out_mod (hle : d.width.bits ≤ d'.width.bits) (h : w.truncates d.width.bits = true)
    (pc : Lane) (ha : unsigned d.width.bits a = unsigned d.width.bits a')
    (hb : unsigned d.width.bits b = unsigned d.width.bits b') :
    (d.evaluateWith w pc a b).alu.out.toNat =
      (d'.evaluateWith w pc a' b').alu.out.toNat % 2 ^ d.width.bits := by
  rw [toNat_alu_out, toNat_alu_out, unsigned_selectA _ pc ha]
  rcases (Word.control_of_truncates h).1 with hlow | ⟨hop, himm, hbound⟩
  · rw [Operation.apply_mod hle hlow, unsigned_mod hle, unsigned_mod hle,
      unsigned_selectB _ w.immediate hb]
  · rw [hop, himm, unsigned_select_imm, unsigned_select_imm, Operation.sll_apply_mod hle _ hbound,
      unsigned_mod hle]

/-- Such a word takes its result from the arithmetic unit. -/
theorem result_of_truncates {bits : Nat} (h : w.truncates bits = true) (d : Datapath)
    (pc a b : Lane) :
    (d.evaluateWith w pc a b).result = (d.evaluateWith w pc a b).alu.out := by
  have hcond : (!w.control.branch && w.control.comparison != .equal) = false := by
    rcases (Word.control_of_truncates h).2 with hbranch | hcomparison
    · rw [hbranch]
      rfl
    · rw [hcomparison]
      cases w.control.branch <;> rfl
  rw [evaluateWith]
  simp only [hcond, Bool.false_eq_true, if_false]

end Datapath

/-- The first evaluation shows the low bits of what the second shows. -/
structure Evaluation.Narrows (bits : Nat) (e e' : Evaluation) : Prop where
  out : e.alu.out.toNat = e'.alu.out.toNat % 2 ^ bits
  memAddr : e.memAddr.map BitVec.toNat = e'.memAddr.map fun v ↦ v.toNat % 2 ^ bits
  storeData : e.storeData.map BitVec.toNat = e'.storeData.map fun v ↦ v.toNat % 2 ^ bits

/-- The steps fail alike, or their evaluations show the same low bits. -/
def Outcome.Narrows (bits : Nat) : Outcome → Outcome → Prop
  | .retired e, .retired e' => e.Narrows bits e'
  | .unretired e fault, .unretired e' fault' => e.Narrows bits e' ∧ fault = fault'
  | .refused fault, .refused fault' => fault = fault'
  | _, _ => False

namespace Datapath

variable {d d' : Datapath} {w : Word} {a a' b b' : Lane}

theorem evaluateWith_narrows (hle : d.width.bits ≤ d'.width.bits)
    (h : w.truncates d.width.bits = true) (pc : Lane) (ha : a.toNat = a'.toNat % 2 ^ d.width.bits)
    (hb : b.toNat = b'.toNat % 2 ^ d.width.bits) :
    (d.evaluateWith w pc a b).Narrows d.width.bits (d'.evaluateWith w pc a' b') := by
  have hcut : ∀ {u u' : Lane}, u.toNat = u'.toNat % 2 ^ d.width.bits →
      unsigned d.width.bits u = unsigned d.width.bits u' := by
    intro u u' hu
    rw [unsigned_eq_mod, unsigned_eq_mod, hu, Nat.mod_mod]
  have hout := toNat_alu_out_mod hle h pc (hcut ha) (hcut hb)
  refine ⟨hout, ?_, ?_⟩
  · have haddr : ∀ (d : Datapath) (a b : Lane), (d.evaluateWith w pc a b).memAddr =
        if w.control.memRead || w.control.memWrite then some (d.evaluateWith w pc a b).alu.out
        else none := fun _ _ _ ↦ rfl
    rw [haddr, haddr]
    split
    · exact congrArg some hout
    · rfl
  · rw [storeData_evaluateWith, storeData_evaluateWith]
    split
    · exact congrArg some hb
    · rfl

/-- Both words write the same register, with the same low bits, or both write none. -/
theorem writeBack_narrows (hle : d.width.bits ≤ d'.width.bits) (h : w.truncates d.width.bits = true)
    (pc : Lane) (ha : a.toNat = a'.toNat % 2 ^ d.width.bits)
    (hb : b.toNat = b'.toNat % 2 ^ d.width.bits) :
    (d.evaluateWith w pc a b).writeBack.map (fun back ↦ (back.1, back.2.toNat)) =
      (d'.evaluateWith w pc a' b').writeBack.map fun back ↦
        (back.1, back.2.toNat % 2 ^ d.width.bits) := by
  have hout := (evaluateWith_narrows hle h pc ha hb).out
  rw [writeBack_eq, writeBack_eq, result_of_truncates h, result_of_truncates h]
  split
  · exact congrArg (fun n ↦ some (Semantics.rd w, n)) hout
  · rfl

end Datapath

/-! ## Register files -/

namespace RegisterFile

/-- The first file holds the low bits of what the second holds. -/
structure Narrows (r r' : RegisterFile) : Prop where
  size : r'.size = r.size
  hardwireZero : r'.hardwireZero = r.hardwireZero
  width : r.width.bits ≤ r'.width.bits
  value : ∀ index, (r.value index).toNat = (r'.value index).toNat % 2 ^ r.width.bits

namespace Narrows

variable {r r' : RegisterFile}

/-- Written values are cut to the width of their file, so their low bits are all that counts. -/
theorem put (h : r.Narrows r') {index : Nat} (hlt : index < r.size) {v v' : Lane}
    (hv : v.toNat = v'.toNat % 2 ^ r.width.bits) :
    (r.put index v).Narrows (r'.put index v') := by
  have hsame := SameSettings.put r index v
  have hsame' := SameSettings.put r' index v'
  refine ⟨hsame'.size.trans (h.size.trans hsame.size.symm),
    hsame'.hardwireZero.trans (h.hardwireZero.trans hsame.hardwireZero.symm), h.width, ?_⟩
  intro i
  have hwidth : (r.put index v).width = r.width := rfl
  rw [hwidth]
  by_cases hi : i = index
  · subst hi
    rw [value_put_self hlt, value_put_self (h.size.symm ▸ hlt),
      isHardwired_congr h.hardwireZero]
    split
    · rfl
    · rw [mask, mask, toNat_and_mask v r.width.bits_le, toNat_and_mask v' r'.width.bits_le,
        unsigned_mod h.width, unsigned_eq_mod, unsigned_eq_mod, hv, Nat.mod_mod]
  · rw [value_put_of_ne hi, value_put_of_ne hi, h.value]

end Narrows

end RegisterFile

/-! ## Runs -/

namespace Datapath

variable {d d' : Datapath} {r r' : RegisterFile} {w : Word}

/-- An evaluation fails on both files, with one fault, or on neither. -/
theorem evaluate_eq_error_congr (hsize : r'.size = r.size) (pc : Lane) {fault : Fault} :
    d'.evaluate w pc r' = .error fault ↔ d.evaluate w pc r = .error fault := by
  rw [evaluate_eq_error_iff, evaluate_eq_error_iff, hsize]

theorem retireOn_narrows (h : r.Narrows r') {e e' : Evaluation}
    (hback : e.writeBack.map (fun back ↦ (back.1, back.2.toNat)) =
      e'.writeBack.map fun back ↦ (back.1, back.2.toNat % 2 ^ r.width.bits)) :
    (retireOn r' e').1 = (retireOn r e).1 ∧ (retireOn r e).2.Narrows (retireOn r' e').2 := by
  rw [retireOn_eq, retireOn_eq, h.size]
  rcases he : e.writeBack with _ | ⟨index, v⟩
  · rw [he, Option.map_none, eq_comm, Option.map_eq_none_iff] at hback
    rw [hback]
    exact ⟨rfl, h⟩
  · rw [he, Option.map_some, eq_comm, Option.map_eq_some_iff] at hback
    obtain ⟨⟨index', v'⟩, he', hpair⟩ := hback
    obtain ⟨rfl, hv⟩ := Prod.mk.inj hpair
    rw [he']
    dsimp only
    split
    · rename_i hlt
      exact ⟨rfl, h.put hlt hv.symm⟩
    · exact ⟨rfl, h⟩

theorem step_narrows (h : r.Narrows r') (hd : d.width = r.width) (hd' : d'.width = r'.width)
    (hw : w.truncates r.width.bits = true) (pc : Lane) :
    Outcome.Narrows r.width.bits (d.step r w pc).1 (d'.step r' w pc).1 ∧
      (d.step r w pc).2.Narrows (d'.step r' w pc).2 := by
  rcases he : d.evaluate w pc r with fault | e
  · have he' : d'.evaluate w pc r' = .error fault := (evaluate_eq_error_congr h.size pc).2 he
    rw [step_of_refused he, step_of_refused he']
    exact ⟨rfl, h⟩
  · rcases he' : d'.evaluate w pc r' with fault | e'
    · rw [(evaluate_eq_error_congr h.size pc).1 he'] at he
      cases he
    · rw [step_of_evaluate_eq_ok he, step_of_evaluate_eq_ok he']
      obtain ⟨_, rfl⟩ := evaluate_eq_ok_iff_value.1 he
      obtain ⟨_, rfl⟩ := evaluate_eq_ok_iff_value.1 he'
      have hle : d.width.bits ≤ d'.width.bits := hd ▸ hd' ▸ h.width
      have h1 := h.value (Semantics.rs1 w)
      have h2 := h.value (Semantics.rs2 w)
      rw [← hd] at hw h1 h2
      have hshow := evaluateWith_narrows hle hw pc h1 h2
      have hback := writeBack_narrows hle hw pc h1 h2
      rw [hd] at hshow hback
      obtain ⟨hanswer, hfile⟩ := retireOn_narrows h hback
      rw [hanswer]
      refine ⟨?_, hfile⟩
      rcases (retireOn r _).1 with _ | fault
      · exact hshow
      · exact ⟨hshow, rfl⟩

theorem run_narrows (d d' : Datapath) (h : r.Narrows r') (hd : d.width = r.width)
    (hd' : d'.width = r'.width) (steps : List (Word × Lane))
    (hsteps : ∀ s ∈ steps, s.1.truncates r.width.bits = true) :
    List.Forall₂ (Outcome.Narrows r.width.bits) (d.run r steps).1 (d'.run r' steps).1 ∧
      (d.run r steps).2.Narrows (d'.run r' steps).2 := by
  induction steps generalizing r r' with
  | nil => exact ⟨.nil, h⟩
  | cons s steps ih =>
    obtain ⟨w, pc⟩ := s
    obtain ⟨hfirst, hrest⟩ := List.forall_mem_cons.1 hsteps
    obtain ⟨hout, hfile⟩ := step_narrows h hd hd' hfirst pc
    have hwidth : (d.step r w pc).2.width = r.width := (sameSettings_step d r w pc).width
    have hwidth' : (d'.step r' w pc).2.width = r'.width := (sameSettings_step d' r' w pc).width
    obtain ⟨houts, hend⟩ := ih hfile (hd.trans hwidth.symm) (hd'.trans hwidth'.symm)
      (hwidth.symm ▸ hrest)
    rw [run_cons, run_cons]
    exact ⟨.cons hout (hwidth ▸ houts), hend⟩

end Datapath

/-- The committed registers of the two files are the same modulo `2 ^ bits`. -/
def RegisterFile.CongruentMod (bits : Nat) (r r' : RegisterFile) : Prop :=
  ∀ index, (r.read index).map (fun v ↦ v.toNat % 2 ^ bits) =
    (r'.read index).map fun v ↦ v.toNat % 2 ^ bits

namespace RegisterFile

variable {r r' : RegisterFile}

theorem Narrows.congruentMod (h : r.Narrows r') : r.CongruentMod r.width.bits r' := by
  intro index
  rw [read_eq, read_eq, h.size]
  split
  · rw [Except.map, Except.map, h.value, Nat.mod_mod]
  · rfl

theorem CongruentMod.narrows (h : r.CongruentMod r.width.bits r') (hr : r.WellFormed)
    (hsize : r'.size = r.size) (hzero : r'.hardwireZero = r.hardwireZero)
    (hwidth : r.width.bits ≤ r'.width.bits) : r.Narrows r' := by
  refine ⟨hsize, hzero, hwidth, fun index ↦ ?_⟩
  by_cases hlt : index < r.size
  · have hread := h index
    rw [read_eq, read_eq, hsize, if_pos hlt, if_pos hlt, Except.map, Except.map,
      Nat.mod_eq_of_lt (hr.value_lt index)] at hread
    exact Except.ok.inj hread
  · rw [value_of_size_le (Nat.not_lt.1 hlt), value_of_size_le (hsize ▸ Nat.not_lt.1 hlt)]
    rfl

end RegisterFile

namespace Datapath

/-- Two machines whose files differ in the width and in the registers only. -/
theorem run_congruentMod {d d' : Datapath} {r r' : RegisterFile} (hr : r.WellFormed)
    (hd : d.width = r.width) (hd' : d'.width = r'.width) (hsize : r'.size = r.size)
    (hzero : r'.hardwireZero = r.hardwireZero) (hle : r.width.bits ≤ r'.width.bits)
    (hcongr : r.CongruentMod r.width.bits r') (steps : List (Word × Lane))
    (hsteps : ∀ s ∈ steps, s.1.truncates r.width.bits = true) :
    (∀ k, (d.run r (steps.take k)).2.CongruentMod r.width.bits (d'.run r' (steps.take k)).2) ∧
      List.Forall₂ (Outcome.Narrows r.width.bits) (d.run r steps).1 (d'.run r' steps).1 := by
  have hrun := run_narrows d d' (hcongr.narrows hr hsize hzero hle) hd hd'
  refine ⟨fun k ↦ ?_, (hrun steps hsteps).1⟩
  have hend := (hrun (steps.take k) fun s hs ↦ hsteps s (List.mem_of_mem_take hs)).2
  have hwidth := (sameSettings_run d r (steps.take k)).width
  exact hwidth ▸ hend.congruentMod

/-- **A narrow machine is the truncation of a wide one.**  Two machines have one configuration but
for the width.  Their committed registers are the same numbers modulo the narrow width, whatever
else happened to the two files so far.  Then let both run a program that neither compares nor
shifts right, and shifts left only by amounts below the narrow width: after every word the
registers are still the same, each word fails on both machines with one fault or on neither, and
where it is evaluated the narrow machine shows the low bits of the output, of the address and of
the stored value of the wide one. -/
theorem run_narrows_of_config (c : Config) (width width' : Width)
    (hcount : 0 < c.regCount ∧ c.regCount ≤ maxRegisters) (hlt : width.bits < width'.bits) :
    ∃ (d d' : Datapath) (r₀ r₀' : RegisterFile),
      ofConfig { c with xlen := width.bits } = .ok d ∧
      ofConfig { c with xlen := width'.bits } = .ok d' ∧
      RegisterFile.ofConfig { c with xlen := width.bits } = .ok r₀ ∧
      RegisterFile.ofConfig { c with xlen := width'.bits } = .ok r₀' ∧
      ∀ r r' : RegisterFile, r₀.Reaches r → r₀'.Reaches r' → r.CongruentMod width.bits r' →
        ∀ steps : List (Word × Lane), (∀ s ∈ steps, s.1.truncates width.bits = true) →
          (∀ k, (d.run r (steps.take k)).2.CongruentMod width.bits
            (d'.run r' (steps.take k)).2) ∧
          List.Forall₂ (Outcome.Narrows width.bits) (d.run r steps).1 (d'.run r' steps).1 := by
  have hmachine : ∀ w : Width,
      ofConfig { c with xlen := w.bits } = .ok (.ofWidth w c.trace) ∧
        RegisterFile.ofConfig { c with xlen := w.bits } =
          .ok ⟨List.replicate c.regCount 0, w, c.hardwireZero, c.trace, none⟩ := by
    intro w
    have hc : Config.validate { c with xlen := w.bits } = .ok w :=
      Config.validate_eq_ok_iff.2 ⟨rfl, hcount⟩
    exact ⟨ofConfig_of_validate hc, RegisterFile.ofConfig_of_validate hc⟩
  obtain ⟨hd, hr₀⟩ := hmachine width
  obtain ⟨hd', hr₀'⟩ := hmachine width'
  refine ⟨_, _, _, _, hd, hd', hr₀, hr₀', fun r r' hreach hreach' hcongr steps hsteps ↦ ?_⟩
  have hsame := hreach.sameSettings
  have hsame' := hreach'.sameSettings
  have hwf := hreach.wellFormed (RegisterFile.Fresh.wellFormed (.inr ⟨_, hr₀⟩))
  have hw : r.width = width := hsame.width
  have hw' : r'.width = width' := hsame'.width
  subst hw hw'
  exact run_congruentMod hwf rfl rfl (hsame'.size.trans hsame.size.symm)
    (hsame'.hardwireZero.trans hsame.hardwireZero.symm) (Nat.le_of_lt hlt) hcongr steps hsteps

/-- Eight bits and 32: `x1` is minus one, `x2` is it four places to the left, `x3` is the negative
of that, and then `x1` is stored above `x2`; on the way the narrow machine drops all that carries
out of it. -/
theorem run_narrows_of_config_four :
    ∃ (d d' : Datapath) (r₀ r₀' : RegisterFile),
      ofConfig { xlen := 8, regCount := 4 } = .ok d ∧
      ofConfig { xlen := 32, regCount := 4 } = .ok d' ∧
      RegisterFile.ofConfig { xlen := 8, regCount := 4 } = .ok r₀ ∧
      RegisterFile.ofConfig { xlen := 32, regCount := 4 } = .ok r₀' ∧
      let steps := [(0xfff00093, 0), (0x00409113, 4), (0x402001b3, 8), (0x00112423, 12)]
      (d.run r₀ steps).2.numbers = [0, 255, 240, 16] ∧
        (d'.run r₀' steps).2.numbers = [0, 0xffffffff, 0xfffffff0, 16] ∧
        (d.run r₀ (steps.take 3)).2.CongruentMod 8 (d'.run r₀' (steps.take 3)).2 ∧
        List.Forall₂ (Outcome.Narrows 8) (d.run r₀ steps).1 (d'.run r₀' steps).1 := by
  obtain ⟨d, d', r₀, r₀', hd, hd', hr₀, hr₀', hrun⟩ :=
    run_narrows_of_config { regCount := 4 } .w8 .w32 (by decide) (by decide)
  refine ⟨d, d', r₀, r₀', hd, hd', hr₀, hr₀', ?_⟩
  obtain rfl := Except.ok.inj hd
  obtain rfl := Except.ok.inj hd'
  obtain rfl := Except.ok.inj hr₀
  obtain rfl := Except.ok.inj hr₀'
  have hzero : RegisterFile.CongruentMod 8 ⟨List.replicate 4 0, .w8, true, false, none⟩
      ⟨List.replicate 4 0, .w32, true, false, none⟩ := fun _ ↦ rfl
  have hsteps : List.all [(0xfff00093, 0), (0x00409113, 4), (0x402001b3, 8), (0x00112423, 12)]
      (fun s : Word × Lane ↦ s.1.truncates 8) = true := rfl
  obtain ⟨htake, houts⟩ := hrun _ _ .refl .refl hzero _ (List.all_eq_true.1 hsteps)
  exact ⟨by decide, by decide, htake 3, houts⟩

end Datapath
end Hart
