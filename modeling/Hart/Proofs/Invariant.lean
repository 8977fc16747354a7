import Hart.Reachable
import Hart.RegisterFile.Dump
import Hart.Proofs.TwosComplement
import Hart.Semantics

/-!
# The invariant of a register file

Whatever a caller does with a register file, its settings stay and its registers hold numbers of
its width.  This file says so for every file that another one reaches.

* `RegisterFile.numbers` — the registers as the machine of `Semantics`, which reads the same values
  (`RegisterFile.toNat_value`).
* `RegisterFile.SameSettings` — two files differ at most in their registers and the staged write.
* `RegisterFile.WellFormed` — the invariant.  Every fresh file has it (`Fresh.wellFormed`), and
  every operation keeps it (`WellFormed.write`, `WellFormed.commit`, `WellFormed.reset`).
* `Reachable.wellFormed` — so every reachable file has it.
* `WellFormed.getElem?_regs_eq_some_iff` — what is stored is what reads answer, register zero
  included; dumps and equality look at what is stored.
* `Reaches.representation` — all of it, for the files that one built from a configuration reaches.
-/

set_option autoImplicit false

namespace Hart
namespace RegisterFile

/-! ## Numbers -/

/-- The registers as numbers, which is the machine that `Semantics` works on. -/
def numbers (r : RegisterFile) : List Nat :=
  r.regs.map BitVec.toNat

@[simp]
theorem length_numbers (r : RegisterFile) : r.numbers.length = r.size :=
  List.length_map _

theorem toNat_value (r : RegisterFile) (index : Nat) :
    (r.value index).toNat = Semantics.value r.hardwireZero r.numbers index := by
  have hget : (r.regs.getD index 0).toNat = r.numbers.getD index 0 := by
    rw [numbers, List.getD_eq_getElem?_getD, List.getD_eq_getElem?_getD, List.getElem?_map]
    cases r.regs[index]? <;> rfl
  rw [value, Semantics.value, ← hget]
  simp only [isHardwired_iff]
  exact apply_ite BitVec.toNat _ _ _

/-! ## Settings -/

theorem isHardwired_congr {r r' : RegisterFile} (h : r'.hardwireZero = r.hardwireZero)
    (index : Nat) : r'.isHardwired index = r.isHardwired index := by
  rw [isHardwired, h, isHardwired]

theorem mask_congr {r r' : RegisterFile} (h : r'.width = r.width) : r'.mask = r.mask := by
  rw [mask, h, mask]

/-- The files have the same settings, whatever is in their registers. -/
structure SameSettings (r r' : RegisterFile) : Prop where
  size : r'.size = r.size
  width : r'.width = r.width
  hardwireZero : r'.hardwireZero = r.hardwireZero
  trace : r'.trace = r.trace

namespace SameSettings

theorem refl (r : RegisterFile) : r.SameSettings r := ⟨rfl, rfl, rfl, rfl⟩

theorem trans {r r' r'' : RegisterFile} (h : r.SameSettings r') (h' : r'.SameSettings r'') :
    r.SameSettings r'' :=
  ⟨h'.size.trans h.size, h'.width.trans h.width, h'.hardwireZero.trans h.hardwireZero,
    h'.trace.trans h.trace⟩

theorem write {r r' : RegisterFile} {index : Nat} {v : Lane} (h : r.write index v = .ok r') :
    r.SameSettings r' := by
  obtain ⟨_, rfl⟩ := write_eq_ok_iff.1 h
  exact ⟨rfl, rfl, rfl, rfl⟩

theorem commit (r : RegisterFile) : r.SameSettings r.commit := by
  refine ⟨r.size_commit, ?_, ?_, ?_⟩ <;>
  · rw [RegisterFile.commit]
    split <;> rfl

theorem reset (r : RegisterFile) : r.SameSettings r.reset :=
  ⟨r.size_reset, rfl, rfl, rfl⟩

theorem isHardwired {r r' : RegisterFile} (h : r.SameSettings r') (index : Nat) :
    r'.isHardwired index = r.isHardwired index :=
  isHardwired_congr h.hardwireZero index

theorem mask {r r' : RegisterFile} (h : r.SameSettings r') : r'.mask = r.mask :=
  mask_congr h.width

/-- A reset forgets all but the settings. -/
theorem reset_eq_reset {r r' : RegisterFile} (h : r.SameSettings r') : r'.reset = r.reset := by
  rw [RegisterFile.reset, RegisterFile.reset, h.size, h.width, h.hardwireZero, h.trace]

end SameSettings

/-! ## The invariant -/

/-- What is true of a file at all times. -/
structure WellFormed (r : RegisterFile) : Prop where
  size_pos : 0 < r.size
  size_le : r.size ≤ maxRegisters
  /-- The registers hold numbers of the width. -/
  regs_lt : ∀ v ∈ r.regs, v.toNat < 2 ^ r.width.bits
  /-- A write that is staged names a register, and a number of the width. -/
  staged_lt : ∀ index v, r.staged = some (index, v) →
    index < r.size ∧ v.toNat < 2 ^ r.width.bits
  /-- Where register zero is hardwired, it holds zero too. -/
  hardwired : r.hardwireZero = true → r.regs[0]? = some 0

namespace WellFormed

theorem write {r r' : RegisterFile} {index : Nat} {v : Lane} (h : r.WellFormed)
    (hw : r.write index v = .ok r') : r'.WellFormed := by
  obtain ⟨hlt, rfl⟩ := write_eq_ok_iff.1 hw
  refine ⟨h.size_pos, h.size_le, h.regs_lt, ?_, h.hardwired⟩
  rintro _ _ ⟨⟩
  exact ⟨hlt, Lane.toNat_and_mask_lt v r.width.bits_le⟩

theorem commit {r : RegisterFile} (h : r.WellFormed) : r.commit.WellFormed := by
  rw [RegisterFile.commit]
  split
  · exact h
  · rename_i index v hstaged
    obtain ⟨hindex, hv⟩ := h.staged_lt index v hstaged
    by_cases hzero : r.isHardwired index = true
    · rw [if_pos hzero]
      exact ⟨h.size_pos, h.size_le, h.regs_lt, by rintro _ _ ⟨⟩, h.hardwired⟩
    · rw [if_neg hzero]
      have hsize : (r.regs.set index v).length = r.size := List.length_set
      refine ⟨Nat.lt_of_lt_of_eq h.size_pos hsize.symm,
        Nat.le_trans (Nat.le_of_eq hsize) h.size_le, ?_, by rintro _ _ ⟨⟩, ?_⟩
      · intro u hu
        obtain hmem | rfl := List.mem_or_eq_of_mem_set hu
        · exact h.regs_lt u hmem
        · exact hv
      · intro hhard
        have hne : index ≠ 0 := by
          rintro rfl
          exact hzero (isHardwired_iff.2 ⟨rfl, hhard⟩)
        rw [List.getElem?_set_ne hne]
        exact h.hardwired hhard

theorem reset {r : RegisterFile} (h : r.WellFormed) : r.reset.WellFormed := by
  refine ⟨r.size_reset ▸ h.size_pos, r.size_reset ▸ h.size_le, ?_, by rintro _ _ ⟨⟩, ?_⟩
  · intro v hv
    rw [List.eq_of_mem_replicate hv]
    exact Nat.two_pow_pos _
  · intro _
    exact List.getElem?_replicate_of_lt h.size_pos

theorem value_lt {r : RegisterFile} (h : r.WellFormed) (index : Nat) :
    (r.value index).toNat < 2 ^ r.width.bits := by
  have hzero : (0 : Lane).toNat < 2 ^ r.width.bits := Nat.two_pow_pos _
  rw [value]
  split
  · exact hzero
  · rw [List.getD_eq_getElem?_getD]
    cases hget : r.regs[index]? with
    | none => exact hzero
    | some v => exact h.regs_lt v (List.mem_of_getElem? hget)

/-- The values of a file have no bits above its width. -/
theorem unsigned_value {r : RegisterFile} (h : r.WellFormed) (index : Nat) :
    Lane.unsigned r.width.bits (r.value index) = (r.value index).toNat :=
  Lane.unsigned_of_lt (h.value_lt index)

end WellFormed

/-! ## Reachable files -/

/-- A fresh file holds zeros, and nothing is staged in it. -/
theorem Fresh.eq {r : RegisterFile} (h : r.Fresh) :
    0 < r.size ∧ r.size ≤ maxRegisters ∧ r.regs = List.replicate r.size 0 ∧ r.staged = none := by
  obtain ⟨count, hbuild⟩ | ⟨c, hbuild⟩ := h
  · obtain ⟨⟨hpos, hle⟩, rfl⟩ := build_eq_ok_iff.1 hbuild
    simp only [size, List.length_replicate, hpos, hle, and_self]
  · obtain ⟨w, hc, rfl⟩ := ofConfig_eq_ok_iff.1 hbuild
    obtain ⟨⟨hpos, hle⟩, -⟩ := build_eq_ok_iff.1 (build_of_validate hc)
    simp only [size, List.length_replicate, hpos, hle, and_self]

theorem Fresh.reset_eq {r : RegisterFile} (h : r.Fresh) : r.reset = r := by
  obtain ⟨_, _, hregs, hstaged⟩ := h.eq
  rw [reset, ← hregs, ← hstaged]

theorem Fresh.wellFormed {r : RegisterFile} (h : r.Fresh) : r.WellFormed := by
  obtain ⟨hpos, hle, hregs, hstaged⟩ := h.eq
  have hzero : ∀ v ∈ r.regs, v.toNat < 2 ^ r.width.bits := by
    intro v hv
    rw [hregs] at hv
    rw [List.eq_of_mem_replicate hv]
    exact Nat.two_pow_pos _
  refine ⟨hpos, hle, hzero, by rw [hstaged]; rintro _ _ ⟨⟩, fun _ ↦ ?_⟩
  rw [hregs]
  exact List.getElem?_replicate_of_lt hpos

/-- What holds of a file, and is kept by writing, committing and resetting, holds of every file
that it reaches. -/
theorem Reaches.induct {P : RegisterFile → Prop} {r r' : RegisterFile} (h : r.Reaches r')
    (hr : P r) (hwrite : ∀ {s s' index v}, P s → s.write index v = .ok s' → P s')
    (hcommit : ∀ {s}, P s → P s.commit) (hreset : ∀ {s}, P s → P s.reset) : P r' := by
  induction h with
  | refl => exact hr
  | @perform s call _ ih =>
    cases call with
    | read index =>
      rw [perform_read_snd]
      exact ih
    | write index v =>
      rw [perform_write]
      split
      · rename_i hw
        exact hwrite ih hw
      · exact ih
    | commit => exact hcommit ih
    | reset => exact hreset ih
  | @retire s s' e _ hretire ih =>
    rw [Datapath.retire_eq_ok_iff] at hretire
    split at hretire
    · obtain ⟨staged, hw, rfl⟩ := hretire
      exact hcommit (hwrite ih hw)
    · exact hretire ▸ ih

theorem Reaches.wellFormed {r r' : RegisterFile} (h : r.Reaches r') (hr : r.WellFormed) :
    r'.WellFormed :=
  h.induct hr .write .commit .reset

theorem Reaches.sameSettings {r r' : RegisterFile} (h : r.Reaches r') : r.SameSettings r' :=
  h.induct (.refl r) (fun hs hw ↦ hs.trans (.write hw)) (fun hs ↦ hs.trans (.commit _))
    fun hs ↦ hs.trans (.reset _)

/-- **Every reachable file has the invariant.** -/
theorem Reachable.wellFormed {r : RegisterFile} (h : r.Reachable) : r.WellFormed := by
  obtain ⟨r₀, hfresh, hreach⟩ := reachable_iff.1 h
  exact hreach.wellFormed hfresh.wellFormed

/-! ## What is stored and what is read

Reading hides what a hardwired register zero stores; a dump and the equality of two files do not.
The last clause of the invariant is what makes the two views agree. -/

theorem WellFormed.getD_regs {r : RegisterFile} (h : r.WellFormed) (index : Nat) :
    r.regs.getD index 0 = r.value index := by
  rw [value]
  by_cases hhard : r.isHardwired index = true
  · obtain ⟨rfl, hzero⟩ := isHardwired_iff.1 hhard
    rw [if_pos hhard, List.getD_eq_getElem?_getD, h.hardwired hzero, Option.getD_some]
  · rw [if_neg hhard]

theorem WellFormed.getElem?_regs_eq_some_iff {r : RegisterFile} (h : r.WellFormed) {index : Nat}
    {v : Lane} : r.regs[index]? = some v ↔ r.read index = .ok v := by
  rw [read_eq_ok_iff, ← h.getD_regs, List.getD_eq_getElem?_getD]
  constructor
  · intro hget
    rw [hget, Option.getD_some]
    exact ⟨(List.getElem?_eq_some_iff.1 hget).1, rfl⟩
  · rintro ⟨hlt, rfl⟩
    rw [List.getElem?_eq_getElem hlt, Option.getD_some]

/-- The stored registers are what reads answer, from register zero on. -/
theorem WellFormed.regs_eq {r : RegisterFile} (h : r.WellFormed) :
    r.regs = (List.range r.size).map r.value := by
  refine List.ext_getElem ?_ fun index hlt _ ↦ ?_
  · rw [List.length_map, List.length_range, size]
  · rw [List.getElem_map, List.getElem_range, ← h.getD_regs, List.getD_eq_getElem?_getD,
      List.getElem?_eq_getElem hlt, Option.getD_some]

/-- Files with the same settings are equal if their reads and their staged writes are. -/
theorem WellFormed.eq_iff {r r' : RegisterFile} (h : r.WellFormed) (h' : r'.WellFormed)
    (hsame : r.SameSettings r') :
    r = r' ↔ (∀ index, r.read index = r'.read index) ∧ r.staged = r'.staged := by
  constructor
  · rintro rfl
    exact ⟨fun _ ↦ rfl, rfl⟩
  · rintro ⟨hread, hstaged⟩
    have hregs : r.regs = r'.regs := by
      refine List.ext_getElem? fun index ↦ Option.ext fun v ↦ ?_
      rw [h.getElem?_regs_eq_some_iff, h'.getElem?_regs_eq_some_iff, hread]
    obtain ⟨_, hwidth, hzero, htrace⟩ := hsame
    cases r
    cases r'
    simp_all only

/-! ## Files of a configuration -/

/-- The file is the first one of a configuration.  A count alone stands for the configuration that
has the defaults in all else. -/
def BuiltFrom (c : Config) (r : RegisterFile) : Prop :=
  ofConfig c = .ok r ∨ ∃ count, c = { regCount := count } ∧ ofCount count = .ok r

theorem BuiltFrom.fresh {c : Config} {r : RegisterFile} (h : BuiltFrom c r) : r.Fresh := by
  obtain hbuild | ⟨count, _, hbuild⟩ := h
  · exact .inr ⟨c, hbuild⟩
  · exact .inl ⟨count, hbuild⟩

theorem BuiltFrom.settings {c : Config} {r : RegisterFile} (h : BuiltFrom c r) :
    r.size = c.regCount ∧ r.width.bits = c.xlen ∧ r.hardwireZero = c.hardwireZero ∧
      r.trace = c.trace := by
  obtain hbuild | ⟨count, rfl, hbuild⟩ := h
  · obtain ⟨w, hc, rfl⟩ := ofConfig_eq_ok_iff.1 hbuild
    exact ⟨List.length_replicate, (Config.validate_eq_ok_iff.1 hc).1.symm, rfl, rfl⟩
  · obtain ⟨_, rfl⟩ := build_eq_ok_iff.1 hbuild
    exact ⟨List.length_replicate, rfl, rfl, rfl⟩

/-- **What a file stores, whatever has been done with it.**  Take the first file of a configuration
and any calls and retirements from there on, whatever their arguments.  The number of registers,
which is one to 32, the mask, the policy for register zero and the trace flag are still those of
the configuration.  The registers and the staged value are numbers of the width; the register that
is staged is one of the file, so a commit finds it.  A hardwired register zero stores zero, so what
is stored is what reads answer: this is what a dump shows, and two such files are equal when their
reads and their staged writes are. -/
theorem Reaches.representation {c : Config} {r₀ r : RegisterFile} (hbuild : BuiltFrom c r₀)
    (h : r₀.Reaches r) :
    (r.size = c.regCount ∧ 1 ≤ r.size ∧ r.size ≤ 32) ∧
    (r.mask.toNat = 2 ^ c.xlen - 1 ∧ r.hardwireZero = c.hardwireZero ∧ r.trace = c.trace) ∧
    (∀ v ∈ r.regs, v.toNat < 2 ^ c.xlen) ∧
    (∀ index v, r.staged = some (index, v) → index < r.size ∧ v.toNat < 2 ^ c.xlen) ∧
    (c.hardwireZero = true → r.regs[0]? = some 0) ∧
    (∀ index v, r.regs[index]? = some v ↔ r.read index = .ok v) ∧
    r.dump = String.ofList (dumpFrom 0 ((List.range r.size).map r.value)) ∧
    ∀ r', r₀.Reaches r' →
      (r = r' ↔ (∀ index, r.read index = r'.read index) ∧ r.staged = r'.staged) := by
  obtain ⟨hsize, hwidth, hzero, htrace⟩ := hbuild.settings
  have hwf := h.wellFormed hbuild.fresh.wellFormed
  have hsame := h.sameSettings
  have hbits : r.width.bits = c.xlen := hsame.width ▸ hwidth
  refine ⟨⟨hsame.size.trans hsize, hwf.size_pos, hwf.size_le⟩,
    ⟨?_, hsame.hardwireZero.trans hzero, hsame.trace.trans htrace⟩, hbits ▸ hwf.regs_lt,
    hbits ▸ hwf.staged_lt, ?_, ?_, ?_, ?_⟩
  · rw [mask, hbits, Lane.toNat_mask (hbits ▸ r.width.bits_le)]
  · intro hhard
    exact hwf.hardwired ((hsame.hardwireZero.trans hzero).trans hhard)
  · intro index v
    exact hwf.getElem?_regs_eq_some_iff
  · rw [dump, ← hwf.regs_eq]
  · intro r' h'
    refine hwf.eq_iff (h'.wellFormed hbuild.fresh.wellFormed) ?_
    exact ⟨h'.sameSettings.size.trans hsame.size.symm, h'.sameSettings.width.trans hsame.width.symm,
      h'.sameSettings.hardwireZero.trans hsame.hardwireZero.symm,
      h'.sameSettings.trace.trans hsame.trace.symm⟩

/-- Eight bits and two registers: a hand-made evaluation gives `x1` a number that is cut to one, and
a write to the hardwired register is still staged. -/
theorem representation_two_registers :
    ∃ r₀ r : RegisterFile, BuiltFrom { xlen := 8, regCount := 2 } r₀ ∧ r₀.Reaches r ∧
      r.staged = some (0, 7) ∧ r.size = 2 ∧ r.mask.toNat = 255 ∧ r.regs[0]? = some 0 ∧
      r.regs[1]? = some 1 ∧ r.read 1 = .ok 1 := by
  have hbuild : ofConfig { xlen := 8, regCount := 2 } = .ok ⟨[0, 0], .w8, true, false, none⟩ := rfl
  have hretire : Datapath.retire
      { pc := 0, instruction := { rd := 1 }, control := { regWrite := true }, opA := 0, opB := 0,
        alu := {}, holds := false, result := 0x101, storeData := none }
      ⟨[0, 0], .w8, true, false, none⟩ = .ok ⟨[0, 1], .w8, true, false, none⟩ := rfl
  have hreach := (Reaches.refl.retire _ hretire).perform (.write 0 7)
  obtain ⟨⟨hsize, _⟩, ⟨hmask, _⟩, _, _, hzero, hread, _⟩ :=
    Reaches.representation (.inl hbuild) hreach
  exact ⟨_, _, .inl hbuild, hreach, rfl, hsize, hmask, hzero rfl, rfl, (hread 1 1).1 rfl⟩

end RegisterFile
end Hart
