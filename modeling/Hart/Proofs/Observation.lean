import Hart.Proofs.Retirement
import Hart.Proofs.Tracing

/-!
# What a caller can tell of a register file

A caller sees the answers to calls, and between them the write that is staged.  The width of a file,
its policy for register zero and what it stores are seen only by what they do to the answers.  This
file shows that nothing stays hidden: two reachable files that answer all calls alike are the same,
but for the trace flag, which no answer depends on.

Three experiments tell all there is.  A read beyond the file names the size, and a read within it a
register; a write of all ones shows the mask in what is staged; and a one that is written to
register zero, committed and read again is still there unless the register is hardwired.  Every
file has a register zero, so that they work on a file of one register too.  What a hardwired
register zero stores cannot be read at all, and the invariant is needed to know it.

* `RegisterFile.observe` — the view of the caller.
* `RegisterFile.observe_read`, `RegisterFile.observe_write_allOnes`,
  `RegisterFile.observe_write_commit_read` — the experiments.
* `RegisterFile.indistinguishable_iff` — files that no calls tell apart, without tracing.
* `RegisterFile.Reachable.eq_iff_observe_eq` — files with the same trace flag.
-/

set_option autoImplicit false

namespace Hart

theorem Width.eq_of_mask_eq {w w' : Width} (h : Lane.mask w.bits = Lane.mask w'.bits) : w = w' := by
  revert h
  cases w <;> cases w' <;> decide

/-- A one survives the mask of every width. -/
theorem Width.one_and_mask (w : Width) : 1 &&& Lane.mask w.bits = 1 := by
  cases w <;> decide

namespace RegisterFile

/-- What the caller sees of calls that are made one after another: each answer, and the write that
is staged behind it. -/
def observe (r : RegisterFile) : List Call → List (Answer × Option (Nat × Lane))
  | [] => []
  | call :: calls =>
    ((r.perform call).1, (r.perform call).2.staged) :: (r.perform call).2.observe calls

/-- No calls tell the files apart. -/
def Indistinguishable (r r' : RegisterFile) : Prop :=
  ∀ calls, r.observe calls = r'.observe calls

/-- The trace flag cannot be observed. -/
theorem observe_untraced (r : RegisterFile) (calls : List Call) :
    r.untraced.observe calls = r.observe calls := by
  induction calls generalizing r with
  | nil => rfl
  | cons call calls ih =>
    rw [observe, observe, perform_untraced, ih]
    rfl

/-! ## Experiments -/

/-- A read shows a register, and the write that is staged. -/
theorem observe_read (r : RegisterFile) (index : Nat) :
    r.observe [.read index] = [((r.perform (.read index)).1, r.staged)] := by
  rw [observe, observe, perform_read_snd]

theorem perform_read_fst_inj {r r' : RegisterFile} {index : Nat} :
    (r.perform (.read index)).1 = (r'.perform (.read index)).1 ↔ r.read index = r'.read index := by
  rw [perform, perform]
  rcases r.read index with fault | v <;> rcases r'.read index with fault' | v' <;> simp

theorem perform_write_of_lt {r : RegisterFile} {index : Nat} (h : index < r.size) (v : Lane) :
    r.perform (.write index v) = (.done, { r with staged := some (index, v &&& r.mask) }) := by
  rw [perform_write, write_eq_ok_iff.2 ⟨h, rfl⟩]

/-- A write of all ones shows the mask. -/
theorem observe_write_allOnes {r : RegisterFile} (h : 0 < r.size) :
    r.observe [.write 0 (BitVec.allOnes 64)] = [(.done, some (0, r.mask))] := by
  rw [observe, observe, perform_write_of_lt h, BitVec.allOnes_and]

/-- A one that is written to register zero shows whether the register is hardwired. -/
theorem observe_write_commit_read {r : RegisterFile} (h : 0 < r.size) :
    r.observe [.write 0 1, .commit, .read 0] =
      [(.done, some (0, 1)), (.done, none), (.value (if r.hardwireZero then 0 else 1), none)] := by
  have hone : 1 &&& r.mask = 1 := r.width.one_and_mask
  have hcommit : commit { r with staged := some (0, 1 &&& r.mask) } = r.put 0 1 :=
    commit_of_write (write_eq_ok_iff.2 ⟨h, rfl⟩)
  have hread : (r.put 0 1).read 0 = .ok (if r.hardwireZero then 0 else 1) := by
    refine read_eq_ok_iff.2 ⟨(SameSettings.put r 0 1).size.symm ▸ h, ?_⟩
    rw [value_put_self h, hone]
    simp only [isHardwired_iff, true_and]
  rw [observe, perform_write_of_lt h, observe, perform, hcommit, observe_read, perform, hread, hone]
  rfl

/-! ## Files that no calls tell apart -/

namespace Indistinguishable

variable {r r' : RegisterFile}

theorem read_eq (h : r.Indistinguishable r') (index : Nat) : r.read index = r'.read index := by
  have hread := h [.read index]
  rw [observe_read, observe_read] at hread
  exact perform_read_fst_inj.1 (Prod.mk.inj (List.cons.inj hread).1).1

theorem staged_eq (h : r.Indistinguishable r') : r.staged = r'.staged := by
  have hread := h [.read 0]
  rw [observe_read, observe_read] at hread
  exact (Prod.mk.inj (List.cons.inj hread).1).2

/-- The fault of a read beyond the file names the size. -/
theorem size_eq (h : r.Indistinguishable r') : r'.size = r.size := by
  have hbeyond : r.read r.size = .error (.registerOutOfRange r.size r.size) :=
    read_eq_error_iff.2 ⟨Nat.le_refl _, rfl⟩
  obtain ⟨_, hfault⟩ := read_eq_error_iff.1 ((h.read_eq r.size).symm.trans hbeyond)
  exact (Fault.registerOutOfRange.inj hfault).2.symm

theorem width_eq (h : r.Indistinguishable r') (hpos : 0 < r.size) : r'.width = r.width := by
  have hwrite := h [.write 0 (BitVec.allOnes 64)]
  rw [observe_write_allOnes hpos, observe_write_allOnes (h.size_eq ▸ hpos)] at hwrite
  have hmask : r.mask = r'.mask := by simpa using hwrite
  exact Width.eq_of_mask_eq hmask.symm

theorem hardwireZero_eq (h : r.Indistinguishable r') (hpos : 0 < r.size) :
    r'.hardwireZero = r.hardwireZero := by
  have hback := h [.write 0 1, .commit, .read 0]
  rw [observe_write_commit_read hpos, observe_write_commit_read (h.size_eq ▸ hpos)] at hback
  cases hzero : r.hardwireZero <;> cases hzero' : r'.hardwireZero <;>
    simp [hzero, hzero'] at hback ⊢

end Indistinguishable

theorem WellFormed.untraced {r : RegisterFile} (h : r.WellFormed) : r.untraced.WellFormed :=
  ⟨h.size_pos, h.size_le, h.regs_lt, h.staged_lt, h.hardwired⟩

/-- No calls tell two files apart exactly if they differ in the trace flag at most. -/
theorem indistinguishable_iff {r r' : RegisterFile} (h : r.WellFormed) (h' : r'.WellFormed) :
    r.Indistinguishable r' ↔ r.untraced = r'.untraced := by
  constructor
  · intro hobs
    have hsame : r.untraced.SameSettings r'.untraced :=
      ⟨hobs.size_eq, hobs.width_eq h.size_pos, hobs.hardwireZero_eq h.size_pos, rfl⟩
    exact (h.untraced.eq_iff h'.untraced hsame).2 ⟨hobs.read_eq, hobs.staged_eq⟩
  · intro heq calls
    rw [← observe_untraced, heq, observe_untraced]

/-- **Two register files are equal if no caller can tell them apart.**  Both are reachable, and both
are traced or neither is.  They are equal exactly if they have the same number of registers and any
calls, made on both, show the same answers and the same staged writes all along.  So a file keeps
nothing to itself: not in what a hardwired register zero stores, and not in a write that is staged
for it. -/
theorem Reachable.eq_iff_observe_eq {r r' : RegisterFile} (h : r.Reachable) (h' : r'.Reachable)
    (htrace : r.trace = r'.trace) :
    r = r' ↔ r.size = r'.size ∧ ∀ calls, r.observe calls = r'.observe calls := by
  constructor
  · rintro rfl
    exact ⟨rfl, fun _ ↦ rfl⟩
  · rintro ⟨_, hobs⟩
    have huntraced := (indistinguishable_iff h.wellFormed h'.wellFormed).1 hobs
    calc
      r = { r.untraced with trace := r.trace } := rfl
      _ = { r'.untraced with trace := r'.trace } := by rw [huntraced, htrace]
      _ = r' := rfl

/-- A file of one register, which is hardwired or not.  Some calls tell the two apart, though both
read zero and have nothing staged; and a write that the hardwired one has discarded left nothing
behind. -/
theorem eq_iff_observe_eq_one_register :
    ∃ r r' s : RegisterFile, r.Reachable ∧ r'.Reachable ∧ s.Reachable ∧
      r.size = 1 ∧ r'.size = 1 ∧ r.read 0 = r'.read 0 ∧ r.staged = r'.staged ∧
      (∃ calls, r.observe calls ≠ r'.observe calls) ∧
      s = ((r.perform (.write 0 5)).2.perform .commit).2 ∧
      ∀ calls, s.observe calls = r.observe calls := by
  have hbuild : ofConfig { regCount := 1 } = .ok ⟨[0], .w32, true, false, none⟩ := rfl
  have hbuild' : ofConfig { regCount := 1, hardwireZero := false } =
      .ok ⟨[0], .w32, false, false, none⟩ := rfl
  have h := Reachable.ofConfig hbuild
  have h' := Reachable.ofConfig hbuild'
  have hs := (h.perform (.write 0 5)).perform .commit
  refine ⟨_, _, _, h, h', hs, rfl, rfl, rfl, rfl, ?_, rfl, ?_⟩
  · by_contra hnone
    have heq := (h.eq_iff_observe_eq h' rfl).2 ⟨rfl, by simpa using hnone⟩
    exact absurd heq (by decide)
  · exact ((hs.eq_iff_observe_eq h rfl).1 (by decide)).2

end RegisterFile
end Hart
