import Hart.Proofs.Evaluation
import Hart.Proofs.Retirement

/-!
# A small register file is a part of a large one

A program that gets by with a few registers does not notice that there are more.  Let one file be
the first registers of another.  As long as the words of a program succeed on the small file, they
name none of the registers that it lacks, and the large file goes along: it answers the same, its
first registers stay those of the small file, and the others stay as they were.

That a word names no register which is lacking is nowhere an assumption; it is read off the success
of its evaluation, for the sources, and of its retirement, for the destination.

* `RegisterFile.Restricts` — the relation of the two files.
* `Datapath.evaluate_of_restricts`, `Datapath.retireOn_of_restricts` — the two halves of a step.
* `Datapath.step_restricts` — a step that succeeds on the small file keeps the relation, and
  changes nothing beyond the small file.
* `Datapath.run_restricts` — the same for a program, at each of its words.
-/

set_option autoImplicit false

namespace Hart

namespace RegisterFile

/-- The first file is the second with fewer registers. -/
structure Restricts (r r' : RegisterFile) : Prop where
  size_le : r.size ≤ r'.size
  width : r'.width = r.width
  hardwireZero : r'.hardwireZero = r.hardwireZero
  trace : r'.trace = r.trace
  staged : r'.staged = r.staged
  /-- The registers that both files have read the same. -/
  read : ∀ i < r.size, r'.read i = r.read i

/-- The files have the same registers from number `n` on. -/
def AgreeFrom (n : Nat) (r r' : RegisterFile) : Prop :=
  ∀ i, n ≤ i → r'.read i = r.read i

theorem AgreeFrom.trans {n : Nat} {r r' r'' : RegisterFile} (h : r.AgreeFrom n r')
    (h' : r'.AgreeFrom n r'') : r.AgreeFrom n r'' :=
  fun i hi ↦ (h' i hi).trans (h i hi)

theorem agreeFrom_put {n index : Nat} (h : index < n) (r : RegisterFile) (v : Lane) :
    r.AgreeFrom n (r.put index v) := by
  intro i hi
  have hne : i ≠ index := by omega
  exact read_congr (SameSettings.put r index v).size (value_put_of_ne hne v)

namespace Restricts

variable {r r' : RegisterFile}

theorem value (h : r.Restricts r') {i : Nat} (hi : i < r.size) : r'.value i = r.value i :=
  value_eq_of_read_eq hi (h.read i hi)

/-- The same write to a register that both files have. -/
theorem put (h : r.Restricts r') {index : Nat} (hlt : index < r.size) (v : Lane) :
    (r.put index v).Restricts (r'.put index v) := by
  have hsame := SameSettings.put r index v
  have hsame' := SameSettings.put r' index v
  have hlt' : index < r'.size := Nat.lt_of_lt_of_le hlt h.size_le
  refine ⟨?_, h.width, h.hardwireZero, h.trace, rfl, fun i hi ↦ ?_⟩
  · rw [hsame.size, hsame'.size]
    exact h.size_le
  · rw [hsame.size] at hi
    rw [read_eq, read_eq, hsame.size, hsame'.size, if_pos hi,
      if_pos (Nat.lt_of_lt_of_le hi h.size_le)]
    refine congrArg Except.ok ?_
    by_cases heq : i = index
    · subst heq
      rw [value_put_self hlt', value_put_self hlt, isHardwired_congr h.hardwireZero,
        mask_congr h.width]
    · rw [value_put_of_ne heq, value_put_of_ne heq, h.value hi]

end Restricts

end RegisterFile

namespace Datapath

variable {d : Datapath} {r r' : RegisterFile} {w : Word}

/-! ## One word -/

/-- What is evaluated on the small file has its sources there, and the large file has them too. -/
theorem evaluate_of_restricts (h : r.Restricts r') {pc : Lane} {e : Evaluation}
    (he : d.evaluate w pc r = .ok e) : d.evaluate w pc r' = .ok e := by
  obtain ⟨⟨hlt1, hlt2⟩, rfl⟩ := evaluate_eq_ok_iff_value.1 he
  refine evaluate_eq_ok_iff_value.2 ⟨⟨?_, ?_⟩, d.evaluateWith_congr pc ?_ ?_⟩
  · exact fun hreads ↦ Nat.lt_of_lt_of_le (hlt1 hreads) h.size_le
  · exact fun hreads ↦ Nat.lt_of_lt_of_le (hlt2 hreads) h.size_le
  · exact fun hreads ↦ (h.value (hlt1 hreads)).symm
  · exact fun hreads ↦ (h.value (hlt2 hreads)).symm

/-- What is retired on the small file has its destination there. -/
theorem retireOn_of_restricts (h : r.Restricts r') {e : Evaluation}
    (hok : (retireOn r e).1 = none) :
    (retireOn r' e).1 = none ∧ (retireOn r e).2.Restricts (retireOn r' e).2 ∧
      r'.AgreeFrom r.size (retireOn r' e).2 := by
  obtain ⟨index, v, hback, hlt, hr⟩ | ⟨index, v, _, _, hr⟩ | ⟨hback, hr⟩ := retireOn_cases r e
  · have hr' : retireOn r' e = (none, r'.put index v) := by
      rw [retireOn_eq, hback]
      exact if_pos (Nat.lt_of_lt_of_le hlt h.size_le)
    rw [hr, hr']
    exact ⟨rfl, h.put hlt v, RegisterFile.agreeFrom_put hlt r' v⟩
  · rw [hr] at hok
    cases hok
  · have hr' : retireOn r' e = (none, r') := by
      rw [retireOn_eq, hback]
    rw [hr, hr']
    exact ⟨rfl, h, fun _ _ ↦ rfl⟩

theorem step_restricts (h : r.Restricts r') (pc : Lane)
    (hok : (d.step r w pc).1.succeeded = true) :
    (d.step r' w pc).1 = (d.step r w pc).1 ∧ (d.step r w pc).2.Restricts (d.step r' w pc).2 ∧
      r'.AgreeFrom r.size (d.step r' w pc).2 := by
  rcases he : d.evaluate w pc r with fault | e
  · rw [step_of_refused he] at hok
    cases hok
  · rw [step_of_evaluate_eq_ok he] at hok ⊢
    rw [step_of_evaluate_eq_ok (evaluate_of_restricts h he)]
    have hretired : (retireOn r e).1 = none := by
      rcases hfault : (retireOn r e).1 with _ | fault
      · rfl
      · rw [hfault] at hok
        cases hok
    obtain ⟨hretired', hrestricts, hbeyond⟩ := retireOn_of_restricts h hretired
    rw [hretired, hretired']
    exact ⟨rfl, hrestricts, hbeyond⟩

/-! ## Programs -/

/-- A program, by induction on its words: the relation is kept from word to word, and so are the
registers beyond the small file, whose size no word changes. -/
theorem run_restricts_of_succeeded (h : r.Restricts r') {steps : List (Word × Lane)}
    (hok : ∀ o ∈ (d.run r steps).1, o.succeeded = true) :
    (d.run r' steps).1 = (d.run r steps).1 ∧ (d.run r steps).2.Restricts (d.run r' steps).2 ∧
      r'.AgreeFrom r.size (d.run r' steps).2 := by
  induction steps generalizing r r' with
  | nil => exact ⟨rfl, h, fun _ _ ↦ rfl⟩
  | cons s steps ih =>
    obtain ⟨w, pc⟩ := s
    rw [run_cons, List.forall_mem_cons] at hok
    obtain ⟨hout, hstep, hbeyond⟩ := step_restricts h pc hok.1
    obtain ⟨houts, hend, hbeyond'⟩ := ih hstep hok.2
    rw [(sameSettings_step d r w pc).size] at hbeyond'
    rw [run_cons, run_cons, hout, houts]
    exact ⟨rfl, hend, hbeyond.trans hbeyond'⟩

/-- **A program that succeeds with few registers does the same with more.**  Of two files one is
the other with fewer registers, and a program runs on both.  If none of its words fails on the
small file, then none fails on the large one, and each word is answered with the same evaluation.
After every word the small file still is the large one with fewer registers, and the registers that
it lacks are as they were. -/
theorem run_restricts (d : Datapath) {r r' : RegisterFile} (h : r.Restricts r')
    {steps : List (Word × Lane)} (hok : ∀ o ∈ (d.run r steps).1, o.succeeded = true) :
    (∀ o ∈ (d.run r' steps).1, o.succeeded = true) ∧
    (d.run r' steps).1 = (d.run r steps).1 ∧
    ∀ k, (d.run r (steps.take k)).2.Restricts (d.run r' (steps.take k)).2 ∧
      ∀ i, r.size ≤ i → (d.run r' (steps.take k)).2.read i = r'.read i := by
  obtain ⟨houts, _, _⟩ := run_restricts_of_succeeded h hok
  refine ⟨houts.symm ▸ hok, houts, fun k ↦ ?_⟩
  have hprefix : ∀ o ∈ (d.run r (steps.take k)).1, o.succeeded = true := by
    intro o ho
    refine hok o ?_
    rw [← steps.take_append_drop k, run_append]
    exact List.mem_append_left _ ho
  exact (run_restricts_of_succeeded h hprefix).2

/-- Four registers and six.  `x1` and `x2` get a value, and `x3` their sum, in both files; `x5`,
which only the large one has, keeps its nine. -/
theorem run_restricts_sum :
    let r : RegisterFile := ⟨[0, 0, 0, 0], .w32, true, false, none⟩
    let r' : RegisterFile := ⟨[0, 0, 0, 0, 8, 9], .w32, true, false, none⟩
    let steps : List (Word × Lane) := [(0x00500093, 0), (0x00700113, 4), (0x002081b3, 8)]
    r.Restricts r' ∧ (∀ o ∈ (run {} r steps).1, o.succeeded = true) ∧
      (run {} r' steps).1 = (run {} r steps).1 ∧
      (run {} r (steps.take 3)).2.read 3 = .ok 12 ∧ (run {} r' (steps.take 3)).2.read 3 = .ok 12 ∧
      (run {} r' (steps.take 3)).2.read 5 = .ok 9 := by
  intro r r' steps
  have h : r.Restricts r' := ⟨by decide, rfl, rfl, rfl, rfl, by decide⟩
  have hok : ∀ o ∈ (run {} r steps).1, o.succeeded = true := by decide
  have hsum : (run {} r (steps.take 3)).2.read 3 = .ok 12 := by decide
  obtain ⟨_, houts, hfiles⟩ := run_restricts {} h hok
  obtain ⟨hrestricts, hbeyond⟩ := hfiles 3
  exact ⟨h, hok, houts, hsum, (hrestricts.read 3 (by decide)).trans hsum, hbeyond 5 (by decide)⟩

end Datapath
end Hart
