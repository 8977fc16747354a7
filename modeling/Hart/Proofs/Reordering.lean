import Mathlib.Data.List.FinRange
import Mathlib.Data.List.OfFn
import Hart.Proofs.Ports
import Hart.Proofs.Retirement

/-!
# Reordering words that do not depend on each other

Two words conflict if one writes a register that the other writes or reads.  A list of words may be
put in any order that keeps conflicting words as they were: no register can tell, and no word can.

* `Word.written?`, `Word.Conflict` — the register that a word writes, and words that conflict.  A
  register that is hardwired is not written by anybody.
* `Datapath.step_comm`, `Datapath.step_fst_of_not_conflict` — two words without a conflict.
* `Datapath.run_reorder` — a list of words that carry names in order, put in another order.  The
  word that comes first in the new order is moved to the front of the old one
  (`Datapath.run_move_front`), past words that it does not conflict with; the rest is an induction.
* `Datapath.run_eq_of_reordering` — the same for two lists and a bijection of their places.
-/

set_option autoImplicit false

namespace Hart

/-! ## Conflicts -/

namespace Word

/-- The register that a word writes, where register zero may be hardwired. -/
def written? (hardwireZero : Bool) (w : Word) : Option Nat :=
  if w.op? ∈ [some .op, some .opImm, some .lui, some .auipc] ∧
      ¬(w.decode.rd = 0 ∧ hardwireZero = true) then
    some w.decode.rd
  else none

/-- One of the words writes a register that the other writes or reads. -/
def Conflict (hardwireZero : Bool) (w w' : Word) : Prop :=
  (∃ i ∈ w.written? hardwireZero, i ∈ w'.written? hardwireZero ∨ i ∈ w'.ports) ∨
    ∃ i ∈ w'.written? hardwireZero, i ∈ w.ports

instance (hardwireZero : Bool) (w w' : Word) : Decidable (w.Conflict hardwireZero w') :=
  inferInstanceAs (Decidable (_ ∨ _))

theorem Conflict.symm {hardwireZero : Bool} {w w' : Word} (h : w.Conflict hardwireZero w') :
    w'.Conflict hardwireZero w := by
  obtain ⟨i, hw, hw' | hports⟩ | ⟨i, hw', hports⟩ := h
  · exact .inl ⟨i, hw', .inl hw⟩
  · exact .inr ⟨i, hw, hports⟩
  · exact .inl ⟨i, hw', .inr hports⟩

end Word

namespace Datapath

/-! ## What a word looks at -/

/-- An evaluation looks at the size of the file and at the ports of the word. -/
theorem evaluate_congr (d : Datapath) {w : Word} {r r' : RegisterFile} (pc : Lane)
    (hsize : r'.size = r.size) (hports : ∀ i ∈ w.ports, r'.value i = r.value i) :
    d.evaluate w pc r' = d.evaluate w pc r := by
  refine d.evaluate_congr_of_read pc (fun hreads ↦ ?_) fun hreads ↦ ?_
  · exact RegisterFile.read_congr hsize (hports _ (by simp [Word.ports, hreads]))
  · exact RegisterFile.read_congr hsize (hports _ (by simp [Word.ports, hreads]))

/-! ## What a word changes -/

/-- What an evaluation of a word writes is the register that the word writes, or is hardwired. -/
theorem written?_of_writeBack {d : Datapath} {w : Word} {pc : Lane} {r : RegisterFile}
    {e : Evaluation} {index : Nat} {v : Lane} (he : d.evaluate w pc r = .ok e)
    (hback : e.writeBack = some (index, v)) (hhard : ¬r.isHardwired index = true) :
    w.written? r.hardwireZero = some index := by
  obtain ⟨a, b, _, rfl⟩ := evaluate_eq_ok_iff.1 he
  have hfst := d.map_fst_writeBack w pc a b
  rw [hback, Option.map_some, ← w.toNat_rd] at hfst
  have hop : Effect.ofOpcode? w.op? = .writeBack ↔
      w.op? ∈ [some .op, some .opImm, some .lui, some .auipc] := by
    rcases w.op? with _ | o
    · decide
    · cases o <;> decide
  rw [RegisterFile.isHardwired_iff] at hhard
  split at hfst
  · rename_i heffect
    obtain rfl : index = w.decode.rd := Option.some.inj hfst
    rw [Word.written?, if_pos ⟨hop.1 heffect, hhard⟩]
  · cases hfst

/-- A step changes no register but the one that the word writes. -/
theorem value_step {d : Datapath} {w : Word} {r : RegisterFile} {i : Nat}
    (h : w.written? r.hardwireZero ≠ some i) (pc : Lane) :
    (d.step r w pc).2.value i = r.value i := by
  rcases he : d.evaluate w pc r with fault | e
  · rw [step_of_refused he]
  · rw [step_of_evaluate_eq_ok he]
    dsimp only
    obtain ⟨index, v, hback, hlt, hr⟩ | ⟨_, _, _, _, hr⟩ | ⟨_, hr⟩ := retireOn_cases r e
    · rw [hr]
      by_cases hhard : r.isHardwired index = true
      · rw [RegisterFile.put_of_isHardwired hhard]
        rfl
      · have hne : i ≠ index := by
          rintro rfl
          exact h (written?_of_writeBack he hback hhard)
        exact RegisterFile.value_put_of_ne hne v
    · rw [hr]
    · rw [hr]

/-! ## Two words -/

/-- What a step answers depends on the ports of its word and on the size of the file. -/
theorem step_fst_congr (d : Datapath) {w : Word} {r r' : RegisterFile} (pc : Lane)
    (hsize : r'.size = r.size) (hports : ∀ i ∈ w.ports, r'.value i = r.value i) :
    (d.step r' w pc).1 = (d.step r w pc).1 := by
  have heval := d.evaluate_congr pc hsize hports
  rcases he : d.evaluate w pc r with fault | e
  · rw [step_of_refused (heval.trans he), step_of_refused he]
  · rw [step_of_evaluate_eq_ok (heval.trans he), step_of_evaluate_eq_ok he,
      retireOn_fst_congr hsize]

variable {d : Datapath} {r : RegisterFile} {w w' : Word}

/-- A word does not change the ports of a word that it does not conflict with. -/
theorem value_step_of_not_conflict (h : ¬w.Conflict r.hardwireZero w') (pc : Lane) :
    ∀ i ∈ w'.ports, (d.step r w pc).2.value i = r.value i := by
  intro i hi
  refine value_step ?_ pc
  intro hwritten
  exact h (.inl ⟨i, hwritten, .inr hi⟩)

/-- A step answers the same behind a word that it does not conflict with. -/
theorem step_fst_of_not_conflict (h : ¬w.Conflict r.hardwireZero w') (pc pc' : Lane) :
    (d.step (d.step r w pc).2 w' pc').1 = (d.step r w' pc').1 :=
  d.step_fst_congr pc' (sameSettings_step d r w pc).size (value_step_of_not_conflict h pc)

/-- Two words that do not conflict lead to one file in either order. -/
theorem step_comm (h : ¬w.Conflict r.hardwireZero w') (pc pc' : Lane) :
    (d.step (d.step r w pc).2 w' pc').2 = (d.step (d.step r w' pc').2 w pc).2 := by
  have hsymm : ¬w'.Conflict r.hardwireZero w := fun h' ↦ h h'.symm
  have heval' := d.evaluate_congr pc' (sameSettings_step d r w pc).size
    (value_step_of_not_conflict h pc)
  have heval := d.evaluate_congr pc (sameSettings_step d r w' pc').size
    (value_step_of_not_conflict hsymm pc')
  rcases he : d.evaluate w pc r with fault | e
  · rw [step_of_refused (heval.trans he), step_of_refused he]
  · rcases he' : d.evaluate w' pc' r with fault' | e'
    · rw [step_of_refused (heval'.trans he'), step_of_refused he']
    · rw [step_of_evaluate_eq_ok (heval.trans he), step_of_evaluate_eq_ok (heval'.trans he'),
        step_of_evaluate_eq_ok he, step_of_evaluate_eq_ok he']
      refine retireOn_comm r fun index v v' hback hback' ↦ ?_
      by_contra hhard
      exact h (.inl ⟨index, written?_of_writeBack he hback hhard,
        .inl (written?_of_writeBack he' hback' hhard)⟩)

/-! ## A list of words -/

/-- A word may run before others instead of behind them, if it conflicts with none.  Nobody's
answer changes, and neither does the file. -/
theorem run_move_front {steps : List (Word × Lane)}
    (h : ∀ s ∈ steps, ¬s.1.Conflict r.hardwireZero w) (pc : Lane) :
    (d.step (d.run r steps).2 w pc).1 = (d.step r w pc).1 ∧
      (d.run (d.step r w pc).2 steps).1 = (d.run r steps).1 ∧
      (d.run (d.step r w pc).2 steps).2 = (d.step (d.run r steps).2 w pc).2 := by
  induction steps generalizing r with
  | nil => exact ⟨rfl, rfl, rfl⟩
  | cons s steps ih =>
    obtain ⟨w', pc'⟩ := s
    have hfirst : ¬w'.Conflict r.hardwireZero w := h _ List.mem_cons_self
    have hsymm : ¬w.Conflict r.hardwireZero w' := fun h' ↦ hfirst h'.symm
    have hzero := (sameSettings_step d r w' pc').hardwireZero
    obtain ⟨hout, hrest, hend⟩ := ih (r := (d.step r w' pc').2) fun s hs ↦
      hzero.symm ▸ h s (List.mem_cons_of_mem _ hs)
    rw [run_cons, run_cons, step_fst_of_not_conflict hsymm, step_comm hsymm]
    refine ⟨hout.trans (step_fst_of_not_conflict hfirst pc' pc), ?_, hend⟩
    rw [hrest]

theorem length_run (d : Datapath) (r : RegisterFile) (steps : List (Word × Lane)) :
    (d.run r steps).1.length = steps.length := by
  induction steps generalizing r with
  | nil => rfl
  | cons s steps ih =>
    rw [run_cons, List.length_cons, List.length_cons, ih]

/-- Words that carry names, in the order of the names and in another one that keeps conflicting
words as they are.  Both lists lead to one file, and every name is answered the same. -/
theorem run_reorder {ι : Type} [LinearOrder ι] (d : Datapath) {r : RegisterFile}
    (program : ι → Word × Lane) {names names' : List ι} (hsorted : names.Pairwise (· < ·))
    (hperm : names'.Perm names)
    (horder : names'.Pairwise fun i j ↦
      (program i).1.Conflict r.hardwireZero (program j).1 → i < j) :
    (d.run r (names'.map program)).2 = (d.run r (names.map program)).2 ∧
      (names'.zip (d.run r (names'.map program)).1).Perm
        (names.zip (d.run r (names.map program)).1) := by
  induction names' generalizing r names with
  | nil =>
    obtain rfl := hperm.nil_eq
    exact ⟨rfl, .refl _⟩
  | cons i names' ih =>
    obtain ⟨before, after, rfl⟩ := List.append_of_mem (hperm.subset List.mem_cons_self)
    have hrest : names'.Perm (before ++ after) :=
      (hperm.trans List.perm_middle).cons_inv
    rw [List.pairwise_cons] at horder
    have hfree : ∀ s ∈ before.map program, ¬s.1.Conflict r.hardwireZero (program i).1 := by
      intro s hs hconflict
      obtain ⟨j, hj, rfl⟩ := List.mem_map.1 hs
      have hji : j < i :=
        (List.pairwise_append.1 hsorted).2.2 j hj i List.mem_cons_self
      have hij : i < j :=
        horder.1 j (hrest.symm.subset (List.mem_append_left after hj)) hconflict.symm
      exact lt_asymm hij hji
    have hsame := sameSettings_step d r (program i).1 (program i).2
    have hsorted' : (before ++ after).Pairwise (· < ·) :=
      hsorted.sublist ((List.Sublist.refl before).append (List.sublist_cons_self i after))
    obtain ⟨hend, hnames⟩ := ih (r := (d.step r (program i).1 (program i).2).2) hsorted' hrest
      (hsame.hardwireZero.symm ▸ horder.2)
    obtain ⟨hout, hbefore, hfile⟩ := run_move_front (d := d) hfree (program i).2
    rw [List.map_append, run_append, hbefore, hfile] at hend hnames
    rw [List.map_cons, run_cons, List.map_append, run_append, List.map_cons, run_cons, hout]
    refine ⟨hend, ?_⟩
    have hlength : before.length = (d.run r (before.map program)).1.length := by
      rw [length_run, List.length_map]
    rw [List.zip_append hlength] at hnames ⊢
    exact (hnames.cons _).trans List.perm_middle.symm

/-! ## Two lists of words -/

/-- The second list is the first in another order that keeps conflicting words as they are; `σ`
tells where a step comes from. -/
structure Reordering (hardwireZero : Bool) (steps steps' : List (Word × Lane))
    (σ : Fin steps'.length ≃ Fin steps.length) : Prop where
  same : ∀ i, steps'[i] = steps[σ i]
  order : ∀ i j, i < j → steps'[i].1.Conflict hardwireZero steps'[j].1 → σ i < σ j

/-- **Words that do not depend on each other may change places.**  If a list of words is put in an
order that keeps the words that conflict as they are, then both lists lead from any file to the
same one, settings and staged write included, and each word answers the same in both runs: the same
evaluation or the same fault. -/
theorem run_eq_of_reordering (d : Datapath) (r : RegisterFile) {steps steps' : List (Word × Lane)}
    {σ : Fin steps'.length ≃ Fin steps.length} (h : Reordering r.hardwireZero steps steps' σ) :
    (d.run r steps').2 = (d.run r steps).2 ∧
      ∀ i : Fin steps'.length, ∃ outcome, (d.run r steps').1[i.val]? = some outcome ∧
        (d.run r steps).1[(σ i).val]? = some outcome := by
  have hsteps : (List.finRange steps.length).map (steps[·]) = steps :=
    List.map_getElem_finRange steps
  have hsteps' : (List.ofFn σ).map (steps[·]) = steps' := by
    rw [List.map_ofFn]
    refine List.ext_getElem List.length_ofFn fun k hk hk' ↦ ?_
    rw [List.getElem_ofFn]
    exact (h.same ⟨k, hk'⟩).symm
  have hperm : (List.ofFn σ).Perm (List.finRange steps.length) := by
    refine (List.perm_ext_iff_of_nodup (List.nodup_ofFn.2 σ.injective)
      (List.nodup_finRange _)).2 fun k ↦ ?_
    rw [List.mem_ofFn]
    exact iff_of_true (σ.surjective k) (List.mem_finRange k)
  have horder : (List.ofFn σ).Pairwise fun i j ↦
      steps[i].1.Conflict r.hardwireZero steps[j].1 → i < j := by
    rw [List.pairwise_ofFn]
    intro i j hij
    rw [← h.same, ← h.same]
    exact h.order i j hij
  obtain ⟨hend, hnames⟩ :=
    run_reorder d (steps[·]) (List.pairwise_lt_finRange steps.length) hperm horder
  rw [hsteps, hsteps'] at hend hnames
  refine ⟨hend, fun i ↦ ?_⟩
  -- The name of the word at `i` in the new order is its place in the old one.
  have hlt : i.val < (d.run r steps').1.length := by
    rw [length_run]
    exact i.isLt
  have hout := List.getElem?_eq_getElem hlt
  refine ⟨_, hout, ?_⟩
  have hname : (List.ofFn σ)[i.val]? = some (σ i) := by
    rw [List.getElem?_ofFn, dif_pos i.isLt]
  have hpair : (σ i, (d.run r steps').1[i.val]) ∈
      (List.ofFn σ).zip (d.run r steps').1 :=
    List.mem_of_getElem? (List.getElem?_zip_eq_some.2 ⟨hname, hout⟩)
  obtain ⟨k, hk⟩ := List.mem_iff_getElem?.1 (hnames.subset hpair)
  obtain ⟨hkname, hkout⟩ := List.getElem?_zip_eq_some.1 hk
  obtain ⟨hklt, hkeq⟩ := List.getElem?_eq_some_iff.1 hkname
  rw [List.getElem_finRange] at hkeq
  have hplace : k = (σ i).val := congrArg Fin.val hkeq
  rw [← hplace]
  exact hkout

/-- Two words that give `x1` and `x2` a value change places; the third, which adds the two, has to
stay behind them. -/
theorem run_eq_of_reordering_sum :
    let r : RegisterFile := ⟨[0, 0, 0, 0], .w32, true, false, none⟩
    let steps : List (Word × Lane) := [(0x00500093, 0), (0x00700113, 4), (0x002081b3, 8)]
    let steps' : List (Word × Lane) := [(0x00700113, 4), (0x00500093, 0), (0x002081b3, 8)]
    Reordering r.hardwireZero steps steps' (Equiv.swap 0 1) ∧
      (run {} r steps').2 = (run {} r steps).2 ∧
      (run {} r steps').2.regs = [0, 5, 7, 12] := by
  intro r steps steps'
  have h : Reordering r.hardwireZero steps steps' (Equiv.swap 0 1) := ⟨by decide, by decide⟩
  exact ⟨h, (run_eq_of_reordering {} r h).1, by decide⟩

end Datapath
end Hart
