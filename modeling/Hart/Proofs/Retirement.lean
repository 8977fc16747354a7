import Hart.Proofs.Invariant
import Hart.Run

/-!
# Retiring evaluations in any order

The caller decides which evaluations are retired, how often and in which order; an evaluation may
be stale by then, or may never have come from a datapath at all.  This file says what such a list
of retirements does to a register file.

* `RegisterFile.put` — a retirement that writes a register, in one step.  The write that was staged
  before is superseded, so it never shows in the result.
* `Datapath.retireOn_eq` — what one retirement does to any file, and what it answers.
* `Datapath.value_retireAll` — a list of retirements leaves in a register what the last of them that
  writes it says (`lastValue?`).
* `Datapath.retireAll_settles` — the whole law, for every reachable file.

Two facts are of use beyond retirements: writes to different registers commute
(`RegisterFile.put_comm`), and so does everything with a write that a hardwired register discards.
-/

set_option autoImplicit false

namespace Hart

/-! ## Writing and committing at once -/

namespace RegisterFile

theorem read_congr {r r' : RegisterFile} {index : Nat} (hsize : r'.size = r.size)
    (hvalue : r'.value index = r.value index) : r'.read index = r.read index := by
  rw [read_eq, read_eq, hsize, hvalue]

/-- The file with a value written to a register and committed. -/
def put (r : RegisterFile) (index : Nat) (v : Lane) : RegisterFile :=
  { r with
    regs := if r.isHardwired index then r.regs else r.regs.set index (v &&& r.mask)
    staged := none }

theorem commit_of_write {r r' : RegisterFile} {index : Nat} {v : Lane}
    (h : r.write index v = .ok r') : r'.commit = r.put index v := by
  obtain ⟨_, rfl⟩ := write_eq_ok_iff.1 h
  rfl

theorem SameSettings.put (r : RegisterFile) (index : Nat) (v : Lane) :
    r.SameSettings (r.put index v) := by
  refine ⟨?_, rfl, rfl, rfl⟩
  rw [RegisterFile.size, RegisterFile.put]
  split
  · rfl
  · exact List.length_set

theorem put_of_isHardwired {r : RegisterFile} {index : Nat} (h : r.isHardwired index = true)
    (v : Lane) : r.put index v = { r with staged := none } := by
  rw [put, if_pos h]

theorem put_of_not_isHardwired {r : RegisterFile} {index : Nat} (h : ¬r.isHardwired index = true)
    (v : Lane) :
    r.put index v = { r with regs := r.regs.set index (v &&& r.mask), staged := none } := by
  rw [put, if_neg h]

theorem value_put_self {r : RegisterFile} {index : Nat} (h : index < r.size) (v : Lane) :
    (r.put index v).value index = if r.isHardwired index then 0 else v &&& r.mask := by
  rw [value, (SameSettings.put r index v).isHardwired]
  by_cases hhard : r.isHardwired index = true
  · rw [if_pos hhard, if_pos hhard]
  · have hset : (r.regs.set index (v &&& r.mask))[index]? = some (v &&& r.mask) :=
      List.getElem?_set_self h
    rw [if_neg hhard, if_neg hhard, put_of_not_isHardwired hhard, List.getD_eq_getElem?_getD, hset,
      Option.getD_some]

theorem value_put_of_ne {r : RegisterFile} {index i : Nat} (h : i ≠ index) (v : Lane) :
    (r.put index v).value i = r.value i := by
  rw [value, value, (SameSettings.put r index v).isHardwired]
  by_cases hhard : r.isHardwired index = true
  · rw [put_of_isHardwired hhard]
  · rw [put_of_not_isHardwired hhard, List.getD_eq_getElem?_getD, List.getD_eq_getElem?_getD,
      List.getElem?_set_ne h.symm]

/-- Only the last of two writes to a register counts. -/
theorem put_put (r : RegisterFile) (index : Nat) (u v : Lane) :
    (r.put index u).put index v = r.put index v := by
  have hsame : (r.put index u).isHardwired index = r.isHardwired index :=
    (SameSettings.put r index u).isHardwired index
  by_cases hhard : r.isHardwired index = true
  · rw [put_of_isHardwired (hsame.trans hhard), put_of_isHardwired hhard, put_of_isHardwired hhard]
  · rw [put_of_not_isHardwired (hsame ▸ hhard), put_of_not_isHardwired hhard,
      put_of_not_isHardwired hhard]
    simp only [mask, List.set_set]

/-- Writes commute, unless both reach the same register. -/
theorem put_comm (r : RegisterFile) {i j : Nat} (h : i = j → r.isHardwired i = true) (u v : Lane) :
    (r.put i u).put j v = (r.put j v).put i u := by
  rcases eq_or_ne i j with rfl | hne
  · rw [put_put, put_put, put_of_isHardwired (h rfl), put_of_isHardwired (h rfl)]
  · have hi : (r.put j v).isHardwired i = r.isHardwired i := (SameSettings.put r j v).isHardwired i
    have hj : (r.put i u).isHardwired j = r.isHardwired j := (SameSettings.put r i u).isHardwired j
    rw [put.eq_def (r.put i u), put.eq_def (r.put j v), hi, hj]
    by_cases hhardi : r.isHardwired i = true <;> by_cases hhardj : r.isHardwired j = true <;>
      simp [put, mask, hhardi, hhardj, List.set_comm _ _ hne]

end RegisterFile

/-! ## One retirement -/

/-- The value that an evaluation has for a register, if it writes that one. -/
def Evaluation.valueFor (e : Evaluation) (index : Nat) : Option Lane :=
  match e.writeBack with
  | some (i, v) => if i = index then some v else none
  | none => none

namespace Datapath

theorem retireOn_eq (r : RegisterFile) (e : Evaluation) :
    retireOn r e =
      match e.writeBack with
      | some (index, v) =>
        if index < r.size then (none, r.put index v)
        else (some (.registerOutOfRange index r.size), r)
      | none => (none, r) := by
  rcases hback : e.writeBack with _ | ⟨index, v⟩
  · rw [retireOn_eq_retire, retire_of_writeBack_eq_none hback]
  · rcases hw : r.write index v with fault | staged
    · obtain ⟨hle, rfl⟩ := RegisterFile.write_eq_error_iff.1 hw
      have hretire : retire e r = .error (.registerOutOfRange index r.size) := by
        rw [retire_of_writeBack_eq_some hback, hw]
        rfl
      rw [retireOn_eq_retire, hretire]
      simp only [Nat.not_lt.2 hle, if_false]
    · have hretire : retire e r = .ok (r.put index v) := by
        rw [retire_of_writeBack_eq_some hback, hw, ← RegisterFile.commit_of_write hw]
        rfl
      rw [retireOn_eq_retire, hretire]
      simp only [(RegisterFile.write_eq_ok_iff.1 hw).1, if_true]

/-- A retirement is a write that is committed, or leaves the file as it is. -/
theorem retireOn_cases (r : RegisterFile) (e : Evaluation) :
    (∃ index v, e.writeBack = some (index, v) ∧ index < r.size ∧
      retireOn r e = (none, r.put index v)) ∨
    (∃ index v, e.writeBack = some (index, v) ∧ r.size ≤ index ∧
      retireOn r e = (some (.registerOutOfRange index r.size), r)) ∨
    (e.writeBack = none ∧ retireOn r e = (none, r)) := by
  have heq := retireOn_eq r e
  rcases hback : e.writeBack with _ | ⟨index, v⟩
  · rw [hback] at heq
    exact .inr (.inr ⟨rfl, heq⟩)
  · rw [hback] at heq
    by_cases hlt : index < r.size
    · exact .inl ⟨index, v, rfl, hlt, by simpa only [hlt, if_true] using heq⟩
    · exact .inr (.inl ⟨index, v, rfl, Nat.not_lt.1 hlt, by simpa only [hlt, if_false] using heq⟩)

theorem sameSettings_retireOn (r : RegisterFile) (e : Evaluation) :
    r.SameSettings (retireOn r e).2 := by
  obtain ⟨index, v, _, _, h⟩ | ⟨index, v, _, _, h⟩ | ⟨_, h⟩ := retireOn_cases r e
  · rw [h]
    exact .put r index v
  · rw [h]
    exact .refl r
  · rw [h]
    exact .refl r

/-- Whether a retirement fails depends on the size of the file alone. -/
theorem retireOn_fst_congr {r r' : RegisterFile} (h : r'.size = r.size) (e : Evaluation) :
    (retireOn r' e).1 = (retireOn r e).1 := by
  rw [retireOn_eq, retireOn_eq, h]
  rcases e.writeBack with _ | ⟨index, v⟩
  · rfl
  · by_cases hlt : index < r.size
    · simp only [hlt, if_true]
    · simp only [hlt, if_false]

theorem retireOn_fst_eq_some_iff {r : RegisterFile} {e : Evaluation} {fault : Fault} :
    (retireOn r e).1 = some fault ↔ ∃ index v, e.writeBack = some (index, v) ∧ r.size ≤ index ∧
      fault = .registerOutOfRange index r.size := by
  obtain ⟨index, v, hback, hlt, h⟩ | ⟨index, v, hback, hle, h⟩ | ⟨hback, h⟩ := retireOn_cases r e
  · rw [h, hback]
    refine iff_of_false nofun ?_
    rintro ⟨_, _, ⟨⟩, hle, _⟩
    omega
  · rw [h, hback]
    constructor
    · rintro ⟨⟩
      exact ⟨index, v, rfl, hle, rfl⟩
    · rintro ⟨_, _, ⟨⟩, _, rfl⟩
      rfl
  · rw [h, hback]
    refine iff_of_false nofun ?_
    rintro ⟨_, _, ⟨⟩, _⟩

/-- What a register holds after a retirement: the value that the evaluation has for it, cut to the
width, unless it has none or the register is hardwired. -/
theorem value_retireOn {r : RegisterFile} {index : Nat} (hlt : index < r.size) (e : Evaluation) :
    (retireOn r e).2.value index =
      match e.valueFor index with
      | some v => if r.isHardwired index then 0 else v &&& r.mask
      | none => r.value index := by
  rw [Evaluation.valueFor]
  obtain ⟨i, v, hback, hi, h⟩ | ⟨i, v, hback, hle, h⟩ | ⟨hback, h⟩ := retireOn_cases r e
  · rw [h, hback]
    dsimp only
    by_cases heq : i = index
    · subst heq
      rw [if_pos rfl, RegisterFile.value_put_self hi]
    · rw [if_neg heq, RegisterFile.value_put_of_ne (Ne.symm heq)]
  · rw [h, hback]
    dsimp only
    rw [if_neg (by omega)]
  · rw [h, hback]

/-- Retiring an evaluation again, at once, changes nothing more. -/
theorem retireOn_retireOn (r : RegisterFile) (e : Evaluation) :
    retireOn (retireOn r e).2 e = retireOn r e := by
  obtain ⟨index, v, hback, hlt, h⟩ | ⟨index, v, hback, hle, h⟩ | ⟨hback, h⟩ := retireOn_cases r e
  · have hlt' : index < (r.put index v).size := (RegisterFile.SameSettings.put r index v).size ▸ hlt
    rw [h, retireOn_eq, hback]
    simp only [hlt', if_true, RegisterFile.put_put]
  · rw [h]
    exact h
  · rw [h]
    exact h

/-- An evaluation has the same effect on all files of a size: a write, or none. -/
theorem retireOn_snd_uniform (e : Evaluation) (size : Nat) :
    (∃ index v, e.writeBack = some (index, v) ∧
      ∀ r : RegisterFile, r.size = size → (retireOn r e).2 = r.put index v) ∨
    ∀ r : RegisterFile, r.size = size → (retireOn r e).2 = r := by
  rcases hback : e.writeBack with _ | ⟨index, v⟩
  · refine .inr fun r _ ↦ ?_
    rw [retireOn_eq, hback]
  · by_cases hlt : index < size
    · refine .inl ⟨index, v, rfl, ?_⟩
      rintro r rfl
      rw [retireOn_eq, hback]
      simp only [hlt, if_true]
    · refine .inr ?_
      rintro r rfl
      rw [retireOn_eq, hback]
      simp only [hlt, if_false]

/-- Retirements commute, unless both reach the same register. -/
theorem retireOn_comm (r : RegisterFile) {e e' : Evaluation}
    (h : ∀ index v v', e.writeBack = some (index, v) → e'.writeBack = some (index, v') →
      r.isHardwired index = true) :
    (retireOn (retireOn r e).2 e').2 = (retireOn (retireOn r e').2 e).2 := by
  have hsize : (retireOn r e).2.size = r.size := (sameSettings_retireOn r e).size
  have hsize' : (retireOn r e').2.size = r.size := (sameSettings_retireOn r e').size
  rcases retireOn_snd_uniform e r.size with ⟨i, v, hback, he⟩ | he
  · rcases retireOn_snd_uniform e' r.size with ⟨j, v', hback', he'⟩ | he'
    · rw [he' _ hsize, he _ hsize', he r rfl, he' r rfl]
      refine r.put_comm ?_ v v'
      rintro rfl
      exact h i v v' hback hback'
    · rw [he' _ hsize, he _ hsize', he' r rfl, he r rfl]
  · rw [he r rfl, he _ hsize']

/-! ## Steps -/

theorem sameSettings_step (d : Datapath) (r : RegisterFile) (w : Word) (pc : Lane) :
    r.SameSettings (d.step r w pc).2 := by
  rcases he : d.evaluate w pc r with fault | e
  · rw [step_of_refused he]
    exact .refl r
  · rw [step_of_evaluate_eq_ok he]
    exact sameSettings_retireOn r e

theorem sameSettings_run (d : Datapath) (r : RegisterFile) (steps : List (Word × Lane)) :
    r.SameSettings (d.run r steps).2 := by
  induction steps generalizing r with
  | nil => exact .refl r
  | cons s steps ih => exact (sameSettings_step d r s.1 s.2).trans (ih _)

/-! ## A list of retirements -/

/-- Retires evaluations one after another, whether or not one fails, and hands on the file. -/
def retireAll (r : RegisterFile) : List Evaluation → List (Option Fault) × RegisterFile
  | [] => ([], r)
  | e :: es =>
    let (answer, r') := retireOn r e
    let (answers, r'') := retireAll r' es
    (answer :: answers, r'')

/-- The value that the last of the evaluations to write a register has for it. -/
def lastValue? (es : List Evaluation) (index : Nat) : Option Lane :=
  es.reverse.findSome? (·.valueFor index)

theorem lastValue?_cons (e : Evaluation) (es : List Evaluation) (index : Nat) :
    lastValue? (e :: es) index = (lastValue? es index).or (e.valueFor index) := by
  rw [lastValue?, List.reverse_cons, List.findSome?_append, List.findSome?_singleton, lastValue?]

theorem sameSettings_retireAll (r : RegisterFile) (es : List Evaluation) :
    r.SameSettings (retireAll r es).2 := by
  induction es generalizing r with
  | nil => exact .refl r
  | cons e es ih => exact (sameSettings_retireOn r e).trans (ih _)

/-- What a register holds after a list of retirements, by induction from the front: what the rest
of the list writes comes later, and wins. -/
theorem value_retireAll {r : RegisterFile} {index : Nat} (hlt : index < r.size)
    (es : List Evaluation) :
    (retireAll r es).2.value index =
      match lastValue? es index with
      | some v => if r.isHardwired index then 0 else v &&& r.mask
      | none => r.value index := by
  induction es generalizing r with
  | nil => rfl
  | cons e es ih =>
    have hsame := sameSettings_retireOn r e
    have htail := ih (hsame.size.symm ▸ hlt)
    rw [hsame.isHardwired, hsame.mask, value_retireOn hlt] at htail
    refine htail.trans ?_
    rw [lastValue?_cons]
    cases lastValue? es index <;> rfl

/-- **What a list of retirements does.**  Let any evaluations be retired on a reachable file, which
leads to `s`; on `s`, and so at every place of every list:

* a retirement fails exactly for a register beyond the file, and names it;
* one that fails, or that writes no register, leaves the whole file as it is;
* one that succeeds and writes a register leaves nothing staged, and no other register changed.

A register of `s` reads what the last of the evaluations that writes it has for it, cut to the
width, and what it read at first if there is none; a hardwired register zero reads zero.  To retire
an evaluation twice is to retire it once, and two neighbours that do not both write one register
may change places, which changes neither the file nor their answers. -/
theorem retireAll_settles {r : RegisterFile} (h : r.Reachable) (es : List Evaluation) :
    let s := (retireAll r es).2
    (∀ e fault, (retireOn s e).1 = some fault ↔ ∃ index v, e.writeBack = some (index, v) ∧
      s.size ≤ index ∧ fault = .registerOutOfRange index s.size) ∧
    (∀ e, (retireOn s e).1 ≠ none ∨ e.writeBack = none → (retireOn s e).2 = s) ∧
    (∀ e index v, (retireOn s e).1 = none → e.writeBack = some (index, v) →
      (retireOn s e).2.staged = none ∧ ∀ i, i ≠ index → (retireOn s e).2.read i = s.read i) ∧
    (∀ index v, index < r.size → lastValue? es index = some v → r.isHardwired index = false →
      (s.read index).map BitVec.toNat = .ok (v.toNat % 2 ^ r.width.bits)) ∧
    (∀ index, lastValue? es index = none → s.read index = r.read index) ∧
    (r.hardwireZero = true → s.read 0 = .ok 0) ∧
    (∀ e, retireOn (retireOn s e).2 e = retireOn s e) ∧
    (∀ e e', (∀ index v v', e.writeBack = some (index, v) → e'.writeBack ≠ some (index, v')) →
      retireAll s [e', e] = ((retireAll s [e, e']).1.reverse, (retireAll s [e, e']).2)) := by
  intro s
  have hsame : r.SameSettings s := sameSettings_retireAll r es
  refine ⟨fun _ _ ↦ retireOn_fst_eq_some_iff, ?_, ?_, ?_, ?_, ?_, retireOn_retireOn s, ?_⟩
  · intro e hkeep
    obtain ⟨index, v, hback, _, hs⟩ | ⟨index, v, _, _, hs⟩ | ⟨_, hs⟩ := retireOn_cases s e
    · rw [hs, hback] at hkeep
      rcases hkeep with hne | hnone
      · exact absurd rfl hne
      · cases hnone
    · rw [hs]
    · rw [hs]
  · intro e index v hok hback
    obtain ⟨i, u, hback', _, hs⟩ | ⟨i, u, _, _, hs⟩ | ⟨hnone, _⟩ := retireOn_cases s e
    · obtain ⟨rfl, rfl⟩ := Prod.mk.inj (Option.some.inj (hback.symm.trans hback'))
      rw [hs]
      refine ⟨rfl, fun j hj ↦ ?_⟩
      exact RegisterFile.read_congr (RegisterFile.SameSettings.put s index v).size
        (RegisterFile.value_put_of_ne hj v)
    · rw [hs] at hok
      cases hok
    · rw [hnone] at hback
      cases hback
  · intro index v hlt hlast hhard
    have hvalue := value_retireAll hlt es
    rw [hlast, hhard] at hvalue
    have hread : s.read index = .ok (v &&& r.mask) :=
      RegisterFile.read_eq_ok_iff.2 ⟨hsame.size.symm ▸ hlt, hvalue.symm⟩
    rw [hread, Except.map, RegisterFile.mask, Lane.toNat_and_mask v r.width.bits_le,
      Lane.unsigned_eq_mod]
  · intro index hlast
    by_cases hlt : index < r.size
    · have hvalue := value_retireAll hlt es
      rw [hlast] at hvalue
      exact RegisterFile.read_congr hsame.size hvalue
    · rw [RegisterFile.read_eq, RegisterFile.read_eq, hsame.size, if_neg hlt, if_neg hlt]
  · intro hhard
    have hzero : s.isHardwired 0 = true :=
      RegisterFile.isHardwired_iff.2 ⟨rfl, hsame.hardwireZero.trans hhard⟩
    refine RegisterFile.read_eq_ok_iff.2 ⟨hsame.size.symm ▸ h.wellFormed.size_pos, ?_⟩
    rw [RegisterFile.value, if_pos hzero]
  · intro e e' hne
    have hfst := retireOn_fst_congr (sameSettings_retireOn s e).size e'
    have hfst' := retireOn_fst_congr (sameSettings_retireOn s e').size e
    have hcomm := retireOn_comm s fun index v v' hback hback' ↦
      absurd hback' (hne index v v' hback)
    simp only [retireAll, hfst, hfst', hcomm, List.reverse_cons, List.reverse_nil, List.nil_append,
      List.cons_append]

/-- Three hand-made evaluations on a file of four registers where a write to `x2` is staged: `x1`
gets seven, `x9` is beyond the file, and then `x1` gets a number that is cut to three.  The staged
write never shows. -/
theorem retireAll_settles_three :
    ∃ r : RegisterFile, r.Reachable ∧ r.staged = some (2, 9) ∧
      let e : Nat → Lane → Evaluation := fun rd result ↦
        { pc := 0, instruction := { rd }, control := { regWrite := true }, opA := 0, opB := 0,
          alu := {}, holds := false, result, storeData := none }
      let s := (retireAll r [e 1 7, e 9 1, e 1 0x100000003]).2
      (retireOn s (e 9 1)).1 = some (.registerOutOfRange 9 4) ∧
        (s.read 1).map BitVec.toNat = .ok 3 ∧ s.read 2 = r.read 2 ∧ s.read 0 = .ok 0 := by
  have hbuild : RegisterFile.ofCount 4 = .ok ⟨[0, 0, 0, 0], .w32, true, false, none⟩ := rfl
  have hr := (RegisterFile.Reachable.ofCount hbuild).perform (.write 2 9)
  refine ⟨_, hr, rfl, ?_⟩
  intro e s
  obtain ⟨hfault, _, _, hlast, hold, hzero, _⟩ :=
    retireAll_settles hr [e 1 7, e 9 1, e 1 0x100000003]
  refine ⟨(hfault _ _).2 ⟨9, 1, rfl, by decide, rfl⟩, ?_, hold 2 rfl, hzero rfl⟩
  exact hlast 1 0x100000003 (by decide) rfl rfl

end Datapath
end Hart
