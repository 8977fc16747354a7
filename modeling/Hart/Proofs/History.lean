import Mathlib.Data.List.Induction
import Hart.Proofs.Invariant

/-!
# Register files and their histories

What a register file holds can be told from the calls that were made on it, without following the
file from state to state.  The rule is stated on the list of calls alone, the oldest first:

* `Call.Idle` — a read, or a write that is refused.  All other calls decide about the staged write.
* `Pending` — the latest write that was staged, nothing but idle calls after it.
* `Lands` — a pending write meets a commit.
* `Latest` — the latest write to a register that landed, and no reset since.

`Reflects` says that a file is in the state that the rule tells.  A fresh file reflects the empty
history, one more call keeps it (`Reflects.perform`), and so does a list of calls
(`reflects_performAll`).  The rule has a law for one more call, too (`pending_concat`,
`latest_concat`); that a call is added at the end is why histories are taken apart from there.
-/

set_option autoImplicit false

namespace Hart
namespace RegisterFile

/-! ## The rule -/

/-- The call has no say about the staged write of a file of `count` registers: it is a read, or a
write that is refused. -/
def Call.Idle (count : Nat) : Call → Prop
  | .read _ => True
  | .write index _ => count ≤ index
  | .commit | .reset => False

instance (count : Nat) : (call : Call) → Decidable (call.Idle count)
  | .read _ => .isTrue trivial
  | .write index _ => inferInstanceAs (Decidable (count ≤ index))
  | .commit | .reset => .isFalse id

/-- The write waits for a commit: it was staged, and then nothing happened. -/
def Pending (count : Nat) (calls : List Call) (index : Nat) (v : Lane) : Prop :=
  ∃ before after, calls = before ++ .write index v :: after ∧ index < count ∧
    ∀ call ∈ after, call.Idle count

/-- The write met a commit before any other write or reset. -/
def Lands (count : Nat) (calls : List Call) (index : Nat) (v : Lane) : Prop :=
  ∃ before after, calls = before ++ .commit :: after ∧ Pending count before index v

/-- The write landed, and since then there was no reset and no other write to the register that
landed. -/
def Latest (count : Nat) (calls : List Call) (index : Nat) (v : Lane) : Prop :=
  ∃ before after, calls = before ++ .commit :: after ∧ Pending count before index v ∧
    .reset ∉ after ∧ ∀ v', ¬Lands count after index v'

/-! ## One more call -/

theorem concat_eq_append_cons_iff {α : Type} {l before after : List α} {x y : α} :
    l ++ [x] = before ++ y :: after ↔
      (after = [] ∧ x = y ∧ l = before) ∨
        ∃ after', after = after' ++ [x] ∧ l = before ++ y :: after' := by
  rcases after.eq_nil_or_concat with rfl | ⟨after', z, rfl⟩
  · rw [List.append_singleton_inj]
    constructor
    · rintro ⟨rfl, rfl⟩
      exact .inl ⟨rfl, rfl, rfl⟩
    · rintro (⟨_, rfl, rfl⟩ | ⟨after', h, _⟩)
      · exact ⟨rfl, rfl⟩
      · exact absurd h (by simp)
  · rw [List.concat_eq_append, ← List.cons_append, ← List.append_assoc, List.append_singleton_inj]
    constructor
    · rintro ⟨rfl, rfl⟩
      exact .inr ⟨after', rfl, rfl⟩
    · rintro (⟨h, _⟩ | ⟨after'', h, rfl⟩)
      · exact absurd h (by simp)
      · obtain ⟨rfl, rfl⟩ := List.append_singleton_inj.1 h
        exact ⟨rfl, rfl⟩

variable {count index : Nat} {v : Lane} {calls : List Call} {call : Call}

/-- A write waits after one more call if it is that call, or waited before and the call is idle. -/
theorem pending_concat :
    Pending count (calls ++ [call]) index v ↔
      (call = .write index v ∧ index < count) ∨
        (Pending count calls index v ∧ call.Idle count) := by
  constructor
  · rintro ⟨before, after, h, hlt, hidle⟩
    rcases concat_eq_append_cons_iff.1 h with ⟨rfl, rfl, rfl⟩ | ⟨after', rfl, rfl⟩
    · exact .inl ⟨rfl, hlt⟩
    · rw [List.forall_mem_append, List.forall_mem_singleton] at hidle
      exact .inr ⟨⟨before, after', rfl, hlt, hidle.1⟩, hidle.2⟩
  · rintro (⟨rfl, hlt⟩ | ⟨⟨before, after, rfl, hlt, hidle⟩, hcall⟩)
    · exact ⟨calls, [], rfl, hlt, List.forall_mem_nil _⟩
    · refine ⟨before, after ++ [call], ?_, hlt, ?_⟩
      · rw [List.append_assoc, List.cons_append]
      · rw [List.forall_mem_append, List.forall_mem_singleton]
        exact ⟨hidle, hcall⟩

theorem Pending.lt (h : Pending count calls index v) : index < count := by
  obtain ⟨_, _, _, hlt, _⟩ := h
  exact hlt

theorem not_pending_concat (h : call = .commit ∨ call = .reset) :
    ¬Pending count (calls ++ [call]) index v := by
  rw [pending_concat]
  rcases h with rfl | rfl
  · rintro (⟨h, _⟩ | ⟨_, h⟩)
    · cases h
    · exact h
  · rintro (⟨h, _⟩ | ⟨_, h⟩)
    · cases h
    · exact h

theorem not_pending_nil : ¬Pending count [] index v := by
  rintro ⟨before, after, h, _⟩
  exact absurd h (by simp)

/-- Nothing from before a commit waits after it. -/
theorem pending_append_commit {before after : List Call} :
    Pending count (before ++ .commit :: after) index v ↔ Pending count after index v := by
  induction after using List.reverseRecOn with
  | nil => exact iff_of_false (not_pending_concat (.inl rfl)) not_pending_nil
  | append_singleton after call ih =>
    rw [← List.cons_append, ← List.append_assoc, pending_concat, pending_concat, ih]

theorem Latest.lt (h : Latest count calls index v) : index < count := by
  obtain ⟨_, _, _, hpending, _⟩ := h
  exact hpending.lt

theorem not_latest_nil : ¬Latest count [] index v := by
  rintro ⟨before, after, h, _⟩
  exact absurd h (by simp)

theorem lands_concat :
    Lands count (calls ++ [call]) index v ↔
      Lands count calls index v ∨ (call = .commit ∧ Pending count calls index v) := by
  constructor
  · rintro ⟨before, after, h, hpending⟩
    rcases concat_eq_append_cons_iff.1 h with ⟨_, rfl, rfl⟩ | ⟨after', _, rfl⟩
    · exact .inr ⟨rfl, hpending⟩
    · exact .inl ⟨before, after', rfl, hpending⟩
  · rintro (⟨before, after, rfl, hpending⟩ | ⟨rfl, hpending⟩)
    · refine ⟨before, after ++ [call], ?_, hpending⟩
      rw [List.append_assoc, List.cons_append]
    · exact ⟨calls, [], rfl, hpending⟩

/-- The latest write after one more call: the one that waited, if the call is a commit; else the
one from before, which only a reset or a commit of another write to the register ends. -/
theorem latest_concat :
    Latest count (calls ++ [call]) index v ↔
      (call = .commit ∧ Pending count calls index v) ∨
        (Latest count calls index v ∧ call ≠ .reset ∧
          (call = .commit → ∀ v', ¬Pending count calls index v')) := by
  constructor
  · rintro ⟨before, after, h, hpending, hreset, hlands⟩
    rcases concat_eq_append_cons_iff.1 h with ⟨_, rfl, rfl⟩ | ⟨after', rfl, rfl⟩
    · exact .inl ⟨rfl, hpending⟩
    · rw [List.mem_append, List.mem_singleton, not_or] at hreset
      simp only [lands_concat, not_or, not_and] at hlands
      refine .inr ⟨⟨before, after', rfl, hpending, hreset.1, fun v' ↦ (hlands v').1⟩,
        Ne.symm hreset.2, fun hcommit v' ↦ ?_⟩
      -- What this commit lands was written after the last one, so `after'` tells what waits.
      rw [pending_append_commit]
      exact (hlands v').2 hcommit
  · rintro (⟨rfl, hpending⟩ | ⟨⟨before, after, rfl, hpending, hreset, hlands⟩, hcall, hcommit⟩)
    · refine ⟨calls, [], rfl, hpending, List.not_mem_nil, ?_⟩
      rintro v' ⟨before, after, h, _⟩
      exact absurd h (by simp)
    · simp only [pending_append_commit] at hcommit
      refine ⟨before, after ++ [call], ?_, hpending, ?_, ?_⟩
      · rw [List.append_assoc, List.cons_append]
      · rw [List.mem_append, List.mem_singleton, not_or]
        exact ⟨hreset, Ne.symm hcall⟩
      · simp only [lands_concat, not_or, not_and]
        exact fun v' ↦ ⟨hlands v', fun h ↦ hcommit h v'⟩

/-! ## Files that follow the rule -/

/-- The file `s` is what the rule tells of the calls, made on the file `r`. -/
structure Reflects (r : RegisterFile) (calls : List Call) (s : RegisterFile) : Prop where
  settings : r.SameSettings s
  staged : ∀ index u, s.staged = some (index, u) ↔
    ∃ v, Pending r.size calls index v ∧ u = v &&& r.mask
  latest : ∀ index v, Latest r.size calls index v →
    s.value index = if r.isHardwired index then 0 else v &&& r.mask
  zero : ∀ index, (∀ v, ¬Latest r.size calls index v) → s.value index = 0

namespace Reflects

variable {r s : RegisterFile}

theorem pending (h : r.Reflects calls s) (hpending : Pending r.size calls index v) :
    s.staged = some (index, v &&& r.mask) :=
  (h.staged index _).2 ⟨v, hpending, rfl⟩

theorem staged_eq_none (h : r.Reflects calls s) (hnone : ∀ index v, ¬Pending r.size calls index v) :
    s.staged = none := by
  rw [Option.eq_none_iff_forall_ne_some]
  rintro ⟨index, u⟩ hs
  obtain ⟨v, hpending, _⟩ := (h.staged index u).1 hs
  exact hnone index v hpending

/-- A call that does not decide about the staged write leaves the registers alone. -/
theorem value_concat {s' : RegisterFile} (h : r.Reflects calls s) (hreset : call ≠ .reset)
    (hcommit : call ≠ .commit) (hvalue : ∀ i, s'.value i = s.value i) :
    (∀ index v, Latest r.size (calls ++ [call]) index v →
      s'.value index = if r.isHardwired index then 0 else v &&& r.mask) ∧
    ∀ index, (∀ v, ¬Latest r.size (calls ++ [call]) index v) → s'.value index = 0 := by
  have hlatest : ∀ index v, Latest r.size (calls ++ [call]) index v ↔
      Latest r.size calls index v := by
    intro index v
    rw [latest_concat]
    simp only [hcommit, hreset, false_and, false_or, ne_eq, not_false_eq_true, false_imp_iff,
      and_true]
  simp only [hlatest, hvalue]
  exact ⟨h.latest, h.zero⟩

theorem idle (h : r.Reflects calls s) (hidle : call.Idle r.size) :
    r.Reflects (calls ++ [call]) s := by
  have hreset : call ≠ .reset := by rintro rfl; exact hidle
  have hcommit : call ≠ .commit := by rintro rfl; exact hidle
  obtain ⟨hlatest, hzero⟩ := h.value_concat hreset hcommit fun _ ↦ rfl
  refine ⟨h.settings, ?_, hlatest, hzero⟩
  intro index u
  have hpending : ∀ v, Pending r.size (calls ++ [call]) index v ↔ Pending r.size calls index v := by
    intro v
    rw [pending_concat]
    refine ⟨?_, fun hp ↦ .inr ⟨hp, hidle⟩⟩
    rintro (⟨rfl, hlt⟩ | ⟨hp, _⟩)
    · exact absurd hlt (Nat.not_lt.2 hidle)
    · exact hp
  simp only [hpending, h.staged]

theorem write {s' : RegisterFile} (h : r.Reflects calls s) (hw : s.write index v = .ok s') :
    r.Reflects (calls ++ [.write index v]) s' := by
  have hreset : Call.write index v ≠ .reset := nofun
  obtain ⟨hlatest, hzero⟩ := h.value_concat hreset nofun (value_of_write hw)
  obtain ⟨hlt, rfl⟩ := write_eq_ok_iff.1 hw
  refine ⟨h.settings.trans (.write hw), ?_, hlatest, hzero⟩
  intro index' u
  rw [h.settings.size] at hlt
  rw [h.settings.mask]
  constructor
  · rintro ⟨⟩
    exact ⟨v, pending_concat.2 (.inl ⟨rfl, hlt⟩), rfl⟩
  · rintro ⟨v', hpending, rfl⟩
    rcases pending_concat.1 hpending with ⟨⟨⟩, _⟩ | ⟨_, hidle⟩
    · rfl
    · exact absurd hlt (Nat.not_lt.2 hidle)

theorem commit (h : r.Reflects calls s) : r.Reflects (calls ++ [.commit]) s.commit := by
  have hkeep : ∀ index, (∀ v, ¬Pending r.size calls index v) →
      s.commit.value index = s.value index := by
    intro index hnone
    refine value_commit_of_ne ?_
    intro u hu
    obtain ⟨v, hpending, _⟩ := (h.staged index u).1 hu
    exact hnone v hpending
  -- A register takes the write that waits for it, and no other register changes.
  refine ⟨h.settings.trans (.commit s), ?_, ?_, ?_⟩
  · intro index u
    rw [staged_commit]
    refine iff_of_false nofun ?_
    rintro ⟨v, hpending, _⟩
    exact not_pending_concat (.inl rfl) hpending
  · intro index v hlatest
    rcases latest_concat.1 hlatest with ⟨_, hpending⟩ | ⟨hbefore, _, hnone⟩
    · rw [value_commit_of_staged (h.pending hpending) (h.settings.size ▸ hpending.lt),
        h.settings.isHardwired]
    · rw [hkeep index (hnone rfl)]
      exact h.latest index v hbefore
  · intro index hnone
    have hpending : ∀ v, ¬Pending r.size calls index v :=
      fun v hp ↦ hnone v (latest_concat.2 (.inl ⟨rfl, hp⟩))
    rw [hkeep index hpending]
    refine h.zero index ?_
    intro v hlatest
    exact hnone v (latest_concat.2 (.inr ⟨hlatest, nofun, fun _ ↦ hpending⟩))

theorem reset (h : r.Reflects calls s) : r.Reflects (calls ++ [.reset]) s.reset := by
  refine ⟨h.settings.trans (.reset s), ?_, ?_, fun index _ ↦ s.value_reset index⟩
  · intro index u
    refine iff_of_false nofun ?_
    rintro ⟨v, hpending, _⟩
    exact not_pending_concat (.inr rfl) hpending
  · intro index v hlatest
    rcases latest_concat.1 hlatest with ⟨hcall, _⟩ | ⟨_, hcall, _⟩
    · cases hcall
    · exact absurd rfl hcall

/-- One more call keeps a file in step with its history. -/
theorem perform (h : r.Reflects calls s) (call : Call) :
    r.Reflects (calls ++ [call]) (s.perform call).2 := by
  cases call with
  | read index =>
    rw [perform_read_snd]
    exact h.idle trivial
  | write index v =>
    rw [perform_write]
    rcases hw : s.write index v with f | s'
    · have hle := (write_eq_error_iff.1 hw).1
      rw [h.settings.size] at hle
      exact h.idle hle
    · exact h.write hw
  | commit => exact h.commit
  | reset => exact h.reset

end Reflects

theorem Fresh.reflects {r : RegisterFile} (h : r.Fresh) : r.Reflects [] r := by
  obtain ⟨_, _, _, hstaged⟩ := h.eq
  refine ⟨.refl r, ?_, fun index v hlatest ↦ absurd hlatest not_latest_nil, ?_⟩
  · intro index u
    rw [hstaged]
    refine iff_of_false nofun ?_
    rintro ⟨v, hpending, _⟩
    exact not_pending_nil hpending
  · intro index _
    rw [← h.reset_eq, value_reset]

theorem reflects_performAll {r : RegisterFile} (h : r.Fresh) (calls : List Call) :
    r.Reflects calls (r.performAll calls).2 := by
  induction calls using List.reverseRecOn with
  | nil => exact h.reflects
  | append_singleton calls call ih =>
    rw [performAll_append]
    exact ih.perform call

/-- **A register file holds what its history tells.**  After any calls on a fresh file, refused ones
among them: a register reads the latest write that landed, cut to the width, and zero if there is
none or if it is hardwired; the write that waits is staged, cut to the width, and nothing is staged
if none waits; accesses fail exactly beyond the file; a call that fails leaves the file as it is;
and a reset gives back the fresh file. -/
theorem performAll_history {r : RegisterFile} (h : r.Fresh) (calls : List Call) :
    let s := (r.performAll calls).2
    (∀ index v, Latest r.size calls index v → r.isHardwired index = false →
      (s.read index).map BitVec.toNat = .ok (v.toNat % 2 ^ r.width.bits)) ∧
    (∀ index, index < r.size → (∀ v, ¬Latest r.size calls index v) ∨ r.isHardwired index = true →
      s.read index = .ok 0) ∧
    (∀ index v, Pending r.size calls index v →
      s.staged.map (fun p ↦ (p.1, p.2.toNat)) = some (index, v.toNat % 2 ^ r.width.bits)) ∧
    ((∀ index v, ¬Pending r.size calls index v) → s.staged = none) ∧
    (∀ index, (∃ f, s.read index = .error f) ↔ r.size ≤ index) ∧
    (∀ index v, (∃ f, s.write index v = .error f) ↔ r.size ≤ index) ∧
    (∀ call f, (s.perform call).1 = .refused f → (s.perform call).2 = s) ∧
    s.reset = r := by
  intro s
  have hs : r.Reflects calls s := reflects_performAll h calls
  have hcut : ∀ v : Lane, (v &&& r.mask).toNat = v.toNat % 2 ^ r.width.bits := by
    intro v
    rw [mask, Lane.toNat_and_mask v r.width.bits_le, Lane.unsigned_eq_mod]
  refine ⟨?_, ?_, ?_, hs.staged_eq_none, ?_, ?_, ?_, ?_⟩
  · intro index v hlatest hhard
    have hread : s.read index = .ok (v &&& r.mask) := by
      refine read_eq_ok_iff.2 ⟨hs.settings.size ▸ hlatest.lt, ?_⟩
      rw [hs.latest index v hlatest, hhard]
      rfl
    rw [hread, Except.map, hcut]
  · intro index hlt hzero
    refine read_eq_ok_iff.2 ⟨hs.settings.size ▸ hlt, ?_⟩
    rcases hzero with hnone | hhard
    · exact (hs.zero index hnone).symm
    · rw [value, hs.settings.isHardwired, if_pos hhard]
  · intro index v hpending
    rw [hs.pending hpending, Option.map_some, hcut]
  · intro index
    simp only [read_eq_error_iff, exists_and_left, exists_eq, and_true, hs.settings.size]
  · intro index v
    simp only [write_eq_error_iff, exists_and_left, exists_eq, and_true, hs.settings.size]
  · intro call f hf
    exact perform_refused (Prod.ext hf rfl)
  · exact hs.settings.reset_eq_reset.trans h.reset_eq

/-- A write that lands, two calls beyond the file, and a write that waits and is cut. -/
theorem performAll_history_two_writes :
    ∃ r : RegisterFile, ofCount 4 = .ok r ∧
      let s := (r.performAll [.write 1 7, .read 9, .commit, .write 2 0x100000002, .write 9 1]).2
      (s.read 1).map BitVec.toNat = .ok 7 ∧
        s.staged.map (fun p ↦ (p.1, p.2.toNat)) = some (2, 2) := by
  have hfresh : ofCount 4 = .ok ⟨[0, 0, 0, 0], .w32, true, false, none⟩ := rfl
  refine ⟨_, hfresh, ?_⟩
  have hlatest : Latest 4 [.write 1 7, .read 9, .commit, .write 2 0x100000002, .write 9 1] 1 7 := by
    refine ⟨[.write 1 7, .read 9], [.write 2 0x100000002, .write 9 1], rfl,
      ⟨[], [.read 9], rfl, by decide, by decide⟩, by simp, ?_⟩
    rintro v' ⟨before, after, h, _⟩
    have hmem : Call.commit ∈ [Call.write 2 0x100000002, .write 9 1] :=
      h ▸ List.mem_append_right before List.mem_cons_self
    exact absurd hmem (by decide)
  have hpending :
      Pending 4 [.write 1 7, .read 9, .commit, .write 2 0x100000002, .write 9 1] 2 0x100000002 :=
    ⟨[.write 1 7, .read 9, .commit], [.write 9 1], rfl, by decide, by decide⟩
  obtain ⟨hread, _, hstaged, _⟩ := performAll_history (.inl ⟨4, hfresh⟩)
    [.write 1 7, .read 9, .commit, .write 2 0x100000002, .write 9 1]
  exact ⟨hread 1 7 hlatest rfl, hstaged 2 0x100000002 hpending⟩

end RegisterFile
end Hart
