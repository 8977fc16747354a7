import Hart.Config
import Hart.Event
import Hart.Lane

/-!
# The register file

A register file holds its registers and at most one staged write.  A write is staged first and seen
by nobody; `commit` moves it into its register, which is the edge of the clock.  A file may
hardwire register zero: it reads zero whatever happens, and a write to it is discarded at the
commit.

Reading and staging fail exactly when the index is beyond the file
(`RegisterFile.read_eq_error_iff`, `RegisterFile.write_eq_error_iff`).  An operation that may change
a file is an `Update`, which hands on a file where it fails, too; staging checks the index before it
touches the file, and hands on the file as it was (`RegisterFile.atomic_stage`).

What reads answer is `RegisterFile.value`, which only a commit or a reset changes
(`RegisterFile.value_commit_of_staged`, `RegisterFile.value_commit_of_ne`,
`RegisterFile.value_reset`).
-/

set_option autoImplicit false

namespace Hart

/-- A register file. -/
structure RegisterFile where
  /-- The contents of the registers, from register zero on. -/
  regs : List Lane
  /-- The width that written values are cut to. -/
  width : Width
  /-- Register zero always reads zero. -/
  hardwireZero : Bool
  /-- Commits that change a register are reported. -/
  trace : Bool
  /-- The write that waits for the next commit: a register and its value. -/
  staged : Option (Nat × Lane)
  deriving DecidableEq, Repr

/-- The most registers that a five-bit field can name. -/
def maxRegisters : Nat := 32

namespace RegisterFile

/-! ## Making a file -/

/-- A file of `count` registers, all zero and with nothing staged. -/
def build (count : Nat) (width : Width) (hardwireZero trace : Bool) :
    Except Fault RegisterFile :=
  if count = 0 ∨ maxRegisters < count then
    .error (.invalidRegisterCount count)
  else
    .ok { regs := List.replicate count 0, width, hardwireZero, trace, staged := none }

/-- A file of `count` registers of 32 bits, register zero hardwired and nothing reported. -/
def ofCount (count : Nat) : Except Fault RegisterFile :=
  build count .w32 true false

/-- The file that a configuration asks for. -/
def ofConfig (c : Config) : Except Fault RegisterFile := do
  let width ← c.validate
  build c.regCount width c.hardwireZero c.trace

theorem build_eq_ok_iff {count : Nat} {width : Width} {hardwireZero trace : Bool}
    {r : RegisterFile} :
    build count width hardwireZero trace = .ok r ↔ (0 < count ∧ count ≤ maxRegisters) ∧
      r = ⟨List.replicate count 0, width, hardwireZero, trace, none⟩ := by
  rw [build]
  by_cases h : count = 0 ∨ maxRegisters < count
  · have hcount : ¬ (0 < count ∧ count ≤ maxRegisters) := by omega
    simp only [h, if_true, hcount, false_and, reduceCtorEq]
  · have hcount : 0 < count ∧ count ≤ maxRegisters := by omega
    simp only [h, if_false, hcount, and_self, true_and, Except.ok.injEq, eq_comm]

/-- A number of registers that was validated is not refused where the file is built: both bounds are
the same. -/
theorem build_of_validate {c : Config} {w : Width} (h : c.validate = .ok w) :
    build c.regCount w c.hardwireZero c.trace =
      .ok ⟨List.replicate c.regCount 0, w, c.hardwireZero, c.trace, none⟩ :=
  build_eq_ok_iff.2 ⟨(Config.validate_eq_ok_iff.1 h).2, rfl⟩

theorem ofConfig_of_validate {c : Config} {w : Width} (h : c.validate = .ok w) :
    ofConfig c = .ok ⟨List.replicate c.regCount 0, w, c.hardwireZero, c.trace, none⟩ := by
  rw [ofConfig, h]
  exact build_of_validate h

theorem ofConfig_eq_ok_iff {c : Config} {r : RegisterFile} :
    ofConfig c = .ok r ↔ ∃ w, c.validate = .ok w ∧
      r = ⟨List.replicate c.regCount 0, w, c.hardwireZero, c.trace, none⟩ := by
  rcases hc : c.validate with fault | w
  · rw [ofConfig, hc]
    simp only [bind, Except.bind, reduceCtorEq, false_and, exists_false]
  · rw [ofConfig_of_validate hc]
    simp only [Except.ok.injEq, exists_eq_left', eq_comm]

/-! ## Looking at a file -/

/-- The number of registers. -/
def size (r : RegisterFile) : Nat :=
  r.regs.length

/-- Whether there are no registers, which is true of no file that was built. -/
def isEmpty (r : RegisterFile) : Bool :=
  r.regs.isEmpty

/-- The mask of the file's width. -/
def mask (r : RegisterFile) : Lane :=
  Lane.mask r.width.bits

/-- Whether `index` is register zero and hardwired. -/
def isHardwired (r : RegisterFile) (index : Nat) : Bool :=
  index = 0 && r.hardwireZero

/-- The committed value of a register.  A staged write does not show. -/
def read (r : RegisterFile) (index : Nat) : Except Fault Lane :=
  match r.regs[index]? with
  | some value => .ok (if r.isHardwired index then 0 else value)
  | none => .error (.registerOutOfRange index r.size)

/-- The committed value of a register as a total function: zero where `read` fails. -/
def value (r : RegisterFile) (index : Nat) : Lane :=
  if r.isHardwired index then 0 else r.regs.getD index 0

/-- The registers that do not read zero, with their values, in order. -/
def nonzero (r : RegisterFile) : List (Nat × Lane) :=
  (List.range r.size).filterMap fun index ↦
    match r.read index with
    | .ok value => if value = 0 then none else some (index, value)
    | .error _ => none

/-! ## Changing a file -/

/-- An operation that may change a file and may fail.  It hands on a file in either case. -/
abbrev Update := EStateM Fault RegisterFile

namespace Update

/-- The fault of an update, if it fails, and the file that it hands on. -/
def outcome (u : Update Unit) (r : RegisterFile) : Option Fault × RegisterFile :=
  match u.run r with
  | .ok _ r' => (none, r')
  | .error fault r' => (some fault, r')

/-- The file that an update leads to, if it succeeds. -/
def after (u : Update Unit) (r : RegisterFile) : Except Fault RegisterFile :=
  match u.outcome r with
  | (none, r') => .ok r'
  | (some fault, _) => .error fault

/-- Where the update fails, it hands on the file as it was. -/
def Atomic (u : Update Unit) : Prop :=
  ∀ r fault r', u.outcome r = (some fault, r') → r' = r

end Update

/-- Fails for a register beyond the file. -/
def checkIndex (index : Nat) : Update Unit := do
  let r ← get
  if r.size ≤ index then
    throw (.registerOutOfRange index r.size)

/-- Stages a write, in place of one that was staged before. -/
def stage (index : Nat) (value : Lane) : Update Unit := do
  checkIndex index
  modify fun r ↦ { r with staged := some (index, value &&& r.mask) }

/-- The file with a write staged. -/
def write (r : RegisterFile) (index : Nat) (value : Lane) : Except Fault RegisterFile :=
  (stage index value).after r

/-- Moves the staged write into its register, or discards it if the register is hardwired. -/
def commit (r : RegisterFile) : RegisterFile :=
  match r.staged with
  | none => r
  | some (index, value) =>
    { r with
      regs := if r.isHardwired index then r.regs else r.regs.set index value
      staged := none }

/-- What a commit reports: the register that it changes, if the file is traced. -/
def commitEvents (r : RegisterFile) : List Event :=
  match r.staged with
  | none => []
  | some (index, value) =>
    if r.trace && !r.isHardwired index then [.committed index value] else []

/-- Zeroes every register and drops the staged write. -/
def reset (r : RegisterFile) : RegisterFile :=
  { r with regs := List.replicate r.size 0, staged := none }

/-! ## Updates that fail -/

namespace Update

/-- What is done after an update is done to the file that it hands on, if it succeeds. -/
theorem outcome_bind_modify (u : Update Unit) (f : RegisterFile → RegisterFile)
    (r : RegisterFile) :
    outcome (u >>= fun _ ↦ modify f) r =
      match u.outcome r with
      | (none, r') => (none, f r')
      | (some fault, r') => (some fault, r') := by
  simp only [outcome, EStateM.run, bind, EStateM.bind]
  cases u r <;> rfl

theorem after_eq_ok_iff {u : Update Unit} {r r' : RegisterFile} :
    u.after r = .ok r' ↔ u.outcome r = (none, r') := by
  rw [after]
  rcases u.outcome r with ⟨_ | fault, s⟩
  · simp only [Except.ok.injEq, Prod.mk.injEq, true_and]
  · simp only [reduceCtorEq, Prod.mk.injEq, false_and]

theorem after_eq_error_iff {u : Update Unit} {r : RegisterFile} {fault : Fault} :
    u.after r = .error fault ↔ (u.outcome r).1 = some fault := by
  rw [after]
  rcases u.outcome r with ⟨_ | fault', s⟩
  · simp only [reduceCtorEq]
  · simp only [Except.error.injEq, Option.some.injEq]

theorem after_bind_modify (u : Update Unit) (f : RegisterFile → RegisterFile) (r : RegisterFile) :
    after (u >>= fun _ ↦ modify f) r = (u.after r).map f := by
  rw [after, after, outcome_bind_modify]
  rcases u.outcome r with ⟨_ | fault, s⟩ <;> rfl

/-- An atomic update is known from its fault and from the file that it leads to. -/
theorem Atomic.outcome_eq {u : Update Unit} (h : u.Atomic) (r : RegisterFile) :
    u.outcome r =
      match u.after r with
      | .ok r' => (none, r')
      | .error fault => (some fault, r) := by
  rw [after]
  rcases houtcome : u.outcome r with ⟨_ | fault, s⟩
  · rfl
  · rw [h r fault s houtcome]

/-- A change that cannot fail may follow. -/
theorem Atomic.bind_modify {u : Update Unit} (h : u.Atomic) (f : RegisterFile → RegisterFile) :
    Atomic (u >>= fun _ ↦ modify f) := by
  intro r fault r' hfail
  rw [outcome_bind_modify] at hfail
  rcases houtcome : u.outcome r with ⟨_ | fault', s⟩
  · rw [houtcome] at hfail
    cases hfail
  · rw [houtcome] at hfail
    cases hfail
    exact h r fault r' houtcome

end Update

theorem outcome_checkIndex (index : Nat) (r : RegisterFile) :
    (checkIndex index).outcome r =
      (if r.size ≤ index then some (.registerOutOfRange index r.size) else none, r) := by
  show Update.outcome
    (if r.size ≤ index then throw (.registerOutOfRange index r.size) else pure ()) r = _
  split <;> rfl

theorem atomic_checkIndex (index : Nat) : (checkIndex index).Atomic := by
  intro r fault r' hfail
  rw [outcome_checkIndex] at hfail
  exact (Prod.mk.inj hfail).2.symm

/-- The index is checked before the write is staged. -/
theorem atomic_stage (index : Nat) (value : Lane) : (stage index value).Atomic :=
  (atomic_checkIndex index).bind_modify _

theorem outcome_stage (index : Nat) (value : Lane) (r : RegisterFile) :
    (stage index value).outcome r =
      if r.size ≤ index then (some (.registerOutOfRange index r.size), r)
      else (none, { r with staged := some (index, value &&& r.mask) }) := by
  rw [stage, Update.outcome_bind_modify, outcome_checkIndex]
  by_cases h : r.size ≤ index
  · rw [if_pos h, if_pos h]
  · rw [if_neg h, if_neg h]

/-! ## What accesses answer -/

theorem isHardwired_iff {r : RegisterFile} {index : Nat} :
    r.isHardwired index = true ↔ index = 0 ∧ r.hardwireZero = true := by
  rw [isHardwired, Bool.and_eq_true, decide_eq_true_iff]

theorem read_eq_ok_iff {r : RegisterFile} {index : Nat} {v : Lane} :
    r.read index = .ok v ↔ index < r.size ∧ v = r.value index := by
  rw [read, value, List.getD_eq_getElem?_getD, size]
  rcases hget : r.regs[index]? with _ | u
  · have hle : r.regs.length ≤ index := List.getElem?_eq_none_iff.1 hget
    simp only [reduceCtorEq, false_iff, not_and]
    omega
  · have hlt : index < r.regs.length := (List.getElem?_eq_some_iff.1 hget).1
    simp only [hlt, true_and, Except.ok.injEq, Option.getD_some, eq_comm]

theorem read_eq_error_iff {r : RegisterFile} {index : Nat} {f : Fault} :
    r.read index = .error f ↔ r.size ≤ index ∧ f = .registerOutOfRange index r.size := by
  rw [read]
  split
  · rename_i value h
    have := (List.getElem?_eq_some_iff.1 h).1
    simp [size]; omega
  · rename_i h
    have := List.getElem?_eq_none_iff.1 h
    simp [size, this, eq_comm]

/-- What a read answers, by the total function that it agrees with. -/
theorem read_eq (r : RegisterFile) (index : Nat) :
    r.read index =
      if index < r.size then .ok (r.value index)
      else .error (.registerOutOfRange index r.size) := by
  split
  · rename_i h
    exact read_eq_ok_iff.2 ⟨h, rfl⟩
  · rename_i h
    exact read_eq_error_iff.2 ⟨Nat.not_lt.1 h, rfl⟩

/-- Where a read of one file answers, and of another file the same, the values are equal. -/
theorem value_eq_of_read_eq {r r' : RegisterFile} {index : Nat} (hlt : index < r.size)
    (h : r'.read index = r.read index) : r'.value index = r.value index :=
  (read_eq_ok_iff.1 (h.trans (read_eq_ok_iff.2 ⟨hlt, rfl⟩))).2.symm

theorem value_of_size_le {r : RegisterFile} {index : Nat} (h : r.size ≤ index) :
    r.value index = 0 := by
  rw [value, List.getD_eq_getElem?_getD, List.getElem?_eq_none h, Option.getD_none, ite_self]

theorem write_eq_ok_iff {r r' : RegisterFile} {index : Nat} {v : Lane} :
    r.write index v = .ok r' ↔
      index < r.size ∧ r' = { r with staged := some (index, v &&& r.mask) } := by
  rw [write, Update.after_eq_ok_iff, outcome_stage]
  by_cases h : r.size ≤ index
  · simp only [h, if_true, Nat.not_lt.2 h, false_and, Prod.mk.injEq, reduceCtorEq]
  · simp only [h, if_false, Nat.not_le.1 h, true_and, Prod.mk.injEq, eq_comm]

theorem write_eq_error_iff {r : RegisterFile} {index : Nat} {value : Lane} {f : Fault} :
    r.write index value = .error f ↔ r.size ≤ index ∧ f = .registerOutOfRange index r.size := by
  rw [write, Update.after_eq_error_iff, outcome_stage]
  by_cases h : r.size ≤ index
  · simp only [h, if_true, true_and, Option.some.injEq, eq_comm]
  · simp only [h, if_false, false_and, reduceCtorEq]

/-! ## What an operation leaves alone -/

@[simp]
theorem size_commit (r : RegisterFile) : r.commit.size = r.size := by
  rw [commit]
  split
  · rfl
  · simp only [size]
    split <;> simp

@[simp]
theorem size_reset (r : RegisterFile) : r.reset.size = r.size := by
  simp [reset, size]

@[simp]
theorem staged_commit (r : RegisterFile) : r.commit.staged = none := by
  rw [commit]
  split <;> simp_all

@[simp]
theorem isHardwired_commit (r : RegisterFile) (index : Nat) :
    r.commit.isHardwired index = r.isHardwired index := by
  rw [commit]
  split <;> rfl

/-! ## Values after an operation -/

/-- A reset file reads zero everywhere. -/
theorem value_reset (r : RegisterFile) (index : Nat) : r.reset.value index = 0 := by
  have hget : r.reset.regs.getD index 0 = 0 := by
    rw [reset, List.getD_eq_getElem?_getD, List.getElem?_replicate]
    split <;> rfl
  rw [value, hget, ite_self]

/-- Staging a write does not change what a register reads. -/
theorem value_of_write {r r' : RegisterFile} {index : Nat} {v : Lane}
    (h : r.write index v = .ok r') (i : Nat) : r'.value i = r.value i := by
  obtain ⟨_, rfl⟩ := write_eq_ok_iff.1 h
  rfl

theorem regs_commit {r : RegisterFile} {index : Nat} {v : Lane}
    (h : r.staged = some (index, v)) :
    r.commit.regs = if r.isHardwired index then r.regs else r.regs.set index v := by
  rw [commit, h]

/-- A commit gives the register that is staged its value, unless it is hardwired. -/
theorem value_commit_of_staged {r : RegisterFile} {index : Nat} {v : Lane}
    (h : r.staged = some (index, v)) (hlt : index < r.size) :
    r.commit.value index = if r.isHardwired index then 0 else v := by
  rw [value, isHardwired_commit, regs_commit h]
  by_cases hhard : r.isHardwired index = true
  · rw [if_pos hhard, if_pos hhard]
  · have hset : (r.regs.set index v)[index]? = some v := List.getElem?_set_self hlt
    rw [if_neg hhard, if_neg hhard, if_neg hhard, List.getD_eq_getElem?_getD, hset,
      Option.getD_some]

/-- A commit leaves every register alone but the one that is staged. -/
theorem value_commit_of_ne {r : RegisterFile} {index : Nat}
    (h : ∀ v, r.staged ≠ some (index, v)) : r.commit.value index = r.value index := by
  have hget : r.commit.regs[index]? = r.regs[index]? := by
    rcases hstaged : r.staged with _ | ⟨index', v⟩
    · rw [commit, hstaged]
    · have hne : index' ≠ index := by
        rintro rfl
        exact h v hstaged
      rw [regs_commit hstaged]
      split
      · rfl
      · exact List.getElem?_set_ne hne
  rw [value, value, isHardwired_commit, List.getD_eq_getElem?_getD, List.getD_eq_getElem?_getD,
    hget]

end RegisterFile
end Hart
