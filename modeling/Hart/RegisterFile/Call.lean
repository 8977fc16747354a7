import Hart.RegisterFile

/-!
# Calls on a register file

The four operations on a register file as data, so that a history of a file is a list.  `perform`
answers one call and hands on the file; a refused call hands on the file it was given
(`RegisterFile.perform_refused`).
-/

set_option autoImplicit false

namespace Hart
namespace RegisterFile

/-- An operation on a register file. -/
inductive Call where
  /-- Reads a register. -/
  | read (index : Nat)
  /-- Stages a write. -/
  | write (index : Nat) (value : Lane)
  /-- Applies the staged write. -/
  | commit
  /-- Zeroes the file. -/
  | reset
  deriving DecidableEq, Repr

/-- The answer to a call. -/
inductive Answer where
  /-- The value that was read. -/
  | value (value : Lane)
  /-- The call was carried out. -/
  | done
  /-- The call failed. -/
  | refused (fault : Fault)
  deriving DecidableEq, Repr

/-- Answers a call, and hands on the file. -/
def perform (r : RegisterFile) : Call → Answer × RegisterFile
  | .read index =>
    match r.read index with
    | .ok value => (.value value, r)
    | .error fault => (.refused fault, r)
  | .write index value =>
    match (stage index value).outcome r with
    | (none, r') => (.done, r')
    | (some fault, r') => (.refused fault, r')
  | .commit => (.done, r.commit)
  | .reset => (.done, r.reset)

/-- What a call reports: only a commit reports anything. -/
def callEvents (r : RegisterFile) : Call → List Event
  | .commit => r.commitEvents
  | .read _ | .write .. | .reset => []

/-- Answers calls one after another, and hands on the file. -/
def performAll (r : RegisterFile) : List Call → List Answer × RegisterFile
  | [] => ([], r)
  | call :: calls =>
    let (answer, r') := r.perform call
    let (answers, r'') := r'.performAll calls
    (answer :: answers, r'')

theorem performAll_append (r : RegisterFile) (calls calls' : List Call) :
    r.performAll (calls ++ calls') =
      ((r.performAll calls).1 ++ ((r.performAll calls).2.performAll calls').1,
        ((r.performAll calls).2.performAll calls').2) := by
  induction calls generalizing r with
  | nil => rfl
  | cons call calls ih => simp [performAll, ih]

/-- A write, known from the file after it: one that is refused hands on the file as it was. -/
theorem perform_write (r : RegisterFile) (index : Nat) (value : Lane) :
    r.perform (.write index value) =
      match r.write index value with
      | .ok r' => (.done, r')
      | .error fault => (.refused fault, r) := by
  rw [perform, (atomic_stage index value).outcome_eq r, ← write]
  cases r.write index value <;> rfl

/-- A read leaves the file as it is, whether or not it is refused. -/
theorem perform_read_snd (r : RegisterFile) (index : Nat) : (r.perform (.read index)).2 = r := by
  rw [perform]
  split <;> rfl

/-- A refused call leaves the file as it was. -/
theorem perform_refused {r r' : RegisterFile} {call : Call} {fault : Fault}
    (h : r.perform call = (.refused fault, r')) : r' = r := by
  cases call with
  | read index => exact (congrArg Prod.snd h).symm.trans (r.perform_read_snd index)
  | write index value =>
    rw [perform_write] at h
    split at h <;> cases h
    rfl
  | commit => cases h
  | reset => cases h

end RegisterFile
end Hart
