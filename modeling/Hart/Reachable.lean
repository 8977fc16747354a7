import Hart.Datapath
import Hart.RegisterFile.Call

/-!
# Reachable register files

The register files that a caller can come to hold: those that are built, and those that calls and
retirements lead to, whatever their arguments.  An evaluation may be retired that no datapath ever
made.

`Reaches` is the same from a given file on: the files that a machine built from one configuration
passes through are those that its first file reaches (`RegisterFile.reachable_iff`).
-/

set_option autoImplicit false

namespace Hart
namespace RegisterFile

/-- A caller can come to hold the file. -/
inductive Reachable : RegisterFile → Prop where
  | ofCount {count : Nat} {r : RegisterFile} : ofCount count = .ok r → Reachable r
  | ofConfig {c : Config} {r : RegisterFile} : ofConfig c = .ok r → Reachable r
  | perform {r : RegisterFile} (call : Call) : Reachable r → Reachable (r.perform call).2
  | retire {r r' : RegisterFile} (e : Evaluation) :
    Reachable r → Datapath.retire e r = .ok r' → Reachable r'

/-- A file as it is built. -/
def Fresh (r : RegisterFile) : Prop :=
  (∃ count, ofCount count = .ok r) ∨ ∃ c, ofConfig c = .ok r

/-- Calls and retirements lead from the first file to the second. -/
inductive Reaches (r : RegisterFile) : RegisterFile → Prop where
  | refl : Reaches r r
  | perform {r' : RegisterFile} (call : Call) : Reaches r r' → Reaches r (r'.perform call).2
  | retire {r' r'' : RegisterFile} (e : Evaluation) :
    Reaches r r' → Datapath.retire e r' = .ok r'' → Reaches r r''

theorem Reaches.trans {r r' r'' : RegisterFile} (h : r.Reaches r') (h' : r'.Reaches r'') :
    r.Reaches r'' := by
  induction h' with
  | refl => exact h
  | perform call _ ih => exact ih.perform call
  | retire e _ hretire ih => exact ih.retire e hretire

/-- A retirement leads to a file that the caller can hold, also where it fails. -/
theorem reaches_retireOn (r : RegisterFile) (e : Evaluation) :
    r.Reaches (Datapath.retireOn r e).2 := by
  rw [Datapath.retireOn_eq_retire]
  cases h : Datapath.retire e r with
  | error fault => exact .refl
  | ok r' => exact .retire e .refl h

/-- The reachable files are those that a fresh file reaches. -/
theorem reachable_iff {r : RegisterFile} :
    r.Reachable ↔ ∃ r₀ : RegisterFile, r₀.Fresh ∧ r₀.Reaches r := by
  constructor
  · intro h
    induction h with
    | ofCount hbuild => exact ⟨_, .inl ⟨_, hbuild⟩, .refl⟩
    | ofConfig hbuild => exact ⟨_, .inr ⟨_, hbuild⟩, .refl⟩
    | perform call _ ih =>
      obtain ⟨r₀, hfresh, hreach⟩ := ih
      exact ⟨r₀, hfresh, hreach.perform call⟩
    | retire e _ hretire ih =>
      obtain ⟨r₀, hfresh, hreach⟩ := ih
      exact ⟨r₀, hfresh, hreach.retire e hretire⟩
  · rintro ⟨r₀, hfresh, hreach⟩
    induction hreach with
    | refl =>
      obtain ⟨count, hbuild⟩ | ⟨c, hbuild⟩ := hfresh
      · exact .ofCount hbuild
      · exact .ofConfig hbuild
    | perform call _ ih => exact ih.perform call
    | retire e _ hretire ih => exact ih.retire e hretire

end RegisterFile
end Hart
