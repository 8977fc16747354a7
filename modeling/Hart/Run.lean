import Hart.Datapath

/-!
# Runs

A step evaluates a word at a program counter and retires the evaluation.  A step that fails leaves
the register file as it was, and a run goes on after it; so a run of a list of steps is always
defined, and running two lists one after the other is running the one that they make up
(`Datapath.run_append`).
-/

set_option autoImplicit false

namespace Hart

/-- How a step went. -/
inductive Outcome where
  /-- The word was evaluated and retired. -/
  | retired (e : Evaluation)
  /-- The word was evaluated, and its destination register is beyond the file. -/
  | unretired (e : Evaluation) (fault : Fault)
  /-- The word was not evaluated: a source register is beyond the file. -/
  | refused (fault : Fault)
  deriving DecidableEq, Repr

namespace Outcome

/-- The evaluation of a step, where there is one. -/
def evaluation? : Outcome → Option Evaluation
  | retired e | unretired e _ => some e
  | refused _ => none

/-- Whether a step was carried out to its end. -/
def succeeded : Outcome → Bool
  | retired _ => true
  | unretired .. | refused _ => false

end Outcome

namespace Datapath

/-- Evaluates a word and retires the evaluation. -/
def step (d : Datapath) (regs : RegisterFile) (w : Word) (pc : Lane) : Outcome × RegisterFile :=
  match d.evaluate w pc regs with
  | .error fault => (.refused fault, regs)
  | .ok e =>
    match retireOn regs e with
    | (some fault, regs') => (.unretired e fault, regs')
    | (none, regs') => (.retired e, regs')

/-- Steps through a list of words with their program counters. -/
def run (d : Datapath) (regs : RegisterFile) : List (Word × Lane) → List Outcome × RegisterFile
  | [] => ([], regs)
  | (w, pc) :: steps =>
    let (outcome, regs') := d.step regs w pc
    let (outcomes, regs'') := d.run regs' steps
    (outcome :: outcomes, regs'')

theorem step_of_refused {d : Datapath} {w : Word} {pc : Lane} {r : RegisterFile}
    {fault : Fault} (h : d.evaluate w pc r = .error fault) :
    d.step r w pc = (.refused fault, r) := by
  rw [step, h]

/-- A step is an evaluation and the retirement of it. -/
theorem step_of_evaluate_eq_ok {d : Datapath} {w : Word} {pc : Lane} {r : RegisterFile}
    {e : Evaluation} (h : d.evaluate w pc r = .ok e) :
    d.step r w pc =
      (match (retireOn r e).1 with
        | none => .retired e
        | some fault => .unretired e fault, (retireOn r e).2) := by
  rw [step, h]
  dsimp only
  rcases retireOn r e with ⟨_ | fault, r'⟩ <;> rfl

@[simp]
theorem run_nil (d : Datapath) (regs : RegisterFile) : d.run regs [] = ([], regs) := rfl

theorem run_cons (d : Datapath) (regs : RegisterFile) (w : Word) (pc : Lane)
    (steps : List (Word × Lane)) :
    d.run regs ((w, pc) :: steps) =
      ((d.step regs w pc).1 :: (d.run (d.step regs w pc).2 steps).1,
        (d.run (d.step regs w pc).2 steps).2) := rfl

theorem run_append (d : Datapath) (regs : RegisterFile) (steps steps' : List (Word × Lane)) :
    d.run regs (steps ++ steps') =
      ((d.run regs steps).1 ++ (d.run (d.run regs steps).2 steps').1,
        (d.run (d.run regs steps).2 steps').2) := by
  induction steps generalizing regs with
  | nil => simp
  | cons s steps ih =>
    obtain ⟨w, pc⟩ := s
    simp [run_cons, ih]

end Datapath
end Hart
