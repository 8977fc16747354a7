import Hart.Action
import Hart.RegisterFile.Dump

/-!
# Sessions

A session is a datapath and a register file that a caller works with from outside, command by
command. It remembers the evaluations it made, so that any of them can be retired later, once more
or out of order, and it can set a copy of the register file aside.

A command is some actions of the machine (`Session.actions`), or looks at it or at the copy only.
`Session.step` answers a command and hands on the session; `Session.events` says what the machine
reports while it does.
-/

set_option autoImplicit false

namespace Hart

/-- What a caller may ask of a session. -/
inductive Command where
  /-- An operation on the register file. -/
  | call (call : RegisterFile.Call)
  /-- The number of registers. -/
  | size
  /-- The dump of the register file. -/
  | dump
  /-- The width of the datapath. -/
  | width
  /-- Sets a copy of the register file aside. -/
  | snapshot
  /-- Goes back to the copy. -/
  | restore
  /-- Whether the register file equals the copy. -/
  | unchanged
  /-- Evaluates a word. -/
  | evaluate (word : Word) (pc : Lane)
  /-- Evaluates a word and retires the evaluation. -/
  | execute (word : Word) (pc : Lane)
  /-- Retires the evaluation that was made `back` evaluations before the last. -/
  | retire (back : Nat)
  deriving DecidableEq, Repr

/-- The evaluation that an answer tells of. -/
def Reply.evaluation? : Reply → Option Evaluation
  | .evaluation (.ok e) => some e
  | _ => none

/-- A machine in use. -/
structure Session where
  datapath : Datapath
  regs : RegisterFile
  /-- The copy that was set aside. -/
  saved : RegisterFile
  /-- The evaluations made so far, the latest first. -/
  evaluations : List Evaluation

namespace Session

/-- A session at its start: the copy is of the fresh file, and nothing is evaluated. -/
def start (datapath : Datapath) (regs : RegisterFile) : Session where
  datapath
  regs
  saved := regs
  evaluations := []

/-- The actions that a command consists of.  Going back to the copy is not an action. -/
def actions (s : Session) : Command → List Action
  | .call call => [.call call]
  | .evaluate w pc => [.evaluate w pc]
  | .execute w pc =>
    .evaluate w pc ::
      match s.datapath.evaluate w pc s.regs with
      | .ok e => [.retire e]
      | .error _ => []
  | .retire back => (s.evaluations[back]?).toList.map .retire
  | .size | .dump | .width | .snapshot | .restore | .unchanged => []

/-- Answers an action, and remembers the evaluation if one was made. -/
def act (s : Session) (a : Action) : Reply × Session :=
  let (reply, regs) := s.datapath.act s.regs a
  (reply, { s with regs, evaluations := reply.evaluation?.toList ++ s.evaluations })

/-- Answers a command, and hands on the session. -/
def step (s : Session) : Command → Reply × Session
  | .call call => s.act (.call call)
  | .size => (.size s.regs.size s.regs.isEmpty, s)
  | .dump => (.text s.regs.dump, s)
  | .width => (.width s.datapath.width.bits s.datapath.alu.mask, s)
  | .snapshot => (.done, { s with saved := s.regs })
  | .restore => (.done, { s with regs := s.saved })
  | .unchanged => (.unchanged (s.regs = s.saved), s)
  | .evaluate w pc => s.act (.evaluate w pc)
  | .execute w pc =>
    let (outcome, regs) := s.datapath.step s.regs w pc
    (.outcome outcome, { s with regs, evaluations := outcome.evaluation?.toList ++ s.evaluations })
  | .retire back =>
    match s.evaluations[back]? with
    | none => (.noEvaluation, s)
    | some e => s.act (.retire e)

/-- What the machine reports while a command is answered. -/
def events (s : Session) (command : Command) : List Event :=
  s.datapath.log s.regs (s.actions command)

/-- Answers commands one after another, and hands on the session. -/
def stepAll (s : Session) : List Command → List Reply × Session
  | [] => ([], s)
  | command :: commands =>
    let (reply, s') := s.step command
    let (replies, s'') := s'.stepAll commands
    (reply :: replies, s'')

/-- The actions that a list of commands consists of. -/
def actionsAll (s : Session) : List Command → List Action
  | [] => []
  | command :: commands => s.actions command ++ (s.step command).2.actionsAll commands

/-- What a list of commands reports, from the first on. -/
def log (s : Session) : List Command → List Event
  | [] => []
  | command :: commands => s.events command ++ (s.step command).2.log commands

theorem stepAll_cons (s : Session) (command : Command) (commands : List Command) :
    s.stepAll (command :: commands) =
      ((s.step command).1 :: ((s.step command).2.stepAll commands).1,
        ((s.step command).2.stepAll commands).2) := rfl

end Session
end Hart
