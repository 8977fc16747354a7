import Hart.RegisterFile.Call
import Hart.Run

/-!
# Actions

What can be done with a datapath and a register file, as data, so that a history of both is a list.
A retirement has its evaluation with it, which may come from anywhere.

`Datapath.act` answers an action and hands on the file, and `Datapath.actEvents` says what is
reported meanwhile; `Datapath.actAll` and `Datapath.log` are the same for a list of actions.
-/

set_option autoImplicit false

namespace Hart

/-- Something to do with a datapath and a register file. -/
inductive Action where
  /-- An operation on the register file. -/
  | call (call : RegisterFile.Call)
  /-- Evaluates a word. -/
  | evaluate (word : Word) (pc : Lane)
  /-- Retires an evaluation. -/
  | retire (e : Evaluation)
  deriving DecidableEq, Repr

/-- What a machine answers: to an action, or to another request of a session. -/
inductive Reply where
  /-- The answer of the register file. -/
  | call (answer : RegisterFile.Answer)
  /-- The number of registers, and whether it is zero. -/
  | size (count : Nat) (isEmpty : Bool)
  /-- A dump. -/
  | text (text : String)
  /-- A width in bits, and its mask. -/
  | width (bits : Nat) (mask : Lane)
  /-- The register file was set aside or brought back. -/
  | done
  /-- Whether two register files are equal. -/
  | unchanged (answer : Bool)
  /-- An evaluation, or why there is none. -/
  | evaluation (outcome : Except Fault Evaluation)
  /-- How a step went. -/
  | outcome (outcome : Outcome)
  /-- A retirement, or why there is none. -/
  | retirement (fault : Option Fault)
  /-- There is no evaluation that far back. -/
  | noEvaluation

namespace Datapath

/-- Answers an action, and hands on the file. -/
def act (d : Datapath) (r : RegisterFile) : Action → Reply × RegisterFile
  | .call call =>
    let (answer, r') := r.perform call
    (.call answer, r')
  | .evaluate w pc => (.evaluation (d.evaluate w pc r), r)
  | .retire e =>
    let (fault, r') := retireOn r e
    (.retirement fault, r')

/-- What an action reports. -/
def actEvents (d : Datapath) (r : RegisterFile) : Action → List Event
  | .call call => r.callEvents call
  | .evaluate w pc => d.evaluateEvents w pc r
  | .retire e => retireEvents e r

/-- Answers actions one after another, and hands on the file. -/
def actAll (d : Datapath) (r : RegisterFile) : List Action → List Reply × RegisterFile
  | [] => ([], r)
  | a :: actions =>
    let (reply, r') := d.act r a
    let (replies, r'') := d.actAll r' actions
    (reply :: replies, r'')

/-- What a list of actions reports, from the first on. -/
def log (d : Datapath) (r : RegisterFile) : List Action → List Event
  | [] => []
  | a :: actions => d.actEvents r a ++ d.log (d.act r a).2 actions

theorem act_call (d : Datapath) (r : RegisterFile) (call : RegisterFile.Call) :
    d.act r (.call call) = (.call (r.perform call).1, (r.perform call).2) := rfl

/-- A retirement, known from the file after it: one that fails hands on the file as it was. -/
theorem act_retire (d : Datapath) (r : RegisterFile) (e : Evaluation) :
    d.act r (.retire e) =
      match retire e r with
      | .ok r' => (.retirement none, r')
      | .error fault => (.retirement (some fault), r) := by
  rw [act, retireOn_eq_retire]
  cases retire e r <;> rfl

theorem actAll_cons (d : Datapath) (r : RegisterFile) (a : Action) (actions : List Action) :
    d.actAll r (a :: actions) =
      ((d.act r a).1 :: (d.actAll (d.act r a).2 actions).1,
        (d.actAll (d.act r a).2 actions).2) := rfl

theorem actAll_append (d : Datapath) (r : RegisterFile) (actions actions' : List Action) :
    d.actAll r (actions ++ actions') =
      ((d.actAll r actions).1 ++ (d.actAll (d.actAll r actions).2 actions').1,
        (d.actAll (d.actAll r actions).2 actions').2) := by
  induction actions generalizing r with
  | nil => rfl
  | cons a actions ih => simp only [List.cons_append, actAll_cons, ih]

theorem log_append (d : Datapath) (r : RegisterFile) (actions actions' : List Action) :
    d.log r (actions ++ actions') =
      d.log r actions ++ d.log (d.actAll r actions).2 actions' := by
  induction actions generalizing r with
  | nil => rfl
  | cons a actions ih => simp only [List.cons_append, log, actAll_cons, ih, List.append_assoc]

end Datapath
end Hart
