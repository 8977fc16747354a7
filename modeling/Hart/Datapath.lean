import Hart.Comparator
import Hart.Evaluation
import Hart.RegisterFile

/-!
# The datapath

The datapath evaluates one word at a time against the committed registers, and retires evaluations
into the register file.  Memory and the next program counter belong to its caller.

* `Datapath.evaluate` reads the source registers that the control signals select, and no others; it
  succeeds exactly when those can be read (`Datapath.evaluate_eq_ok_iff`).
* `Datapath.settle` stages the value of the destination register and commits it.  An evaluation
  without one changes nothing (`Datapath.retire_of_writeBack_eq_none`), and neither does one whose
  register is beyond the file (`Datapath.atomic_settle`).
-/

set_option autoImplicit false

namespace Hart

/-! ## Selecting operands -/

/-- The first operand, of the first source register's value and the program counter. -/
def SourceA.select (source : SourceA) (rs1 counter : Lane) : Lane :=
  match source with
  | .reg1 => rs1
  | .pc => counter
  | .zero => 0

/-- The second operand, of the second source register's value and the immediate.  The immediate
keeps its sign over the whole lane. -/
def SourceB.select (source : SourceB) (rs2 : Lane) (immediate : BitVec 32) : Lane :=
  match source with
  | .reg2 => rs2
  | .imm => immediate.signExtend 64

/-! ## The machine

Both units are made from one configuration, so they have one width; a `Datapath` has the evidence.
-/

/-- A datapath: an arithmetic unit and a comparator that belong together. -/
structure Datapath where
  /-- The arithmetic unit. -/
  alu : Alu := { width := .w32 }
  /-- The comparator. -/
  comparator : Comparator := { width := .w32 }
  /-- Evaluations are reported. -/
  trace : Bool := false
  /-- Both units work at one width. -/
  width_comparator : comparator.width = alu.width := by rfl
  deriving DecidableEq, Repr

namespace Datapath

/-- The datapath that a configuration asks for.  The configuration is validated first; then each
unit is made, and checks once more what it is made of. -/
def ofConfig (c : Config) : Except Fault Datapath :=
  match c.validate with
  | .error fault => .error fault
  | .ok _ =>
    match halu : Alu.ofConfig c with
    | .error fault => .error fault
    | .ok alu =>
      match hcomparator : Comparator.ofBits c.xlen with
      | .error fault => .error fault
      | .ok comparator =>
        .ok { alu, comparator, trace := c.trace
              width_comparator := Width.ext <|
                (Comparator.ofBits_eq_ok_iff.1 hcomparator).symm.trans
                  (Alu.ofBits_eq_ok_iff.1 halu) }

/-- The width of operands and results. -/
def width (d : Datapath) : Width :=
  d.alu.width

/-- The datapath of a width. -/
def ofWidth (width : Width) (trace : Bool) : Datapath where
  alu := { width }
  comparator := { width }
  trace

/-! ## Evaluating a word -/

/-- The values of the two source registers, zero where the control signals select none.  The first
is read first, so its fault wins. -/
def readSources (c : Control) (x : Instruction) (regs : RegisterFile) :
    Except Fault (Lane × Lane) := do
  let rs1 ← if c.readsRs1 then regs.read x.rs1 else pure 0
  let rs2 ← if c.readsRs2 then regs.read x.rs2 else pure 0
  return (rs1, rs2)

/-- The evaluation of a word, given the values of its source registers.

A set-less-than word is one that is no branch and yet compares for something else than equality;
its result is the answer of the comparator. -/
def evaluateWith (d : Datapath) (w : Word) (pc : Lane) (rs1 rs2 : Lane) : Evaluation :=
  let x := w.decode
  let c := w.control
  let opA := c.sourceA.select rs1 pc &&& d.alu.mask
  let opB := c.sourceB.select rs2 x.imm &&& d.alu.mask
  let alu := d.alu.execute c.operation opA opB
  let holds := d.comparator.compare c.comparison opA opB
  { pc, instruction := x, control := c, opA, opB, alu, holds
    result := if !c.branch && c.comparison != .equal then .ofBool holds else alu.out
    storeData := if c.memWrite then some rs2 else none }

/-- Evaluates a word against the committed registers. -/
def evaluate (d : Datapath) (w : Word) (pc : Lane) (regs : RegisterFile) :
    Except Fault Evaluation := do
  let (rs1, rs2) ← readSources w.control w.decode regs
  return d.evaluateWith w pc rs1 rs2

/-- What evaluating a word reports: first that its opcode is not recognized, then, where the
datapath is traced and the evaluation succeeds, the evaluation. -/
def evaluateEvents (d : Datapath) (w : Word) (pc : Lane) (regs : RegisterFile) : List Event :=
  w.controlEvents ++
    match d.evaluate w pc regs with
    | .ok e =>
      if d.trace then
        [.evaluated pc w e.control.operation e.control.comparison e.opA e.opB e.result]
      else []
    | .error _ => []

/-! ## Retiring an evaluation -/

/-- Stages the value of the destination register, and commits it.  Without a destination register
there is nothing to do. -/
def settle (e : Evaluation) : RegisterFile.Update Unit :=
  match e.writeBack with
  | some (rd, value) => do
    RegisterFile.stage rd value
    modify RegisterFile.commit
  | none => pure ()

/-- Retires an evaluation: the fault, if the retirement fails, and the file that it hands on. -/
def retireOn (regs : RegisterFile) (e : Evaluation) : Option Fault × RegisterFile :=
  (settle e).outcome regs

/-- The file after an evaluation is retired. -/
def retire (e : Evaluation) (regs : RegisterFile) : Except Fault RegisterFile :=
  (settle e).after regs

/-- What retiring an evaluation reports. -/
def retireEvents (e : Evaluation) (regs : RegisterFile) : List Event :=
  match e.writeBack with
  | some (rd, value) =>
    match regs.write rd value with
    | .ok staged => staged.commitEvents
    | .error _ => []
  | none => []

/-! ## Small laws -/

/-- The comparator works at the width of the arithmetic unit. -/
theorem comparator_eq (d : Datapath) : d.comparator = { width := d.width } :=
  congrArg Comparator.mk d.width_comparator

theorem mask_comparator (d : Datapath) : d.comparator.mask = d.alu.mask :=
  congrArg Comparator.mask d.comparator_eq

/-- Of a configuration that was validated, no unit is refused. -/
theorem ofConfig_of_validate {c : Config} {w : Width} (h : c.validate = .ok w) :
    ofConfig c = .ok (.ofWidth w c.trace) := by
  have hwidth : c.xlen = w.bits := (Config.validate_eq_ok_iff.1 h).1
  have halu : Alu.ofConfig c = .ok { width := w } := Alu.ofBits_eq_ok_iff.2 hwidth
  have hcomparator : Comparator.ofBits c.xlen = .ok { width := w } :=
    Comparator.ofBits_eq_ok_iff.2 hwidth
  rw [ofConfig, h]
  dsimp only
  split
  · rename_i _ h'
    cases halu.symm.trans h'
  · rename_i _ h'
    cases halu.symm.trans h'
    split
    · rename_i _ h'
      cases hcomparator.symm.trans h'
    · rename_i _ h'
      cases hcomparator.symm.trans h'
      rfl

theorem ofConfig_eq_ok_iff {c : Config} {d : Datapath} :
    ofConfig c = .ok d ↔ ∃ w, c.validate = .ok w ∧ d = .ofWidth w c.trace := by
  rcases hc : c.validate with fault | w
  · rw [ofConfig, hc]
    simp only [reduceCtorEq, false_and, exists_false]
  · rw [ofConfig_of_validate hc]
    simp only [Except.ok.injEq, exists_eq_left', eq_comm]

theorem readSources_eq_ok_iff {c : Control} {x : Instruction} {regs : RegisterFile}
    {rs1 rs2 : Lane} :
    readSources c x regs = .ok (rs1, rs2) ↔
      (if c.readsRs1 then regs.read x.rs1 else .ok 0) = .ok rs1 ∧
        (if c.readsRs2 then regs.read x.rs2 else .ok 0) = .ok rs2 := by
  rw [readSources]
  cases c.readsRs1 <;> cases c.readsRs2 <;>
    cases regs.read x.rs1 <;> cases regs.read x.rs2 <;>
    simp [bind, Except.bind, pure, Except.pure]

theorem evaluate_eq_ok_iff {d : Datapath} {w : Word} {pc : Lane} {regs : RegisterFile}
    {e : Evaluation} :
    d.evaluate w pc regs = .ok e ↔
      ∃ rs1 rs2, readSources w.control w.decode regs = .ok (rs1, rs2) ∧
        e = d.evaluateWith w pc rs1 rs2 := by
  rw [evaluate]
  cases readSources w.control w.decode regs with
  | error f => simp [bind, Except.bind]
  | ok sources =>
    obtain ⟨rs1, rs2⟩ := sources
    simp only [bind, Except.bind, pure, Except.pure, Except.ok.injEq, Prod.mk.injEq]
    constructor
    · rintro rfl
      exact ⟨rs1, rs2, ⟨rfl, rfl⟩, rfl⟩
    · rintro ⟨_, _, ⟨rfl, rfl⟩, rfl⟩
      rfl

/-- A retirement fails before it changes anything: its write is refused, and nothing is committed. -/
theorem atomic_settle (e : Evaluation) : (settle e).Atomic := by
  rw [settle]
  cases e.writeBack with
  | none =>
    intro r fault r' hfail
    cases hfail
  | some back => exact (RegisterFile.atomic_stage back.1 back.2).bind_modify _

/-- A retirement, known from the file after it: one that fails hands on the file as it was. -/
theorem retireOn_eq_retire (regs : RegisterFile) (e : Evaluation) :
    retireOn regs e =
      match retire e regs with
      | .ok regs' => (none, regs')
      | .error fault => (some fault, regs) :=
  (atomic_settle e).outcome_eq regs

/-- An evaluation without a destination register leaves the file, and what is staged in it, alone.
-/
theorem retire_of_writeBack_eq_none {e : Evaluation} (h : e.writeBack = none)
    (regs : RegisterFile) : retire e regs = .ok regs := by
  rw [retire, settle, h]
  rfl

theorem retire_of_writeBack_eq_some {e : Evaluation} {index : Nat} {v : Lane}
    (h : e.writeBack = some (index, v)) (regs : RegisterFile) :
    retire e regs = (regs.write index v).map RegisterFile.commit := by
  rw [retire, settle, h]
  exact RegisterFile.Update.after_bind_modify (RegisterFile.stage index v) RegisterFile.commit regs

/-- A retirement is a write and a commit, or nothing. -/
theorem retire_eq_ok_iff {e : Evaluation} {r r' : RegisterFile} :
    retire e r = .ok r' ↔
      match e.writeBack with
      | some (index, v) => ∃ staged, r.write index v = .ok staged ∧ r' = staged.commit
      | none => r' = r := by
  rcases hback : e.writeBack with _ | ⟨index, v⟩
  · rw [retire_of_writeBack_eq_none hback]
    simp only [Except.ok.injEq, eq_comm]
  · rw [retire_of_writeBack_eq_some hback]
    dsimp only
    cases r.write index v with
    | error f => simp only [Except.map, reduceCtorEq, false_and, exists_false]
    | ok staged => simp only [Except.map, Except.ok.injEq, exists_eq_left', eq_comm]

end Datapath
end Hart
