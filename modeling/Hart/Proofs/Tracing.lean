import Hart.Session
import Hart.Proofs.Invariant

/-!
# What a traced machine reports

A traced register file reports the writes that its commits store, and a traced datapath the
evaluations that it makes.  The log is faithful: whoever keeps registers of their own, and assigns
to them what the log reports, has the registers of the machine.  And tracing is neutral: without it
the machine answers the same, and its log is the same less the traces.

* `RegisterFile.stored` — the write that a commit stores, which is what it reports.
* `Action.committing` — the file on which an action commits, if it does; a retirement stages its
  own write first.  An action does nothing else to the registers, resets apart
  (`Datapath.regs_act`).
* `replay`, `Datapath.logSinceReset` — the registers that a log tells of, and the part of the log
  that tells of the present ones.  `Datapath.replay_logSinceReset` is the law of the two.
* `Datapath.act_untraced`, `Datapath.actEvents_untraced` — one action without tracing.
* `Datapath.log_faithful_and_neutral` — all of it, for the machine of a configuration.
-/

set_option autoImplicit false

namespace Hart

/-! ## Assignments -/

/-- The assignment that an event reports: a register and the value that it took. -/
def Event.assignment? : Event → Option (Nat × Lane)
  | .committed register value => some (register, value)
  | _ => none

/-- Registers after some assignments, one after another. -/
def assign (regs : List Lane) (writes : List (Nat × Lane)) : List Lane :=
  writes.foldl (fun regs w ↦ regs.set w.1 w.2) regs

/-- Registers after the assignments that a log reports. -/
def replay (regs : List Lane) (log : List Event) : List Lane :=
  assign regs (log.filterMap Event.assignment?)

theorem replay_append (regs : List Lane) (log log' : List Event) :
    replay regs (log ++ log') = replay (replay regs log) log' := by
  simp only [replay, assign, List.filterMap_append, List.foldl_append]

/-! ## Commits -/

namespace RegisterFile

/-- The write that a commit stores: the one that is staged, unless its register is hardwired. -/
def stored (r : RegisterFile) : Option (Nat × Lane) :=
  r.staged.filter fun w ↦ !r.isHardwired w.1

theorem regs_commit_eq_assign (r : RegisterFile) :
    r.commit.regs = assign r.regs r.stored.toList := by
  rcases hstaged : r.staged with _ | ⟨index, v⟩
  · rw [commit, stored, hstaged]
    rfl
  · rw [regs_commit hstaged, stored, hstaged, Option.filter_some]
    cases r.isHardwired index <;> rfl

/-- A commit reports what it stores, if the file is traced. -/
theorem commitEvents_eq (r : RegisterFile) :
    r.commitEvents =
      if r.trace then r.stored.toList.map fun w ↦ .committed w.1 w.2 else [] := by
  rw [commitEvents, stored]
  rcases r.staged with _ | ⟨index, v⟩
  · cases r.trace <;> rfl
  · rw [Option.filter_some]
    dsimp only
    cases r.trace <;> cases r.isHardwired index <;> rfl

theorem assignments_commitEvents {r : RegisterFile} (h : r.trace = true) :
    r.commitEvents.filterMap Event.assignment? = r.stored.toList := by
  rw [commitEvents_eq, if_pos h, List.filterMap_map]
  exact List.filterMap_some

/-- Nothing but assignments is reported by a commit. -/
theorem filter_commitEvents {r : RegisterFile} {p : Event → Bool}
    (h : ∀ index v, p (.committed index v) = false) : r.commitEvents.filter p = [] := by
  rw [commitEvents_eq]
  split
  · rw [List.filter_map, List.map_eq_nil_iff, List.filter_eq_nil_iff]
    intro w _
    exact Bool.eq_false_iff.1 (h w.1 w.2)
  · rfl

end RegisterFile

/-! ## What an action does to the registers -/

/-- The file on which an action commits, if it does.  A retirement stages the write of its
evaluation before, unless it is refused. -/
def Action.committing (r : RegisterFile) : Action → Option RegisterFile
  | .call .commit => some r
  | .retire e => e.writeBack.bind fun w ↦ (r.write w.1 w.2).toOption
  | .call _ | .evaluate .. => none

/-- The write that an action stores in a register, if it does. -/
def Action.stored (r : RegisterFile) (a : Action) : Option (Nat × Lane) :=
  (a.committing r).bind RegisterFile.stored

namespace Datapath

/-- A retirement commits on the file in which its write is staged, or fails or has no write. -/
theorem retire_cases (e : Evaluation) (r : RegisterFile) :
    (∃ index v q, e.writeBack = some (index, v) ∧ r.write index v = .ok q ∧
      (Action.retire e).committing r = some q ∧ retire e r = .ok q.commit ∧
      retireEvents e r = q.commitEvents) ∨
    ((Action.retire e).committing r = none ∧ (∀ r', retire e r = .ok r' → r' = r) ∧
      retireEvents e r = []) := by
  rcases hback : e.writeBack with _ | ⟨index, v⟩
  · refine .inr ⟨?_, ?_, ?_⟩
    · rw [Action.committing, hback]
      rfl
    · rw [retire_of_writeBack_eq_none hback]
      rintro _ ⟨⟩
      rfl
    · rw [retireEvents, hback]
  · rcases hw : r.write index v with f | q
    · refine .inr ⟨?_, ?_, ?_⟩
      · rw [Action.committing, hback, Option.bind_some, hw]
        rfl
      · rw [retire_of_writeBack_eq_some hback, hw]
        nofun
      · rw [retireEvents, hback]
        simp only [hw]
    · refine .inl ⟨index, v, q, rfl, hw, ?_, ?_, ?_⟩
      · rw [Action.committing, hback, Option.bind_some, hw]
        rfl
      · rw [retire_of_writeBack_eq_some hback, hw]
        rfl
      · rw [retireEvents, hback]
        simp only [hw]

/-- An action that commits does so on a file with the same settings and registers. -/
theorem act_of_committing (d : Datapath) {r q : RegisterFile} {a : Action}
    (h : a.committing r = some q) :
    r.SameSettings q ∧ q.regs = r.regs ∧ (d.act r a).2 = q.commit := by
  cases a with
  | call call =>
    cases call with
    | commit =>
      obtain rfl := Option.some.inj h
      exact ⟨.refl r, rfl, rfl⟩
    | read | write | reset => cases h
  | evaluate w pc => cases h
  | retire e =>
    obtain ⟨index, v, q', _, hw, hcommitting, hretire, _⟩ | ⟨hcommitting, _⟩ := retire_cases e r
    · obtain rfl := Option.some.inj (hcommitting.symm.trans h)
      refine ⟨.write hw, ?_, ?_⟩
      · obtain ⟨_, rfl⟩ := RegisterFile.write_eq_ok_iff.1 hw
        rfl
      · rw [act_retire, hretire]
    · cases hcommitting.symm.trans h

theorem regs_act_of_committing_eq_none (d : Datapath) {r : RegisterFile} {a : Action}
    (h : a.committing r = none) (hreset : a ≠ .call .reset) : (d.act r a).2.regs = r.regs := by
  cases a with
  | call call =>
    cases call with
    | commit => cases h
    | reset => exact absurd rfl hreset
    | read index => exact congrArg RegisterFile.regs (r.perform_read_snd index)
    | write index v =>
      rw [act_call, RegisterFile.perform_write]
      rcases hw : r.write index v with f | r'
      · rfl
      · obtain ⟨_, rfl⟩ := RegisterFile.write_eq_ok_iff.1 hw
        rfl
  | evaluate w pc => rfl
  | retire e =>
    obtain ⟨_, _, q, _, _, hcommitting, _⟩ | ⟨_, hretire, _⟩ := retire_cases e r
    · cases hcommitting.symm.trans h
    · rw [act_retire]
      split
      · rename_i r' heq
        rw [hretire r' heq]
      · rfl

/-- **The registers after an action** are those before, with what it stores. -/
theorem regs_act (d : Datapath) (r : RegisterFile) {a : Action} (hreset : a ≠ .call .reset) :
    (d.act r a).2.regs = assign r.regs (a.stored r).toList := by
  rw [Action.stored]
  rcases h : a.committing r with _ | q
  · exact d.regs_act_of_committing_eq_none h hreset
  · obtain ⟨_, hregs, hact⟩ := d.act_of_committing h
    rw [hact, q.regs_commit_eq_assign, hregs]
    rfl

/-- An action leads to a file that the caller can hold. -/
theorem reaches_act (d : Datapath) (r : RegisterFile) (a : Action) : r.Reaches (d.act r a).2 := by
  cases a with
  | call call => exact .perform call .refl
  | evaluate w pc => exact .refl
  | retire e => exact r.reaches_retireOn e

theorem reaches_actAll (d : Datapath) (r : RegisterFile) (actions : List Action) :
    r.Reaches (d.actAll r actions).2 := by
  induction actions generalizing r with
  | nil => exact .refl
  | cons a actions ih => exact (d.reaches_act r a).trans (ih _)

end Datapath

/-! ## What an action reports -/

/-- The event that an evaluation is reported by. -/
def Evaluation.event (e : Evaluation) : Event :=
  .evaluated e.pc e.instruction.raw e.control.operation e.control.comparison e.opA e.opB e.result

/-- Assigning a bundle reports nothing but words that are not recognized. -/
theorem Word.forall_mem_controlEvents (w : Word) :
    ∀ event ∈ w.controlEvents, event = .unrecognizedOpcode w := by
  rcases ho : w.op? with _ | o
  · rw [controlEvents_of_op?_eq_none ho]
    exact fun _ ↦ List.mem_singleton.1
  · rw [controlEvents_of_op? ho]
    exact fun _ hevent ↦ absurd hevent List.not_mem_nil

namespace Datapath

variable (d : Datapath) (r : RegisterFile)

/-- A call or a retirement reports what its commit does. -/
theorem actEvents_eq_commitEvents {a : Action} (h : ¬∃ w pc, a = .evaluate w pc) :
    d.actEvents r a = (a.committing r).elim [] RegisterFile.commitEvents := by
  cases a with
  | call call => cases call <;> rfl
  | evaluate w pc => exact absurd ⟨w, pc, rfl⟩ h
  | retire e =>
    obtain ⟨_, _, q, _, _, hcommitting, _, hevents⟩ | ⟨hcommitting, _, hevents⟩ := retire_cases e r
    · rw [actEvents, hevents, hcommitting, Option.elim_some]
    · rw [actEvents, hevents, hcommitting, Option.elim_none]

/-- An evaluation reports itself, if the datapath is traced; before, it may report that the word is
not recognized. -/
theorem evaluateEvents_eq (w : Word) (pc : Lane) :
    d.evaluateEvents w pc r = w.controlEvents ++
      if d.trace then (d.evaluate w pc r).toOption.toList.map Evaluation.event else [] := by
  rw [evaluateEvents]
  rcases he : d.evaluate w pc r with f | e
  · cases d.trace <;> rfl
  · obtain ⟨_, _, _, rfl⟩ := evaluate_eq_ok_iff.1 he
    rfl

/-- Assignments are reported for commits alone, one for each that stores something. -/
theorem assignments_actEvents (h : r.trace = true) (a : Action) :
    (d.actEvents r a).filterMap Event.assignment? = (a.stored r).toList := by
  rw [Action.stored]
  by_cases ha : ∃ w pc, a = .evaluate w pc
  · obtain ⟨w, pc, rfl⟩ := ha
    have hnone : ∀ event ∈ d.evaluateEvents w pc r, event.assignment? = none := by
      intro event hevent
      rw [evaluateEvents_eq, List.mem_append] at hevent
      rcases hevent with hevent | hevent
      · rw [w.forall_mem_controlEvents event hevent]
        rfl
      · split at hevent
        · obtain ⟨e, _, rfl⟩ := List.mem_map.1 hevent
          rfl
        · cases hevent
    exact List.filterMap_eq_nil_iff.2 hnone
  · rw [d.actEvents_eq_commitEvents r ha]
    rcases hq : a.committing r with _ | q
    · rfl
    · have hsame := (d.act_of_committing hq).1
      exact RegisterFile.assignments_commitEvents (hsame.trace.trans h)

/-- Only the action that asks for an evaluation is answered with one. -/
theorem evaluation?_act {a : Action} (h : ¬∃ w pc, a = .evaluate w pc) :
    (d.act r a).1.evaluation? = none := by
  cases a with
  | call call => rfl
  | evaluate w pc => exact absurd ⟨w, pc, rfl⟩ h
  | retire e => rfl

/-- Evaluations are reported as such, one for each that succeeds. -/
theorem evaluations_actEvents (h : d.trace = true) (a : Action) :
    (d.actEvents r a).filter (·.message = "evaluate") =
      ((d.act r a).1.evaluation?.map Evaluation.event).toList := by
  by_cases ha : ∃ w pc, a = .evaluate w pc
  · obtain ⟨w, pc, rfl⟩ := ha
    have hcontrol : w.controlEvents.filter (·.message = "evaluate") = [] := by
      rw [List.filter_eq_nil_iff]
      intro event hevent
      simp [w.forall_mem_controlEvents event hevent, Event.message]
    rw [actEvents, evaluateEvents_eq, if_pos h, List.filter_append, hcontrol, List.nil_append, act]
    rcases d.evaluate w pc r with f | e <;> rfl
  · rw [d.actEvents_eq_commitEvents r ha, d.evaluation?_act r ha]
    rcases a.committing r with _ | q
    · rfl
    · exact RegisterFile.filter_commitEvents (by simp [Event.message])

end Datapath

/-! ## The log and the registers -/

namespace Datapath

/-- What has been reported since the last reset, where `log` has been reported so far. -/
def logSinceReset (d : Datapath) (r : RegisterFile) (log : List Event) : List Action → List Event
  | [] => log
  | a :: actions =>
    d.logSinceReset (d.act r a).2 (if a = .call .reset then [] else log ++ d.actEvents r a) actions

/-- **The log tells of the registers.**  If it does before some actions, it does afterwards. -/
theorem replay_logSinceReset (d : Datapath) {r : RegisterFile} (h : r.trace = true)
    {log : List Event} (hlog : replay (List.replicate r.size 0) log = r.regs)
    (actions : List Action) :
    replay (List.replicate r.size 0) (d.logSinceReset r log actions) =
      (d.actAll r actions).2.regs := by
  induction actions generalizing r log with
  | nil => exact hlog
  | cons a actions ih =>
    have hsame := (d.reaches_act r a).sameSettings
    rw [logSinceReset, actAll_cons, ← hsame.size]
    refine ih (hsame.trace.trans h) ?_
    rw [hsame.size]
    split
    · rename_i hreset
      rw [hreset]
      rfl
    · rename_i hreset
      rw [replay_append, hlog, replay, d.assignments_actEvents r h, d.regs_act r hreset]

end Datapath

/-! ## Without tracing -/

namespace RegisterFile

/-- The file without tracing. -/
def untraced (r : RegisterFile) : RegisterFile :=
  { r with trace := false }

theorem write_untraced (r : RegisterFile) (index : Nat) (v : Lane) :
    r.untraced.write index v = (r.write index v).map untraced := by
  rcases hw : r.write index v with f | r'
  · obtain ⟨hle, rfl⟩ := write_eq_error_iff.1 hw
    exact write_eq_error_iff.2 ⟨hle, rfl⟩
  · obtain ⟨hlt, rfl⟩ := write_eq_ok_iff.1 hw
    exact write_eq_ok_iff.2 ⟨hlt, rfl⟩

theorem commit_untraced (r : RegisterFile) : r.untraced.commit = r.commit.untraced := by
  obtain ⟨_, _, _, _, _ | _⟩ := r <;> rfl

theorem perform_untraced (r : RegisterFile) (call : Call) :
    r.untraced.perform call = ((r.perform call).1, (r.perform call).2.untraced) := by
  cases call with
  | read index =>
    have hread : r.untraced.read index = r.read index := rfl
    rw [perform, perform, hread]
    rcases r.read index with f | v <;> rfl
  | write index v =>
    rw [perform_write, perform_write, write_untraced]
    rcases r.write index v with f | r' <;> rfl
  | commit => exact congrArg (Prod.mk Answer.done) r.commit_untraced
  | reset => rfl

end RegisterFile

namespace Datapath

/-- The datapath without tracing. -/
def untraced (d : Datapath) : Datapath :=
  { d with trace := false }

theorem evaluate_untraced (d : Datapath) (w : Word) (pc : Lane) (r : RegisterFile) :
    d.untraced.evaluate w pc r.untraced = d.evaluate w pc r := rfl

theorem retire_untraced (e : Evaluation) (r : RegisterFile) :
    retire e r.untraced = (retire e r).map RegisterFile.untraced := by
  rcases hback : e.writeBack with _ | ⟨index, v⟩
  · rw [retire_of_writeBack_eq_none hback, retire_of_writeBack_eq_none hback]
    rfl
  · rw [retire_of_writeBack_eq_some hback, retire_of_writeBack_eq_some hback, r.write_untraced]
    rcases r.write index v with f | q
    · rfl
    · exact congrArg Except.ok q.commit_untraced

/-- An action is answered the same without tracing. -/
theorem act_untraced (d : Datapath) (r : RegisterFile) (a : Action) :
    d.untraced.act r.untraced a = ((d.act r a).1, (d.act r a).2.untraced) := by
  cases a with
  | call call => rw [act, act, r.perform_untraced]
  | evaluate w pc => rw [act, act, evaluate_untraced]
  | retire e =>
    rw [act_retire, act_retire, retire_untraced]
    rcases retire e r with f | r' <;> rfl

theorem actEvents_untraced (d : Datapath) (r : RegisterFile) (a : Action) :
    d.untraced.actEvents r.untraced a = (d.actEvents r a).filter (·.level ≠ .trace) := by
  by_cases ha : ∃ w pc, a = .evaluate w pc
  · obtain ⟨w, pc, rfl⟩ := ha
    have hcontrol : w.controlEvents.filter (·.level ≠ .trace) = w.controlEvents := by
      rw [List.filter_eq_self]
      intro event hevent
      rw [w.forall_mem_controlEvents event hevent]
      rfl
    rw [actEvents, actEvents, evaluateEvents_eq, evaluateEvents_eq, evaluate_untraced,
      List.filter_append, hcontrol]
    refine congrArg (w.controlEvents ++ ·) ?_
    rcases d.evaluate w pc r with f | e <;> cases d.trace <;> rfl
  · rw [actEvents_eq_commitEvents _ _ ha, actEvents_eq_commitEvents _ _ ha]
    have hon : ((a.committing r).elim [] RegisterFile.commitEvents).filter (·.level ≠ .trace) =
        [] := by
      rcases a.committing r with _ | q
      · rfl
      · exact RegisterFile.filter_commitEvents fun _ _ ↦ rfl
    rw [hon]
    rcases hq : a.committing r.untraced with _ | q
    · rfl
    · have htrace : q.trace = false := (d.act_of_committing hq).1.trace
      rw [Option.elim_some, q.commitEvents_eq, htrace]
      rfl

/-- Any actions are answered the same without tracing, and lead to the same registers with the same
write staged. -/
theorem actAll_untraced (d : Datapath) (r : RegisterFile) (actions : List Action) :
    d.untraced.actAll r.untraced actions =
      ((d.actAll r actions).1, (d.actAll r actions).2.untraced) := by
  induction actions generalizing r with
  | nil => rfl
  | cons a actions ih => rw [actAll_cons, actAll_cons, act_untraced, ih]

/-- Without tracing the log is the same less the traces. -/
theorem log_untraced (d : Datapath) (r : RegisterFile) (actions : List Action) :
    d.untraced.log r.untraced actions = (d.log r actions).filter (·.level ≠ .trace) := by
  induction actions generalizing r with
  | nil => rfl
  | cons a actions ih =>
    rw [log, log, List.filter_append, actEvents_untraced, act_untraced, ih]

/-! ## The machine of a configuration -/

/-- **Tracing is faithful and neutral.**  Take a configuration that is accepted, with tracing and
without, and any actions on the two machines, in the same order.

With tracing, the writes reported since the last reset, or since the beginning, give zeroed
registers the contents of the register file, which is what reads answer.  After any actions one
more reports a write if it commits one and stores it, and then the one that it stores; and it
reports an evaluation if it makes one, and then that one.

Without tracing, the answers are the same, the register file is the same but for the flag, and the
events are the same but for the traces. -/
theorem log_faithful_and_neutral {c : Config} {width : Width} (hc : c.validate = .ok width) :
    ∃ (d d' : Datapath) (r r' : RegisterFile),
      ofConfig { c with trace := true } = .ok d ∧
      RegisterFile.ofConfig { c with trace := true } = .ok r ∧
      ofConfig { c with trace := false } = .ok d' ∧
      RegisterFile.ofConfig { c with trace := false } = .ok r' ∧
      ∀ actions : List Action,
        let s := (d.actAll r actions).2
        let told := replay (List.replicate c.regCount 0) (d.logSinceReset r [] actions)
        told = s.regs ∧ (∀ index v, told[index]? = some v ↔ s.read index = .ok v) ∧
        (∀ a : Action,
          (d.actEvents s a).filterMap Event.assignment? = (a.stored s).toList ∧
          (a ≠ .call .reset → (d.act s a).2.regs = assign s.regs (a.stored s).toList) ∧
          (d.actEvents s a).filter (·.message = "evaluate") =
            ((d.act s a).1.evaluation?.map Evaluation.event).toList) ∧
        (d'.actAll r' actions).1 = (d.actAll r actions).1 ∧
        (d'.actAll r' actions).2 = { s with trace := false } ∧
        d'.log r' actions = (d.log r actions).filter (·.level ≠ .trace) := by
  let d : Datapath := .ofWidth width true
  let r : RegisterFile := ⟨List.replicate c.regCount 0, width, c.hardwireZero, true, none⟩
  have hd : ofConfig { c with trace := true } = .ok d := ofConfig_of_validate hc
  have hd' : ofConfig { c with trace := false } = .ok d.untraced :=
    ofConfig_of_validate hc
  have hr : RegisterFile.ofConfig { c with trace := true } = .ok r :=
    RegisterFile.ofConfig_of_validate hc
  have hr' : RegisterFile.ofConfig { c with trace := false } = .ok r.untraced :=
    RegisterFile.ofConfig_of_validate hc
  refine ⟨d, d.untraced, r, r.untraced, hd, hr, hd', hr', fun actions ↦ ?_⟩
  intro s told
  have hreach : r.Reaches s := d.reaches_actAll r actions
  have htold : told = s.regs := by
    have hsize : r.size = c.regCount := List.length_replicate
    have hblank : replay (List.replicate r.size 0) [] = r.regs := by rw [hsize]; rfl
    have hreplay := d.replay_logSinceReset rfl hblank actions
    rwa [hsize] at hreplay
  refine ⟨htold, fun index v ↦ ?_, fun a ↦ ⟨?_, d.regs_act s, d.evaluations_actEvents s rfl a⟩, ?_⟩
  · have hfresh : r.Fresh := .inr ⟨_, hr⟩
    rw [htold, (hreach.wellFormed hfresh.wellFormed).getElem?_regs_eq_some_iff]
  · exact d.assignments_actEvents s hreach.sameSettings.trace a
  · rw [d.actAll_untraced]
    exact ⟨rfl, rfl, d.log_untraced r actions⟩

/-- Eight bits and four registers, traced: a write is committed and then reset, one to the hardwired
register is discarded, and an evaluation is retired.  The log since the reset has the evaluation
and one write. -/
theorem log_faithful_and_neutral_four :
    ∃ (d : Datapath) (r : RegisterFile),
      ofConfig { xlen := 8, regCount := 4, trace := true } = .ok d ∧
      RegisterFile.ofConfig { xlen := 8, regCount := 4, trace := true } = .ok r ∧
      (d.actAll r [.call (.write 1 7), .call .commit, .call .reset, .call (.write 0 9),
        .call .commit, .evaluate 0x00500113 0,
        .retire (d.evaluateWith 0x00500113 0 0 0)]).2.regs = [0, 0, 5, 0] := by
  have hc : Config.validate { xlen := 8, regCount := 4, trace := true } = .ok .w8 := rfl
  obtain ⟨d, _, r, _, hd, hr, _, _, hlog⟩ := log_faithful_and_neutral hc
  refine ⟨d, r, hd, hr, (hlog _).1.symm.trans ?_⟩
  obtain rfl := Except.ok.inj hd
  obtain rfl := Except.ok.inj hr
  decide

end Datapath
end Hart
