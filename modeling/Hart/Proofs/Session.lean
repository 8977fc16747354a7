import Hart.Proofs.Tracing

/-!
# What a session does

A session keeps two register files and the evaluations that it made, and it works on them by the
actions of its datapath alone.  So whatever is true of all files that a machine passes through is
true of those of a session.

* `Session.regs_step` — a command leads to the file that its actions lead to.
* `Session.step_execute` — executing a word is evaluating it and retiring the last evaluation.
* `Session.Sound` — every file of the session is one that the machine can pass through, and every
  evaluation that it remembers was made on such a file.  A command keeps that (`Session.Sound.step`).
* `Session.stepAll_eq_actAll` — commands that never go back to the copy are, one after another, the
  actions that they consist of, and report what those report.
* `Session.stepAll_start` — what is true of a session after any commands.
-/

set_option autoImplicit false

namespace Hart

theorem Reply.evaluation?_evaluation (made : Except Fault Evaluation) :
    (Reply.evaluation made).evaluation? = made.toOption := by
  cases made <;> rfl

namespace Datapath

/-- A step has the evaluation of its word, whether or not it is retired. -/
theorem evaluation?_step (d : Datapath) (r : RegisterFile) (w : Word) (pc : Lane) :
    (d.step r w pc).1.evaluation? = (d.evaluate w pc r).toOption := by
  rcases he : d.evaluate w pc r with fault | e
  · rw [step_of_refused he]
    rfl
  · rw [step_of_evaluate_eq_ok he]
    cases (retireOn r e).1 <;> rfl

end Datapath

namespace Session

/-! ## Commands are actions -/

/-- Going back to the copy is the one command that changes the file and is no action. -/
theorem regs_step (s : Session) {command : Command} (h : command ≠ .restore) :
    (s.step command).2.regs = (s.datapath.actAll s.regs (s.actions command)).2 := by
  cases command with
  | call call => rfl
  | evaluate w pc => rfl
  | execute w pc =>
    have hstep : (s.step (.execute w pc)).2.regs = (s.datapath.step s.regs w pc).2 := rfl
    rw [hstep, actions]
    rcases he : s.datapath.evaluate w pc s.regs with fault | e
    · rw [Datapath.step_of_refused he]
      rfl
    · rw [Datapath.step_of_evaluate_eq_ok he]
      rfl
  | retire back =>
    rw [step, actions]
    cases s.evaluations[back]? <;> rfl
  | restore => exact absurd rfl h
  | size | dump | width | snapshot | unchanged => rfl

theorem datapath_step (s : Session) (command : Command) :
    (s.step command).2.datapath = s.datapath := by
  cases command with
  | retire back =>
    rw [step]
    cases s.evaluations[back]? <;> rfl
  | _ => rfl

/-- Executing a word is evaluating it and, if there is an evaluation, retiring the last one. -/
theorem step_execute (s : Session) (w : Word) (pc : Lane) :
    (s.step (.execute w pc)).2 =
      match s.datapath.evaluate w pc s.regs with
      | .ok _ => ((s.step (.evaluate w pc)).2.step (.retire 0)).2
      | .error _ => (s.step (.evaluate w pc)).2 := by
  simp only [step, act, Datapath.act, Datapath.step]
  cases s.datapath.evaluate w pc s.regs with
  | error fault => rfl
  | ok e =>
    dsimp only [Reply.evaluation?, Option.toList_some, List.cons_append, List.nil_append,
      List.getElem?_cons_zero]
    rcases Datapath.retireOn s.regs e with ⟨_ | fault, r'⟩ <;> rfl

/-! ## What a session keeps -/

/-- The session works on a datapath and on files that come from the given file, and it remembers
nothing but evaluations made there. -/
structure Sound (d : Datapath) (r : RegisterFile) (s : Session) : Prop where
  datapath : s.datapath = d
  regs : r.Reaches s.regs
  saved : r.Reaches s.saved
  evaluated : ∀ e ∈ s.evaluations, ∃ w pc r', r.Reaches r' ∧ d.evaluate w pc r' = .ok e

/-- An evaluation that was made comes before those that are remembered. -/
theorem mem_made_append {made : Except Fault Evaluation} {e : Evaluation} {es : List Evaluation}
    (h : e ∈ made.toOption.toList ++ es) : made = .ok e ∨ e ∈ es := by
  cases made with
  | error fault => exact .inr h
  | ok e' => exact (List.mem_cons.1 h).imp_left fun heq ↦ congrArg Except.ok heq.symm

/-- What a command adds to the evaluations was made on the file before it. -/
theorem mem_evaluations_step {s : Session} {command : Command} {e : Evaluation}
    (h : e ∈ (s.step command).2.evaluations) :
    e ∈ s.evaluations ∨ ∃ w pc, s.datapath.evaluate w pc s.regs = .ok e := by
  cases command with
  | evaluate w pc =>
    have hmem : e ∈ (s.datapath.evaluate w pc s.regs).toOption.toList ++ s.evaluations := by
      rw [← Reply.evaluation?_evaluation]
      exact h
    exact (mem_made_append hmem).symm.imp_right fun he ↦ ⟨w, pc, he⟩
  | execute w pc =>
    have hmem : e ∈ (s.datapath.evaluate w pc s.regs).toOption.toList ++ s.evaluations := by
      rw [← Datapath.evaluation?_step]
      exact h
    exact (mem_made_append hmem).symm.imp_right fun he ↦ ⟨w, pc, he⟩
  | retire back =>
    rw [step] at h
    cases hback : s.evaluations[back]? with
    | none =>
      rw [hback] at h
      exact .inl h
    | some e' =>
      rw [hback] at h
      exact .inl h
  | _ => exact .inl h

theorem sound_start (d : Datapath) (r : RegisterFile) : Sound d r (start d r) :=
  ⟨rfl, .refl, .refl, fun _ he ↦ absurd he List.not_mem_nil⟩

/-- **A command keeps a session sound.**  Its file is one that actions lead to, or the copy, which
was such a file before. -/
theorem Sound.step {d : Datapath} {r : RegisterFile} {s : Session} (h : s.Sound d r)
    (command : Command) : (s.step command).2.Sound d r := by
  have hregs : r.Reaches (s.step command).2.regs := by
    by_cases hrestore : command = .restore
    · subst hrestore
      exact h.saved
    · rw [regs_step s hrestore]
      exact h.regs.trans (s.datapath.reaches_actAll s.regs _)
  refine ⟨(s.datapath_step command).trans h.datapath, hregs, ?_, fun e he ↦ ?_⟩
  · cases command with
    | snapshot => exact h.regs
    | retire back =>
      rw [Session.step]
      cases s.evaluations[back]? <;> exact h.saved
    | _ => exact h.saved
  · obtain he | ⟨w, pc, he⟩ := mem_evaluations_step he
    · exact h.evaluated e he
    · exact ⟨w, pc, s.regs, h.regs, h.datapath ▸ he⟩

theorem Sound.stepAll {d : Datapath} {r : RegisterFile} {s : Session} (h : s.Sound d r)
    (commands : List Command) : (s.stepAll commands).2.Sound d r := by
  induction commands generalizing s with
  | nil => exact h
  | cons command commands ih => exact ih (h.step command)

/-- Commands that never go back to the copy are, one after another, their actions. -/
theorem stepAll_eq_actAll (s : Session) {commands : List Command} (h : .restore ∉ commands) :
    (s.stepAll commands).2.regs = (s.datapath.actAll s.regs (s.actionsAll commands)).2 ∧
      s.log commands = s.datapath.log s.regs (s.actionsAll commands) := by
  induction commands generalizing s with
  | nil => exact ⟨rfl, rfl⟩
  | cons command commands ih =>
    obtain ⟨hhead, htail⟩ := not_or.1 (mt List.mem_cons.2 h)
    obtain ⟨hregs, hlog⟩ := ih (s.step command).2 htail
    have hstep := regs_step s (Ne.symm hhead)
    rw [datapath_step, hstep] at hregs hlog
    rw [stepAll_cons, log, actionsAll, Datapath.actAll_append, Datapath.log_append]
    exact ⟨hregs, congrArg (s.events command ++ ·) hlog⟩

/-- **What is true of a session after any commands.**  Its datapath is the one it started with; its
file and the copy are files that the machine can come to from the first one; and the evaluations it
may still retire were made on such files.  Unless it went back to the copy, its file and its log are
those of the actions that it took. -/
theorem stepAll_start (d : Datapath) (r : RegisterFile) (commands : List Command) :
    let s := ((start d r).stepAll commands).2
    let actions := (start d r).actionsAll commands
    s.Sound d r ∧ (.restore ∉ commands →
      s.regs = (d.actAll r actions).2 ∧ (start d r).log commands = d.log r actions) :=
  ⟨(sound_start d r).stepAll commands, (start d r).stepAll_eq_actAll⟩

end Session
end Hart
