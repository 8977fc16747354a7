import Hart.Proofs.Evaluation

/-!
# Two places that compare

The machine compares twice over.  The comparator answers the six comparisons; the arithmetic unit
has two operations that answer one or zero, and a zero flag.  The datapath asks the comparator alone
when a word sets a register if one value is less than another, and lets the unit add meanwhile.
Here the two are shown to agree, so that it does not matter whom it asks.

* `Comparison.holds_negate_iff` — six comparisons are three pairs of opposites.
* `Alu.out_execute_eq_ofBool` — an operation that is carried out by a comparison answers it.
* `Alu.zero_execute_sub_iff` — a difference is zero for equal operands only.
* `Datapath.result_eq_out_execute` — an arithmetic word gets what the unit would answer to the
  operation that the manual names, set-less-than included.
* `Comparator.compare_exact` — all of it, for the comparator and the unit of one width.
-/

set_option autoImplicit false

namespace Hart

open Lane

/-! ## Opposites -/

namespace Comparison

/-- The comparison that is true where the other is false. -/
def negate : Comparison → Comparison
  | equal => notEqual
  | notEqual => equal
  | lessThan => greaterEqual
  | greaterEqual => lessThan
  | lessThanU => greaterEqualU
  | greaterEqualU => lessThanU

theorem holds_negate_iff {bits : Nat} {c : Comparison} {a b : Nat} :
    c.negate.Holds bits a b ↔ ¬c.Holds bits a b := by
  cases c with
  | equal => exact Iff.rfl
  | notEqual => exact not_not.symm
  | lessThan => exact Int.not_lt.symm
  | greaterEqual => exact Int.not_le.symm
  | lessThanU => exact Nat.not_lt.symm
  | greaterEqualU => exact Nat.not_le.symm

end Comparison

/-! ## The comparator -/

namespace Comparator

theorem compare_negate (k : Comparator) (c : Comparison) (a b : Lane) :
    k.compare c.negate a b = !k.compare c a b := by
  rw [Bool.eq_iff_iff, Bool.not_eq_true', Bool.eq_false_iff, Ne, compare_eq_true_iff,
    compare_eq_true_iff, Comparison.holds_negate_iff]

/-- Operands with the same low bits compare alike. -/
theorem compare_congr (k : Comparator) (c : Comparison) {a a' b b' : Lane}
    (ha : unsigned k.width.bits a' = unsigned k.width.bits a)
    (hb : unsigned k.width.bits b' = unsigned k.width.bits b) :
    k.compare c a' b' = k.compare c a b := by
  rw [Bool.eq_iff_iff, compare_eq_true_iff, compare_eq_true_iff, ha, hb]

end Comparator

/-! ## The unit -/

namespace Alu

/-- The unit answers an operation that is carried out by a comparison as the comparator does. -/
theorem out_execute_eq_ofBool (width : Width) {o : Operation} {c : Comparison}
    (hsignals : o.signals = (.add, c)) (hc : c ≠ .equal) (a b : Lane) :
    (execute { width } o a b).out = .ofBool (Comparator.compare { width } c a b) := by
  rw [← BitVec.toNat_inj, toNat_execute_out, toNat_ofBool]
  simp only [Comparator.compare_eq_true_iff]
  obtain ⟨_, rfl⟩ := Prod.mk.inj hsignals
  cases o with
  | slt | sltu => rfl
  | _ => exact absurd rfl hc

theorem wrap_sub_eq_zero_iff {bits a b : Nat} (ha : a < 2 ^ bits) (hb : b < 2 ^ bits) :
    wrap bits (a - b) = 0 ↔ a = b := by
  rw [← Int.natCast_inj, natCast_wrap, Int.natCast_zero,
    ← Int.emod_eq_emod_iff_emod_sub_eq_zero, ← natCast_wrap, ← natCast_wrap, Int.natCast_inj,
    wrap_natCast, wrap_natCast, Nat.mod_eq_of_lt ha, Nat.mod_eq_of_lt hb]

theorem zero_execute_sub_iff (width : Width) (a b : Lane) :
    (execute { width } .sub a b).zero = true ↔
      Comparator.compare { width } .equal a b = true := by
  rw [zero_execute_iff, toNat_execute_out, Comparator.compare_eq_true_iff]
  exact wrap_sub_eq_zero_iff (unsigned_lt _ a) (unsigned_lt _ b)

end Alu

/-! ## The datapath -/

/-- The signals of an arithmetic word are those of the operation that the manual names. -/
theorem Word.signals_of_arithmetic {w : Word} {twoRegisters : Bool}
    (h : w.op? = some (if twoRegisters then .op else .opImm)) :
    (w.control.operation, w.control.comparison) = (Semantics.operation twoRegisters w).signals ∧
      w.control.branch = false := by
  rw [control_of_op? h]
  cases twoRegisters with
  | true => exact ⟨Control.ofFamily_eq_signals true w, rfl⟩
  | false => exact ⟨Control.ofFamily_eq_signals false w, rfl⟩

namespace Datapath

/-- The result of a word is what the unit would answer to the operation itself. -/
theorem result_eq_out_execute (d : Datapath) {w : Word} {o : Operation} (pc a b : Lane)
    (hsignals : (w.control.operation, w.control.comparison) = o.signals)
    (hbranch : w.control.branch = false) :
    let e := d.evaluateWith w pc a b
    e.result = (d.alu.execute o e.opA e.opB).out := by
  intro e
  have hcut : d.alu.execute o e.opA e.opB =
      d.alu.execute o (w.control.sourceA.select a pc) (w.control.sourceB.select b w.immediate) :=
    d.alu.execute_and_mask _ _ _
  rw [hcut, ← BitVec.toNat_inj, Alu.toNat_execute_out]
  exact d.toNat_result_of_signals pc a b hsignals hbranch

/-- Set-less-than adds, and takes its result from the comparator; the unit would have answered the
same. -/
theorem result_of_comparing (d : Datapath) {w : Word} {twoRegisters : Bool} {c : Comparison}
    (h : w.op? = some (if twoRegisters then .op else .opImm))
    (hc : (Semantics.operation twoRegisters w).signals = (.add, c)) (hne : c ≠ .equal)
    (pc a b : Lane) :
    let e := d.evaluateWith w pc a b
    e.control.operation = .add ∧ e.result = .ofBool (d.comparator.compare c e.opA e.opB) ∧
      e.result = (d.alu.execute (Semantics.operation twoRegisters w) e.opA e.opB).out := by
  intro e
  obtain ⟨hsignals, hbranch⟩ := Word.signals_of_arithmetic h
  have hout : e.result = (d.alu.execute (Semantics.operation twoRegisters w) e.opA e.opB).out :=
    d.result_eq_out_execute pc a b hsignals hbranch
  rw [d.comparator_eq]
  exact ⟨congrArg Prod.fst (hsignals.trans hc),
    hout.trans (Alu.out_execute_eq_ofBool d.width hc hne e.opA e.opB), hout⟩

end Datapath

/-- **The comparator compares at its width, and the unit of that width agrees with it.**  Both are
made from the number of their bits, of which there are four.  A comparison is decided on what the
operands leave modulo the power of two, as natural numbers or as the signed numbers that they stand
for; the bits above never matter.  A comparison and its opposite never agree.  Set-less-than answers
one if its comparison holds, signed or unsigned, and a difference is zero if the operands are equal.
A word that sets a register if one value is less than another adds, and gets what the comparator
says of its operands; asking the unit instead would give it the same. -/
theorem Comparator.compare_exact (width : Width) (a b : Lane) :
    let k : Comparator := { width }
    let alu : Alu := { width }
    let x := a.toNat % 2 ^ width.bits
    let y := b.toNat % 2 ^ width.bits
    (width.bits ∈ [8, 16, 32, 64] ∧
      ∀ n, (ofBits n = .ok k ↔ n = width.bits) ∧ (Alu.ofBits n = .ok alu ↔ n = width.bits)) ∧
    (∀ c, k.compare c a b = true ↔ c.Holds width.bits x y) ∧
    (∀ (c : Comparison) (a' b' : Lane), a'.toNat % 2 ^ width.bits = x →
      b'.toNat % 2 ^ width.bits = y → k.compare c a' b' = k.compare c a b) ∧
    (∀ c : Comparison, k.compare c.negate a b = !k.compare c a b) ∧
    (k.compare .lessThan a b = true ↔ (alu.execute .slt a b).out = 1) ∧
    (k.compare .lessThanU a b = true ↔ (alu.execute .sltu a b).out = 1) ∧
    (k.compare .equal a b = true ↔ (alu.execute .sub a b).zero = true) ∧
    ∀ (d : Datapath) (r : RegisterFile) (w : Word) (pc : Lane) (e : Evaluation),
      d.evaluate w pc r = .ok e →
      Semantics.opcode? w = some .op ∨ Semantics.opcode? w = some .opImm →
      ∀ o c, (Semantics.slice w 14 12, o, c) ∈ [(2, .slt, .lessThan), (3, .sltu, .lessThanU)] →
        e.control.operation = .add ∧ e.result = .ofBool (d.comparator.compare c e.opA e.opB) ∧
          e.result = (d.alu.execute o e.opA e.opB).out := by
  intro k alu x y
  have hone : ∀ holds : Bool, Lane.ofBool holds = 1 ↔ holds = true := by decide
  refine ⟨⟨?_, fun n ↦ ⟨ofBits_eq_ok_iff, Alu.ofBits_eq_ok_iff⟩⟩, ?_, ?_, ?_, ?_, ?_, ?_, ?_⟩
  · cases width <;> decide
  · intro c
    rw [compare_eq_true_iff, unsigned_eq_mod, unsigned_eq_mod]
  · intro c a' b' ha hb
    refine k.compare_congr c ?_ ?_
    · rw [unsigned_eq_mod, unsigned_eq_mod, ha]
    · rw [unsigned_eq_mod, unsigned_eq_mod, hb]
  · exact fun c ↦ k.compare_negate c a b
  · rw [Alu.out_execute_eq_ofBool (o := .slt) (c := .lessThan) width rfl nofun, hone]
  · rw [Alu.out_execute_eq_ofBool (o := .sltu) (c := .lessThanU) width rfl nofun, hone]
  · exact (Alu.zero_execute_sub_iff width a b).symm
  · intro d r w pc e he hop o c hrow
    obtain ⟨u, v, _, rfl⟩ := Datapath.evaluate_eq_ok_iff.1 he
    obtain ⟨ho, hsignals, hne⟩ : (∀ twoRegisters, Semantics.operation twoRegisters w = o) ∧
        o.signals = (.add, c) ∧ c ≠ .equal := by
      simp only [List.mem_cons, List.not_mem_nil, or_false, Prod.mk.injEq] at hrow
      obtain ⟨hslice, rfl, rfl⟩ | ⟨hslice, rfl, rfl⟩ := hrow
      · exact ⟨fun _ ↦ by simp only [Semantics.operation, hslice], rfl, nofun⟩
      · exact ⟨fun _ ↦ by simp only [Semantics.operation, hslice], rfl, nofun⟩
    rw [Semantics.opcode?_eq_op?] at hop
    rcases hop with hop | hop
    · rw [← ho true] at hsignals ⊢
      exact d.result_of_comparing hop hsignals hne pc u v
    · rw [← ho false] at hsignals ⊢
      exact d.result_of_comparing hop hsignals hne pc u v

/-- At eight bits 251 stands for minus five: it is less than three, though not as a magnitude, and
the word that compares two registers sets the third. -/
theorem Comparator.compare_exact_negative :
    let r : RegisterFile := ⟨[0, 251, 3, 0], .w8, true, false, none⟩
    let d : Datapath := .ofWidth .w8 false
    d.comparator.compare .lessThan 251 3 = true ∧ d.comparator.compare .lessThanU 251 3 = false ∧
      ∃ e, d.evaluate 0x0020a1b3 0 r = .ok e ∧ e.writeBack = some (3, 1) ∧
        e.result = .ofBool (d.comparator.compare .lessThan e.opA e.opB) ∧
        e.result = (d.alu.execute .slt e.opA e.opB).out := by
  intro r d
  have he : d.evaluate 0x0020a1b3 0 r = .ok _ := rfl
  obtain ⟨-, hcompare, -, -, -, -, -, hword⟩ := compare_exact .w8 251 3
  have hsigned : d.comparator.compare .lessThan 251 3 = true := (hcompare .lessThan).2 (by decide)
  have hunsigned : ¬d.comparator.compare .lessThanU 251 3 = true :=
    mt (hcompare .lessThanU).1 (by decide)
  obtain ⟨-, hresult, hunit⟩ :=
    hword d r 0x0020a1b3 0 _ he (.inl (by decide)) .slt .lessThan (by decide)
  exact ⟨hsigned, Bool.eq_false_iff.2 hunsigned, _, he, by decide, hresult, hunit⟩

end Hart
