import Hart.Proofs.Effect

/-!
# The table of control signals

The decoder starts from the idle bundle and fills it class by class; operation, comparison and the
sizes of memory accesses come from tables of their own, which it consults for some of the classes.
Here the bundle is written down as one table instead, a row for each class and no field left out,
and the two are compared on every word.

* `Control.row`, `Control.units`, `Control.tabulated` — the table, and the bundle that it gives a
  word.  What it finds in a word are numbers, as in `Semantics`.
* `Word.control_eq_tabulated` — the decoder follows the table.
* `Word.control_congr` — the bits of a word that the decoder looks at.  Bit 30 is one of them where
  it tells two operations apart, and only there, for elsewhere it may belong to an immediate.
* `Word.control_specified` — both, and what is reported of a word without a row.
-/

set_option autoImplicit false

namespace Hart

/-! ## The table -/

/-- The size of a load.  The three encodings that are left over load a byte. -/
def Semantics.load (w : Word) : Load :=
  match slice w 14 12 with
  | 1 => .half
  | 2 => .word
  | 4 => .byteUnsigned
  | 5 => .halfUnsigned
  | _ => .byte

/-- The size of a store.  The five encodings that are left over store a byte. -/
def Semantics.store (w : Word) : Store :=
  match slice w 14 12 with
  | 1 => .half
  | 2 => .word
  | _ => .byte

namespace Control

/-- A row of the table: the signals that the class of a word fixes. -/
structure Row where
  regWrite : Bool
  memWrite : Bool
  memRead : Bool
  writeSource : WriteSource
  sourceA : SourceA
  sourceB : SourceB
  branch : Bool

/-- The rows of the table. -/
def row : Opcode → Row
  | .lui => ⟨true, false, false, .unit, .zero, .imm, false⟩
  | .auipc => ⟨true, false, false, .unit, .pc, .imm, false⟩
  | .jal => ⟨true, false, false, .unit, .zero, .imm, false⟩
  | .jalr => ⟨true, false, false, .unit, .reg1, .imm, false⟩
  | .branch => ⟨false, false, false, .unit, .reg1, .reg2, true⟩
  | .load => ⟨true, false, true, .memory, .reg1, .imm, false⟩
  | .store => ⟨false, true, false, .unit, .reg1, .imm, false⟩
  | .opImm => ⟨true, false, false, .unit, .reg1, .imm, false⟩
  | .op => ⟨true, false, false, .unit, .reg1, .reg2, false⟩

/-- The last column of the table: the operation of the unit and the comparison.  A class without
arithmetic adds, and a class that compares nothing has the comparison for equality. -/
def units (w : Word) : Opcode → Operation × Comparison
  | .op => (Semantics.operation true w).signals
  | .opImm => (Semantics.operation false w).signals
  | .branch => (.add, Semantics.comparison w)
  | .lui | .auipc | .jal | .jalr | .load | .store => (.add, .equal)

/-- The bundle that the table gives a word.  A word without a row gets one that does nothing. -/
def tabulated (w : Word) : Control :=
  match Semantics.opcode? w with
  | some o =>
    { operation := (units w o).1
      comparison := (units w o).2
      regWrite := (row o).regWrite
      memWrite := (row o).memWrite
      memRead := (row o).memRead
      writeSource := (row o).writeSource
      sourceA := (row o).sourceA
      sourceB := (row o).sourceB
      branch := (row o).branch
      load := if o = .load then Semantics.load w else .byte
      store := if o = .store then Semantics.store w else .byte }
  | none =>
    { operation := .add, comparison := .equal, regWrite := false, memWrite := false,
      memRead := false, writeSource := .unit, sourceA := .reg1, sourceB := .reg2, branch := false,
      load := .byte, store := .byte }

end Control

/-! ## The decoder follows the table -/

namespace Word

theorem ofFunct3_funct3_eq_load (w : Word) : Load.ofFunct3 w.funct3 = Semantics.load w := by
  rw [Semantics.load, ← toNat_funct3]
  generalize w.funct3 = c
  revert c
  decide

theorem ofFunct3_funct3_eq_store (w : Word) : Store.ofFunct3 w.funct3 = Semantics.store w := by
  rw [Semantics.store, ← toNat_funct3]
  generalize w.funct3 = c
  revert c
  decide

/-- The decoder gives every word the bundle of the table. -/
theorem control_eq_tabulated (w : Word) : w.control = Control.tabulated w := by
  rw [Control.tabulated, Semantics.opcode?_eq_op?]
  rcases ho : w.op? with _ | o
  · exact control_of_op?_eq_none ho
  · rw [control_of_op? ho]
    cases o with
    | op =>
      rw [Control.ofOpcode, Control.ofFamily_eq_signals]
      rfl
    | opImm =>
      rw [Control.ofOpcode, Control.ofFamily_eq_signals]
      rfl
    | branch =>
      rw [Control.ofOpcode, ofFunct3_funct3_eq_comparison]
      rfl
    | load =>
      rw [Control.ofOpcode, ofFunct3_funct3_eq_load]
      rfl
    | store =>
      rw [Control.ofOpcode, ofFunct3_funct3_eq_store]
      rfl
    | lui | auipc | jal | jalr => rfl

end Word

/-! ## What the decoder looks at -/

/-- The second member of a family is asked for in vain, unless the family has one.  Subtraction is
none for a word with an immediate. -/
theorem Control.ofOpcode_congr {o : Opcode} {c : BitVec 3} {alternate alternate' : Bool}
    (h : (o = .op ∧ (c = 0 ∨ c = 5)) ∨ (o = .opImm ∧ c = 5) → alternate' = alternate) :
    ofOpcode o c alternate' = ofOpcode o c alternate := by
  cases o with
  | op | opImm =>
    revert c alternate alternate'
    decide
  | load | jalr | store | branch | auipc | lui | jal => rfl

namespace Word

/-- Words that agree in the bits that the decoder looks at get the same bundle. -/
theorem control_congr {w w' : Word} (hopcode : Semantics.slice w' 6 0 = Semantics.slice w 6 0)
    (hfunct3 : Semantics.slice w' 14 12 = Semantics.slice w 14 12)
    (hbit : (Semantics.opcode? w = some .op ∧ Semantics.slice w 14 12 ∈ [0, 5]) ∨
      (Semantics.opcode? w = some .opImm ∧ Semantics.slice w 14 12 = 5) →
      Semantics.slice w' 30 30 = Semantics.slice w 30 30) :
    w'.control = w.control := by
  have hop : w'.op? = w.op? := by
    rw [← Semantics.opcode?_eq_op?, ← Semantics.opcode?_eq_op?, Semantics.opcode?,
      Semantics.opcode?, hopcode]
  have hminor : w'.funct3 = w.funct3 := by
    rw [← BitVec.toNat_inj, toNat_funct3, toNat_funct3, hfunct3]
  rcases ho : w.op? with _ | o
  · rw [control_of_op?_eq_none ho, control_of_op?_eq_none (hop.trans ho)]
  · rw [control_of_op? ho, control_of_op? (hop.trans ho), hminor]
    refine Control.ofOpcode_congr fun h ↦ ?_
    rw [Bool.eq_iff_iff, isAlternate_iff, isAlternate_iff, hbit ?_]
    rw [Semantics.opcode?_eq_op?, ho, ← toNat_funct3]
    obtain ⟨rfl, hc | hc⟩ | ⟨rfl, hc⟩ := h <;> rw [hc] <;> decide

/-- **The decoder follows the table, and looks at nothing else.**  Every word gets the bundle of
the table.  The opcode and the minor opcode decide on it, together with bit 30 where that tells two
operations apart, whatever the other bits are.  A word whose opcode is not recognized gets a bundle
that does nothing, and no other word does; giving it signals is reported once and asking for its
immediate once, each report naming the word and its opcode, and nothing is reported of other words.
-/
theorem control_specified (w : Word) :
    w.control = Control.tabulated w ∧
    (∀ w' : Word, Semantics.slice w' 6 0 = Semantics.slice w 6 0 →
      Semantics.slice w' 14 12 = Semantics.slice w 14 12 →
      ((Semantics.opcode? w = some .op ∧ Semantics.slice w 14 12 ∈ [0, 5]) ∨
        (Semantics.opcode? w = some .opImm ∧ Semantics.slice w 14 12 = 5) →
        Semantics.slice w' 30 30 = Semantics.slice w 30 30) →
      w'.control = w.control) ∧
    (w.control.isNop = true ↔ w.decode.op = none) ∧
    (w.decode.op = none → w.controlEvents = [.unrecognizedOpcode w] ∧
      w.immediateEvents = [.noImmediateLayout w]) ∧
    (w.decode.op ≠ none → w.controlEvents = [] ∧ w.immediateEvents = []) ∧
    ∀ event ∈ [Event.unrecognizedOpcode w, .noImmediateLayout w], event.level = .debug ∧
      event.fields =
        [("inst", .number w.toNat), ("opcode", .number (Semantics.slice w 6 0))] := by
  refine ⟨w.control_eq_tabulated, fun w' ↦ control_congr, isNop_control_iff, ?_, ?_, ?_⟩
  · intro hnone
    exact ⟨controlEvents_of_op?_eq_none hnone, immediateEvents_of_op?_eq_none hnone⟩
  · intro hsome
    obtain ⟨o, ho⟩ := Option.ne_none_iff_exists'.1 hsome
    exact ⟨controlEvents_of_op? ho, immediateEvents_of_op? ho⟩
  · rw [← w.toNat_opcode]
    intro event hevent
    obtain rfl | rfl : event = .unrecognizedOpcode w ∨ event = .noImmediateLayout w := by
      simpa using hevent
    · exact ⟨rfl, rfl⟩
    · exact ⟨rfl, rfl⟩

end Word

end Hart
