import Mathlib.Tactic.Ring
import Hart.RegisterFile.DumpReader
import Hart.Proofs.Invariant
import Hart.Proofs.JsonScalar

/-!
# Dumps read back

A dump says which registers there are and what each of them holds, and nothing else.  Its lines are
taken apart in two steps: `RegisterFile.entryLines` is what stands in them, and the dump is their
text (`RegisterFile.dumpFrom_eq`).  What stands in them is a fact about lists, and that the text is
read back is proved from the entry outward, so that a change of the layout concerns one of the two.

* `RegisterFile.map_length_entryLines`, `RegisterFile.flatten_entryLines` — two registers stand in
  each line but the last of an odd number, and they stand in order.
* `RegisterFile.extendByHex?_digits` — hexadecimal digits give the number they were taken from,
  however many there are.
* `RegisterFile.readRegister?_dumpEntry`, `RegisterFile.readLine?_lineText`,
  `RegisterFile.readDump?_dump` — an entry, a line and a dump are read back.
* `RegisterFile.dump_eq_dump_iff` — so a dump shows all that is stored.
* `RegisterFile.Reachable.dump_faithful` — in a reachable file that is what reads answer.
-/

set_option autoImplicit false

namespace Hart
namespace RegisterFile

/-! ## The lines of a dump -/

/-- The registers of a dump from number `index` on, line by line. -/
def entryLines (index : Nat) : List Lane → List (List (Nat × Lane))
  | [] => []
  | [v] => [[(index, v)]]
  | v :: v' :: vs => [(index, v), (index + 1, v')] :: entryLines (index + 2) vs

/-- The entries of a line, with a blank between each and the next. -/
def lineText : List (Nat × Lane) → List Char
  | [] => []
  | [entry] => dumpEntry entry.1 entry.2
  | entry :: entries => dumpEntry entry.1 entry.2 ++ ' ' :: lineText entries

theorem dumpFrom_eq (index : Nat) (vs : List Lane) :
    dumpFrom index vs = ((entryLines index vs).map lineText).flatMap (· ++ ['\n']) := by
  fun_induction dumpFrom index vs with
  | case1 => rfl
  | case2 => simp [entryLines, lineText]
  | case3 index v v' vs ih => simp [entryLines, lineText, ih]

/-- Two registers stand in each line, and one in the last if their number is odd. -/
theorem map_length_entryLines (index : Nat) (vs : List Lane) :
    (entryLines index vs).map List.length =
      List.replicate (vs.length / 2) 2 ++ List.replicate (vs.length % 2) 1 := by
  fun_induction entryLines index vs with
  | case1 => rfl
  | case2 => simp
  | case3 index v v' vs ih =>
    have hhalf : (vs.length + 2) / 2 = vs.length / 2 + 1 := Nat.add_div_right _ (by decide)
    simp only [List.map_cons, ih, List.length_cons, List.length_nil, Nat.add_assoc, Nat.reduceAdd,
      hhalf, Nat.add_mod_right, List.replicate_succ, List.cons_append]

theorem length_entryLines (index : Nat) (vs : List Lane) :
    (entryLines index vs).length = (vs.length + 1) / 2 := by
  have h := congrArg List.length (map_length_entryLines index vs)
  simp only [List.length_map, List.length_append, List.length_replicate] at h
  omega

theorem ne_nil_of_mem_entryLines {index : Nat} {vs : List Lane} {line : List (Nat × Lane)}
    (h : line ∈ entryLines index vs) : line ≠ [] := by
  rintro rfl
  have hlength : 0 ∈ (entryLines index vs).map List.length := List.mem_map.2 ⟨[], h, rfl⟩
  simp [map_length_entryLines] at hlength

/-- The registers stand in order, each of them once. -/
theorem flatten_entryLines (index : Nat) (vs : List Lane) :
    (entryLines index vs).flatten = (List.range' index vs.length).zip vs := by
  fun_induction entryLines index vs with
  | case1 => rfl
  | case2 => rfl
  | case3 index v v' vs ih => simp [ih, List.range'_succ]

/-! ## Entries -/

theorem hexValue?_hexDigit : ∀ d < 16, Json.hexValue? (hexDigit d) = some d := by
  decide

/-- The last `n` digits of a number, behind another number.  The most significant comes first, so
the induction on `n` takes it from the front and leaves the number before it open. -/
theorem extendByHex?_digits (start m n : Nat) :
    extendByHex? start ((List.range n).reverse.map fun k ↦ hexDigit (m / 16 ^ k % 16)) =
      some (start * 16 ^ n + m % 16 ^ n) := by
  induction n generalizing start with
  | zero => simp [extendByHex?, Nat.mod_one]
  | succ n ih =>
    have hdigit := hexValue?_hexDigit _ (Nat.mod_lt (m / 16 ^ n) (by decide))
    have hvalue : (start * 16 + m / 16 ^ n % 16) * 16 ^ n + m % 16 ^ n =
        start * 16 ^ (n + 1) + m % 16 ^ (n + 1) := by
      rw [Nat.mod_pow_succ]
      ring
    rw [List.range_succ, List.reverse_append, List.reverse_singleton, List.singleton_append,
      List.map_cons, extendByHex?, hdigit, Option.bind_some, ih, hvalue]

theorem length_hexDigits (v : Lane) : (hexDigits v).length = 16 := rfl

theorem extendByHex?_hexDigits (v : Lane) : extendByHex? 0 (hexDigits v) = some v.toNat := by
  have hdigits : hexDigits v =
      (List.range 16).reverse.map fun k ↦ hexDigit (v.toNat / 16 ^ k % 16) := by
    refine List.map_congr_left fun k _ ↦ ?_
    rw [BitVec.toNat_ushiftRight, Nat.shiftRight_eq_div_pow, Nat.pow_mul]
  have hlt : v.toNat < 16 ^ 16 := v.isLt
  rw [hdigits, extendByHex?_digits, Nat.mod_eq_of_lt hlt, Nat.zero_mul, Nat.zero_add]

theorem readContents?_hexDigits (v : Lane) (rest : List Char) :
    readContents? ('0' :: 'x' :: (hexDigits v ++ rest)) = some (v, rest) := by
  have hlength : 16 ≤ (hexDigits v ++ rest).length := by
    rw [List.length_append, length_hexDigits]
    exact Nat.le_add_right _ _
  rw [readContents?, if_pos hlength, List.take_left' (length_hexDigits v),
    List.drop_left' (length_hexDigits v), extendByHex?_hexDigits, Option.map_some,
    BitVec.ofNat_toNat, BitVec.setWidth_eq]

theorem readIndex?_dumpIndex (index : Nat) (rest : List Char) :
    readIndex? (dumpIndex index ++ '=' :: rest) = some (index, rest) := by
  obtain ⟨d, ds, hds⟩ := List.exists_cons_of_ne_nil (Nat.toDigits_ne_nil (b := 10) (n := index))
  have hblanks : ∀ n, (List.replicate n ' ' ++ '=' :: rest).dropWhile (· = ' ') = '=' :: rest := by
    intro n
    rw [List.dropWhile_append_of_pos (by simp), List.dropWhile_cons_of_neg (by decide)]
  have hdigits : Json.digits (dumpIndex index ++ '=' :: rest) =
      (d :: ds, List.replicate (2 - (d :: ds).length) ' ' ++ '=' :: rest) := by
    rw [dumpIndex, List.append_assoc, ← hds]
    refine Json.digits_append_of_isDigit (fun _ ↦ Json.isDigit_toDigits) ?_
    cases 2 - (Nat.toDigits 10 index).length <;> simp [List.replicate_succ]
  have hvalue : Json.extendBy 0 (d :: ds) = index := hds ▸ Json.extendBy_toDigits index
  simp only [readIndex?, hdigits, hblanks, hvalue]

theorem readRegister?_dumpEntry (index : Nat) (v : Lane) (rest : List Char) :
    readRegister? (dumpEntry index v ++ rest) = some ((index, v), rest) := by
  have htext : dumpEntry index v ++ rest =
      'x' :: (dumpIndex index ++ '=' :: '0' :: 'x' :: (hexDigits v ++ rest)) := by
    simp [dumpEntry]
  simp only [htext, readRegister?, readIndex?_dumpIndex, readContents?_hexDigits,
    Option.bind_eq_bind, Option.bind_some, Option.pure_def]

/-! ## Lines -/

theorem readLine?_lineText {line : List (Nat × Lane)} (h : line ≠ []) :
    readLine? (lineText line) = some line := by
  fun_induction lineText line with
  | case1 => exact absurd rfl h
  | case2 entry =>
    have hentry := readRegister?_dumpEntry entry.1 entry.2 []
    rw [List.append_nil] at hentry
    rw [readLine?, hentry]
  | case3 entry entries hne ih =>
    rw [readLine?, readRegister?_dumpEntry]
    simp [ih hne]

/-- An entry stands in one line. -/
theorem not_mem_dumpEntry (index : Nat) (v : Lane) : '\n' ∉ dumpEntry index v := by
  have hdigits : '\n' ∉ Nat.toDigits 10 index := by
    intro h
    exact absurd (Json.isDigit_toDigits h) (by decide)
  have hhex : '\n' ∉ hexDigits v := by
    rw [hexDigits, List.mem_map]
    rintro ⟨k, -, hk⟩
    have hvalue := hexValue?_hexDigit _ (Nat.mod_lt (v >>> (4 * k)).toNat (by decide))
    rw [hk] at hvalue
    cases hvalue
  simp [dumpEntry, dumpIndex, hdigits, hhex]

theorem not_mem_lineText (line : List (Nat × Lane)) : '\n' ∉ lineText line := by
  fun_induction lineText line with
  | case1 => simp
  | case2 entry => exact not_mem_dumpEntry _ _
  | case3 entry entries _ ih => simp [not_mem_dumpEntry, ih]

theorem endedLines?_append {text rest : List Char} {lines : List (List Char)} (h : '\n' ∉ text)
    (hrest : endedLines? rest = some lines) :
    endedLines? (text ++ '\n' :: rest) = some (text :: lines) := by
  induction text with
  | nil => simp [endedLines?, hrest]
  | cons c cs ih =>
    obtain ⟨hc, hcs⟩ := not_or.1 (mt List.mem_cons.2 h)
    rw [List.cons_append, endedLines?, if_neg (Ne.symm hc), ih hcs]

/-- Lines that are written one after another, each of them ended, are found again. -/
theorem endedLines?_flatMap {texts : List (List Char)} (h : ∀ text ∈ texts, '\n' ∉ text) :
    endedLines? (texts.flatMap (· ++ ['\n'])) = some texts := by
  induction texts with
  | nil => rfl
  | cons text texts ih =>
    rw [List.flatMap_cons, List.append_assoc, List.singleton_append]
    exact endedLines?_append (h text (by simp)) (ih fun t ht ↦ h t (by simp [ht]))

theorem mapM_readLine?_lineText {lines : List (List (Nat × Lane))}
    (h : ∀ line ∈ lines, line ≠ []) : (lines.map lineText).mapM readLine? = some lines := by
  induction lines with
  | nil => rfl
  | cons line lines ih =>
    rw [List.map_cons, List.mapM_cons, readLine?_lineText (h line (by simp)),
      ih fun l hl ↦ h l (by simp [hl])]
    rfl

/-! ## Dumps -/

/-- The lines of a dump, as texts. -/
def dumpLines (r : RegisterFile) : List (List Char) :=
  (entryLines 0 r.regs).map lineText

theorem toList_dump (r : RegisterFile) : r.dump.toList = r.dumpLines.flatMap (· ++ ['\n']) := by
  rw [dump, String.toList_ofList, dumpFrom_eq, dumpLines]

theorem not_mem_of_mem_dumpLines {r : RegisterFile} {text : List Char} (h : text ∈ r.dumpLines) :
    '\n' ∉ text := by
  obtain ⟨line, -, rfl⟩ := List.mem_map.1 h
  exact not_mem_lineText line

theorem mapM_readLine?_dumpLines (r : RegisterFile) :
    r.dumpLines.mapM readLine? = some (entryLines 0 r.regs) :=
  mapM_readLine?_lineText fun _ ↦ ne_nil_of_mem_entryLines

theorem readDump?_dump (r : RegisterFile) : readDump? r.dump = some (entryLines 0 r.regs) := by
  rw [readDump?, toList_dump, endedLines?_flatMap fun _ ↦ not_mem_of_mem_dumpLines]
  exact r.mapM_readLine?_dumpLines

/-- The contents that stand in a dump. -/
theorem map_snd_flatten_entryLines (index : Nat) (vs : List Lane) :
    (entryLines index vs).flatten.map Prod.snd = vs := by
  rw [flatten_entryLines, List.map_snd_zip (by simp)]

/-- A dump shows what is stored, and nothing else. -/
theorem dump_eq_dump_iff {r r' : RegisterFile} : r.dump = r'.dump ↔ r.regs = r'.regs := by
  constructor
  · intro h
    have hlines : entryLines 0 r.regs = entryLines 0 r'.regs := by
      refine Option.some.inj ?_
      rw [← readDump?_dump, ← readDump?_dump, h]
    rw [← map_snd_flatten_entryLines 0 r.regs, hlines, map_snd_flatten_entryLines]
  · intro h
    rw [dump, h, dump]

namespace WellFormed

theorem map_ok_regs {r : RegisterFile} (h : r.WellFormed) :
    r.regs.map .ok = (List.range r.size).map r.read := by
  rw [h.regs_eq, List.map_map]
  refine List.map_congr_left fun index hmem ↦ ?_
  exact (read_eq_ok_iff.2 ⟨List.mem_range.1 hmem, rfl⟩).symm

/-- Files store the same exactly if they have the same size and the same reads. -/
theorem regs_eq_regs_iff {r r' : RegisterFile} (h : r.WellFormed) (h' : r'.WellFormed) :
    r.regs = r'.regs ↔ r.size = r'.size ∧ ∀ index < r.size, r.read index = r'.read index := by
  constructor
  · intro hregs
    have hsize : r.size = r'.size := congrArg List.length hregs
    refine ⟨hsize, fun index hlt ↦ ?_⟩
    rw [read_eq, read_eq, ← h.getD_regs, ← h'.getD_regs, hregs, hsize]
  · rintro ⟨hsize, hread⟩
    rw [h.regs_eq, h'.regs_eq, ← hsize]
    refine List.map_congr_left fun index hmem ↦ ?_
    have hlt := List.mem_range.1 hmem
    exact (value_eq_of_read_eq hlt (hread index hlt).symm).symm

end WellFormed

/-- **A dump can be read back.**  The dump of a reachable file is made of lines, half as many as
there are registers, rounded up, and each of them ended.  Read by itself, each line gives two
registers, but the last line of an odd number gives one.  All lines together give the registers from
zero on, each once and in order, and with each of them what reading it answers.  So two reachable
files, of whatever widths, have the same dump exactly if they are of the same size and all their
reads agree; and a write that is staged does not show. -/
theorem Reachable.dump_faithful {r : RegisterFile} (h : r.Reachable) :
    (∃ (texts : List (List Char)) (lines : List (List (Nat × Lane))),
      (r.dump.toList = texts.flatMap (· ++ ['\n']) ∧ (∀ text ∈ texts, '\n' ∉ text) ∧
        texts.length = (r.size + 1) / 2) ∧
      (texts.mapM readLine? = some lines ∧ readDump? r.dump = some lines) ∧
      lines.map List.length = List.replicate (r.size / 2) 2 ++ List.replicate (r.size % 2) 1 ∧
      lines.flatten.map Prod.fst = List.range r.size ∧
      lines.flatten.map (fun entry ↦ .ok entry.2) = (List.range r.size).map r.read) ∧
    (∀ r' : RegisterFile, r'.Reachable →
      (r.dump = r'.dump ↔ r.size = r'.size ∧ ∀ index < r.size, r.read index = r'.read index)) ∧
    (∀ index v r', r.write index v = .ok r' → r'.dump = r.dump) ∧
    ∀ staged, { r with staged }.dump = r.dump := by
  have hwf := h.wellFormed
  refine ⟨⟨r.dumpLines, entryLines 0 r.regs,
    ⟨r.toList_dump, fun _ ↦ not_mem_of_mem_dumpLines, ?_⟩,
    ⟨r.mapM_readLine?_dumpLines, r.readDump?_dump⟩, map_length_entryLines 0 r.regs, ?_, ?_⟩,
    ?_, ?_, fun _ ↦ rfl⟩
  · rw [dumpLines, List.length_map, length_entryLines, size]
  · rw [flatten_entryLines, List.map_fst_zip (by simp), List.range_eq_range', size]
  · calc
      (entryLines 0 r.regs).flatten.map (fun entry ↦ .ok entry.2)
        = ((entryLines 0 r.regs).flatten.map Prod.snd).map .ok := List.map_map.symm
      _ = r.regs.map .ok := by rw [map_snd_flatten_entryLines]
      _ = (List.range r.size).map r.read := hwf.map_ok_regs
  · intro r' h'
    rw [dump_eq_dump_iff, hwf.regs_eq_regs_iff h'.wellFormed]
  · intro index v r' hw
    obtain ⟨_, rfl⟩ := write_eq_ok_iff.1 hw
    rfl

/-- Three registers, the last of which holds `0xab`, and a write that waits for `x1`.  The second
line has one entry, and neither line shows the write. -/
theorem dump_faithful_three_registers :
    ∃ r s : RegisterFile, r.Reachable ∧ s.Reachable ∧ r.staged = some (1, 7) ∧ s.staged = none ∧
      r.dump = "x0 =0x0000000000000000 x1 =0x0000000000000000\nx2 =0x00000000000000ab\n" ∧
      (∃ lines, readDump? r.dump = some lines ∧ lines.map List.length = [2, 1] ∧
        lines.flatten.map Prod.fst = [0, 1, 2] ∧
        lines.flatten.map (fun entry ↦ Except.ok entry.2) = [r.read 0, r.read 1, r.read 2]) ∧
      s.dump = r.dump := by
  have hbuild : ofCount 3 = .ok ⟨[0, 0, 0], .w32, true, false, none⟩ := rfl
  have hs := ((Reachable.ofCount hbuild).perform (.write 2 0xab)).perform .commit
  have hr := hs.perform (.write 1 7)
  obtain ⟨⟨_, lines, _, ⟨_, hread⟩, hlengths, hindices, hvalues⟩, hiff, _⟩ := hr.dump_faithful
  refine ⟨_, _, hr, hs, rfl, rfl, by decide, ⟨lines, hread, hlengths, hindices, hvalues⟩, ?_⟩
  exact ((hiff _ hs).2 ⟨rfl, by decide⟩).symm

end RegisterFile
end Hart
