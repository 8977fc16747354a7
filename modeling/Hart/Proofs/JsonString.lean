import Mathlib.Data.Char
import Mathlib.Tactic.IntervalCases
import Mathlib.Tactic.SplitIfs
import Hart.Json.Grammar

/-!
# Strings are read exactly as they are spelled

`quoted` answers a string and a rest exactly on the texts that spell the string, go on with a quote
and end with the rest (`quoted_eq_ok_iff`).

The grammar and the reader have the same layers: hexadecimal digits, code units, code points,
escapes, strings.  On each layer there are two lemmas.  The sound one says what was consumed, from
what was answered; the complete one says what is answered behind a text of the grammar, *whatever
comes after it*, so that the next layer can put its pieces together.  A character never has two
readings: its code units are those of UTF-16, and the two lemmas about `utf16` say which numbers
they are.
-/

set_option autoImplicit false

namespace Hart
namespace Json

/-! ## Code units -/

/-- The value of a hexadecimal digit is the one it is a digit of. -/
theorem hexValue?_eq_some_iff {c : Char} {n : Nat} : hexValue? c = some n ↔ HexDigit n c := by
  constructor
  · intro h
    have hle : ∀ a b : Char, a ≤ b ↔ a.toNat ≤ b.toNat := fun _ _ ↦ Iff.rfl
    simp only [hexValue?, hle, Char.reduceToNat] at h
    split_ifs at h with hdigit hlower hupper
    all_goals
      have hn := Option.some.inj h
      refine ⟨by omega, ?_⟩
    · have hc : c.toNat = n + 48 := by omega
      have hlt : n < 10 := by omega
      refine .inl (Char.toNat_inj.1 ?_)
      interval_cases n <;> exact hc
    · have hc : c.toNat = n + 87 := by omega
      have hlt : 10 ≤ n ∧ n < 16 := by omega
      refine .inl (Char.toNat_inj.1 ?_)
      obtain ⟨h₁, h₂⟩ := hlt
      interval_cases n <;> exact hc
    · have hc : c.toNat = n + 55 := by omega
      have hlt : 10 ≤ n ∧ n < 16 := by omega
      refine .inr (Char.toNat_inj.1 ?_)
      obtain ⟨h₁, h₂⟩ := hlt
      interval_cases n <;> exact hc
  · rintro ⟨hn, rfl | rfl⟩ <;> interval_cases n <;> rfl

theorem codeUnit_sound {cs rest : List Char} {n : Nat} (h : codeUnit cs = .ok (n, rest)) :
    ∃ ds, UnitText n ds ∧ cs = ds ++ rest := by
  rw [codeUnit.eq_def] at h
  split at h
  · split at h
    · rename_i hx hy hz ht
      cases h
      rw [hexValue?_eq_some_iff] at hx hy hz ht
      exact ⟨_, .mk hx hy hz ht, rfl⟩
    · cases h
  · cases h

theorem codeUnit_complete {ds : List Char} {n : Nat} (h : UnitText n ds) (rest : List Char) :
    codeUnit (ds ++ rest) = .ok (n, rest) := by
  obtain ⟨hx, hy, hz, ht⟩ := h
  rw [← hexValue?_eq_some_iff] at hx hy hz ht
  simp only [List.cons_append, List.nil_append, codeUnit, hx, hy, hz, ht]

/-- A code unit has 16 bits. -/
theorem UnitText.lt {n : Nat} {ds : List Char} (h : UnitText n ds) : n < 0x10000 := by
  obtain ⟨⟨hx, -⟩, ⟨hy, -⟩, ⟨hz, -⟩, ⟨ht, -⟩⟩ := h
  omega

/-! ## Characters -/

theorem isHighSurrogate_iff {n : Nat} : isHighSurrogate n = true ↔ 0xD800 ≤ n ∧ n ≤ 0xDBFF := by
  simp [isHighSurrogate]

theorem isLowSurrogate_iff {n : Nat} : isLowSurrogate n = true ↔ 0xDC00 ≤ n ∧ n ≤ 0xDFFF := by
  simp [isLowSurrogate]

theorem not_isLowSurrogate {n : Nat} (h : isHighSurrogate n = true) :
    ¬isLowSurrogate n = true := by
  rw [isHighSurrogate_iff] at h
  rw [isLowSurrogate_iff]
  omega

/-- No character is a surrogate. -/
theorem toNat_char (c : Char) : c.toNat < 0xD800 ∨ 0xDFFF < c.toNat ∧ c.toNat < 0x110000 :=
  c.valid

theorem toNat_ofNat_of_valid {n : Nat} (h : n < 0xD800 ∨ 0xDFFF < n ∧ n < 0x110000) :
    (Char.ofNat n).toNat = n := by
  rw [Char.ofNat, dif_pos h]
  rfl

/-- A character with one code unit is that number, which is not a surrogate. -/
theorem utf16_eq_single_iff {c : Char} {n : Nat} :
    utf16 c = [n] ↔ c.toNat = n ∧ n < 0x10000 := by
  rw [utf16]
  split <;> simp <;> omega

/-- The code units of a character that has two are the halves of a pair, and the pair is the
character. -/
theorem utf16_eq_pair_iff {c : Char} {high low : Nat} :
    utf16 c = [high, low] ↔
      isHighSurrogate high = true ∧ isLowSurrogate low = true ∧ pairChar high low = c := by
  have hc := toNat_char c
  rw [isHighSurrogate_iff, isLowSurrogate_iff, pairChar, ← Char.toNat_inj]
  constructor
  · intro h
    rw [utf16] at h
    split at h
    · cases h
    · rename_i hbig
      obtain ⟨rfl, rfl⟩ : _ ∧ _ := by simpa using h
      rw [toNat_ofNat_of_valid] <;> omega
  · rintro ⟨hhigh, hlow, h⟩
    rw [toNat_ofNat_of_valid (by omega)] at h
    rw [utf16, if_neg (by omega)]
    simp
    omega

/-- The two ways to write a character in code units. -/
theorem spelling_unicode_iff {c : Char} {text : List Char} :
    Spelling c ('\\' :: 'u' :: text) ↔
      (∃ n, utf16 c = [n] ∧ UnitText n text) ∨
        ∃ high low ds es, utf16 c = [high, low] ∧ UnitText high ds ∧ UnitText low es ∧
          text = ds ++ '\\' :: 'u' :: es := by
  constructor
  · intro h
    cases h with
    | short hmem => simp [shortEscapes] at hmem
    | unit hc hn => exact .inl ⟨_, hc, hn⟩
    | pair hc hhigh hlow => exact .inr ⟨_, _, _, _, hc, hhigh, hlow, rfl⟩
  · rintro (⟨n, hc, hn⟩ | ⟨high, low, ds, es, hc, hhigh, hlow, rfl⟩)
    · exact .unit hc hn
    · exact .pair hc hhigh hlow

theorem codePoint_sound {cs rest : List Char} {c : Char} (h : codePoint cs = .ok (c, rest)) :
    ∃ text, Spelling c ('\\' :: 'u' :: text) ∧ cs = text ++ rest := by
  rw [codePoint] at h
  split at h
  · cases h
  · rename_i high cs₁ hread
    obtain ⟨ds, hds, rfl⟩ := codeUnit_sound hread
    split_ifs at h with hlow hhigh
    · split at h
      · cases h
      · rename_i cs₂ hlit
        obtain ⟨-, rfl⟩ := literal_eq_ok_iff.1 hlit
        split at h
        · cases h
        · rename_i low cs₃ hread'
          obtain ⟨es, hes, rfl⟩ := codeUnit_sound hread'
          split_ifs at h with hlow'
          obtain ⟨hpair, rfl⟩ : pairChar high low = c ∧ cs₃ = rest := by simpa using h
          have hc := utf16_eq_pair_iff.2 ⟨hhigh, hlow', hpair⟩
          exact ⟨_, .pair hc hds hes, by simp⟩
    · cases h
      rw [isLowSurrogate_iff] at hlow
      rw [isHighSurrogate_iff] at hhigh
      have hlt := hds.lt
      have hc := utf16_eq_single_iff.2 ⟨toNat_ofNat_of_valid (n := high) (by omega), hlt⟩
      exact ⟨ds, .unit hc hds, rfl⟩

theorem codePoint_complete {text : List Char} {c : Char}
    (h : Spelling c ('\\' :: 'u' :: text)) (rest : List Char) :
    codePoint (text ++ rest) = .ok (c, rest) := by
  obtain ⟨n, hc, hn⟩ | ⟨high, low, ds, es, hc, hhigh, hlow, rfl⟩ := spelling_unicode_iff.1 h
  · obtain ⟨rfl, -⟩ := utf16_eq_single_iff.1 hc
    have hvalid := toNat_char c
    have hnotLow : ¬ isLowSurrogate c.toNat = true := by rw [isLowSurrogate_iff]; omega
    have hnotHigh : ¬ isHighSurrogate c.toNat = true := by rw [isHighSurrogate_iff]; omega
    have hread := codeUnit_complete hn rest
    simp only [codePoint, hread, if_neg hnotLow, if_neg hnotHigh, Char.ofNat_toNat]
  · obtain ⟨hisHigh, hisLow, hpair⟩ := utf16_eq_pair_iff.1 hc
    have hlit : literal () ['\\', 'u'] ('\\' :: 'u' :: (es ++ rest)) = .ok ((), es ++ rest) :=
      literal_eq_ok_iff.2 ⟨rfl, rfl⟩
    rw [List.append_assoc, List.cons_append, List.cons_append]
    simp only [codePoint, codeUnit_complete hhigh, if_neg (not_isLowSurrogate hisHigh),
      if_pos hisHigh, hlit, codeUnit_complete hlow, if_pos hisLow, hpair]

/-! ## Escapes and strings -/

theorem escape_sound {cs rest : List Char} {c : Char} (h : escape cs = .ok (c, rest)) :
    ∃ text, Spelling c ('\\' :: text) ∧ cs = text ++ rest := by
  rw [escape.eq_def] at h
  split at h
  case h_10 =>
    obtain ⟨text, hc, rfl⟩ := codePoint_sound h
    exact ⟨'u' :: text, hc, rfl⟩
  all_goals first
    | cases h; done
    | cases h; exact ⟨[_], .short (by simp [shortEscapes]), rfl⟩

theorem escape_complete {text : List Char} {c : Char} (h : Spelling c ('\\' :: text))
    (rest : List Char) : escape (text ++ rest) = .ok (c, rest) := by
  cases h with
  | plain _ _ hne => exact absurd rfl hne
  | short hmem =>
    simp only [shortEscapes, List.mem_cons, Prod.mk.injEq, List.not_mem_nil, or_false] at hmem
    rcases hmem with ⟨rfl, rfl⟩ | ⟨rfl, rfl⟩ | ⟨rfl, rfl⟩ | ⟨rfl, rfl⟩ | ⟨rfl, rfl⟩ |
      ⟨rfl, rfl⟩ | ⟨rfl, rfl⟩ | ⟨rfl, rfl⟩ <;> rfl
  | unit hc hn => exact codePoint_complete (.unit hc hn) rest
  | pair hc hhigh hlow => exact codePoint_complete (.pair hc hhigh hlow) rest

theorem quoted_sound {cs s rest : List Char} (h : quoted cs = .ok (s, rest)) :
    ∃ text, Spelled s text ∧ cs = text ++ '"' :: rest := by
  fun_induction quoted cs generalizing s with
  | case1 | case3 | case4 | case6 | case7 => cases h
  | case2 cs =>
    cases h
    exact ⟨[], .nil, rfl⟩
  | case5 cs c cs₁ hescape s' rest' hrest ih =>
    obtain ⟨t, ht, rfl⟩ := escape_sound hescape
    cases h
    obtain ⟨text, htext, rfl⟩ := ih hrest
    exact ⟨'\\' :: t ++ text, .cons ht htext, by simp⟩
  | case8 c cs hquote hslash hvisible s' rest' hrest ih =>
    cases h
    obtain ⟨text, htext, rfl⟩ := ih hrest
    exact ⟨[c] ++ text, .cons (.plain (not_lt.1 hvisible) hquote hslash) htext, rfl⟩

/-- The text of a character is itself or an escape. -/
theorem Spelling.cases_escape {c : Char} {text : List Char} (h : Spelling c text) :
    ' ' ≤ c ∧ c ≠ '"' ∧ c ≠ '\\' ∧ text = [c] ∨
      ∃ t, Spelling c ('\\' :: t) ∧ text = '\\' :: t := by
  cases h with
  | plain hvisible hquote hslash => exact .inl ⟨hvisible, hquote, hslash, rfl⟩
  | short hmem => exact .inr ⟨_, .short hmem, rfl⟩
  | unit hc hn => exact .inr ⟨_, .unit hc hn, rfl⟩
  | pair hc hhigh hlow => exact .inr ⟨_, .pair hc hhigh hlow, rfl⟩

/-- A string is read by characters. -/
theorem quoted_append {c : Char} {t : List Char} (h : Spelling c t) (cs : List Char) :
    quoted (t ++ cs) = (quoted cs).map fun (s, rest) ↦ (c :: s, rest) := by
  obtain ⟨hvisible, hquote, hslash, rfl⟩ | ⟨t, ht, rfl⟩ := h.cases_escape
  · rw [List.singleton_append, quoted.eq_4 _ _ hquote hslash, if_neg (not_lt.2 hvisible)]
    cases quoted cs <;> rfl
  · rw [List.cons_append, quoted.eq_3]
    split
    · rename_i hescape
      rw [escape_complete ht] at hescape
      cases hescape
    · rename_i hescape
      rw [escape_complete ht] at hescape
      cases hescape
      cases quoted cs <;> rfl

theorem quoted_complete {s text : List Char} (h : Spelled s text) (rest : List Char) :
    quoted (text ++ '"' :: rest) = .ok (s, rest) := by
  induction h with
  | nil => simp [quoted]
  | cons hc _ ih =>
    rw [List.append_assoc, quoted_append hc, ih]
    rfl

/-- **Strings are read exactly as they are spelled.** -/
theorem quoted_eq_ok_iff {cs s rest : List Char} :
    quoted cs = .ok (s, rest) ↔ ∃ text, Spelled s text ∧ cs = text ++ '"' :: rest := by
  constructor
  · exact quoted_sound
  · rintro ⟨text, h, rfl⟩
    exact quoted_complete h rest

end Json
end Hart
