import Mathlib.Data.List.TakeWhile
import Mathlib.Tactic.SplitIfs
import Hart.Json.Grammar

/-!
# Blanks and scalars are read exactly as they are written

* `skipBlanks_eq_cons_iff` – what is skipped before a character is blank.
* `number_eq_natural_iff` – a natural number is read from its decimal digits, if it has 64 bits
  and nothing behind it goes on with the number.
* `scalar_sound`, `scalar_complete` – a value that a field can have is read from its token.

The value of some digits is computed from the left, and the digits of a value come off it from the
right.  `toDigits_extendBy` is where the two meet: digits behind a positive number are appended to
its digits.
-/

set_option autoImplicit false

namespace Hart
namespace Json

/-! ## Blanks -/

theorem isBlank_iff {c : Char} : isBlank c = true ↔ c ∈ [' ', '\t', '\n', '\r'] := by
  simp [isBlank, or_assoc]

/-- What is skipped is blank. -/
theorem exists_blanks_append_skipBlanks (cs : List Char) :
    ∃ before, Blanks before ∧ cs = before ++ skipBlanks cs :=
  ⟨cs.takeWhile isBlank, fun c hc ↦ isBlank_iff.1 (List.all_eq_true.1 List.all_takeWhile c hc),
    List.takeWhile_append_dropWhile.symm⟩

@[simp]
theorem skipBlanks_append {before : List Char} (h : Blanks before) (cs : List Char) :
    skipBlanks (before ++ cs) = skipBlanks cs :=
  List.dropWhile_append_of_pos fun c hc ↦ isBlank_iff.2 (h c hc)

theorem skipBlanks_eq_nil_iff {cs : List Char} : skipBlanks cs = [] ↔ Blanks cs := by
  simp only [skipBlanks, List.dropWhile_eq_nil_iff, isBlank_iff, Blanks]

theorem skipBlanks_of_not_isBlank {c : Char} (h : isBlank c = false) (cs : List Char) :
    skipBlanks (c :: cs) = c :: cs := by
  simp [skipBlanks, h]

theorem skipBlanks_append_cons {before : List Char} {c : Char} (h : Blanks before)
    (hc : isBlank c = false) (cs : List Char) : skipBlanks (before ++ c :: cs) = c :: cs := by
  rw [skipBlanks_append h, skipBlanks_of_not_isBlank hc]

/-- A text goes on with a character behind its blanks. -/
theorem skipBlanks_eq_cons_iff {c : Char} {cs rest : List Char} (hc : isBlank c = false) :
    skipBlanks cs = c :: rest ↔ ∃ before, Blanks before ∧ cs = before ++ c :: rest := by
  constructor
  · intro h
    rw [← h]
    exact exists_blanks_append_skipBlanks cs
  · rintro ⟨before, hbefore, rfl⟩
    exact skipBlanks_append_cons hbefore hc rest

theorem skipBlanks_skipBlanks (cs : List Char) : skipBlanks (skipBlanks cs) = skipBlanks cs := by
  obtain ⟨before, hbefore, hcs⟩ := exists_blanks_append_skipBlanks cs
  exact (skipBlanks_append hbefore (skipBlanks cs)).symm.trans (congrArg skipBlanks hcs.symm)

/-! ## Decimal digits -/

theorem digitChar_digitValue {d : Char} (h : d.isDigit = true) :
    (digitValue d).digitChar = d ∧ digitValue d < 10 := by
  obtain ⟨h₁, h₂⟩ := Char.isDigit_iff_toNat.1 h
  have hv : digitValue d + 48 = d.toNat := Nat.sub_add_cancel h₁
  have hlt : digitValue d < 10 := by
    simp only [Char.reduceToNat] at h₂
    omega
  refine ⟨Char.toNat_inj.1 ?_, hlt⟩
  rw [Nat.toNat_digitChar_of_lt_ten hlt]
  omega

/-- Behind a positive number, digits are the digits of the number they extend it to. -/
theorem toDigits_extendBy {n : Nat} {ds : List Char} (hn : 0 < n)
    (hds : ∀ d ∈ ds, d.isDigit = true) :
    Nat.toDigits 10 (extendBy n ds) = Nat.toDigits 10 n ++ ds := by
  induction ds generalizing n with
  | nil => simp [extendBy]
  | cons d ds ih =>
    obtain ⟨hd, hlt⟩ := digitChar_digitValue (hds d (by simp))
    have hpos : 0 < n * 10 + digitValue d := by omega
    have hds' : ∀ d ∈ ds, d.isDigit = true := fun e he ↦ hds e (by simp [he])
    calc
      Nat.toDigits 10 (extendBy n (d :: ds))
        = Nat.toDigits 10 (10 * n + digitValue d) ++ ds := by
          rw [Nat.mul_comm, ← ih hpos hds']
          rfl
      _ = Nat.toDigits 10 n ++ Nat.toDigits 10 (digitValue d) ++ ds := by
          rw [Nat.toDigits_append_toDigits (by decide) hn hlt]
      _ = Nat.toDigits 10 n ++ d :: ds := by
          rw [Nat.toDigits_of_lt_base hlt, hd, List.append_assoc, List.singleton_append]

theorem extendBy_toDigits (n : Nat) : extendBy 0 (Nat.toDigits 10 n) = n := by
  have h : extendBy 0 (Nat.toDigits 10 n) = Nat.ofDigitChars 10 (Nat.toDigits 10 n) 0 := by
    simp only [extendBy, Nat.ofDigitChars_eq_foldl, Nat.mul_comm, digitValue]
  rw [h, Nat.ofDigitChars_ten_toDigits]

theorem isDigit_toDigits {n : Nat} {d : Char} (h : d ∈ Nat.toDigits 10 n) : d.isDigit = true :=
  Nat.isDigit_of_mem_toDigits (by decide) (by decide) h

/-- Digits are those of a number where no zero stands before another. -/
theorem toDigits_extendBy_zero {d : Char} {ds : List Char} (hds : ∀ e ∈ d :: ds, e.isDigit = true)
    (hzero : d = '0' → ds = []) : Nat.toDigits 10 (extendBy 0 (d :: ds)) = d :: ds := by
  obtain ⟨hd, hlt⟩ := digitChar_digitValue (hds d (by simp))
  have hstep : extendBy 0 (d :: ds) = extendBy (digitValue d) ds := by simp [extendBy]
  rw [hstep]
  by_cases h : d = '0'
  · rw [hzero h, h]
    rfl
  · have hpos : 0 < digitValue d := by
      refine Nat.pos_of_ne_zero fun h0 ↦ h ?_
      rw [← hd, h0]
      rfl
    rw [toDigits_extendBy hpos fun e he ↦ hds e (by simp [he]), Nat.toDigits_of_lt_base hlt, hd,
      List.singleton_append]

/-- In the digits of a number no zero stands before another digit. -/
theorem toDigits_ne_zero_cons_cons (n : Nat) (d : Char) (ds : List Char) :
    Nat.toDigits 10 n ≠ '0' :: d :: ds := by
  induction n using Nat.strongRecOn generalizing d ds with
  | _ n ih =>
    rw [Nat.toDigits_eq_if (by decide)]
    split
    · simp
    · rename_i hn
      intro h
      match hlead : Nat.toDigits 10 (n / 10) with
      | [] => exact Nat.toDigits_ne_nil hlead
      | [e] =>
        obtain rfl : e = '0' := by simpa [hlead] using congrArg List.head? h
        have hzero : n / 10 = 0 := by rw [← extendBy_toDigits (n / 10), hlead]; rfl
        omega
      | e :: e' :: es =>
        obtain rfl : e = '0' := by simpa [hlead] using congrArg List.head? h
        exact ih (n / 10) (by omega) e' es hlead

/-- What begins with the digits of a number begins with a digit. -/
theorem toDigits_append_ne_cons {c : Char} (hc : c.isDigit = false) (n : Nat)
    (rest : List Char) {cs : List Char} : Nat.toDigits 10 n ++ rest ≠ c :: cs := by
  obtain ⟨d, ds, hds⟩ := List.exists_cons_of_ne_nil (Nat.toDigits_ne_nil (b := 10) (n := n))
  rw [hds, List.cons_append]
  rintro h
  have hd : d.isDigit = true := isDigit_toDigits (n := n) (by simp [hds])
  rw [(List.cons.inj h).1, hc] at hd
  cases hd

/-! ## Natural numbers -/

/-- A text that a number cannot go on with. -/
def EndsNumber (rest : List Char) : Prop :=
  (∀ c ∈ rest.head?, c.isDigit = false) ∧ rest.head? ≠ some '.' ∧ rest.head? ≠ some 'e' ∧
    rest.head? ≠ some 'E'

/-- No number goes on with a blank, or with a mark that stands behind a value. -/
theorem endsNumber_cons {c : Char} {cs : List Char}
    (h : c ∈ [' ', '\t', '\n', '\r'] ∨ c ∈ [',', ']', '}']) : EndsNumber (c :: cs) := by
  simp only [List.mem_cons, List.not_mem_nil, or_false] at h
  rcases h with (rfl | rfl | rfl | rfl) | (rfl | rfl | rfl) <;> simp [EndsNumber]

theorem digits_append_of_isDigit {ds rest : List Char} (hds : ∀ d ∈ ds, d.isDigit = true)
    (hrest : ∀ c ∈ rest.head?, c.isDigit = false) : digits (ds ++ rest) = (ds, rest) := by
  have hstop : rest.takeWhile Char.isDigit = [] ∧ rest.dropWhile Char.isDigit = rest := by
    cases rest with
    | nil => simp
    | cons c cs => simp [hrest c rfl]
  rw [digits, List.takeWhile_append_of_pos hds, List.dropWhile_append_of_pos hds, hstop.1, hstop.2,
    List.append_nil]

theorem head?_digits (cs : List Char) : ∀ c ∈ (digits cs).2.head?, c.isDigit = false := by
  intro c hc
  have h := List.head?_dropWhile_not Char.isDigit cs
  rw [show (cs.dropWhile Char.isDigit).head? = some c from hc] at h
  exact h

theorem someDigits_eq_ok_iff {cs ds rest : List Char} :
    someDigits cs = .ok (ds, rest) ↔ ds ≠ [] ∧ digits cs = (ds, rest) := by
  rw [someDigits.eq_def]
  split
  · simp_all
  · simp_all
  · rename_i hdigits
    rw [hdigits]
    simp only [Except.ok.injEq, Prod.mk.injEq, iff_and_self, and_imp]
    rintro rfl -
    simp

/-- A whole part is written as the digits of a number, as far as there are digits. -/
theorem wholePart_eq_ok_iff {cs ds rest : List Char} :
    wholePart cs = .ok (ds, rest) ↔
      (∃ n, ds = Nat.toDigits 10 n) ∧ digits cs = (ds, rest) := by
  rw [wholePart]
  split
  · rename_i d ds' rest' hread
    obtain ⟨-, hdigits⟩ := someDigits_eq_ok_iff.1 hread
    simp only [reduceCtorEq, false_iff, not_and, forall_exists_index, hdigits]
    rintro n rfl h
    exact toDigits_ne_zero_cons_cons n d ds' (Prod.mk.inj h).1.symm
  · rename_i hzero
    rw [someDigits_eq_ok_iff]
    refine and_congr_left fun hdigits ↦ ⟨fun hne ↦ ?_, ?_⟩
    · have hds : ∀ d ∈ ds, d.isDigit = true := by
        intro d hd
        rw [show ds = (digits cs).1 by rw [hdigits]] at hd
        exact isDigit_of_mem_digits hd
      obtain ⟨d, ds, rfl⟩ := List.exists_cons_of_ne_nil hne
      refine ⟨_, (toDigits_extendBy_zero hds ?_).symm⟩
      rintro rfl
      cases ds with
      | nil => rfl
      | cons e es => exact (hzero e es rest (someDigits_eq_ok_iff.2 ⟨hne, hdigits⟩)).elim
    · rintro ⟨n, rfl⟩
      exact Nat.toDigits_ne_nil

/-- There is no fraction where there is no point. -/
theorem fractionPart_eq_none_iff {cs rest : List Char} :
    fractionPart cs = .ok (none, rest) ↔ cs = rest ∧ rest.head? ≠ some '.' := by
  constructor
  · intro h
    rw [fractionPart.eq_def] at h
    split at h
    · split at h <;> cases h
    · rename_i hpoint
      cases h
      refine ⟨rfl, fun hhead ↦ ?_⟩
      obtain ⟨tail, htail⟩ := List.head?_eq_some_iff.1 hhead
      exact hpoint tail htail
  · rintro ⟨rfl, hhead⟩
    rw [fractionPart.eq_def]
    split
    · exact absurd rfl hhead
    · rfl

/-- There is no exponent where there is no letter for one. -/
theorem exponentPart_eq_none_iff {cs rest : List Char} :
    exponentPart cs = .ok (none, rest) ↔
      cs = rest ∧ rest.head? ≠ some 'e' ∧ rest.head? ≠ some 'E' := by
  constructor
  · intro h
    rw [exponentPart.eq_def] at h
    split at h
    · split at h
      split at h <;> cases h
    · split at h
      split at h <;> cases h
    · rename_i hlower hupper
      cases h
      refine ⟨rfl, fun hhead ↦ ?_, fun hhead ↦ ?_⟩ <;>
        obtain ⟨tail, htail⟩ := List.head?_eq_some_iff.1 hhead
      · exact hlower tail htail
      · exact hupper tail htail
  · rintro ⟨rfl, hlower, hupper⟩
    rw [exponentPart.eq_def]
    split
    · exact absurd rfl hlower
    · exact absurd rfl hupper
    · rfl

/-- A number is natural where it has none of the other parts. -/
theorem magnitude_eq_natural_iff {negative : Bool} {cs rest : List Char} {n : Nat} :
    magnitude negative cs = .ok (.natural n, rest) ↔
      negative = false ∧ n < UInt64.size ∧ ∃ whole, wholePart cs = .ok (whole, rest) ∧
        extendBy 0 whole = n ∧ rest.head? ≠ some '.' ∧ rest.head? ≠ some 'e' ∧
          rest.head? ≠ some 'E' := by
  constructor
  · intro h
    rw [magnitude] at h
    split at h
    · cases h
    · rename_i whole cs₁ hwhole
      split at h
      · cases h
      · rename_i fraction cs₂ hfraction
        split at h
        · cases h
        · rename_i exponent cs₃ hexponent
          split_ifs at h with hplain
          · obtain ⟨hn, rfl⟩ : extendBy 0 whole = n ∧ cs₃ = rest := by simpa using h
            simp only [Bool.and_eq_true, Bool.not_eq_true', decide_eq_true_eq,
              Option.isNone_iff_eq_none] at hplain
            obtain ⟨⟨⟨hnegative, rfl⟩, rfl⟩, hlt⟩ := hplain
            obtain ⟨rfl, hpoint⟩ := fractionPart_eq_none_iff.1 hfraction
            obtain ⟨rfl, hletter⟩ := exponentPart_eq_none_iff.1 hexponent
            exact ⟨hnegative, hn ▸ hlt, whole, hwhole, hn, hpoint, hletter⟩
          · cases h
  · rintro ⟨rfl, hlt, whole, hwhole, rfl, hpoint, hletter⟩
    have hfraction := fractionPart_eq_none_iff.2 ⟨rfl, hpoint⟩
    have hexponent := exponentPart_eq_none_iff.2 ⟨rfl, hletter⟩
    simp [magnitude, hwhole, hfraction, hexponent, hlt]

theorem digits_toDigits_append_iff {cs rest : List Char} {n : Nat} :
    digits cs = (Nat.toDigits 10 n, rest) ↔
      cs = Nat.toDigits 10 n ++ rest ∧ ∀ c ∈ rest.head?, c.isDigit = false := by
  constructor
  · intro h
    have happend := digits_append cs
    have hhead := head?_digits cs
    rw [h] at happend hhead
    exact ⟨happend.symm, hhead⟩
  · rintro ⟨rfl, hhead⟩
    exact digits_append_of_isDigit (fun _ ↦ isDigit_toDigits) hhead

/-- **Natural numbers are read exactly as they are written in decimal**, if they have 64 bits and
nothing behind them goes on with the number. -/
theorem number_eq_natural_iff {cs rest : List Char} {n : Nat} :
    number cs = .ok (.natural n, rest) ↔
      n < UInt64.size ∧ EndsNumber rest ∧ cs = Nat.toDigits 10 n ++ rest := by
  constructor
  · intro h
    rw [number.eq_def] at h
    split at h
    · exact absurd (magnitude_eq_natural_iff.1 h).1 (by decide)
    · obtain ⟨-, hlt, whole, hwhole, rfl, hrest⟩ := magnitude_eq_natural_iff.1 h
      obtain ⟨⟨n, rfl⟩, hdigits⟩ := wholePart_eq_ok_iff.1 hwhole
      rw [extendBy_toDigits] at hlt ⊢
      obtain ⟨rfl, hhead⟩ := digits_toDigits_append_iff.1 hdigits
      exact ⟨hlt, ⟨hhead, hrest⟩, rfl⟩
  · rintro ⟨hlt, ⟨hhead, hrest⟩, rfl⟩
    have hdigits := (digits_toDigits_append_iff (n := n)).2 ⟨rfl, hhead⟩
    have hwhole := wholePart_eq_ok_iff.2 ⟨⟨n, rfl⟩, hdigits⟩
    have hread := magnitude_eq_natural_iff.2
      ⟨rfl, hlt, _, hwhole, extendBy_toDigits n, hrest⟩
    rw [number.eq_def]
    split
    · rename_i hsign
      exact absurd hsign (toDigits_append_ne_cons (by decide) n rest)
    · exact hread

/-! ## Scalars -/

/-- A scalar that is read is the token of a value, or it is none that a field can have. -/
theorem scalar_sound {cs rest : List Char} {v : Scalar} (h : scalar cs = .ok (v, rest)) :
    v = .null ∨ v = .number .other ∨ (∃ s, v = .string s) ∨
      ∃ text, Token v text ∧ cs = text ++ rest := by
  rw [scalar.eq_def] at h
  split at h
  · cases h
  · obtain ⟨hv, -⟩ := literal_eq_ok_iff.1 h
    exact .inl hv
  · obtain ⟨rfl, rfl⟩ := literal_eq_ok_iff.1 h
    exact .inr (.inr (.inr ⟨_, .yes, rfl⟩))
  · obtain ⟨rfl, rfl⟩ := literal_eq_ok_iff.1 h
    exact .inr (.inr (.inr ⟨_, .no, rfl⟩))
  · split at h
    · cases h
    · cases h
      exact .inr (.inr (.inl ⟨_, rfl⟩))
  · cases h
  · cases h
  · split_ifs at h
    split at h
    · cases h
    · rename_i value rest' hread
      cases h
      cases value with
      | other => exact .inr (.inl rfl)
      | natural n =>
        obtain ⟨-, -, hcs⟩ := number_eq_natural_iff.1 hread
        exact .inr (.inr (.inr ⟨_, .natural n, hcs⟩))

/-- A scalar that begins with a digit is a number. -/
theorem scalar_of_isDigit {d : Char} (hd : d.isDigit = true) {cs rest : List Char} {n : Number}
    (h : number (d :: cs) = .ok (n, rest)) : scalar (d :: cs) = .ok (.number n, rest) := by
  rw [scalar.eq_def]
  split
  case h_8 c cs' _ _ _ _ _ _ hcs =>
    obtain ⟨rfl, rfl⟩ := List.cons.inj hcs
    rw [if_pos (by simp [hd]), h]
  all_goals
    rename_i hcs
    cases hcs
  all_goals exact absurd hd (by decide)

theorem scalar_complete {v : Scalar} {text rest : List Char} (h : Token v text)
    (hfits : ∀ n, v = .number (.natural n) → n < UInt64.size) (hrest : EndsNumber rest) :
    scalar (text ++ rest) = .ok (v, rest) := by
  cases h with
  | yes => rfl
  | no => rfl
  | natural n =>
    have hread := number_eq_natural_iff.2 ⟨hfits n rfl, hrest, rfl⟩
    obtain ⟨d, ds, hds⟩ := List.exists_cons_of_ne_nil (Nat.toDigits_ne_nil (b := 10) (n := n))
    have hd : d.isDigit = true := isDigit_toDigits (n := n) (by simp [hds])
    rw [hds] at hread ⊢
    exact scalar_of_isDigit hd hread

end Json
end Hart
