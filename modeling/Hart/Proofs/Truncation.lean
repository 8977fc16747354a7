import Hart.Proofs.ConfigText

/-!
# Texts that end too early

A configuration that is cut off before its closing bracket is refused, and it is refused because it
ends too early: nothing in front of the cut is ever mistaken for a fault
(`Config.ofText_of_isPrefix`).

There is one lemma for every reader, on what is left of a text that it reads whole.  Readers of
texts with an end of their own, such as a literal or a quoted string, find that it is missing.  A
number has no such end: its first digits are a number too, and are read as one.  That number is not
larger, so a field takes it as well (`exists_assign_of_atMost`), and what follows it is the end of
the text where a comma or a bracket is due (`Ends`).  The numbers of a configuration are judged only
behind its closing bracket, and by then none of them can be cut.
-/

set_option autoImplicit false

namespace Hart
namespace Json

/-! ## Cuts -/

/-- What is left of a text when some of its end is cut off. -/
def Cut (p text : List Char) : Prop :=
  p <+: text ∧ p ≠ text

theorem not_cut_nil (p : List Char) : ¬Cut p [] := by
  rintro ⟨hle, hne⟩
  exact hne (List.prefix_nil.1 hle)

theorem Cut.cases_cons {p t : List Char} {c : Char} (h : Cut p (c :: t)) :
    p = [] ∨ ∃ q, Cut q t ∧ p = c :: q := by
  obtain ⟨hle, hne⟩ := h
  obtain rfl | ⟨q, rfl, hq⟩ := List.prefix_cons_iff.1 hle
  · exact .inl rfl
  · exact .inr ⟨q, ⟨hq, fun heq ↦ hne (by rw [heq])⟩, rfl⟩

/-- The end of two texts is in the first of them, or the first is whole. -/
theorem prefix_append_cases {p s t : List Char} (h : p <+: s ++ t) :
    Cut p s ∨ ∃ q, q <+: t ∧ p = s ++ q := by
  obtain hle | ⟨q, rfl⟩ := List.prefix_or_prefix_of_prefix h (List.prefix_append s t)
  · by_cases heq : p = s
    · exact .inr ⟨[], List.nil_prefix, by simp [heq]⟩
    · exact .inl ⟨hle, heq⟩
  · exact .inr ⟨q, (List.prefix_append_right_inj s).1 h, rfl⟩

theorem Cut.cases_append {p s t : List Char} (h : Cut p (s ++ t)) :
    Cut p s ∨ ∃ q, Cut q t ∧ p = s ++ q := by
  obtain hcut | ⟨q, hq, rfl⟩ := prefix_append_cases h.1
  · exact .inl hcut
  · exact .inr ⟨q, ⟨hq, fun heq ↦ h.2 (by rw [heq])⟩, rfl⟩

/-- The end is in front of a mark or behind it. -/
theorem prefix_mark_cases {p s t : List Char} {mark : Char} (h : p <+: s ++ mark :: t) :
    p <+: s ∨ ∃ q, q <+: t ∧ p = s ++ mark :: q := by
  obtain ⟨hle, -⟩ | ⟨q, hq, rfl⟩ := prefix_append_cases h
  · exact .inl hle
  · obtain rfl | ⟨r, rfl, hr⟩ := List.prefix_cons_iff.1 hq
    · exact .inl (by simp)
    · exact .inr ⟨r, hr, rfl⟩

/-! ## Blanks -/

theorem Blanks.of_isPrefix {p text : List Char} (h : Blanks text) (hp : p <+: text) : Blanks p :=
  fun c hc ↦ h c (hp.subset hc)

theorem Blanks.skipBlanks_eq {text : List Char} (h : Blanks text) : skipBlanks text = [] :=
  skipBlanks_eq_nil_iff.2 h

/-- A text that does not begin with a blank does not come to begin with one. -/
theorem skipBlanks_of_isPrefix {p text : List Char} (h : skipBlanks text = text) (hp : p <+: text) :
    skipBlanks p = p := by
  cases p with
  | nil => rfl
  | cons c cs =>
    obtain ⟨r, rfl⟩ := hp
    have hc : isBlank c = false := by simpa [skipBlanks, List.dropWhile_eq_self_iff] using h
    exact skipBlanks_of_not_isBlank hc cs

/-! ## Strings -/

theorem literal_of_cut {α : Type} {value : α} {es p : List Char} (h : Cut p es) :
    literal value es p = .error .truncated := by
  induction es generalizing p with
  | nil => exact absurd h (not_cut_nil p)
  | cons e es ih =>
    obtain rfl | ⟨q, hq, rfl⟩ := h.cases_cons
    · rfl
    · rw [literal, if_pos rfl, ih hq]

/-- A hexadecimal digit has one byte, so what is left of a code unit has fewer than four. -/
theorem HexDigit.utf8Size {n : Nat} {c : Char} (h : HexDigit n c) : c.utf8Size = 1 := by
  obtain ⟨hn, rfl | rfl⟩ := h <;> interval_cases n <;> rfl

theorem codeUnit_of_cut {n : Nat} {ds p : List Char} (h : UnitText n ds) (hp : Cut p ds) :
    codeUnit p = .error .truncated := by
  obtain ⟨hx, hy, hz, -⟩ := h
  obtain rfl | ⟨q, hq, rfl⟩ := hp.cases_cons
  · rfl
  · obtain rfl | ⟨r, hr, rfl⟩ := hq.cases_cons
    · simp [codeUnit, utf8Length, hx.utf8Size]
    · obtain rfl | ⟨s, hs, rfl⟩ := hr.cases_cons
      · simp [codeUnit, utf8Length, hx.utf8Size, hy.utf8Size]
      · obtain rfl | ⟨t, ht, -⟩ := hs.cases_cons
        · simp [codeUnit, utf8Length, hx.utf8Size, hy.utf8Size, hz.utf8Size]
        · exact absurd ht (not_cut_nil t)

theorem codePoint_of_cut {c : Char} {text p : List Char} (h : Spelling c ('\\' :: 'u' :: text))
    (hp : Cut p text) : codePoint p = .error .truncated := by
  obtain ⟨n, -, hn⟩ | ⟨high, low, ds, es, hc, hhigh, hlow, rfl⟩ := spelling_unicode_iff.1 h
  · rw [codePoint, codeUnit_of_cut hn hp]
  · obtain hcut | ⟨q, hq, rfl⟩ := hp.cases_append
    · rw [codePoint, codeUnit_of_cut hhigh hcut]
    · obtain ⟨hisHigh, hisLow, -⟩ := utf16_eq_pair_iff.1 hc
      simp only [codePoint, codeUnit_complete hhigh, if_neg (not_isLowSurrogate hisHigh),
        if_pos hisHigh]
      obtain hcut | ⟨r, hr, rfl⟩ := Cut.cases_append (s := ['\\', 'u']) hq
      · rw [literal_of_cut hcut]
      · have hlit : literal () ['\\', 'u'] (['\\', 'u'] ++ r) = .ok ((), r) :=
          literal_eq_ok_iff.2 ⟨rfl, rfl⟩
        rw [hlit]
        simp only [codeUnit_of_cut hlow hr]

theorem escape_of_cut {c : Char} {text p : List Char} (h : Spelling c ('\\' :: text))
    (hp : Cut p text) : escape p = .error .truncated := by
  cases h with
  | plain _ _ hne => exact absurd rfl hne
  | short hmem =>
    obtain rfl | ⟨q, hq, -⟩ := hp.cases_cons
    · rfl
    · exact absurd hq (not_cut_nil q)
  | unit hc hn =>
    obtain rfl | ⟨q, hq, rfl⟩ := hp.cases_cons
    · rfl
    · exact codePoint_of_cut (.unit hc hn) hq
  | pair hc hhigh hlow =>
    obtain rfl | ⟨q, hq, rfl⟩ := hp.cases_cons
    · rfl
    · exact codePoint_of_cut (.pair hc hhigh hlow) hq

/-- A string that does not reach its closing quote. -/
theorem quoted_of_isPrefix {s text p : List Char} (h : Spelled s text) (hp : p <+: text) :
    quoted p = .error .truncated := by
  induction h generalizing p with
  | nil =>
    rw [List.prefix_nil.1 hp, quoted]
  | @cons c s t text hc _ ih =>
    obtain hcut | ⟨q, hq, rfl⟩ := prefix_append_cases hp
    · obtain ⟨-, -, -, rfl⟩ | ⟨t, ht, rfl⟩ := hc.cases_escape
      · obtain rfl | ⟨q, hq, -⟩ := hcut.cases_cons
        · rw [quoted]
        · exact absurd hq (not_cut_nil q)
      · obtain rfl | ⟨q, hq, rfl⟩ := hcut.cases_cons
        · rw [quoted]
        · rw [quoted.eq_3]
          split
          · rename_i hescape
            rw [escape_of_cut ht hq] at hescape
            cases hescape
            rfl
          · rename_i hescape
            rw [escape_of_cut ht hq] at hescape
            cases hescape
    · rw [quoted_append hc, ih hq]
      rfl

/-! ## Values -/

theorem le_extendBy (start : Nat) (ds : List Char) : start ≤ extendBy start ds := by
  induction ds generalizing start with
  | nil => exact Nat.le_refl start
  | cons d ds ih =>
    have hstep : start ≤ start * 10 + digitValue d := by omega
    exact Nat.le_trans hstep (ih _)

/-- The first digits of a number are those of a number, which is not larger. -/
theorem exists_toDigits_of_isPrefix {n : Nat} {p : List Char} (hp : p <+: Nat.toDigits 10 n)
    (hne : p ≠ []) : ∃ m ≤ n, p = Nat.toDigits 10 m := by
  obtain ⟨d, ds, rfl⟩ := List.exists_cons_of_ne_nil hne
  obtain ⟨q, hq⟩ := hp
  have hdigits : ∀ e ∈ d :: ds, e.isDigit = true := fun e he ↦
    isDigit_toDigits (n := n) (hq ▸ List.mem_append_left q he)
  have hzero : d = '0' → ds = [] := by
    rintro rfl
    cases ds with
    | nil => rfl
    | cons e es => exact absurd hq.symm (toDigits_ne_zero_cons_cons n e (es ++ q))
  have hle : extendBy 0 (d :: ds) ≤ extendBy 0 (d :: ds ++ q) := by
    rw [extendBy, extendBy, List.foldl_append]
    exact le_extendBy _ q
  rw [hq, extendBy_toDigits] at hle
  exact ⟨_, hle, (toDigits_extendBy_zero hdigits hzero).symm⟩

/-- The value that is read in place of another if the text ends within its token. -/
inductive AtMost : Scalar → Scalar → Prop
  | refl (v : Scalar) : AtMost v v
  | natural {m n : Nat} : m ≤ n → AtMost (.number (.natural m)) (.number (.natural n))

/-- Nothing goes on with a number where there are only blanks. -/
theorem Blanks.endsNumber {rest : List Char} (h : Blanks rest) : EndsNumber rest := by
  cases rest with
  | nil => simp [EndsNumber]
  | cons c cs => exact endsNumber_cons (.inl (h c (by simp)))

/-- A value that ends with the text, or within it.  Only a number can be read without its end. -/
theorem scalar_of_isPrefix {v : Scalar} {token p : List Char} (h : Token v token)
    (hfits : ∀ n, v = .number (.natural n) → n < UInt64.size) (hp : p <+: token) :
    scalar p = .error .truncated ∨ ∃ u, AtMost u v ∧ scalar p = .ok (u, []) := by
  by_cases heq : p = token
  · subst heq
    have hread := scalar_complete h hfits blanks_nil.endsNumber
    rw [List.append_nil] at hread
    exact .inr ⟨v, .refl v, hread⟩
  · cases h with
    | yes | no =>
      obtain rfl | ⟨q, hq, rfl⟩ := Cut.cases_cons ⟨hp, heq⟩
      · exact .inl rfl
      · exact .inl (literal_of_cut hq)
    | natural n =>
      by_cases hne : p = []
      · rw [hne]
        exact .inl rfl
      · obtain ⟨m, hm, rfl⟩ := exists_toDigits_of_isPrefix hp hne
        have hlt : m < UInt64.size := Nat.lt_of_le_of_lt hm (hfits n rfl)
        have hread := scalar_complete (.natural m) (by rintro _ ⟨⟩; exact hlt) blanks_nil.endsNumber
        rw [List.append_nil] at hread
        exact .inr ⟨_, .natural hm, hread⟩

end Json

namespace Config

open Json

/-! ## Fields -/

/-- A field takes a smaller number as well. -/
theorem exists_assign_of_atMost {c c' : Config} {f : Field} {u v : Scalar} (hu : AtMost u v)
    (h : c.assign f v = .ok c') : ∃ c₁, c.assign f u = .ok c₁ := by
  cases hu with
  | refl => exact ⟨c', h⟩
  | @natural m n hm =>
    cases f with
    | xlen | regCount =>
      rw [assign] at h ⊢
      split_ifs at h with hn
      exact ⟨_, if_pos (Nat.lt_of_le_of_lt hm hn)⟩
    | hardwireZero | trace => cases h

/-- What reading the value of a field finds if the text ends with it or within it: too little of it,
or a value, and the end. -/
def Ends (c : Config) (f : Field) (p : List Char) : Prop :=
  scalar (skipBlanks p) = .error .truncated ∨
    ∃ v rest c₁, scalar (skipBlanks p) = .ok (v, rest) ∧ c.assign f v = .ok c₁ ∧
      skipBlanks rest = []

theorem ends_of_isPrefix {c c' : Config} {f : Field} {text p : List Char}
    (hbecomes : c.Becomes c' [f]) (htext : c'.Element f text) (hp : p <+: text) : c.Ends f p := by
  obtain ⟨before, token, after, hbefore, htoken, hafter, rfl⟩ := htext
  have hfits : ∀ n, c'.value f = .number (.natural n) → n < UInt64.size := fun n hn ↦
    (hbecomes.fits f (by simp) n hn).trans_le f.bound_le
  have hassign : c.assign f (c'.value f) = .ok c' := assign_eq_ok_iff.2 ⟨rfl, hbecomes⟩
  rw [List.append_assoc] at hp
  obtain hcut | ⟨q, hq, rfl⟩ := prefix_append_cases hp
  · left
    rw [(hbefore.of_isPrefix hcut.1).skipBlanks_eq]
    rfl
  rw [Ends, skipBlanks_append hbefore]
  obtain ⟨hle, -⟩ | ⟨r, hr, rfl⟩ := prefix_append_cases hq
  · have hself : skipBlanks token = token := by simpa using skipBlanks_token_append htoken []
    rw [skipBlanks_of_isPrefix hself hle]
    obtain htruncated | ⟨u, hu, hread⟩ := scalar_of_isPrefix htoken hfits hle
    · exact .inl htruncated
    · obtain ⟨c₁, hassign₁⟩ := exists_assign_of_atMost hu hassign
      exact .inr ⟨u, [], c₁, hread, hassign₁, rfl⟩
  · have hblanks := hafter.of_isPrefix hr
    rw [skipBlanks_token_append htoken]
    exact .inr ⟨c'.value f, r, c', scalar_complete htoken hfits hblanks.endsNumber, hassign,
      hblanks.skipBlanks_eq⟩

/-! ## Arrays -/

theorem elements_of_ends {c : Config} {f : Field} {fs : List Field} {p : List Char}
    (h : c.Ends f p) : elements (f :: fs) c p = .error .truncated := by
  obtain htruncated | ⟨v, rest, c₁, hread, hassign, hrest⟩ := h
  · simp only [elements, htruncated]
  · simp only [elements, hread, hassign, hrest]

/-- The elements of an array, without its closing bracket. -/
theorem elements_of_isPrefix {given fs : List Field} {c c' : Config} {body p : List Char}
    (hfs : fs.Nodup) (hgiven : given <+: fs) (hbecomes : c.Becomes c' given)
    (hbody : Separated c'.Element given body) (hp : p <+: body) :
    elements fs c p = .error .truncated := by
  induction hbody generalizing fs c p with
  | @last f text htext =>
    obtain ⟨fs, rfl⟩ := hgiven
    exact elements_of_ends (ends_of_isPrefix hbecomes htext hp)
  | @more f given t body ht _ ih =>
    obtain ⟨fs, rfl⟩ := hgiven
    obtain ⟨hf, hnodup⟩ := List.nodup_cons.1 hfs
    have hfgiven : f ∉ given := fun hmem ↦ hf (List.mem_append_left fs hmem)
    obtain ⟨c₁, h₁, hvalue, h₂⟩ := (becomes_cons_iff hfgiven).1 hbecomes
    have ht₁ : c₁.Element f t := ht.congr hvalue.symm
    obtain hle | ⟨q, hq, rfl⟩ := prefix_mark_cases hp
    · exact elements_of_ends (ends_of_isPrefix h₁ ht₁ hle)
    · obtain ⟨v, cs, hread, hassign, hmark⟩ := element_complete ',' (by simp) h₁ ht₁ q
      rw [List.cons_append]
      simp only [elements, hread, hassign, hmark]
      exact ih hnodup (List.prefix_append given fs) h₂ hq

/-! ## Objects -/

/-- What reading a member finds if the text ends with it or within it: too little of its key, or its
key and too little of its value, or both and the end. -/
theorem member_of_isPrefix {c c' : Config} {f : Field} {text p : List Char}
    (hbecomes : c.Becomes c' [f]) (htext : c'.Member f text) (hp : p <+: text) :
    memberKey p = .error .truncated ∨
      ∃ cs, memberKey p = .ok (f.key.toList, cs) ∧
        (memberValue c f cs = .error .truncated ∨
          ∃ c₁ rest, memberValue c f cs = .ok (c₁, rest) ∧ skipBlanks rest = []) := by
  obtain ⟨before, key, after, element, hbefore, hspelled, hafter, helement, rfl⟩ := htext
  simp only [List.append_assoc, List.cons_append] at hp
  obtain hle | ⟨q, hq, rfl⟩ := prefix_mark_cases hp
  · left
    rw [memberKey, (hbefore.of_isPrefix hle).skipBlanks_eq]
  rw [memberKey, skipBlanks_append_cons hbefore rfl]
  simp only
  obtain hle | ⟨r, hr, rfl⟩ := prefix_mark_cases hq
  · exact .inl (quoted_of_isPrefix hspelled hle)
  refine .inr ⟨r, quoted_complete hspelled r, ?_⟩
  obtain hle | ⟨e, he, rfl⟩ := prefix_mark_cases hr
  · left
    rw [memberValue, (hafter.of_isPrefix hle).skipBlanks_eq]
  · rw [memberValue, skipBlanks_append_cons hafter rfl]
    simp only
    obtain htruncated | ⟨v, rest, c₁, hread, hassign, hrest⟩ := ends_of_isPrefix hbecomes helement he
    · left
      simp only [htruncated]
    · right
      refine ⟨c₁, rest, ?_, hrest⟩
      simp only [hread, hassign]

theorem members_of_member_isPrefix {free : List Field} {c c' : Config} {f : Field}
    {text p : List Char} (hf : f ∈ free) (hbecomes : c.Becomes c' [f]) (htext : c'.Member f text)
    (hp : p <+: text) : members free c p = .error .truncated := by
  obtain hkey | ⟨cs, hkey, hvalue⟩ := member_of_isPrefix hbecomes htext hp
  · rw [members, hkey]
  · have hfind := find?_key_eq_some_iff.2 ⟨hf, rfl⟩
    rw [members, hkey]
    simp only
    split
    · rename_i hnone
      rw [hfind] at hnone
      cases hnone
    · rename_i g hg
      obtain rfl : f = g := Option.some.inj (hfind.symm.trans hg)
      obtain htruncated | ⟨c₁, rest, hread, hrest⟩ := hvalue
      · simp only [htruncated]
      · simp only [hread, hrest]

/-- The members of an object, without its closing brace. -/
theorem members_of_isPrefix {given free : List Field} {c c' : Config} {body p : List Char}
    (hgiven : given.Nodup) (hsub : given ⊆ free) (hbecomes : c.Becomes c' given)
    (hbody : Separated c'.Member given body) (hp : p <+: body) :
    members free c p = .error .truncated := by
  induction hbody generalizing free c p with
  | @last f text htext =>
    exact members_of_member_isPrefix (hsub (by simp)) hbecomes htext hp
  | @more f given t body ht _ ih =>
    obtain ⟨hfgiven, hnodup⟩ := List.nodup_cons.1 hgiven
    obtain ⟨c₁, h₁, hvalue, h₂⟩ := (becomes_cons_iff hfgiven).1 hbecomes
    have ht₁ : c₁.Member f t := ht.congr hvalue.symm
    obtain hle | ⟨q, hq, rfl⟩ := prefix_mark_cases hp
    · exact members_of_member_isPrefix (hsub (by simp)) h₁ ht₁ hle
    · have hsub' : given ⊆ free.erase f := fun g hg ↦
        (List.mem_erase_of_ne (by rintro rfl; exact hfgiven hg)).2 (hsub (by simp [hg]))
      obtain ⟨cs₁, cs₂, hkey, hread, hmark⟩ := member_complete ',' (by simp) h₁ ht₁ q
      rw [(members_of_member (hsub (by simp)) hkey hread q).1 hmark]
      exact ih hnodup hsub' h₂ hq

/-! ## Texts -/

theorem object_of_members {cs : List Char} (h : members Field.all {} cs = .error .truncated) :
    object cs = .error .truncated := by
  rw [← members_skipBlanks] at h
  rw [object]
  split
  · -- A member does not begin with the brace.
    rename_i hclose
    rw [hclose, members] at h
    cases h
  · exact h

theorem array_of_elements {cs : List Char} (h : elements Field.all {} cs = .error .truncated) :
    array cs = .error .truncated := by
  rw [← elements_skipBlanks] at h
  rw [array]
  split
  · -- An element does not begin with the bracket.
    rename_i hclose
    rw [hclose, Field.all, elements] at h
    cases h
  · exact h

/-- The members of an object, where there are any, without its closing brace. -/
theorem object_of_isPrefix {c : Config} {given : List Field} {body p : List Char}
    (hgiven : given.Nodup) (hbecomes : Becomes {} c given) (hbody : Listed c.Member given body)
    (hp : p <+: body) : object p = .error .truncated := by
  refine object_of_members ?_
  cases hbody with
  | none hblanks => rw [members, memberKey, (hblanks.of_isPrefix hp).skipBlanks_eq]
  | some hbody => exact members_of_isPrefix hgiven (Field.subset_all given) hbecomes hbody hp

/-- The elements of an array, where there are any, without its closing bracket. -/
theorem array_of_isPrefix {c : Config} {given : List Field} {body p : List Char}
    (hgiven : given <+: Field.all) (hbecomes : Becomes {} c given)
    (hbody : Listed c.Element given body) (hp : p <+: body) : array p = .error .truncated := by
  refine array_of_elements ?_
  cases hbody with
  | none hblanks =>
    rw [Field.all, elements, (hblanks.of_isPrefix hp).skipBlanks_eq]
    rfl
  | some hbody => exact elements_of_isPrefix Field.nodup_all hgiven hbecomes hbody hp

/-- A document stands between two brackets, and as long as the second is not reached it is too
short, whatever blanks there are in front of it. -/
theorem Document.exists_brackets {c : Config} {text : List Char} (h : c.Document text)
    (hfits : ∀ f, c.Fits f) :
    ∃ opening body mark, (opening, mark) ∈ [('{', '}'), ('[', ']')] ∧
      text = opening :: body ++ [mark] ∧
      ∀ before p, Blanks before → p <+: before ++ opening :: body →
        document p = .error .truncated := by
  have hblank : ∀ before p, Blanks before → p <+: before → document p = .error .truncated := by
    intro before p hbefore hle
    rw [document, (hbefore.of_isPrefix hle).skipBlanks_eq]
    rfl
  cases h with
  | @object given body hgiven hdefaults hbody =>
    refine ⟨'{', body, '}', by simp, rfl, fun before p hbefore hp ↦ ?_⟩
    obtain hle | ⟨q, hq, rfl⟩ := prefix_mark_cases hp
    · exact hblank before p hbefore hle
    · rw [document, skipBlanks_append_cons hbefore rfl]
      exact object_of_isPrefix hgiven (becomes_default_iff.2 ⟨hfits, hdefaults⟩) hbody hq
  | @array given body hgiven hdefaults hbody =>
    refine ⟨'[', body, ']', by simp, rfl, fun before p hbefore hp ↦ ?_⟩
    obtain hle | ⟨q, hq, rfl⟩ := prefix_mark_cases hp
    · exact hblank before p hbefore hle
    · rw [document, skipBlanks_append_cons hbefore rfl]
      exact array_of_isPrefix hgiven (becomes_default_iff.2 ⟨hfits, hdefaults⟩) hbody hq

/-- **A configuration that is cut off is refused because it ends too early.**  A text that is
accepted is an object or an array between blanks.  As long as the closing bracket is not reached, a
text that begins like it is too short, wherever it ends: not malformed, not a wrong value, and no
configuration, with or without numbers that a machine can be built from.  Once the bracket is
reached, nothing is missing. -/
theorem ofText_of_isPrefix {t : String} {c : Config} (h : ofText t = .ok c) :
    ∃ before opening body mark after,
      t.toList = before ++ opening :: body ++ mark :: after ∧ Blanks before ∧ Blanks after ∧
      (opening, mark) ∈ [('{', '}'), ('[', ']')] ∧
      ∀ p : String, p.toList <+: t.toList →
        (p.toList <+: before ++ opening :: body → ofText p = .error (.unreadable .truncated)) ∧
        (¬p.toList <+: before ++ opening :: body → ofText p = .ok c) := by
  obtain ⟨⟨w, hvalid⟩, before, text, after, hbefore, hdocument, hafter, htext⟩ :=
    (ofText_eq_ok_iff t c).1 h
  obtain ⟨opening, body, mark, hbrackets, rfl, htruncated⟩ :=
    hdocument.exists_brackets (fits_of_validate hvalid)
  have hsplit : t.toList = before ++ opening :: body ++ mark :: after := by simp [htext]
  refine ⟨before, opening, body, mark, after, hsplit, hbefore, hafter, hbrackets, fun p hp ↦ ?_⟩
  constructor
  · intro hle
    rw [ofText, ofChars, htruncated before p.toList hbefore hle]
  · intro hreached
    rw [hsplit] at hp
    obtain hle | ⟨q, hq, hp⟩ := prefix_mark_cases hp
    · exact absurd hle hreached
    · refine (ofText_eq_ok_iff p c).2 ⟨⟨w, hvalid⟩, before, _, q, hbefore, hdocument,
        hafter.of_isPrefix hq, ?_⟩
      simp [hp]

/-- An object that ends within a width, of which the first digit is too small for a width. -/
theorem ofText_of_isPrefix_first_digit :
    ofText "\x7b\"xlen\": 16\x7d" = .ok { xlen := 16 } ∧
      ofText "\x7b\"xlen\": 1" = .error (.unreadable .truncated) := by
  have hwhole : ofText "\x7b\"xlen\": 16\x7d" = .ok { xlen := 16 } := by decide +kernel
  obtain ⟨before, opening, body, mark, after, hsplit, -, -, hbrackets, hcut⟩ :=
    ofText_of_isPrefix hwhole
  have hp : "\x7b\"xlen\": 1".toList <+: "\x7b\"xlen\": 16\x7d".toList := by decide
  refine ⟨hwhole, (hcut _ hp).1 ?_⟩
  -- Neither closing bracket is among the characters that are left.
  rw [hsplit] at hp
  obtain hle | ⟨q, -, hq⟩ := prefix_mark_cases hp
  · exact hle
  · have hmem : mark ∈ "\x7b\"xlen\": 1".toList := by simp [hq]
    simp only [List.mem_cons, List.not_mem_nil, or_false, Prod.mk.injEq] at hbrackets
    rcases hbrackets with ⟨-, rfl⟩ | ⟨-, rfl⟩ <;> exact absurd hmem (by decide)

end Config
end Hart
