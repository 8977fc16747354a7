import Hart.Config.Rendering
import Hart.Proofs.JsonScalar
import Hart.Proofs.JsonString

/-!
# Configurations are read exactly from their texts

`ofText_eq_ok_iff` is the result: a text is read as a configuration exactly if a machine can be
built from the configuration and the text is one of its texts.

The readers carry a configuration along and change it field by field.  What they did to it when they
are through is `Config.Becomes`: some fields were given, and the others are as they were.  The step
lemmas `elements_cons_eq_ok_iff` and `members_step` say what one element or member does, and by
`becomes_cons_iff` the steps of a run add up.  A field is never given twice, so what a text gives
first is still the value of the field at the end, and the texts of the run are texts of the
configuration that comes out of it.

The step lemmas differ in what chooses the field.  In an array it is the place of the element, and
the run is an induction on the fields that are left; in an object it is the key, the field is taken
out of the free ones, and the run is an induction on their number.
-/

set_option autoImplicit false

namespace Hart
namespace Config

open Json

/-! ## Fields and their values -/

theorem ext_value {c d : Config} (h : ∀ f, c.value f = d.value f) : c = d := by
  have h₁ := h .xlen
  have h₂ := h .regCount
  have h₃ := h .hardwireZero
  have h₄ := h .trace
  cases c
  cases d
  simp_all [value]

theorem key_injective {f g : Field} (h : f.key.toList = g.key.toList) : f = g := by
  cases f <;> cases g <;> first | rfl | exact absurd h (by decide)

/-- The least natural number that is too large for a field. -/
def Field.bound : Field → Nat
  | .xlen => UInt32.size
  | _ => UInt64.size

theorem Field.bound_le (f : Field) : f.bound ≤ UInt64.size := by
  cases f <;> decide

/-- A field has room for its value. -/
def Fits (c : Config) (f : Field) : Prop :=
  ∀ n, c.value f = .number (.natural n) → n < f.bound

/-- A configuration takes over the given fields of another, and keeps the rest. -/
structure Becomes (c c' : Config) (given : List Field) : Prop where
  /-- What is taken over fits. -/
  fits : ∀ f ∈ given, c'.Fits f
  /-- The other fields keep their values. -/
  keeps : ∀ f, f ∉ given → c'.value f = c.value f

theorem assign_sound {c c' : Config} {f : Field} {v : Scalar} (h : c.assign f v = .ok c') :
    c'.value f = v ∧ c.Becomes c' [f] := by
  rw [assign.eq_def] at h
  split at h
  case h_5 => cases h
  case h_1 | h_2 =>
    split_ifs at h with hfits
    cases h
    refine ⟨rfl, fun f hf n hn ↦ ?_, fun f hf ↦ ?_⟩
    · rw [List.mem_singleton.1 hf] at hn ⊢
      cases hn
      exact hfits
    · cases f <;> simp_all [value]
  case h_3 | h_4 =>
    cases h
    refine ⟨rfl, fun f hf n hn ↦ ?_, fun f hf ↦ ?_⟩
    · rw [List.mem_singleton.1 hf] at hn
      cases hn
    · cases f <;> simp_all [value]

/-- A value that fits can be assigned. -/
theorem exists_assign {c c' : Config} {f : Field} (h : c'.Fits f) :
    ∃ d, c.assign f (c'.value f) = .ok d := by
  cases f with
  | xlen => exact ⟨_, if_pos (h c'.xlen rfl)⟩
  | regCount => exact ⟨_, if_pos (h c'.regCount rfl)⟩
  | hardwireZero => exact ⟨_, rfl⟩
  | trace => exact ⟨_, rfl⟩

theorem assign_eq_ok_iff {c c' : Config} {f : Field} {v : Scalar} :
    c.assign f v = .ok c' ↔ c'.value f = v ∧ c.Becomes c' [f] := by
  refine ⟨assign_sound, ?_⟩
  rintro ⟨rfl, h⟩
  obtain ⟨d, hd⟩ := exists_assign (c := c) (h.fits f (by simp))
  obtain ⟨hvalue, hbecomes⟩ := assign_sound hd
  rw [hd]
  refine congrArg _ (ext_value fun g ↦ ?_)
  by_cases hg : g ∈ [f]
  · rw [List.mem_singleton.1 hg, hvalue]
  · rw [hbecomes.keeps g hg, h.keeps g hg]

/-- Fields can be taken over one after the other. -/
theorem becomes_cons_iff {c c' : Config} {f : Field} {given : List Field} (hf : f ∉ given) :
    c.Becomes c' (f :: given) ↔
      ∃ c₁, c.Becomes c₁ [f] ∧ c₁.value f = c'.value f ∧ c₁.Becomes c' given := by
  constructor
  · intro h
    obtain ⟨c₁, hc₁⟩ := exists_assign (c := c) (h.fits f (by simp))
    obtain ⟨hvalue, hbecomes⟩ := assign_sound hc₁
    refine ⟨c₁, hbecomes, hvalue, fun g hg ↦ h.fits g (by simp [hg]), fun g hg ↦ ?_⟩
    by_cases hgf : g = f
    · rw [hgf, hvalue]
    · rw [h.keeps g (by simp [hgf, hg]), hbecomes.keeps g (by simp [hgf])]
  · rintro ⟨c₁, h₁, hvalue, h₂⟩
    refine ⟨fun g hg ↦ ?_, fun g hg ↦ ?_⟩
    · obtain rfl | hg := List.mem_cons.1 hg
      · intro n hn
        exact h₁.fits g (by simp) n (hvalue.trans hn)
      · exact h₂.fits g hg
    · obtain ⟨hgf, hg⟩ : g ≠ f ∧ g ∉ given := by simpa using hg
      rw [h₂.keeps g hg, h₁.keeps g (by simp [hgf])]

/-! ## A value up to the mark behind it -/

/-- Behind a value stand blanks and a mark. -/
theorem endsNumber_of_blanks {after rest : List Char} {mark : Char} (hafter : Blanks after)
    (hmark : mark ∈ [',', ']', '}']) : EndsNumber (after ++ mark :: rest) := by
  cases after with
  | nil => exact endsNumber_cons (.inr hmark)
  | cons c cs => exact endsNumber_cons (.inl (hafter c (by simp)))

theorem isBlank_mark {mark : Char} (h : mark ∈ [',', ']', '}']) : isBlank mark = false := by
  simp only [List.mem_cons, List.not_mem_nil, or_false] at h
  rcases h with rfl | rfl | rfl <;> rfl

/-- A token does not begin with a blank. -/
theorem skipBlanks_token_append {v : Scalar} {token : List Char} (h : Token v token)
    (rest : List Char) : skipBlanks (token ++ rest) = token ++ rest := by
  cases h with
  | yes => rfl
  | no => rfl
  | natural n =>
    obtain ⟨d, ds, hds⟩ := List.exists_cons_of_ne_nil (Nat.toDigits_ne_nil (b := 10) (n := n))
    have hd : d.isDigit = true := isDigit_toDigits (n := n) (by simp [hds])
    have hblank : isBlank d = false := by
      rw [← Bool.not_eq_true, isBlank_iff]
      intro hmem
      simp only [List.mem_cons, List.not_mem_nil, or_false] at hmem
      rcases hmem with rfl | rfl | rfl | rfl <;> exact absurd hd (by decide)
    rw [hds, List.cons_append, skipBlanks_of_not_isBlank hblank]

/-- The value of a field is read from its token only. -/
theorem exists_token_of_scalar {c : Config} {f : Field} {cs rest : List Char}
    (h : scalar cs = .ok (c.value f, rest)) :
    ∃ token, Token (c.value f) token ∧ cs = token ++ rest := by
  obtain hnull | hother | ⟨s, hstring⟩ | htoken := scalar_sound h
  · cases f <;> cases hnull
  · cases f <;> cases hother
  · cases f <;> cases hstring
  · exact htoken

theorem element_sound {c c' : Config} {f : Field} {v : Scalar} {mark : Char}
    {cs cs₁ rest : List Char} (hmark : mark ∈ [',', ']', '}'])
    (hread : scalar (skipBlanks cs) = .ok (v, cs₁)) (hassign : c.assign f v = .ok c')
    (hmarked : skipBlanks cs₁ = mark :: rest) :
    c.Becomes c' [f] ∧ ∃ text, c'.Element f text ∧ cs = text ++ mark :: rest := by
  obtain ⟨rfl, hbecomes⟩ := assign_eq_ok_iff.1 hassign
  obtain ⟨before, hbefore, hcs⟩ := exists_blanks_append_skipBlanks cs
  obtain ⟨token, htoken, hsplit⟩ := exists_token_of_scalar hread
  obtain ⟨after, hafter, rfl⟩ := (skipBlanks_eq_cons_iff (isBlank_mark hmark)).1 hmarked
  refine ⟨hbecomes, _, ⟨before, token, after, hbefore, htoken, hafter, rfl⟩, ?_⟩
  rw [hcs, hsplit]
  simp

theorem element_complete {c c' : Config} {f : Field} {text : List Char} (mark : Char)
    (hmark : mark ∈ [',', ']', '}']) (hbecomes : c.Becomes c' [f]) (htext : c'.Element f text)
    (rest : List Char) :
    ∃ v cs, scalar (skipBlanks (text ++ mark :: rest)) = .ok (v, cs) ∧ c.assign f v = .ok c' ∧
      skipBlanks cs = mark :: rest := by
  obtain ⟨before, token, after, hbefore, htoken, hafter, rfl⟩ := htext
  have hfits : ∀ n, c'.value f = .number (.natural n) → n < UInt64.size := fun n hn ↦
    (hbecomes.fits f (by simp) n hn).trans_le f.bound_le
  refine ⟨c'.value f, after ++ mark :: rest, ?_, assign_eq_ok_iff.2 ⟨rfl, hbecomes⟩,
    skipBlanks_append_cons hafter (isBlank_mark hmark) rest⟩
  rw [List.append_assoc, List.append_assoc, skipBlanks_append hbefore,
    skipBlanks_token_append htoken]
  exact scalar_complete htoken hfits (endsNumber_of_blanks hafter hmark)

/-! ## Arrays -/

/-- The texts of an element depend on the value of its field only. -/
theorem Element.congr {c d : Config} {f : Field} {text : List Char} (h : c.value f = d.value f)
    (ht : c.Element f text) : d.Element f text := by
  rwa [Element, ← h]

/-- One element: its value is taken over, and then come a comma and more, or the bracket. -/
theorem elements_cons_eq_ok_iff {f : Field} {fs : List Field} {c c' : Config}
    {cs rest : List Char} :
    elements (f :: fs) c cs = .ok (c', rest) ↔
      ∃ c₁ text, c.Becomes c₁ [f] ∧ c₁.Element f text ∧
        ((∃ cs₁, cs = text ++ ',' :: cs₁ ∧ elements fs c₁ cs₁ = .ok (c', rest)) ∨
          (cs = text ++ ']' :: rest ∧ c₁ = c')) := by
  constructor
  · intro h
    rw [elements] at h
    split at h
    · cases h
    · rename_i v cs₁ hread
      split at h
      · cases h
      · rename_i c₁ hassign
        split at h
        · cases h
        · rename_i cs₂ hmark
          obtain ⟨hbecomes, text, htext, rfl⟩ := element_sound (by simp) hread hassign hmark
          exact ⟨c₁, text, hbecomes, htext, .inl ⟨cs₂, rfl, h⟩⟩
        · rename_i cs₂ hmark
          obtain ⟨hbecomes, text, htext, rfl⟩ := element_sound (by simp) hread hassign hmark
          cases h
          exact ⟨c', text, hbecomes, htext, .inr ⟨rfl, rfl⟩⟩
        · cases h
  · rintro ⟨c₁, text, hbecomes, htext, ⟨cs₁, rfl, h⟩ | ⟨rfl, rfl⟩⟩
    · obtain ⟨v, cs₂, hread, hassign, hmark⟩ :=
        element_complete ',' (by simp) hbecomes htext cs₁
      simp only [elements, hread, hassign, hmark, h]
    · obtain ⟨v, cs₂, hread, hassign, hmark⟩ :=
        element_complete ']' (by simp) hbecomes htext rest
      simp only [elements, hread, hassign, hmark]

/-- The elements of an array are read from the texts of the first few fields. -/
theorem elements_eq_ok_iff {fs : List Field} (hfs : fs.Nodup) {c c' : Config}
    {cs rest : List Char} :
    elements fs c cs = .ok (c', rest) ↔
      ∃ given body, given <+: fs ∧ c.Becomes c' given ∧ Separated c'.Element given body ∧
        cs = body ++ ']' :: rest := by
  induction fs generalizing c cs with
  | nil =>
    simp only [elements, reduceCtorEq, false_iff]
    rintro ⟨given, body, hgiven, -, hbody, -⟩
    obtain rfl := List.prefix_nil.1 hgiven
    cases hbody
  | cons f fs ih =>
    obtain ⟨hf, hnodup⟩ := List.nodup_cons.1 hfs
    rw [elements_cons_eq_ok_iff]
    constructor
    · rintro ⟨c₁, text, h₁, htext, ⟨cs₁, rfl, h⟩ | ⟨rfl, rfl⟩⟩
      · obtain ⟨given, body, hgiven, h₂, hbody, rfl⟩ := (ih hnodup).1 h
        have hfgiven : f ∉ given := fun hmem ↦ hf (hgiven.subset hmem)
        have hvalue := (h₂.keeps f hfgiven).symm
        exact ⟨f :: given, text ++ ',' :: body, List.cons_prefix_cons.2 ⟨rfl, hgiven⟩,
          (becomes_cons_iff hfgiven).2 ⟨c₁, h₁, hvalue, h₂⟩, .more (htext.congr hvalue) hbody,
          by simp⟩
      · exact ⟨[f], text, by simp, h₁, .last htext, rfl⟩
    · rintro ⟨given, body, hgiven, hbecomes, hbody, rfl⟩
      cases hbody with
      | last htext =>
        obtain ⟨rfl, -⟩ := List.cons_prefix_cons.1 hgiven
        exact ⟨c', _, hbecomes, htext, .inr ⟨rfl, rfl⟩⟩
      | @more f given t body ht hbody =>
        obtain ⟨rfl, hgiven₁⟩ := List.cons_prefix_cons.1 hgiven
        have hfgiven : f ∉ given := fun hmem ↦ hf (hgiven₁.subset hmem)
        obtain ⟨c₁, h₁, hvalue, h₂⟩ := (becomes_cons_iff hfgiven).1 hbecomes
        exact ⟨c₁, t, h₁, ht.congr hvalue.symm, .inl ⟨body ++ ']' :: rest, by simp,
          (ih hnodup).2 ⟨given, body, hgiven₁, h₂, hbody, rfl⟩⟩⟩

/-! ## Objects -/

theorem memberKey_eq_ok_iff {cs key rest : List Char} :
    memberKey cs = .ok (key, rest) ↔
      ∃ before text, Blanks before ∧ Spelled key text ∧
        cs = before ++ '"' :: (text ++ '"' :: rest) := by
  constructor
  · intro h
    rw [memberKey] at h
    split at h
    · cases h
    · rename_i cs₁ hquote
      obtain ⟨before, hbefore, rfl⟩ := (skipBlanks_eq_cons_iff rfl).1 hquote
      obtain ⟨text, htext, rfl⟩ := quoted_eq_ok_iff.1 h
      exact ⟨before, text, hbefore, htext, rfl⟩
    · cases h
  · rintro ⟨before, text, hbefore, htext, rfl⟩
    rw [memberKey, skipBlanks_append_cons hbefore rfl]
    exact quoted_complete htext rest

theorem memberValue_eq_ok_iff {c c' : Config} {f : Field} {cs rest : List Char} :
    memberValue c f cs = .ok (c', rest) ↔
      ∃ after cs₁ v, Blanks after ∧ cs = after ++ ':' :: cs₁ ∧
        scalar (skipBlanks cs₁) = .ok (v, rest) ∧ c.assign f v = .ok c' := by
  constructor
  · intro h
    rw [memberValue] at h
    split at h
    · cases h
    · rename_i cs₁ hcolon
      obtain ⟨after, hafter, rfl⟩ := (skipBlanks_eq_cons_iff rfl).1 hcolon
      split at h
      · cases h
      · rename_i v cs₂ hread
        split at h
        · cases h
        · rename_i hassign
          cases h
          exact ⟨after, cs₁, v, hafter, rfl, hread, hassign⟩
    · cases h
  · rintro ⟨after, cs₁, v, hafter, rfl, hread, hassign⟩
    have hcolon : skipBlanks (after ++ ':' :: cs₁) = ':' :: cs₁ :=
      skipBlanks_append_cons hafter rfl cs₁
    simp only [memberValue, hcolon, hread, hassign]

theorem find?_key_eq_some_iff {free : List Field} {f : Field} {key : List Char} :
    free.find? (fun f ↦ f.key.toList = key) = some f ↔ f ∈ free ∧ f.key.toList = key := by
  constructor
  · intro h
    exact ⟨List.mem_of_find?_eq_some h, by simpa using List.find?_some h⟩
  · rintro ⟨hf, rfl⟩
    obtain ⟨g, hg⟩ := Option.isSome_iff_exists.1
      (List.find?_isSome (p := fun g : Field ↦ decide (g.key.toList = f.key.toList)).2
        ⟨f, hf, by simp⟩)
    rw [hg, key_injective (f := g) (g := f) (by simpa using List.find?_some hg)]

theorem Member.congr {c d : Config} {f : Field} {text : List Char} (h : c.value f = d.value f)
    (ht : c.Member f text) : d.Member f text := by
  obtain ⟨before, key, after, element, hbefore, hkey, hafter, helement, rfl⟩ := ht
  exact ⟨before, key, after, element, hbefore, hkey, hafter, helement.congr h, rfl⟩

theorem member_sound {c c' : Config} {f : Field} {mark : Char} {cs cs₁ cs₂ rest : List Char}
    (hmark : mark ∈ [',', ']', '}']) (hkey : memberKey cs = .ok (f.key.toList, cs₁))
    (hvalue : memberValue c f cs₁ = .ok (c', cs₂)) (hmarked : skipBlanks cs₂ = mark :: rest) :
    c.Becomes c' [f] ∧ ∃ text, c'.Member f text ∧ cs = text ++ mark :: rest := by
  obtain ⟨before, key, hbefore, hspelled, rfl⟩ := memberKey_eq_ok_iff.1 hkey
  obtain ⟨after, cs₃, v, hafter, rfl, hread, hassign⟩ := memberValue_eq_ok_iff.1 hvalue
  obtain ⟨hbecomes, element, helement, rfl⟩ := element_sound hmark hread hassign hmarked
  exact ⟨hbecomes, _, ⟨before, key, after, element, hbefore, hspelled, hafter, helement, rfl⟩,
    by simp⟩

theorem member_complete {c c' : Config} {f : Field} {text : List Char} (mark : Char)
    (hmark : mark ∈ [',', ']', '}']) (hbecomes : c.Becomes c' [f]) (htext : c'.Member f text)
    (rest : List Char) :
    ∃ cs₁ cs₂, memberKey (text ++ mark :: rest) = .ok (f.key.toList, cs₁) ∧
      memberValue c f cs₁ = .ok (c', cs₂) ∧ skipBlanks cs₂ = mark :: rest := by
  obtain ⟨before, key, after, element, hbefore, hspelled, hafter, helement, rfl⟩ := htext
  obtain ⟨v, cs, hread, hassign, hmarked⟩ := element_complete mark hmark hbecomes helement rest
  exact ⟨_, cs, memberKey_eq_ok_iff.2 ⟨before, key, hbefore, hspelled, by simp⟩,
    memberValue_eq_ok_iff.2 ⟨after, _, v, hafter, rfl, hread, hassign⟩, hmarked⟩

/-- Behind a member of a free field, a comma goes on with the members and a brace ends them. -/
theorem members_of_member {free : List Field} {c c₁ : Config} {f : Field}
    {cs cs₁ cs₂ : List Char} (hf : f ∈ free) (hkey : memberKey cs = .ok (f.key.toList, cs₁))
    (hvalue : memberValue c f cs₁ = .ok (c₁, cs₂)) (cs₃ : List Char) :
    (skipBlanks cs₂ = ',' :: cs₃ → members free c cs = members (free.erase f) c₁ cs₃) ∧
      (skipBlanks cs₂ = '}' :: cs₃ → members free c cs = .ok (c₁, cs₃)) := by
  have hfind := find?_key_eq_some_iff.2 ⟨hf, rfl⟩
  constructor <;> intro hmark <;> rw [members, hkey] <;> simp only <;> split
  case h_1 hnone | h_1 hnone =>
    rw [hfind] at hnone
    cases hnone
  all_goals
    rename_i g hg
    obtain rfl : f = g := Option.some.inj (hfind.symm.trans hg)
    simp only [hvalue, hmark]

/-- One member: its key names a free field, its value is taken over, and then come a comma and more,
or the brace. -/
theorem members_step {free : List Field} {c c' : Config} {cs rest : List Char} :
    members free c cs = .ok (c', rest) ↔
      ∃ f c₁ text, f ∈ free ∧ c.Becomes c₁ [f] ∧ c₁.Member f text ∧
        ((∃ cs₁, cs = text ++ ',' :: cs₁ ∧ members (free.erase f) c₁ cs₁ = .ok (c', rest)) ∨
          (cs = text ++ '}' :: rest ∧ c₁ = c')) := by
  constructor
  · intro h
    rw [members] at h
    split at h
    · cases h
    · rename_i key cs₁ hkey
      split at h
      · cases h
      · rename_i f hfind
        obtain ⟨hf, rfl⟩ := find?_key_eq_some_iff.1 hfind
        split at h
        · cases h
        · rename_i c₁ cs₂ hvalue
          split at h
          · cases h
          · rename_i cs₃ hmark
            obtain ⟨hbecomes, text, htext, rfl⟩ := member_sound (by simp) hkey hvalue hmark
            exact ⟨f, c₁, text, hf, hbecomes, htext, .inl ⟨cs₃, rfl, h⟩⟩
          · rename_i cs₃ hmark
            obtain ⟨hbecomes, text, htext, rfl⟩ := member_sound (by simp) hkey hvalue hmark
            cases h
            exact ⟨f, c', text, hf, hbecomes, htext, .inr ⟨rfl, rfl⟩⟩
          · cases h
  · rintro ⟨f, c₁, text, hf, hbecomes, htext, hends⟩
    obtain ⟨cs₁, rfl, h⟩ | ⟨rfl, rfl⟩ := hends
    · obtain ⟨cs₂, cs₃, hkey, hvalue, hmark⟩ :=
        member_complete ',' (by simp) hbecomes htext cs₁
      rw [(members_of_member hf hkey hvalue cs₁).1 hmark, h]
    · obtain ⟨cs₂, cs₃, hkey, hvalue, hmark⟩ :=
        member_complete '}' (by simp) hbecomes htext rest
      exact (members_of_member hf hkey hvalue rest).2 hmark

/-- The members of an object are read from the texts of free fields, each at most once. -/
theorem members_eq_ok_iff {free : List Field} (hfree : free.Nodup) {c c' : Config}
    {cs rest : List Char} :
    members free c cs = .ok (c', rest) ↔
      ∃ given body, given.Nodup ∧ given ⊆ free ∧ c.Becomes c' given ∧
        Separated c'.Member given body ∧ cs = body ++ '}' :: rest := by
  constructor
  · intro h
    -- Every member takes its field out of the free ones.
    induction hlen : free.length using Nat.strongRecOn generalizing free c cs with
    | _ n ih =>
      obtain ⟨f, c₁, text, hf, h₁, htext, ⟨cs₁, rfl, hmore⟩ | ⟨rfl, rfl⟩⟩ := members_step.1 h
      · have hshorter : (free.erase f).length < n := by
          have hpos := List.length_pos_of_mem hf
          rw [List.length_erase_of_mem hf]
          omega
        obtain ⟨given, body, hgiven, hsub, h₂, hbody, rfl⟩ :=
          ih _ hshorter (hfree.erase f) hmore rfl
        have hfgiven : f ∉ given := fun hmem ↦ hfree.not_mem_erase (hsub hmem)
        have hvalue := (h₂.keeps f hfgiven).symm
        refine ⟨f :: given, text ++ ',' :: body, List.nodup_cons.2 ⟨hfgiven, hgiven⟩, ?_,
          (becomes_cons_iff hfgiven).2 ⟨c₁, h₁, hvalue, h₂⟩, .more (htext.congr hvalue) hbody,
          by simp⟩
        exact List.cons_subset.2 ⟨hf, List.Subset.trans hsub List.erase_subset⟩
      · exact ⟨[f], text, by simp, by simpa using hf, h₁, .last htext, rfl⟩
  · rintro ⟨given, body, hgiven, hsub, hbecomes, hbody, rfl⟩
    induction hbody generalizing free c with
    | last htext =>
      exact members_step.2 ⟨_, c', _, by simpa using hsub, hbecomes, htext, .inr ⟨rfl, rfl⟩⟩
    | @more f given t body ht hbody ih =>
      obtain ⟨hfgiven, hnodup⟩ := List.nodup_cons.1 hgiven
      obtain ⟨c₁, h₁, hvalue, h₂⟩ := (becomes_cons_iff hfgiven).1 hbecomes
      have hsub' : given ⊆ free.erase f := fun g hg ↦
        (List.mem_erase_of_ne (by rintro rfl; exact hfgiven hg)).2 (hsub (by simp [hg]))
      exact members_step.2 ⟨f, c₁, t, hsub (by simp), h₁, ht.congr hvalue.symm,
        .inl ⟨body ++ '}' :: rest, by simp, ih (hfree.erase f) hnodup hsub' h₂⟩⟩

/-! ## Texts -/

theorem Field.nodup_all : Field.all.Nodup := by
  decide

theorem Field.subset_all (fs : List Field) : fs ⊆ Field.all := by
  intro f _
  cases f <;> decide

/-- A text that gives some fields makes its configuration from the defaults. -/
theorem becomes_default_iff {c : Config} {given : List Field} :
    Becomes {} c given ↔ (∀ f, c.Fits f) ∧ c.DefaultsBut given := by
  constructor
  · intro h
    refine ⟨fun f ↦ ?_, h.keeps⟩
    by_cases hf : f ∈ given
    · exact h.fits f hf
    · intro n hn
      rw [h.keeps f hf] at hn
      cases f <;> cases hn <;> decide
  · rintro ⟨hfits, hdefaults⟩
    exact ⟨fun f _ ↦ hfits f, hdefaults⟩

/-- What stands between brackets is nothing but blanks, or items of the given fields. -/
theorem listed_iff {c : Config} {Item : Field → List Char → Prop} {Allowed : List Field → Prop}
    {mark : Char} {cs rest : List Char} (hmark : mark ∈ [',', ']', '}']) (hnone : Allowed []) :
    (skipBlanks cs = mark :: rest ∧ c = {} ∨
        ∃ given body, Allowed given ∧ Becomes {} c given ∧ Separated Item given body ∧
          cs = body ++ mark :: rest) ↔
      (∀ f, c.Fits f) ∧ ∃ given body, Allowed given ∧ c.DefaultsBut given ∧
        Listed Item given body ∧ cs = body ++ mark :: rest := by
  rw [skipBlanks_eq_cons_iff (isBlank_mark hmark)]
  constructor
  · rintro (⟨⟨blanks, hblanks, rfl⟩, rfl⟩ | ⟨given, body, hgiven, hbecomes, hbody, rfl⟩)
    · have hbecomes : Becomes {} {} [] := ⟨by simp, fun _ _ ↦ rfl⟩
      obtain ⟨hfits, hdefaults⟩ := becomes_default_iff.1 hbecomes
      exact ⟨hfits, [], blanks, hnone, hdefaults, .none hblanks, rfl⟩
    · obtain ⟨hfits, hdefaults⟩ := becomes_default_iff.1 hbecomes
      exact ⟨hfits, given, body, hgiven, hdefaults, .some hbody, rfl⟩
  · rintro ⟨hfits, given, body, hgiven, hdefaults, hbody, rfl⟩
    cases hbody with
    | none hblanks => exact .inl ⟨⟨body, hblanks, rfl⟩, ext_value fun f ↦ hdefaults f (by simp)⟩
    | some hbody =>
      exact .inr ⟨given, body, hgiven, becomes_default_iff.2 ⟨hfits, hdefaults⟩, hbody, rfl⟩

/-- Blanks in front of the members do not matter. -/
theorem members_skipBlanks (free : List Field) (c : Config) (cs : List Char) :
    members free c (skipBlanks cs) = members free c cs := by
  have hkey : memberKey (skipBlanks cs) = memberKey cs := by
    rw [memberKey, memberKey, skipBlanks_skipBlanks]
  rw [members, hkey, members]

/-- Blanks in front of the elements do not matter. -/
theorem elements_skipBlanks (fs : List Field) (c : Config) (cs : List Char) :
    elements fs c (skipBlanks cs) = elements fs c cs := by
  cases fs with
  | nil => rfl
  | cons f fs => rw [elements, elements, skipBlanks_skipBlanks]

/-- An object is read from its members and its closing brace. -/
theorem object_eq_ok_iff {c : Config} {cs rest : List Char} :
    object cs = .ok (c, rest) ↔
      (∀ f, c.Fits f) ∧ ∃ given body, given.Nodup ∧ c.DefaultsBut given ∧
        Listed c.Member given body ∧ cs = body ++ '}' :: rest := by
  have hcases : object cs = .ok (c, rest) ↔
      skipBlanks cs = '}' :: rest ∧ c = {} ∨ members Field.all {} cs = .ok (c, rest) := by
    rw [← members_skipBlanks, object]
    split
    · -- A member does not begin with the brace.
      rename_i cs₁ hclose
      rw [hclose, members]
      simp [memberKey, skipBlanks, isBlank, and_comm, eq_comm]
    · rename_i hitem
      exact ⟨.inr, fun h ↦ h.elim (fun hclose ↦ (hitem rest hclose.1).elim) id⟩
  rw [hcases, members_eq_ok_iff Field.nodup_all]
  simp only [Field.subset_all, true_and]
  exact listed_iff (by simp) List.nodup_nil

/-- An array is read from its elements and its closing bracket. -/
theorem array_eq_ok_iff {c : Config} {cs rest : List Char} :
    array cs = .ok (c, rest) ↔
      (∀ f, c.Fits f) ∧ ∃ given body, given <+: Field.all ∧ c.DefaultsBut given ∧
        Listed c.Element given body ∧ cs = body ++ ']' :: rest := by
  have hcases : array cs = .ok (c, rest) ↔
      skipBlanks cs = ']' :: rest ∧ c = {} ∨ elements Field.all {} cs = .ok (c, rest) := by
    rw [← elements_skipBlanks, array]
    split
    · -- An element does not begin with the bracket.
      rename_i cs₁ hclose
      rw [hclose, Field.all, elements]
      simp [skipBlanks, isBlank, scalar, and_comm, eq_comm]
    · rename_i hitem
      exact ⟨.inr, fun h ↦ h.elim (fun hclose ↦ (hitem rest hclose.1).elim) id⟩
  rw [hcases, elements_eq_ok_iff Field.nodup_all]
  exact listed_iff (by simp) List.nil_prefix

/-- A value is read from a document of its configuration, behind any blanks. -/
theorem document_eq_ok_iff {c : Config} {cs rest : List Char} :
    document cs = .ok (c, rest) ↔
      (∀ f, c.Fits f) ∧ ∃ before text, Blanks before ∧ c.Document text ∧
        cs = before ++ text ++ rest := by
  constructor
  · intro h
    rw [document] at h
    split at h
    · rename_i cs₁ hopen
      obtain ⟨before, hbefore, rfl⟩ := (skipBlanks_eq_cons_iff rfl).1 hopen
      obtain ⟨hfits, given, body, hgiven, hdefaults, hbody, rfl⟩ := object_eq_ok_iff.1 h
      exact ⟨hfits, before, _, hbefore, .object hgiven hdefaults hbody, by simp⟩
    · rename_i cs₁ hopen
      obtain ⟨before, hbefore, rfl⟩ := (skipBlanks_eq_cons_iff rfl).1 hopen
      obtain ⟨hfits, given, body, hgiven, hdefaults, hbody, rfl⟩ := array_eq_ok_iff.1 h
      exact ⟨hfits, before, _, hbefore, .array hgiven hdefaults hbody, by simp⟩
    · split at h <;> cases h
  · rintro ⟨hfits, before, text, hbefore, hdocument, rfl⟩
    cases hdocument with
    | @object given body hgiven hdefaults hbody =>
      have hopen : skipBlanks (before ++ '{' :: (body ++ '}' :: rest)) =
          '{' :: (body ++ '}' :: rest) :=
        skipBlanks_append_cons hbefore rfl _
      have h : object (body ++ '}' :: rest) = .ok (c, rest) :=
        object_eq_ok_iff.2 ⟨hfits, given, body, hgiven, hdefaults, hbody, rfl⟩
      simpa [document, hopen] using h
    | @array given body hgiven hdefaults hbody =>
      have hopen : skipBlanks (before ++ '[' :: (body ++ ']' :: rest)) =
          '[' :: (body ++ ']' :: rest) :=
        skipBlanks_append_cons hbefore rfl _
      have h : array (body ++ ']' :: rest) = .ok (c, rest) :=
        array_eq_ok_iff.2 ⟨hfits, given, body, hgiven, hdefaults, hbody, rfl⟩
      simpa [document, hopen] using h

/-- A whole text is read from the texts of a configuration whose values fit. -/
theorem ofChars_eq_ok_iff {c : Config} {cs : List Char} :
    ofChars cs = .ok c ↔ (∀ f, c.Fits f) ∧ c.Renders cs := by
  constructor
  · intro h
    rw [ofChars] at h
    split at h
    · cases h
    · rename_i d rest hread
      split_ifs at h with hrest
      cases h
      obtain ⟨hfits, before, text, hbefore, hdocument, rfl⟩ := document_eq_ok_iff.1 hread
      exact ⟨hfits, before, text, rest, hbefore, hdocument, skipBlanks_eq_nil_iff.1 hrest, rfl⟩
  · rintro ⟨hfits, before, text, after, hbefore, hdocument, hafter, rfl⟩
    have hread : document (before ++ text ++ after) = .ok (c, after) :=
      document_eq_ok_iff.2 ⟨hfits, before, text, hbefore, hdocument, rfl⟩
    simp only [ofChars, hread, skipBlanks_eq_nil_iff.2 hafter, if_true]

/-- The values of a configuration that can be built fit their fields. -/
theorem fits_of_validate {c : Config} {w : Width} (h : c.validate = .ok w) (f : Field) :
    c.Fits f := by
  obtain ⟨hxlen, -, hcount⟩ := validate_eq_ok_iff.1 h
  have hbits := w.bits_le
  rw [maxRegCount] at hcount
  intro n hn
  cases f <;> cases hn
  · exact (hxlen.trans_le hbits).trans_lt (by decide)
  · exact hcount.trans_lt (by decide)

/-- **A configuration is read exactly from its texts**, if a machine can be built from it. -/
theorem ofText_eq_ok_iff (text : String) (c : Config) :
    ofText text = .ok c ↔ (∃ w, c.validate = .ok w) ∧ c.Renders text.toList := by
  constructor
  · intro h
    rw [ofText] at h
    split at h
    · cases h
    · rename_i d hread
      split at h
      · cases h
      · rename_i w hvalid
        cases h
        exact ⟨⟨w, hvalid⟩, (ofChars_eq_ok_iff.1 hread).2⟩
  · rintro ⟨⟨w, hvalid⟩, hrenders⟩
    have hread := ofChars_eq_ok_iff.2 ⟨fits_of_validate hvalid, hrenders⟩
    simp only [ofText, hread, hvalid]

/-- The four keys in an order of their own, the four values in the order of the fields, and two of
these in another order, where the width would be four. -/
theorem ofText_eq_ok_iff_four_fields :
    let c : Config := { xlen := 16, regCount := 4, hardwireZero := false, trace := true }
    let object :=
      "\x7b\"trace_instructions\":true,\"reg_count\":4,\"hardwire_x0\":false,\"xlen\": 16\x7d"
    (ofText object = .ok c ∧ c.Renders object.toList) ∧
      (ofText "[16, 4, false, true]" = .ok c ∧ c.Renders "[16, 4, false, true]".toList) ∧
      ¬c.Renders "[4, 16, false, true]".toList := by
  intro c object
  have hobject : ofText object = .ok c := by decide +kernel
  have harray : ofText "[16, 4, false, true]" = .ok c := by decide +kernel
  have hswapped : ofText "[4, 16, false, true]" = .error (.unsupportedWidth 4) := by decide +kernel
  refine ⟨⟨hobject, ((ofText_eq_ok_iff _ _).1 hobject).2⟩,
    ⟨harray, ((ofText_eq_ok_iff _ _).1 harray).2⟩, fun hrenders ↦ ?_⟩
  have hvalid : c.validate = .ok .w16 := validate_eq_ok_iff.2 ⟨rfl, by decide⟩
  cases ((ofText_eq_ok_iff _ _).2 ⟨⟨.w16, hvalid⟩, hrenders⟩).symm.trans hswapped

end Config
end Hart
