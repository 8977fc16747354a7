import Hart.Config.Text
import Hart.Json.Grammar

/-!
# The texts of a configuration

`Config.Renders c text` says that `text` is one of the texts that write the configuration `c`.  It
does not say how a text is read; `Config.ofText` accepts exactly the texts of configurations that
can be built.

The values that a text gives are the values of the configuration itself, and what a text does not
give has its default.  So a text may leave out any fields that have their defaults, and an object
may give the others in any order (`Config.exists_renders_object`).
-/

set_option autoImplicit false

namespace Hart
namespace Config

open Json

/-- The value of a field. -/
def value (c : Config) : Field → Scalar
  | .xlen => .number (.natural c.xlen)
  | .regCount => .number (.natural c.regCount)
  | .hardwireZero => .bool c.hardwireZero
  | .trace => .bool c.trace

/-- The texts of a field among the elements of an array: its value, between blanks. -/
def Element (c : Config) (f : Field) (text : List Char) : Prop :=
  ∃ before token after, Blanks before ∧ Token (c.value f) token ∧ Blanks after ∧
    text = before ++ token ++ after

/-- The texts of a field among the members of an object: its key, a colon and its value, with
blanks around each of them. -/
def Member (c : Config) (f : Field) (text : List Char) : Prop :=
  ∃ before key after element, Blanks before ∧ Spelled f.key.toList key ∧ Blanks after ∧
    c.Element f element ∧ text = before ++ '"' :: key ++ '"' :: after ++ ':' :: element

/-- The configuration of a text that gives nothing. -/
def base : Config :=
  { xlen := 32, regCount := 32, hardwireZero := true, trace := false }

/-- The fields that a text does not give have their defaults. -/
def DefaultsBut (c : Config) (given : List Field) : Prop :=
  ∀ f, f ∉ given → c.value f = base.value f

/-- The texts of a configuration between the blanks around it: an object of distinct fields in any
order, or an array of the first few fields in theirs. -/
inductive Document (c : Config) : List Char → Prop
  | object {given : List Field} {body : List Char} :
    given.Nodup → c.DefaultsBut given → Listed c.Member given body →
      Document c ('{' :: body ++ ['}'])
  | array {given : List Field} {body : List Char} :
    given <+: Field.all → c.DefaultsBut given → Listed c.Element given body →
      Document c ('[' :: body ++ [']'])

/-- The texts of a configuration. -/
def Renders (c : Config) (text : List Char) : Prop :=
  ∃ before document after, Blanks before ∧ c.Document document ∧ Blanks after ∧
    text = before ++ document ++ after

/-! ## Every configuration can be written -/

theorem exists_token (c : Config) (f : Field) : ∃ token, Token (c.value f) token := by
  obtain ⟨xlen, regCount, hardwireZero, trace⟩ := c
  cases f with
  | xlen => exact ⟨_, .natural xlen⟩
  | regCount => exact ⟨_, .natural regCount⟩
  | hardwireZero => cases hardwireZero <;> first | exact ⟨_, .yes⟩ | exact ⟨_, .no⟩
  | trace => cases trace <;> first | exact ⟨_, .yes⟩ | exact ⟨_, .no⟩

/-- A key needs no escapes. -/
theorem spelled_key (f : Field) : Spelled f.key.toList f.key.toList := by
  have hplain : ∀ s : List Char, (s.all fun c ↦ ' ' ≤ c && c != '"' && c != '\\') = true →
      Spelled s s := by
    intro s hs
    induction s with
    | nil => exact .nil
    | cons c s ih =>
      simp only [List.all_cons, Bool.and_eq_true, decide_eq_true_eq, bne_iff_ne] at hs
      obtain ⟨⟨⟨hvisible, hquote⟩, hslash⟩, hs⟩ := hs
      exact .cons (.plain hvisible hquote hslash) (ih hs)
  refine hplain _ ?_
  cases f <;> rfl

theorem exists_element (c : Config) (f : Field) : ∃ text, c.Element f text := by
  obtain ⟨token, htoken⟩ := c.exists_token f
  exact ⟨_, [], token, [], blanks_nil, htoken, blanks_nil, rfl⟩

theorem exists_member (c : Config) (f : Field) : ∃ text, c.Member f text := by
  obtain ⟨element, helement⟩ := c.exists_element f
  exact ⟨_, [], f.key.toList, [], element, blanks_nil, spelled_key f, blanks_nil, helement, rfl⟩

/-- **Every configuration has a text for every choice and order of fields**, as long as those that
are left out have their defaults. -/
theorem exists_renders_object {c : Config} {given : List Field} (hgiven : given.Nodup)
    (hdefaults : c.DefaultsBut given) :
    ∃ body, Listed c.Member given body ∧ c.Renders ('{' :: body ++ ['}']) := by
  obtain ⟨body, hbody⟩ := exists_listed c.exists_member given
  exact ⟨body, hbody, [], _, [], blanks_nil, .object hgiven hdefaults hbody, blanks_nil, by simp⟩

end Config
end Hart
