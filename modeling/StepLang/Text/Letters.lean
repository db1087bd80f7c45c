/-! # Letters of names

Names and keywords are compared without regard to the case of the letters `A` to `Z`. No other
letter has a case here.
-/

namespace StepLang.Text

/-- The text with `a` to `z` in upper case. -/
def upper (s : String) : String :=
  s.map Char.toUpper

/-- The text with `A` to `Z` in lower case. -/
def lower (s : String) : String :=
  s.map Char.toLower

/-- Two names are the same when they differ in the case of letters only. -/
def sameName (a b : String) : Bool :=
  a == b || (a.length == b.length && upper a == upper b)

theorem length_upper (s : String) : (upper s).length = s.length :=
  String.length_map

theorem sameName_iff {a b : String} : sameName a b = true ↔ upper a = upper b := by
  simp only [sameName, Bool.or_eq_true, Bool.and_eq_true, beq_iff_eq]
  constructor
  · rintro (rfl | ⟨-, h⟩)
    · rfl
    · exact h
  · intro h
    exact .inr ⟨by rw [← length_upper a, h, length_upper], h⟩

def isNameStart (c : Char) : Bool :=
  c.isAlpha || c == '_'

def isNameChar (c : Char) : Bool :=
  c.isAlphanum || c == '_'

end StepLang.Text
