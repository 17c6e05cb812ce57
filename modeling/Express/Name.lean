import Express.Text.LowerCase

/-!
# Names

Identifiers of the schema language are ASCII: a letter or underscore, then letters, digits and underscores.
-/

namespace Express

abbrev Name := String

namespace Name

def isStart (c : Char) : Bool :=
  c.isAlpha || c == '_'

def isPart (c : Char) : Bool :=
  c.isAlphanum || c == '_'

theorem isPart_of_isStart {c : Char} (h : isStart c = true) : isPart c = true := by
  simp only [isStart, isPart, Char.isAlphanum, Bool.or_eq_true] at h ⊢
  exact h.elim (fun alpha => .inl (.inl alpha)) .inr

/-- The name of the constructor parameter for an attribute: the first character in lower case. -/
def parameter (attr : Name) : Name :=
  if attr = "Operator" then "op"
  else match attr.toList with
    | [] => ""
    | c :: cs => String.ofList (Text.lower c ++ cs)

/-- Equality up to the case of ASCII letters. -/
def sameIgnoringCase (a b : Name) : Bool :=
  a.toList.map Char.toLower == b.toList.map Char.toLower

end Name

end Express
