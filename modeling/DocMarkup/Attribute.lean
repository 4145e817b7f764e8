import DocMarkup.Text.Units

/-!
Attributes of markup tags.
-/

namespace DocMarkup

/-- An attribute with its value; an attribute written without one has the empty value. -/
structure Attribute where
  name : Text
  value : Text
  deriving DecidableEq, Repr, Inhabited

/-- Attributes in the order they were written. -/
abbrev Attributes := List Attribute

namespace Attributes

/-- The value of the first attribute of that name. -/
def get? (attributes : Attributes) (name : Text) : Option Text :=
  (attributes.find? (·.name == name)).map (·.value)

/-- The attributes of any other name. -/
def without (attributes : Attributes) (name : Text) : Attributes :=
  attributes.filter (·.name != name)

end Attributes

end DocMarkup
