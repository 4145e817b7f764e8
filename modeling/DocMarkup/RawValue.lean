import DocMarkup.Number.Basic

/-!
Raw values, as a data file holds them before anything is known about their meaning.
-/

namespace DocMarkup

inductive RawValue where
  | null
  | bool (value : Bool)
  | number (value : Number)
  | string (value : Text)
  | array (items : List RawValue)
  | object (entries : List (Text × RawValue))
  deriving Inhabited

end DocMarkup
