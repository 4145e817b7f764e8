import DocMarkup.Attribute

/-!
Escaping text for markup.  Each kind of place has its own set of characters that cannot stand for
themselves, with the entities written in their stead.
-/

namespace DocMarkup.Html

/-- Entities written in place of units. -/
abbrev EscapeTable := List (CodeUnit × Text)

/-- The text with every unit of the table replaced by its entity. -/
def escapeWith (table : EscapeTable) (t : Text) : Text :=
  t.flatMap fun u => ((table.find? (·.1 == u)).map (·.2)).getD [u]

/-- The angle brackets and the ampersand. -/
def textTable : EscapeTable :=
  [(unit '<', units "&lt;"), (unit '>', units "&gt;"), (unit '&', units "&amp;")]

def quoteEntry : CodeUnit × Text := (unit '"', units "&quot;")

/-- For attribute values in quotes of either kind. -/
def attributeTable : EscapeTable := textTable ++ [quoteEntry, (unit '\'', units "&apos;")]

/-- For attribute values in double quotes. -/
def quotedTable : EscapeTable := textTable ++ [quoteEntry]

/-- For any place in a page. -/
def pageTable : EscapeTable := textTable ++ [(unit '\'', units "&#39;"), quoteEntry]

/-- Text between tags. -/
def escapeText : Text → Text := escapeWith textTable

/-- The value of an attribute. -/
def escapeAttribute : Text → Text := escapeWith attributeTable

/-- The value of an attribute in double quotes; apostrophes stay. -/
def escapeQuoted : Text → Text := escapeWith quotedTable

/-- Text for any place in a page. -/
def escapePage : Text → Text := escapeWith pageTable

/-- Attributes as they stand in a tag, each after a space; those without a value are left out. -/
def writeAttributes (attributes : Attributes) : Text :=
  attributes.flatMap fun a =>
    if a.value.isEmpty then []
    else units " " ++ a.name ++ units "=\"" ++ escapeAttribute a.value ++ units "\""

end DocMarkup.Html
