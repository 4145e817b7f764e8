import DocMarkup.Attribute
import DocMarkup.Text.Blank
import DocMarkup.Text.LowerCase

/-!
Markup tags as they are written in a comment.
-/

namespace DocMarkup.Tag

/-- The tags that are understood; anything else in angle brackets is plain text. -/
def names : List String :=
  ["p", "br", "hr", "b", "strong", "i", "em", "code", "tt", "kbd", "center", "small",
   "sub", "sup", "pre", "span", "div", "ul", "ol", "li", "dl", "dt", "dd", "table",
   "tr", "td", "th", "caption", "a", "h1", "h2", "h3", "h4", "h5", "h6", "img",
   "blockquote"]

def isKnown (name : Text) : Bool := names.any (units · == name)

/-- Units of an attribute name, up to white space, an equals sign or the end of the tag. -/
def attributeName : Text → Text
  | [] => []
  | u :: rest =>
    if CodeUnit.isSpace u || u == unit '=' || u == unit '>' ||
        (u == unit '/' && rest.head? == some (unit '>')) then []
    else u :: attributeName rest

/-- The value behind an attribute name and what follows it.  A value in quotes has to be closed; a
name without an equals sign has the empty value. -/
def attributeValue? : Text → Option (Text × Text)
  | [] => some ([], [])
  | u :: rest =>
    if u != unit '=' then some ([], u :: rest)
    else
      match rest with
      | [] => some ([], [])
      | quote :: body =>
        if quote == unit '"' || quote == unit '\'' then
          let value := body.takeWhile (· != quote)
          match body.dropWhile (· != quote) with
          | [] => none
          | _ :: after => some (value, after)
        else
          let inValue (v : CodeUnit) : Bool := !CodeUnit.isSpace v && v != unit '>'
          some (rest.takeWhile inValue, rest.dropWhile inValue)

theorem length_le_of_attributeValue? {t value after : Text}
    (h : attributeValue? t = some (value, after)) : after.length ≤ t.length := by
  match t with
  | [] => simp_all [attributeValue?]
  | [u] =>
    simp only [attributeValue?] at h
    split at h <;> (cases h; simp)
  | u :: quote :: body =>
    have hbody := (List.dropWhile_suffix (l := body) (· != quote)).length_le
    have hrest := fun p => (List.dropWhile_suffix (l := quote :: body) p).length_le
    simp only [attributeValue?] at h
    split at h
    · cases h
      simp
    · split at h
      · split at h
        · simp at h
        · next heq =>
          cases h
          rw [heq] at hbody
          simp only [List.length_cons] at hbody ⊢
          omega
      · simp only [Option.some.injEq, Prod.mk.injEq] at h
        rw [← h.2]
        exact Nat.le_succ_of_le (hrest _)

/-- Reading an attribute with a name that is not empty leaves less text. -/
theorem length_lt_of_attribute {t tail name value after : Text}
    (htail : t.dropWhile CodeUnit.isSpace = tail) (hname : name ≠ []) (hne : tail ≠ [])
    (hvalue : attributeValue? (tail.drop name.length) = some (value, after)) :
    after.length < t.length := by
  have hafter := length_le_of_attributeValue? hvalue
  have htail' := (List.dropWhile_suffix (l := t) CodeUnit.isSpace).length_le
  rw [htail] at htail'
  have hpos : 0 < name.length := List.length_pos_iff.2 hname
  have hpos' : 0 < tail.length := List.length_pos_iff.2 hne
  simp only [List.length_drop] at hafter
  omega

/-- The attributes of a tag from behind its name, whether it closes itself, and what follows its
angle bracket.  There is no tag when the text ends first or a name is missing. -/
def attributes? (t : Text) : Option (Attributes × Bool × Text) :=
  match ht : t.dropWhile CodeUnit.isSpace with
  | [] => none
  | u :: rest =>
    if u == unit '>' then some ([], false, rest)
    else if u == unit '/' && rest.head? == some (unit '>') then some ([], true, rest.drop 1)
    else
      let name := attributeName (u :: rest)
      if hn : name = [] then none
      else
        match hv : attributeValue? ((u :: rest).drop name.length) with
        | none => none
        | some (value, after) =>
          have : after.length < t.length := length_lt_of_attribute ht hn (by simp) hv
          (attributes? after).map fun (more, selfClosing, end_) =>
            ({ name := Text.toLower name, value } :: more, selfClosing, end_)
termination_by t.length

/-- A tag at the start of a text. -/
structure Found where
  name : Text
  isEnd : Bool
  selfClosing : Bool
  attributes : Attributes
  length : Nat

/-- The tag a text begins with. -/
def match? : Text → Option Found
  | [] => none
  | _ :: rest =>
    let isEnd := rest.head? == some (unit '/')
    let body := if isEnd then rest.drop 1 else rest
    let written := body.takeWhile CodeUnit.isIdentifierChar
    let name := Text.toLower written
    if !isKnown name then none
    else
      (attributes? (body.drop written.length)).map fun (attributes, selfClosing, after) =>
        { name, isEnd, selfClosing, attributes, length := rest.length + 1 - after.length }

/-- How far a tag name is looked for where a word might end. -/
def lookAhead : Nat := 20

/-- Whether a word ends here, before the angle bracket of a tag. -/
def endsWord (t : Text) : Bool :=
  match t.take lookAhead with
  | [] => false
  | _ :: rest =>
    let body := if rest.head? == some (unit '/') then rest.drop 1 else rest
    let name := body.takeWhile fun u => CodeUnit.isLetter u || CodeUnit.isDigit u
    match name.head?, (body.drop name.length).head? with
    | some first, some after =>
      CodeUnit.isLetter first &&
        (CodeUnit.isBlank after || after == unit '/' || after == unit '>') &&
        isKnown (Text.toLower name)
    | _, _ => false

end DocMarkup.Tag
