import DocMarkup.Proofs.Html.Elements

/-!
Markup that nothing breaks out of: runs of text without brackets, and tags whose attributes all are
a name and a value in quotes.
-/

namespace DocMarkup

namespace Html

/-! ### Values of attributes -/

/-- Text that can stand between double quotes in a tag. -/
structure IsValue (t : Text) : Prop where
  tagFree : TagFree t
  unquoted : unit '"' ∉ t

instance : DecidablePred IsValue := fun t =>
  decidable_of_iff (TagFree t ∧ unit '"' ∉ t) ⟨fun ⟨h, h'⟩ => ⟨h, h'⟩, fun h => ⟨h.1, h.2⟩⟩

@[simp] theorem isValue_nil : IsValue [] := ⟨tagFree_nil, List.not_mem_nil⟩

@[simp]
theorem isValue_append {s t : Text} : IsValue (s ++ t) ↔ IsValue s ∧ IsValue t := by
  constructor
  · rintro ⟨hfree, hquote⟩
    rw [List.mem_append, not_or] at hquote
    exact ⟨⟨(tagFree_append.1 hfree).1, hquote.1⟩, ⟨(tagFree_append.1 hfree).2, hquote.2⟩⟩
  · rintro ⟨hs, ht⟩
    refine ⟨tagFree_append.2 ⟨hs.tagFree, ht.tagFree⟩, ?_⟩
    rw [List.mem_append, not_or]
    exact ⟨hs.unquoted, ht.unquoted⟩

theorem IsValue.subset {s t : Text} (h : IsValue t) (hsubset : s ⊆ t) : IsValue s :=
  ⟨h.tagFree.subset hsubset, fun hquote => h.unquoted (hsubset hquote)⟩

/-- A table that replaces double quotes leaves none. -/
theorem unquoted_escapeWith {table : EscapeTable} (htable : ∀ entry ∈ table, unit '"' ∉ entry.2)
    (hquote : (table.find? (·.1 == unit '"')).isSome) (t : Text) :
    unit '"' ∉ escapeWith table t := by
  intro hmem
  obtain ⟨u, -, hu⟩ := List.mem_flatMap.1 hmem
  cases hfound : table.find? (·.1 == u) with
  | some entry =>
      rw [hfound] at hu
      exact htable entry (List.mem_of_find?_eq_some hfound) hu
  | none =>
      rw [hfound] at hu
      obtain rfl := List.mem_singleton.1 hu
      rw [hfound] at hquote
      cases hquote

theorem isValue_escapeAttribute (t : Text) : IsValue (escapeAttribute t) :=
  ⟨tagFree_escapeAttribute t, unquoted_escapeWith (by decide) (by decide) t⟩

theorem isValue_escapeQuoted (t : Text) : IsValue (escapeQuoted t) :=
  ⟨tagFree_escapeQuoted t, unquoted_escapeWith (by decide) (by decide) t⟩

theorem isValue_escapeQuotes {t : Text} (h : TagFree t) : IsValue (Page.escapeQuotes t) :=
  ⟨tagFree_escapeQuotes h, unquoted_escapeWith (by decide) (by decide) t⟩

theorem isValue_unitsOfNat (n : Nat) : IsValue (unitsOfNat n) := by
  refine ⟨tagFree_unitsOfNat n, fun hquote => ?_⟩
  obtain ⟨c, hc, hu⟩ := List.mem_flatMap.1 hquote
  exact (isNameUnit_of_isNumeral (isNumeral_of_repr hc) _ hu).2.1 rfl

theorem isValue_headingTag (level : Number) : IsValue (units (Page.headingTag level)) := by
  refine ⟨(isName_headingTag level).tagFree, fun hquote => ?_⟩
  rw [Page.headingTag, units_append, List.mem_append] at hquote
  rcases hquote with hfirst | hrest
  · exact absurd hfirst (by decide)
  · obtain ⟨c, hc, hu⟩ := List.mem_flatMap.1 hrest
    exact (isNameUnit_of_isNumeral (isNumeral_decimal level c hc) _ hu).2.1 rfl

theorem isValue_indexAnchor (word : Text) : IsValue (indexAnchor word) := by
  have hbytes : ∀ byte < 256, unit '"' ∉ anchorByte byte := by decide +kernel
  refine ⟨tagFree_indexAnchor word, fun hquote => ?_⟩
  rcases List.mem_cons.1 hquote with hfirst | hrest
  · exact absurd hfirst (by decide)
  · obtain ⟨byte, hbyte, hquote⟩ := List.mem_flatMap.1 hrest
    exact hbytes byte (utf8Bytes_lt word byte hbyte) hquote

end Html

namespace Path

open Html

theorem isValue_baseName {name : Text} (h : IsValue name) : IsValue (baseName name) := by
  unfold baseName
  split
  · exact h
  · exact h.subset (List.drop_subset _ _)

theorem isValue_relativeTo {toRoot address : Text} (hroot : IsValue toRoot)
    (h : IsValue address) : IsValue (relativeTo toRoot address) := by
  unfold relativeTo
  split
  · exact isValue_append.2 ⟨hroot, h⟩
  · exact h

theorem isValue_toRoot (outputFile : Option Text) : IsValue (toRoot outputFile) := by
  refine ⟨tagFree_toRoot outputFile, fun hquote => ?_⟩
  obtain ⟨up, hmem, hu⟩ := List.mem_flatten.1 hquote
  rw [List.eq_of_mem_replicate hmem] at hu
  exact absurd hu (by decide)

end Path

namespace Html

/-! ### Tags -/

/-- A name that an attribute can have: what ends it stands nowhere in it. -/
def IsAttributeName (name : Text) : Prop :=
  name ≠ [] ∧ IsValue name ∧ ∀ u ∈ name, !CodeUnit.isSpace u && u != unit '='

instance : DecidablePred IsAttributeName := fun name =>
  decidable_of_iff (name ≠ [] ∧ IsValue name ∧
      name.all fun u => !CodeUnit.isSpace u && u != unit '=')
    (and_congr_right fun _ => and_congr_right fun _ => List.all_eq_true)

/-- Attributes as they follow the name of an element, each of them a name and a value in quotes. -/
inductive AreAttributes : Text → Prop
  | nil : AreAttributes []
  | cons {name value rest : Text} (hname : IsAttributeName name) (hvalue : IsValue value)
      (hrest : AreAttributes rest) :
      AreAttributes (units " " ++ name ++ units "=\"" ++ value ++ units "\"" ++ rest)

theorem AreAttributes.append {s t : Text} (hs : AreAttributes s) (ht : AreAttributes t) :
    AreAttributes (s ++ t) := by
  induction hs with
  | nil => exact ht
  | cons hname hvalue _ ih =>
      rw [List.append_assoc]
      exact .cons hname hvalue ih

theorem AreAttributes.single {name value : Text} (hname : IsAttributeName name)
    (hvalue : IsValue value) :
    AreAttributes (units " " ++ name ++ units "=\"" ++ value ++ units "\"") := by
  simpa using AreAttributes.cons hname hvalue .nil

/-- The elements that a page is made of: those that give it its structure, the others, and headings
of any level. -/
def IsElementName (name : Text) : Prop :=
  (∃ tag ∈ elements ++ otherElements, name = units tag) ∨
    ∃ level, name = units (Page.headingTag level)

theorem IsElementName.isValue {name : Text} (h : IsElementName name) : IsValue name := by
  have htags : ∀ tag ∈ elements ++ otherElements, IsValue (units tag) := by decide +kernel
  rcases h with ⟨tag, htag, rfl⟩ | ⟨level, rfl⟩
  · exact htags tag htag
  · exact isValue_headingTag level

/-- A page of text without brackets and of tags of its elements with quoted attributes; what ends a
fragment of code is marked by a comment. -/
inductive IsMarkup : Text → Prop
  | nil : IsMarkup []
  | text {t rest : Text} (ht : TagFree t) (hrest : IsMarkup rest) : IsMarkup (t ++ rest)
  | opening {name attributes rest : Text} (hname : IsElementName name)
      (hattributes : AreAttributes attributes) (hrest : IsMarkup rest) :
      IsMarkup (units "<" ++ name ++ attributes ++ units ">" ++ rest)
  | closing {name rest : Text} (hname : IsElementName name) (hrest : IsMarkup rest) :
      IsMarkup (units "</" ++ name ++ units ">" ++ rest)
  | single {name attributes rest : Text} (hname : IsElementName name)
      (hattributes : AreAttributes attributes) (hrest : IsMarkup rest) :
      IsMarkup (units "<" ++ name ++ attributes ++ units "/>" ++ rest)
  | lineBreak {rest : Text} (hrest : IsMarkup rest) : IsMarkup (units "<br />" ++ rest)
  | endOfFragment {rest : Text} (hrest : IsMarkup rest) :
      IsMarkup (units "<!-- fragment -->" ++ rest)

/-- A piece of such a page. -/
def Piece.IsSealed : Piece → Prop
  | opening tag attributes => IsElementName (units tag) ∧ AreAttributes attributes
  | closing tag => IsElementName (units tag)
  | single tag attributes =>
    (IsElementName (units tag) ∧ AreAttributes attributes) ∨ (tag = "br" ∧ attributes = units " ")
  | text t => TagFree t ∨ t = units "<!-- fragment -->"
  | raw t => TagFree t

theorem Piece.IsSealed.write {piece : Piece} (h : piece.IsSealed) {rest : Text}
    (hrest : IsMarkup rest) : IsMarkup (piece.write ++ rest) := by
  cases piece with
  | opening tag attributes =>
      rw [Piece.write, units_append]
      exact .opening h.1 h.2 hrest
  | closing tag =>
      rw [Piece.write, units_append, units_append]
      exact .closing h hrest
  | single tag attributes =>
      rcases h with ⟨hname, hattributes⟩ | ⟨rfl, rfl⟩
      · rw [Piece.write, units_append]
        exact .single hname hattributes hrest
      · exact .lineBreak hrest
  | text t =>
      rcases h with hfree | rfl
      · exact .text hfree hrest
      · exact .endOfFragment hrest
  | raw t => exact .text h hrest

theorem isMarkup_flatMap {pieces : List Piece} (h : ∀ piece ∈ pieces, piece.IsSealed) :
    IsMarkup (pieces.flatMap Piece.write) := by
  induction pieces with
  | nil => exact .nil
  | cons piece pieces ih =>
      obtain ⟨hpiece, hrest⟩ := List.forall_mem_cons.1 h
      rw [List.flatMap_cons]
      exact hpiece.write (ih hrest)

/-! ### Reading of markup -/

/-- Where a reader of a page stands. -/
inductive TagState where
  | outside
  | tag
  | value
  | broken
  deriving DecidableEq, Repr

/-- A reader knows values by their quotes alone.  A value with a bracket in it has been broken out
of. -/
def TagState.next : TagState → CodeUnit → TagState
  | outside, u => if u = unit '<' then tag else outside
  | tag, u => if u = unit '"' then value else if u = unit '>' then outside else tag
  | value, u =>
    if u = unit '"' then tag else if u = unit '<' ∨ u = unit '>' then broken else value
  | broken, _ => broken

/-- Where a reader stands behind a text. -/
def TagState.after (state : TagState) (t : Text) : TagState := t.foldl next state

namespace TagState

theorem after_append (state : TagState) (s t : Text) :
    state.after (s ++ t) = (state.after s).after t := List.foldl_append

theorem after_outside {t : Text} (h : TagFree t) : outside.after t = outside := by
  induction t with
  | nil => rfl
  | cons u t ih =>
      obtain ⟨hu, ht⟩ := tagFree_cons.1 h
      have hnext : outside.next u = outside := if_neg hu.1
      rw [after, List.foldl_cons, hnext]
      exact ih ht

theorem after_of_isValue {t : Text} (h : IsValue t) :
    tag.after t = tag ∧ value.after t = value := by
  induction t with
  | nil => exact ⟨rfl, rfl⟩
  | cons u t ih =>
      obtain ⟨hu, ht⟩ := tagFree_cons.1 h.tagFree
      obtain ⟨hquote, hrest⟩ := not_or.1 (mt List.mem_cons.2 h.unquoted)
      have htag : tag.next u = tag := by
        simp only [next]
        rw [if_neg (Ne.symm hquote), if_neg hu.2]
      have hvalue : value.next u = value := by
        simp only [next]
        rw [if_neg (Ne.symm hquote), if_neg (not_or.2 hu)]
      rw [after, after, List.foldl_cons, List.foldl_cons, htag, hvalue]
      exact ih ⟨ht, hrest⟩

theorem after_attributes {t : Text} (h : AreAttributes t) : tag.after t = tag := by
  induction h with
  | nil => rfl
  | cons hname hvalue _ ih =>
      have hequals : tag.after (units "=\"") = value := by decide
      have hquote : value.after (units "\"") = tag := by decide
      rw [after_append, after_append, after_append, after_append, after_append,
        (after_of_isValue (by decide)).1, (after_of_isValue hname.2.1).1, hequals,
        (after_of_isValue hvalue).2, hquote, ih]

/-- Behind every whole page a reader stands outside of tags. -/
theorem after_markup {t : Text} (h : IsMarkup t) : outside.after t = outside := by
  have hstart : outside.after (units "<") = tag := by decide
  have hstop : tag.after (units ">") = outside := by decide
  induction h with
  | nil => rfl
  | text ht _ ih => rw [after_append, after_outside ht, ih]
  | opening hname hattributes _ ih =>
      rw [after_append, after_append, after_append, after_append, hstart,
        (after_of_isValue hname.isValue).1, after_attributes hattributes, hstop, ih]
  | closing hname _ ih =>
      have hslash : outside.after (units "</") = tag := by decide
      rw [after_append, after_append, after_append, hslash, (after_of_isValue hname.isValue).1,
        hstop, ih]
  | single hname hattributes _ ih =>
      have hslash : tag.after (units "/>") = outside := by decide
      rw [after_append, after_append, after_append, after_append, hstart,
        (after_of_isValue hname.isValue).1, after_attributes hattributes, hslash, ih]
  | lineBreak _ ih =>
      have hbreak : outside.after (units "<br />") = outside := by decide
      rw [after_append, hbreak, ih]
  | endOfFragment _ ih =>
      have hcomment : outside.after (units "<!-- fragment -->") = outside := by decide
      rw [after_append, hcomment, ih]

end TagState

end Html

end DocMarkup
