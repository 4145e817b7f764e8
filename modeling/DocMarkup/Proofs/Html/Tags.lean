import DocMarkup.Html.IndexAnchor
import DocMarkup.Html.Page
import DocMarkup.Text.Path

/-!
The structural tags of a page: those of lists, tables, headings, quotations and divisions, as they
are read back from its text.  They nest when every closing tag closes the element opened last and
none is left open.
-/

namespace DocMarkup

theorem units_append (s t : String) : units (s ++ t) = units s ++ units t := by
  simp [units]

namespace Html

/-! ### Text without brackets -/

/-- Text in which no tag begins or ends. -/
def TagFree (t : Text) : Prop := ∀ u ∈ t, u ≠ unit '<' ∧ u ≠ unit '>'

instance : DecidablePred TagFree := fun t =>
  List.decidableBAll (fun u => u ≠ unit '<' ∧ u ≠ unit '>') t

@[simp] theorem tagFree_nil : TagFree [] := nofun

@[simp]
theorem tagFree_append {s t : Text} : TagFree (s ++ t) ↔ TagFree s ∧ TagFree t :=
  List.forall_mem_append

theorem tagFree_cons {u : CodeUnit} {t : Text} :
    TagFree (u :: t) ↔ (u ≠ unit '<' ∧ u ≠ unit '>') ∧ TagFree t :=
  List.forall_mem_cons

theorem TagFree.subset {s t : Text} (h : TagFree t) (hsubset : s ⊆ t) : TagFree s :=
  fun u hu => h u (hsubset hu)

theorem tagFree_flatMap {α : Type} {items : List α} {write : α → Text}
    (h : ∀ item ∈ items, TagFree (write item)) : TagFree (items.flatMap write) := by
  intro u hu
  obtain ⟨item, hitem, hu⟩ := List.mem_flatMap.1 hu
  exact h item hitem u hu

/-! ### Reading tags -/

/-- What is written between angle brackets.  `inside?` is what has been read behind a bracket that
is open, the last unit first. -/
def bracketed (inside? : Option Text) : Text → List Text
  | [] => []
  | u :: rest =>
    match inside? with
    | none => if u == unit '<' then bracketed (some []) rest else bracketed none rest
    | some inside =>
      if u == unit '>' then inside.reverse :: bracketed none rest
      else bracketed (some (u :: inside)) rest

/-- A tag: the name of the element, and whether it is opened. -/
structure Tag where
  name : Text
  opens : Bool
  deriving DecidableEq, Repr

/-- Units of the name of a tag, which white space or a slash follows. -/
def isNameUnit (u : CodeUnit) : Bool := !CodeUnit.isSpace u && u != unit '/'

/-- The tag between two brackets.  A slash stands in front of the name of an element that is
closed. -/
def Tag.read (inside : Text) : Tag :=
  if inside.head? = some (unit '/') then
    { name := (inside.drop 1).takeWhile isNameUnit, opens := false }
  else { name := inside.takeWhile isNameUnit, opens := true }

/-- The elements that give a page its structure. -/
def elements : List String :=
  ["ul", "ol", "li", "dl", "dt", "dd", "table", "tr", "td", "th", "caption", "blockquote", "h1",
    "h2", "h3", "h4", "h5", "h6", "div"]

def isElement (name : Text) : Bool := elements.any (units · == name)

/-- The structural tags of a page. -/
def structuralTags (page : Text) : List Tag :=
  ((bracketed none page).map Tag.read).filter (isElement ·.name)

/-! ### Nesting -/

/-- Between a tag that opens an element and the one that closes it, and behind that, tags nest. -/
inductive WellNested : List Tag → Prop
  | nil : WellNested []
  | element (name : Text) {inner rest : List Tag} (hinner : WellNested inner)
      (hrest : WellNested rest) :
      WellNested ({ name, opens := true } :: (inner ++ { name, opens := false } :: rest))

/-- The elements that are open behind one more tag, the innermost first.  A tag can only close the
innermost. -/
def Tag.next (opened : List Text) (tag : Tag) : Option (List Text) :=
  if tag.opens then some (tag.name :: opened)
  else if opened.head? = some tag.name then some opened.tail
  else none

@[simp]
theorem Tag.next_opening {name : Text} {opened after : List Text} :
    Tag.next opened { name, opens := true } = some after ↔ name :: opened = after :=
  Option.some_inj

@[simp]
theorem Tag.next_closing {name : Text} {opened after : List Text} :
    Tag.next opened { name, opens := false } = some after ↔ opened = name :: after := by
  cases opened with
  | nil => simp [Tag.next]
  | cons outer opened => simp [Tag.next]

/-- One element is closed and another opened in its place. -/
theorem foldlM_next_turn {name name' : Text} {opened after : List Text} :
    [{ name, opens := false }, { name := name', opens := true }].foldlM Tag.next opened =
        some after ↔ ∃ outer, opened = name :: outer ∧ name' :: outer = after := by
  simp [Option.bind_eq_some_iff]

/-- The elements that are open behind some tags. -/
def openElements (tags : List Tag) : Option (List Text) := tags.foldlM Tag.next []

/-- Tags that nest but for those that close the elements that are open. -/
def Closes : List Text → List Tag → Prop
  | [], tags => WellNested tags
  | name :: opened, tags =>
    ∃ inner rest, tags = inner ++ { name, opens := false } :: rest ∧ WellNested inner ∧
      Closes opened rest

theorem Closes.element {opened : List Text} {inner rest : List Tag} (name : Text)
    (hinner : WellNested inner) (hrest : Closes opened rest) :
    Closes opened ({ name, opens := true } :: (inner ++ { name, opens := false } :: rest)) := by
  cases opened with
  | nil => exact WellNested.element name hinner hrest
  | cons outer opened =>
      obtain ⟨before, rest, rfl, hbefore, hrest⟩ := hrest
      exact ⟨_, rest, by simp, WellNested.element name hinner hbefore, hrest⟩

theorem closes_of_foldlM {opened : List Text} {tags : List Tag}
    (h : tags.foldlM Tag.next opened = some []) : Closes opened tags := by
  induction tags generalizing opened with
  | nil =>
      obtain rfl : opened = [] := Option.some.inj h
      exact WellNested.nil
  | cons tag tags ih =>
      obtain ⟨opened', hnext, hrest⟩ := Option.bind_eq_some_iff.1 h
      obtain ⟨name, opens⟩ := tag
      cases opens with
      | true =>
          obtain rfl := Tag.next_opening.1 hnext
          obtain ⟨inner, rest, rfl, hinner, hrest⟩ := ih hrest
          exact hrest.element name hinner
      | false =>
          obtain rfl := Tag.next_closing.1 hnext
          exact ⟨[], tags, rfl, .nil, ih hrest⟩

/-- Tags nest if they leave no element open. -/
theorem wellNested_of_openElements {tags : List Tag} (h : openElements tags = some []) :
    WellNested tags :=
  closes_of_foldlM h

/-- Tags that nest leave open what is open in front of them. -/
theorem WellNested.foldlM {tags : List Tag} (h : WellNested tags) (opened : List Text) :
    tags.foldlM Tag.next opened = some opened := by
  induction h generalizing opened with
  | nil => rfl
  | element name _ _ hinner hrest =>
      have hopen : Tag.next opened { name, opens := true } = some (name :: opened) :=
        Tag.next_opening.2 rfl
      have hclose : Tag.next (name :: opened) { name, opens := false } = some opened :=
        Tag.next_closing.2 rfl
      simp [hopen, hclose, hinner, hrest]

/-! ### Pieces of a page -/

/-- A name as it can stand in a tag. -/
structure IsName (name : Text) : Prop where
  nonempty : name ≠ []
  units : ∀ u ∈ name, isNameUnit u
  tagFree : TagFree name

/-- What can follow the name in a tag: nothing, or attributes behind a space. -/
structure IsAttributes (attributes : Text) : Prop where
  tagFree : TagFree attributes
  space : attributes = [] ∨ attributes.head? = some CodeUnit.space

theorem bracketed_tagFree {t : Text} (h : TagFree t) (rest : Text) :
    bracketed none (t ++ rest) = bracketed none rest := by
  induction t with
  | nil => rfl
  | cons u t ih =>
      obtain ⟨⟨hless, -⟩, ht⟩ := tagFree_cons.1 h
      rw [List.cons_append, bracketed, ← ih ht]
      exact if_neg (by simpa using hless)

theorem bracketed_inside {t : Text} (h : TagFree t) (inside rest : Text) :
    bracketed (some inside) (t ++ unit '>' :: rest) =
      (inside.reverse ++ t) :: bracketed none rest := by
  induction t generalizing inside with
  | nil =>
      rw [List.append_nil]
      rfl
  | cons u t ih =>
      obtain ⟨⟨-, hgreater⟩, ht⟩ := tagFree_cons.1 h
      have hrest := ih ht (u :: inside)
      rw [List.reverse_cons, List.append_assoc, List.singleton_append] at hrest
      rw [List.cons_append, bracketed, ← hrest]
      exact if_neg (by simpa using hgreater)

theorem IsAttributes.follows {attributes : Text} (h : IsAttributes attributes) :
    ∀ u, attributes.head? = some u → isNameUnit u = false := by
  intro u hu
  rcases h.space with rfl | hspace
  · cases hu
  · obtain rfl := Option.some.inj (hspace.symm.trans hu)
    rfl

theorem structuralTags_tagFree {t : Text} (h : TagFree t) (rest : Text) :
    structuralTags (t ++ rest) = structuralTags rest := by
  rw [structuralTags, bracketed_tagFree h, ← structuralTags]

theorem structuralTags_tag {inside : Text} (h : TagFree inside) (rest : Text) :
    structuralTags (units "<" ++ inside ++ units ">" ++ rest) =
      (if isElement (Tag.read inside).name then [Tag.read inside] else []) ++
        structuralTags rest := by
  have hbracketed : bracketed none (units "<" ++ inside ++ units ">" ++ rest) =
      inside :: bracketed none rest := by
    rw [List.append_assoc, List.append_assoc]
    exact bracketed_inside h [] rest
  rw [structuralTags, hbracketed, List.map_cons, List.filter_cons, ← structuralTags]
  split <;> rfl

theorem IsName.takeWhile_append {name after : Text} (h : IsName name)
    (hafter : ∀ u, after.head? = some u → isNameUnit u = false) :
    (name ++ after).takeWhile isNameUnit = name := by
  rw [List.takeWhile_append_of_pos h.units]
  cases after with
  | nil => simp
  | cons u after => rw [List.takeWhile_cons_of_neg (by simp [hafter u rfl]), List.append_nil]

theorem IsName.head?_append {name : Text} (h : IsName name) (after : Text) :
    (name ++ after).head? ≠ some (unit '/') := by
  cases name with
  | nil => exact absurd rfl h.nonempty
  | cons u name =>
      intro hslash
      obtain rfl : u = unit '/' := Option.some.inj hslash
      exact absurd (h.units _ List.mem_cons_self) (by decide)

theorem Tag.read_append {name after : Text} (h : IsName name)
    (hafter : ∀ u, after.head? = some u → isNameUnit u = false) :
    Tag.read (name ++ after) = { name, opens := true } := by
  rw [Tag.read, if_neg (h.head?_append after), h.takeWhile_append hafter]

theorem Tag.read_closing {name : Text} (h : IsName name) :
    Tag.read (unit '/' :: name) = { name, opens := false } := by
  have hname : (name ++ []).takeWhile isNameUnit = name := h.takeWhile_append nofun
  rw [List.append_nil] at hname
  rw [Tag.read, List.head?_cons, if_pos rfl, List.drop_one, List.tail_cons, hname]

namespace Piece

/-- A piece from which tags can be read back. -/
def IsClean : Piece → Prop
  | opening tag attributes => IsName (units tag) ∧ IsAttributes attributes
  | closing tag => IsName (units tag)
  | single tag attributes =>
    IsName (units tag) ∧ isElement (units tag) = false ∧ IsAttributes attributes
  | text t => TagFree t ∨ t = units "<!-- fragment -->"
  | raw t => TagFree t

/-- The structural tag that a piece is. -/
def structuralTag? : Piece → Option Tag
  | opening tag _ =>
    if isElement (units tag) then some { name := units tag, opens := true } else none
  | closing tag =>
    if isElement (units tag) then some { name := units tag, opens := false } else none
  | _ => none

/-- The tag that a clean piece is can be read back. -/
theorem structuralTags_write {piece : Piece} (h : piece.IsClean) (rest : Text) :
    structuralTags (piece.write ++ rest) =
      piece.structuralTag?.toList ++ structuralTags rest := by
  cases piece with
  | opening tag attributes =>
      obtain ⟨htag, hattributes⟩ := h
      have hwrite : (opening tag attributes).write =
          units "<" ++ (units tag ++ attributes) ++ units ">" := by
        simp [write, units_append]
      have hread : Tag.read (units tag ++ attributes) = { name := units tag, opens := true } :=
        Tag.read_append htag hattributes.follows
      rw [hwrite, structuralTags_tag (tagFree_append.2 ⟨htag.tagFree, hattributes.tagFree⟩), hread,
        structuralTag?]
      split <;> rfl
  | closing tag =>
      have hwrite : (closing tag).write = units "<" ++ (unit '/' :: units tag) ++ units ">" := by
        have hbracket : units "</" = units "<" ++ [unit '/'] := by decide
        simp [write, units_append, hbracket]
      have hslash : TagFree (unit '/' :: units tag) := tagFree_cons.2 ⟨by decide, h.tagFree⟩
      rw [hwrite, structuralTags_tag hslash, Tag.read_closing h, structuralTag?]
      split <;> rfl
  | single tag attributes =>
      obtain ⟨htag, hother, hattributes⟩ := h
      have hslash : TagFree [unit '/'] := by decide
      have hwrite : (single tag attributes).write =
          units "<" ++ (units tag ++ (attributes ++ [unit '/'])) ++ units ">" := by
        have hbracket : units "/>" = [unit '/'] ++ units ">" := by decide
        simp [write, units_append, hbracket]
      -- the name ends where the attributes begin, or at the slash if there are none
      have hfollows : ∀ u, (attributes ++ [unit '/']).head? = some u → isNameUnit u = false := by
        intro u hu
        cases attributes with
        | nil =>
            obtain rfl : unit '/' = u := Option.some.inj hu
            decide
        | cons v rest => exact hattributes.follows u hu
      have hfree := tagFree_append.2 ⟨htag.tagFree, tagFree_append.2 ⟨hattributes.tagFree, hslash⟩⟩
      rw [hwrite, structuralTags_tag hfree, Tag.read_append htag hfollows,
        if_neg (by simp [hother])]
      rfl
  | text t =>
      rcases h with h | rfl
      -- the only markup written as text is a comment, which is no element
      · exact structuralTags_tagFree h rest
      · have hcomment : units "<!-- fragment -->" =
            units "<" ++ units "!-- fragment --" ++ units ">" := by
          decide
        rw [write, hcomment, structuralTags_tag (by decide), if_neg (by decide)]
        rfl
  | raw t => exact structuralTags_tagFree h rest

end Piece

/-- The structural tags of a page can be read back from its text. -/
theorem Page.structuralTags_contents {p : Page} (h : ∀ piece ∈ p.pieces, piece.IsClean) :
    structuralTags p.contents = p.pieces.reverse.filterMap Piece.structuralTag? := by
  rw [contents]
  have hclean : ∀ piece ∈ p.pieces.reverse, piece.IsClean :=
    fun piece hpiece => h piece (List.mem_reverse.1 hpiece)
  generalize p.pieces.reverse = pieces at hclean
  induction pieces with
  | nil => rfl
  | cons piece pieces ih =>
      obtain ⟨hpiece, hrest⟩ := List.forall_mem_cons.1 hclean
      rw [List.flatMap_cons, Piece.structuralTags_write hpiece, ih hrest, List.filterMap_cons]
      cases piece.structuralTag? <;> rfl

end Html

end DocMarkup
