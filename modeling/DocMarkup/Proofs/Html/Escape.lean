import DocMarkup.Entity.Basic
import DocMarkup.Html.IndexAnchor
import DocMarkup.Proofs.Html.Tags
import DocMarkup.Text.Path

/-!
Text that is written without brackets: whatever is escaped, numbers, anchors of index words and
symbols; and names of files and addresses, as long as they are given without brackets.
-/

namespace DocMarkup

namespace Html

/-! ### Escaped text -/

/-- Text without the units of a table is written as it is. -/
theorem escapeWith_eq_self {table : EscapeTable} {t : Text}
    (h : ∀ u ∈ t, ∀ entry ∈ table, entry.1 ≠ u) : escapeWith table t = t := by
  induction t with
  | nil => rfl
  | cons u t ih =>
      obtain ⟨hu, ht⟩ := List.forall_mem_cons.1 h
      have hnone : table.find? (·.1 == u) = none :=
        List.find?_eq_none.2 fun entry hentry => by simpa using hu entry hentry
      rw [escapeWith, List.flatMap_cons, hnone]
      exact congrArg (u :: ·) (ih ht)

theorem tagFree_escapeWith {table : EscapeTable} (htable : ∀ entry ∈ table, TagFree entry.2)
    {t : Text} (h : ∀ u ∈ t, (table.find? (·.1 == u)).isSome ∨ u ≠ unit '<' ∧ u ≠ unit '>') :
    TagFree (escapeWith table t) := by
  refine tagFree_flatMap fun u hu => ?_
  cases hfound : table.find? (·.1 == u) with
  | none =>
      have hfree := (h u hu).resolve_left (by simp [hfound])
      exact tagFree_cons.2 ⟨hfree, tagFree_nil⟩
  | some entry => exact htable entry (List.mem_of_find?_eq_some hfound)

/-- Tables with both brackets leave none. -/
theorem tagFree_of_textTable {more : EscapeTable} (hmore : ∀ entry ∈ more, TagFree entry.2)
    (t : Text) : TagFree (escapeWith (textTable ++ more) t) := by
  have htable : ∀ entry ∈ textTable, TagFree entry.2 := by decide
  refine tagFree_escapeWith (List.forall_mem_append.2 ⟨htable, hmore⟩) fun u _ => ?_
  by_cases hless : u = unit '<'
  · exact .inl (by rw [hless]; rfl)
  · by_cases hgreater : u = unit '>'
    · exact .inl (by rw [hgreater]; rfl)
    · exact .inr ⟨hless, hgreater⟩

@[simp]
theorem tagFree_escapeText (t : Text) : TagFree (escapeText t) := by
  have hnone : ∀ entry ∈ ([] : EscapeTable), TagFree entry.2 := nofun
  have hfree := tagFree_of_textTable hnone t
  rwa [List.append_nil] at hfree

@[simp]
theorem tagFree_escapeAttribute (t : Text) : TagFree (escapeAttribute t) :=
  tagFree_of_textTable (by decide) t

@[simp]
theorem tagFree_escapeQuoted (t : Text) : TagFree (escapeQuoted t) :=
  tagFree_of_textTable (by decide) t

@[simp]
theorem tagFree_escapePage (t : Text) : TagFree (escapePage t) :=
  tagFree_of_textTable (by decide) t

theorem tagFree_escapeQuotes {t : Text} (h : TagFree t) : TagFree (Page.escapeQuotes t) :=
  tagFree_escapeWith (by decide) fun u hu => .inr (h u hu)

/-- Names of the attributes that are written.  Their values are escaped. -/
def writtenNames (attributes : Attributes) : List Text :=
  (attributes.filter fun a => !a.value.isEmpty).map Attribute.name

theorem tagFree_writeAttributes {attributes : Attributes}
    (h : ∀ name ∈ writtenNames attributes, TagFree name) :
    TagFree (writeAttributes attributes) := by
  refine tagFree_flatMap fun a ha => ?_
  split
  · exact tagFree_nil
  · next hvalue =>
    have hname : TagFree a.name :=
      h a.name (List.mem_map_of_mem (List.mem_filter.2 ⟨ha, by simpa using hvalue⟩))
    simp [hname, (by decide : TagFree (units " ")), (by decide : TagFree (units "=\"")),
      (by decide : TagFree (units "\""))]

theorem isAttributes_writeAttributes {attributes : Attributes}
    (h : ∀ name ∈ writtenNames attributes, TagFree name) :
    IsAttributes (writeAttributes attributes) := by
  refine ⟨tagFree_writeAttributes h, ?_⟩
  clear h
  induction attributes with
  | nil => exact .inl rfl
  | cons a attributes ih =>
      rw [writeAttributes, List.flatMap_cons, ← writeAttributes]
      split
      · rwa [List.nil_append]
      · exact .inr rfl

/-! ### Code -/

theorem tagFree_writeCode (tabSize column : Nat) (points : List Nat) :
    TagFree (Page.writeCode tabSize column points).1 := by
  induction points generalizing column with
  | nil => exact tagFree_nil
  | cons point rest ih =>
      have hspaces (n : Nat) : TagFree (List.replicate n CodeUnit.space) := by
        intro u hu
        rw [List.eq_of_mem_replicate hu]
        decide
      unfold Page.writeCode
      split
      · exact tagFree_append.2 ⟨hspaces _, ih _⟩
      · split
        · exact tagFree_cons.2 ⟨by decide, ih 0⟩
        · split
          · exact ih column
          · exact tagFree_append.2 ⟨tagFree_escapePage _, ih _⟩

/-! ### Numbers -/

/-- Signs in the text of a number. -/
def isNumeral (c : Char) : Bool := c.isAlphanum || c == '.' || c == '+' || c == '-'

theorem isNumeral_of_repr {n : Nat} {c : Char} (h : c ∈ (Nat.repr n).toList) : isNumeral c := by
  rw [Nat.toList_repr] at h
  have hdigit := Nat.isDigit_of_mem_toDigits (by decide) (by decide) h
  simp [isNumeral, Char.isAlphanum, hdigit]

theorem isNumeral_scientific {written : List Char} (h : ∀ c ∈ written, isNumeral c)
    (power : Int) : ∀ c ∈ Decimal.scientific written power, isNumeral c := by
  have hsignificant : ∀ c ∈ (written.reverse.dropWhile (· == '0')).reverse, isNumeral c := by
    intro c hc
    refine h c (List.mem_reverse.1 ?_)
    exact (List.dropWhile_sublist _).subset (List.mem_reverse.1 hc)
  have hsign : isNumeral (if power < 0 then '-' else '+') := by
    split <;> rfl
  unfold Decimal.scientific
  dsimp only
  refine List.forall_mem_append.2 ⟨?_, List.forall_mem_cons.2 ⟨rfl, List.forall_mem_cons.2
    ⟨hsign, fun _ => isNumeral_of_repr⟩⟩⟩
  split
  · next first c rest hcons =>
    rw [hcons] at hsignificant
    obtain ⟨hfirst, hrest⟩ := List.forall_mem_cons.1 hsignificant
    exact List.forall_mem_cons.2 ⟨hfirst, List.forall_mem_cons.2 ⟨rfl, hrest⟩⟩
  · exact hsignificant

theorem isNumeral_write (d : Decimal) : ∀ c ∈ d.write.toList, isNumeral c := by
  have hwritten : ∀ c ∈ (Nat.repr d.digits).toList, isNumeral c := fun _ => isNumeral_of_repr
  have hzeros (n : Nat) : ∀ c ∈ Decimal.zeros n, isNumeral c := by
    intro c hc
    rw [List.eq_of_mem_replicate hc]
    rfl
  unfold Decimal.write
  dsimp only
  rw [String.toList_ofList]
  repeat' split
  · exact List.forall_mem_append.2 ⟨hwritten, hzeros _⟩
  · refine List.forall_mem_append.2 ⟨fun c hc => hwritten c (List.mem_of_mem_take hc), ?_⟩
    exact List.forall_mem_cons.2 ⟨rfl, fun c hc => hwritten c (List.mem_of_mem_drop hc)⟩
  · exact List.forall_mem_cons.2 ⟨rfl, List.forall_mem_cons.2
      ⟨rfl, List.forall_mem_append.2 ⟨hzeros _, hwritten⟩⟩⟩
  · exact isNumeral_scientific hwritten _

theorem isNumeral_decimal (n : Number) : ∀ c ∈ n.decimal.toList, isNumeral c := by
  have hnat (n : Nat) : ∀ c ∈ (Whole.natDecimal n).toList, isNumeral c := by
    unfold Whole.natDecimal
    split
    · exact fun _ => isNumeral_of_repr
    · exact isNumeral_write _
  have hsign : ∀ c ∈ "-".toList, isNumeral c := List.all_eq_true.1 (by decide)
  unfold Number.decimal
  split
  · unfold Whole.decimal
    split
    · split
      · rw [String.toList_append]
        exact List.forall_mem_append.2 ⟨hsign, hnat _⟩
      · exact hnat _
    · exact List.all_eq_true.1 (by decide)
    · exact List.all_eq_true.1 (by decide)
  · rw [String.toList_append]
    refine List.forall_mem_append.2 ⟨?_, isNumeral_write _⟩
    split
    · exact hsign
    · exact nofun

/-- A number can stand in a name. -/
theorem isNameUnit_of_isNumeral {c : Char} (h : isNumeral c) :
    ∀ u ∈ unitsOfCodePoint c.toNat,
      isNameUnit u ∧ u ≠ unit '"' ∧ u ≠ unit '<' ∧ u ≠ unit '>' := by
  have hall : ∀ n < 128, isNumeral (Char.ofNat n) →
      (unitsOfCodePoint n).all fun u =>
        isNameUnit u && u != unit '"' && u != unit '<' && u != unit '>' := by
    decide
  have hsmall : c.toNat < 128 := by
    change (decide ('A'.val ≤ c.val ∧ c.val ≤ 'Z'.val) ||
      (decide ('a'.val ≤ c.val) && decide (c.val ≤ 'z'.val)) ||
      (decide ('0'.val ≤ c.val) && decide (c.val ≤ '9'.val)) ||
      c == '.' || c == '+' || c == '-') = true at h
    simp only [Bool.or_eq_true, Bool.and_eq_true, decide_eq_true_eq, beq_iff_eq] at h
    rcases h with (((((⟨-, h⟩ | ⟨-, h⟩) | ⟨-, h⟩) | rfl) | rfl) | rfl)
    case inl.inl.inl.inl.inl | inl.inl.inl.inl.inr | inl.inl.inl.inr =>
      exact Nat.lt_of_le_of_lt (UInt32.le_iff_toNat_le.1 h) (by decide)
    all_goals decide
  have hunits := hall c.toNat hsmall (by rwa [Char.ofNat_toNat])
  simpa [and_assoc] using hunits

theorem tagFree_decimal (n : Number) : TagFree (units n.decimal) := by
  intro u hu
  obtain ⟨c, hc, hu⟩ := List.mem_flatMap.1 hu
  exact (isNameUnit_of_isNumeral (isNumeral_decimal n c hc) u hu).2.2

theorem isName_headingTag (level : Number) : IsName (units (Page.headingTag level)) := by
  have hname : units (Page.headingTag level) = unit 'h' :: units level.decimal := by
    rw [Page.headingTag, units_append]
    rfl
  rw [hname]
  refine ⟨List.cons_ne_nil _ _, List.forall_mem_cons.2 ⟨by decide, fun u hu => ?_⟩,
    tagFree_cons.2 ⟨by decide, tagFree_decimal level⟩⟩
  obtain ⟨c, hc, hu⟩ := List.mem_flatMap.1 hu
  exact (isNameUnit_of_isNumeral (isNumeral_decimal level c hc) u hu).1

theorem tagFree_unitsOfNat (n : Nat) : TagFree (unitsOfNat n) := by
  intro u hu
  obtain ⟨c, hc, hu⟩ := List.mem_flatMap.1 hu
  exact (isNameUnit_of_isNumeral (isNumeral_of_repr hc) u hu).2.2

/-! ### Anchors and symbols -/

theorem utf8_lt {point : Nat} (h : point < 0x110000) : ∀ byte ∈ utf8 point, byte < 256 := by
  unfold utf8
  repeat' split
  all_goals
    simp only [List.forall_mem_cons, List.not_mem_nil, false_imp_iff, implies_true, and_true]
    omega

theorem utf8Bytes_lt (t : Text) : ∀ byte ∈ utf8Bytes t, byte < 256 := by
  intro byte hbyte
  obtain ⟨point, -, hbyte⟩ := List.mem_flatMap.1 hbyte
  have hpoint : (Text.scalar point).toNat < 0x110000 := by
    have hvalid : (Text.scalar point).toNat.isValidChar := (Text.scalar point).valid
    unfold Nat.isValidChar at hvalid
    omega
  exact utf8_lt hpoint byte hbyte

theorem tagFree_indexAnchor (word : Text) : TagFree (indexAnchor word) := by
  have hbytes : ∀ byte < 256, TagFree (anchorByte byte) := by decide +kernel
  refine tagFree_cons.2 ⟨by decide, tagFree_flatMap fun byte hbyte => ?_⟩
  exact hbytes byte (utf8Bytes_lt word byte hbyte)

/-- The markup of a symbol is an entity or the sign itself. -/
theorem tagFree_markup {name : Text} {symbol : Symbol} (h : Symbol.find? name = some symbol) :
    TagFree symbol.markup := by
  have hnames : ∀ entry ∈ Entity.characters, TagFree (units entry.1) := by decide +kernel
  have hsigns : ∀ entry ∈ Entity.signs, TagFree (units entry.2.1) := by decide +kernel
  obtain ⟨entry, hfound, rfl⟩ := Option.map_eq_some_iff.1 h
  rcases List.mem_append.1 (List.mem_of_find?_eq_some hfound) with hmem | hmem
  · obtain ⟨⟨name, point⟩, hentry, rfl⟩ := List.mem_map.1 hmem
    have hname : TagFree (units name) := hnames _ hentry
    simp [units_append, hname, (by decide : TagFree (units "&")), (by decide : TagFree (units ";"))]
  · obtain ⟨⟨name, markup, plain⟩, hentry, rfl⟩ := List.mem_map.1 hmem
    exact hsigns _ hentry

end Html

/-! ### Files and addresses -/

namespace Path

open Html

theorem tagFree_baseName {name : Text} (h : TagFree name) : TagFree (baseName name) := by
  unfold baseName
  split
  · exact h
  · exact h.subset (List.drop_subset _ _)

theorem tagFree_relativeTo {toRoot address : Text} (hroot : TagFree toRoot)
    (h : TagFree address) : TagFree (relativeTo toRoot address) := by
  unfold relativeTo
  split
  · exact tagFree_append.2 ⟨hroot, h⟩
  · exact h

theorem tagFree_toRoot (outputFile : Option Text) : TagFree (toRoot outputFile) := by
  have hup : TagFree (units "../") := by decide
  intro u hu
  obtain ⟨up, hmem, hu⟩ := List.mem_flatten.1 hu
  rw [List.eq_of_mem_replicate hmem] at hu
  exact hup u hu

end Path

end DocMarkup
