import DocMarkup.Proofs.Scanner.Words

/-!
Markers of lists.  Whether one is looked for depends on where the scanner is; with the white space
around it, it holds no other units.
-/

namespace DocMarkup

theorem Text.drop_length_takeWhile (kind : CodeUnit → Bool) (t : Text) :
    t.drop (t.takeWhile kind).length = t.dropWhile kind :=
  calc t.drop (t.takeWhile kind).length
      = (t.takeWhile kind ++ t.dropWhile kind).drop (t.takeWhile kind).length := by
        rw [List.takeWhile_append_dropWhile]
    _ = t.dropWhile kind := List.drop_left

open CodeUnit (isSpace isHorizontalSpace isDigit)

namespace CodeUnit

/-- A unit of a list marker, or the dot that ends a list. -/
def isMarkerUnit (u : CodeUnit) : Bool := (units "-*+#.").elem u || isDigit u

theorem ne_of_kind {kind : CodeUnit → Bool} {u v : CodeUnit} (hu : kind u = true)
    (hv : kind v = false) : u ≠ v := by
  rintro rfl
  exact absurd (hu.symm.trans hv) (by decide)

variable {u : CodeUnit}

theorem isSpace_eq_false_of_isMarkerUnit (hu : isMarkerUnit u) : isSpace u = false := by
  have hne {v : CodeUnit} (hv : isMarkerUnit v = false) : u ≠ v := ne_of_kind hu hv
  simp only [isSpace, isHorizontalSpace, isLineBreak, Bool.or_eq_false_iff, beq_eq_false_iff_ne]
  exact ⟨⟨hne (by decide), hne (by decide)⟩, hne (by decide), hne (by decide)⟩

theorem isWordUnit_of_isMarkerUnit (hu : isMarkerUnit u) : Lexeme.isWordUnit u := by
  have hne {v : CodeUnit} (hv : isMarkerUnit v = false) : u ≠ v := ne_of_kind hu hv
  simp only [Lexeme.isWordUnit, isSpace_eq_false_of_isMarkerUnit hu, Bool.not_false, Bool.true_and,
    Bool.and_eq_true, bne_iff_ne]
  exact ⟨⟨⟨hne (by decide), hne (by decide)⟩, hne (by decide)⟩, hne (by decide)⟩

theorem isMark_eq_false_of_isMarkerUnit (hu : isMarkerUnit u) : Lexeme.isMark u = false := by
  have hne {v : CodeUnit} (hv : isMarkerUnit v = false) : u ≠ v := ne_of_kind hu hv
  simp only [Lexeme.isMark, Bool.or_eq_false_iff, beq_eq_false_iff_ne]
  exact ⟨⟨⟨⟨hne (by decide), hne (by decide)⟩, hne (by decide)⟩, hne (by decide)⟩,
    hne (by decide)⟩

end CodeUnit

open CodeUnit (isMarkerUnit)

namespace Line

/-- The number that a list marker bears: that of the digits it begins with. -/
def writtenNumber? (marker : Text) : Option Whole :=
  match marker.takeWhile isDigit with
  | [] => none
  | digits => some (Whole.ofDigits digits)

/-- Markers of list items, and the numbers they bear. -/
inductive IsMarker : Text → Option Whole → Prop
  | bullet (u : CodeUnit) (h : u = unit '-' ∨ u = unit '*' ∨ u = unit '+') : IsMarker [u] none
  | hash : IsMarker (units "-#") none
  | digits (digits : Text) (hne : digits ≠ []) (h : ∀ u ∈ digits, isDigit u) :
      IsMarker (digits ++ units ".") (some (Whole.ofDigits digits))

theorem IsMarker.isMarkerUnit {marker : Text} {number : Option Whole}
    (h : IsMarker marker number) : ∀ u ∈ marker, isMarkerUnit u := by
  cases h with
  | bullet u h =>
      refine List.forall_mem_singleton.2 ?_
      rcases h with rfl | rfl | rfl <;> decide
  | hash => exact List.forall_mem_cons.2 ⟨by decide, List.forall_mem_singleton.2 (by decide)⟩
  | digits digits hne h =>
      exact List.forall_mem_append.2 ⟨fun u hu => Bool.or_eq_true_iff.2 (.inr (h u hu)),
        List.forall_mem_singleton.2 (by decide)⟩

theorem IsMarker.number_eq {marker : Text} {number : Option Whole} (h : IsMarker marker number) :
    number = writtenNumber? marker := by
  cases h with
  | bullet u h => rcases h with rfl | rfl | rfl <;> rfl
  | hash => rfl
  | digits digits hne h =>
      have htake : (digits ++ units ".").takeWhile isDigit = digits := by
        rw [List.takeWhile_append_of_pos h]
        exact List.append_nil _
      rw [writtenNumber?, htake]
      cases digits with
      | nil => exact absurd rfl hne
      | cons => rfl

/-- A hash is tried first, then a bullet, then a number. -/
theorem isMarker_of_markerAt? {body : Text} {length : Nat} {isNumbered : Bool}
    {number : Option Whole} (h : markerAt? body = some (length, isNumbered, number)) :
    IsMarker (body.take length) number := by
  cases body with
  | nil => cases h
  | cons u rest =>
      dsimp only [markerAt?] at h
      split at h
      · next hhash =>
        cases h
        simp only [Bool.and_eq_true, beq_iff_eq] at hhash
        obtain ⟨rfl, hhash⟩ := hhash
        obtain ⟨more, rfl⟩ := List.head?_eq_some_iff.1 hhash
        exact .hash
      · split at h
        · next hbullet =>
          cases h
          simp only [Bool.or_eq_true, beq_iff_eq, or_assoc] at hbullet
          exact .bullet u hbullet
        · split at h
          · next hnumber =>
            cases h
            obtain ⟨hfirst, hdot⟩ := Bool.and_eq_true_iff.1 hnumber
            rw [List.head?_drop, beq_iff_eq] at hdot
            rw [List.take_add_one, hdot,
              ← List.prefix_iff_eq_take.1 (List.takeWhile_prefix isDigit)]
            refine .digits _ ?_ fun v hv => List.mem_takeWhile_imp hv
            rw [List.takeWhile_cons_of_pos hfirst]
            exact List.cons_ne_nil _ _
          · cases h

/-- A list marker, with the blanks before it and the blank behind it. -/
theorem exists_isMarker {line : Text} {found : ListMarker} (h : listMarker? line = some found) :
    ∃ u rest, line.drop found.blanks = found.marker ++ u :: rest ∧
      line.take found.blanks = line.takeWhile isHorizontalSpace ∧
      IsMarker found.marker found.number ∧ isHorizontalSpace u := by
  rw [listMarker?_eq] at h
  split at h
  · cases h
  · next length isNumbered number hmarker =>
    split at h
    · cases h
    · next u rest hafter =>
      split at h
      · next hspace =>
        cases h
        refine ⟨u, rest, ?_, take_blanks 0 line, isMarker_of_markerAt? hmarker, hspace⟩
        rw [drop_blanks, ← hafter, List.take_append_drop]
      · cases h

theorem split_of_listMarker? {line : Text} {found : ListMarker}
    (h : listMarker? line = some found) :
    ∃ u rest, line.drop found.blanks = found.marker ++ u :: rest ∧
      line.take found.blanks = line.takeWhile isHorizontalSpace ∧
      (∀ v ∈ found.marker, isMarkerUnit v) ∧ isHorizontalSpace u := by
  obtain ⟨u, rest, hdrop, htake, hmarker, hspace⟩ := exists_isMarker h
  exact ⟨u, rest, hdrop, htake, hmarker.isMarkerUnit, hspace⟩

/-- Only white space follows the dot that ends a list on its line. -/
theorem takeWhile_of_endOfList? {line : Text} {indent blanks : Nat}
    (h : endOfList? line = some (indent, blanks)) :
    ∃ rest, line = line.takeWhile CodeUnit.isHorizontalSpace ++ unit '.' :: rest ∧
      blanks = (line.takeWhile CodeUnit.isHorizontalSpace).length ∧
      rest.takeWhile (fun u => !CodeUnit.isLineBreak u) =
        rest.takeWhile CodeUnit.isHorizontalSpace := by
  have htake := take_blanks 0 line
  have hle := blanks_le 0 line
  unfold endOfList? at h
  dsimp only at h
  generalize hcount : (indentation 0 line).2 = count at h htake hle
  have hlength : count = (line.takeWhile CodeUnit.isHorizontalSpace).length := by
    rw [← htake, List.length_take_of_le hle]
  split at h
  · cases h
  · next u rest hdrop =>
    split at h
    · cases h
    · next hdot =>
      have hu : u = unit '.' := by simpa using hdot
      have hline : line = line.takeWhile CodeUnit.isHorizontalSpace ++ unit '.' :: rest := by
        rw [← htake, ← hu, ← hdrop, List.take_append_drop]
      have hsolid : ∀ v ∈ rest.takeWhile CodeUnit.isHorizontalSpace,
          (!CodeUnit.isLineBreak v) = true := by
        intro v hv
        have hspace := List.mem_takeWhile_imp hv
        simp only [CodeUnit.isHorizontalSpace, Bool.or_eq_true, beq_iff_eq] at hspace
        rcases hspace with rfl | rfl <;> decide
      -- the rest of the line is its blanks and what follows them, and nothing may follow
      have hsplit : rest.takeWhile (fun v => !CodeUnit.isLineBreak v) =
          rest.takeWhile CodeUnit.isHorizontalSpace ++
            (rest.dropWhile CodeUnit.isHorizontalSpace).takeWhile
              (fun v => !CodeUnit.isLineBreak v) := by
        rw [← List.takeWhile_append_of_pos hsolid, List.takeWhile_append_dropWhile]
      split at h
      · next hmore =>
        cases h
        refine ⟨rest, hline, hlength, ?_⟩
        rw [hsplit, hmore, List.takeWhile_nil, List.append_nil]
      · next v more hmore =>
        split at h
        · next hbreak =>
          cases h
          refine ⟨rest, hline, hlength, ?_⟩
          rw [hsplit, hmore, List.takeWhile_cons_of_neg (by simp [hbreak]), List.append_nil]
        · cases h

end Line

namespace Lexeme

variable {t rest : Text} {lexeme : Lexeme}

theorem isSpace_of_mem_gap {insidePre : Bool} {lastLine : Text} :
    ∀ u ∈ t.take (gap insidePre lastLine t).length, CodeUnit.isSpace u = true := by
  induction t generalizing lastLine with
  | nil => simp
  | cons v rest ih =>
      rw [gap]
      split
      · simp
      · next hspace =>
        have hv : CodeUnit.isSpace v = true := by simpa using hspace
        split
        · split
          · simpa using hv
          · exact List.forall_mem_cons.2 ⟨hv, ih⟩
        · exact List.forall_mem_cons.2 ⟨hv, ih⟩

/-- A lexeme that holds no more than white space, and a marker of a list in it. -/
structure Skips (t : Text) (lexeme : Lexeme) : Prop where
  kind : lexeme.kind ≠ .command
  parts : ∃ blanks marker spaces rest, t = blanks ++ (marker ++ (spaces ++ rest)) ∧
    lexeme.length = blanks.length + marker.length + spaces.length ∧
    (∀ u ∈ blanks, isSpace u) ∧ (∀ u ∈ marker, isMarkerUnit u) ∧ (∀ u ∈ spaces, isSpace u) ∧
    (marker ≠ [] → (spaces ++ rest).head?.all isSpace)

theorem isSpace_of_isHorizontalSpace {u : CodeUnit} (h : isHorizontalSpace u) : isSpace u :=
  Bool.or_eq_true_iff.2 (.inl h)

/-- A list marker is the value of its lexeme, with the blanks around it. -/
theorem listItem?_parts (h : listItem? t = some lexeme) :
    ∃ blanks spaces rest, t = blanks ++ (lexeme.value ++ (spaces ++ rest)) ∧
      lexeme.length = blanks.length + lexeme.value.length + spaces.length ∧
      (∀ u ∈ blanks, isSpace u) ∧ (∀ u ∈ lexeme.value, isMarkerUnit u) ∧
      (∀ u ∈ spaces, isSpace u) ∧ (spaces ++ rest).head?.all isSpace := by
  obtain ⟨found, hfound, rfl⟩ := Option.map_eq_some_iff.1 h
  obtain ⟨u, rest, hdrop, htake, hmarker, hu⟩ := Line.split_of_listMarker? hfound
  have hle := Line.length_le_of_listMarker? hfound
  have hbody : t.drop (found.blanks + found.marker.length) = u :: rest := by
    rw [← List.drop_drop, hdrop, List.drop_left]
  refine ⟨t.take found.blanks, (u :: rest).takeWhile isHorizontalSpace,
    (u :: rest).dropWhile isHorizontalSpace, ?_, ?_, ?_, hmarker, ?_, ?_⟩
  · rw [List.takeWhile_append_dropWhile, ← hdrop, List.take_append_drop]
  · dsimp only
    rw [hbody, List.length_take_of_le (by omega)]
  · rw [htake]
    exact fun v hv => isSpace_of_isHorizontalSpace (List.mem_takeWhile_imp hv)
  · exact fun v hv => isSpace_of_isHorizontalSpace (List.mem_takeWhile_imp hv)
  · rw [List.takeWhile_append_dropWhile]
    exact isSpace_of_isHorizontalSpace hu

theorem listItem?_skips (h : listItem? t = some lexeme) : lexeme.Skips t := by
  obtain ⟨blanks, spaces, rest, ht, hlength, hblanks, hmarker, hspaces, hhead⟩ := listItem?_parts h
  obtain ⟨found, -, rfl⟩ := Option.map_eq_some_iff.1 h
  exact ⟨nofun, blanks, _, spaces, rest, ht, hlength, hblanks, hmarker, hspaces, fun _ => hhead⟩

/-- The dot that ends a list is the value of its lexeme, with the blanks around it and the break of
its line. -/
theorem endList?_parts (h : endList? t = some lexeme) :
    ∃ blanks spaces rest, t = blanks ++ (lexeme.value ++ (spaces ++ rest)) ∧
      lexeme.length = blanks.length + lexeme.value.length + spaces.length ∧
      (∀ u ∈ blanks, isSpace u) ∧ (∀ u ∈ lexeme.value, isMarkerUnit u) ∧
      (∀ u ∈ spaces, isSpace u) ∧ (spaces ++ rest).head?.all isSpace := by
  obtain ⟨⟨indent, blanks⟩, hfound, rfl⟩ := Option.map_eq_some_iff.1 h
  obtain ⟨rest, hline, hblanks, htail⟩ := Line.takeWhile_of_endOfList? hfound
  have hafter : t.drop (blanks + 1) = rest := by
    rw [hline, hblanks, ← List.drop_drop, List.drop_left, List.drop_succ_cons, List.drop_zero]
  generalize hspaces : rest.takeWhile isHorizontalSpace = spaces at htail
  have hsplit : rest = spaces ++ rest.drop spaces.length := by
    rw [← hspaces, Text.drop_length_takeWhile, List.takeWhile_append_dropWhile]
  have hblank : ∀ u ∈ spaces, isSpace u := fun u hu =>
    isSpace_of_isHorizontalSpace (List.mem_takeWhile_imp (hspaces ▸ hu))
  have hbreak : ∀ u ∈ (rest.drop spaces.length).take 1, isSpace u := by
    rw [← htail, Text.drop_length_takeWhile]
    have hhead := List.head?_dropWhile_not (fun u => !CodeUnit.isLineBreak u) rest
    cases hrest : rest.dropWhile fun u => !CodeUnit.isLineBreak u with
    | nil => simp
    | cons v more =>
        rw [hrest] at hhead
        have hv : CodeUnit.isLineBreak v = true := by simpa using hhead
        simpa [isSpace] using Or.inr hv
  refine ⟨t.takeWhile isHorizontalSpace, spaces ++ (rest.drop spaces.length).take 1,
    (rest.drop spaces.length).drop 1, ?_, ?_, ?_, List.forall_mem_singleton.2 (by decide), ?_, ?_⟩
  · rw [List.append_assoc, List.take_append_drop, ← hsplit]
    exact hline
  · dsimp only
    have hdot : (units ".").length = 1 := rfl
    rw [hafter, htail, List.length_append, hblanks, hdot]
    cases rest.drop spaces.length <;> simp [Nat.add_assoc]
  · exact fun u hu => isSpace_of_isHorizontalSpace (List.mem_takeWhile_imp hu)
  · exact List.forall_mem_append.2 ⟨hblank, hbreak⟩
  · rw [List.append_assoc, List.take_append_drop]
    cases spaces with
    | cons u spaces => exact hblank u List.mem_cons_self
    | nil =>
        rw [List.length_nil, List.drop_zero] at hbreak ⊢
        cases rest with
        | nil => rfl
        | cons v more => exact hbreak v List.mem_cons_self

theorem endList?_skips (h : endList? t = some lexeme) : lexeme.Skips t := by
  obtain ⟨blanks, spaces, rest, ht, hlength, hblanks, hmarker, hspaces, hhead⟩ := endList?_parts h
  obtain ⟨⟨indent, count⟩, -, rfl⟩ := Option.map_eq_some_iff.1 h
  exact ⟨nofun, blanks, _, spaces, rest, ht, hlength, hblanks, hmarker, hspaces, fun _ => hhead⟩

theorem whiteSpace_skips (insidePre insideList : Bool) (t : Text) :
    (whiteSpace insidePre insideList t).Skips t := by
  have hkind : (whiteSpace insidePre insideList t).kind ≠ .command := by
    unfold whiteSpace
    dsimp only
    split <;> exact nofun
  have hlength : (whiteSpace insidePre insideList t).length = (gap insidePre t t).length := by
    unfold whiteSpace
    dsimp only
    split <;> rfl
  refine ⟨hkind, t.take (gap insidePre t t).length, [], [], t.drop (gap insidePre t t).length,
    ?_, ?_, isSpace_of_mem_gap, nofun, nofun, nofun⟩
  · rw [List.nil_append, List.nil_append, List.take_append_drop]
  · rw [hlength, List.length_take_of_le (gap_length_le ..)]
    rfl

theorem lineFeeds_gap_insidePre (lastLine t : Text) : (gap true lastLine t).lineFeeds = 0 := by
  induction t generalizing lastLine with
  | nil => rfl
  | cons u rest ih =>
      rw [gap, Bool.not_true, Bool.and_false]
      split
      · rfl
      · exact ih lastLine

theorem length_gap_insidePre (lastLine t : Text) :
    (gap true lastLine t).length = (t.takeWhile isSpace).length := by
  induction t generalizing lastLine with
  | nil => rfl
  | cons u rest ih =>
      rw [gap, Bool.not_true, Bool.and_false, List.takeWhile_cons]
      cases isSpace u with
      | false => rfl
      | true => simp [ih]

/-- In preformatted text every lexeme depends on the text alone. -/
theorem next_insidePre (insideList atLineStart : Bool) (t : Text) :
    next true insideList atLineStart t = next true false false t := by
  simp [next, whiteSpace, lineFeeds_gap_insidePre]

theorem next_insidePre_eq_plain (insideList atLineStart : Bool) (h : t.head?.any isSpace = false) :
    next true insideList atLineStart t = plain t := by
  unfold next
  simp only [Bool.not_true, Bool.false_and, Bool.false_eq_true, if_false, h]
  rfl

/-- Kinds of tokens that are found by lines: markers and ends of lists, and blank lines. -/
def isOfLines : TokenKind → Bool
  | .listItem | .endList | .newParagraph => true
  | _ => false

theorem command?_kind (h : command? t = some lexeme) : isOfLines lexeme.kind = false := by
  obtain ⟨sign, rest, rfl, ⟨name, length, -, rfl⟩ | ⟨bracket, more, rfl, -, rfl⟩ | rfl⟩ :=
    command?_shape h
  all_goals rfl

theorem entity?_kind (h : entity? t = some lexeme) : isOfLines lexeme.kind = false := by
  obtain ⟨body, kind, value, -, rfl, ⟨-, rfl, -⟩ | ⟨-, rfl, -⟩⟩ := entity?_shape h
  all_goals rfl

theorem keyword?_kind (h : keyword? t = some lexeme) : isOfLines lexeme.kind = false := by
  obtain ⟨u, name, body, after, -, -, -, rfl⟩ := keyword?_shape h
  rfl

theorem marked?_kind (h : marked? t = some lexeme) : isOfLines lexeme.kind = false := by
  rcases marked?_forms h with ⟨u, rest, rfl, -, hcommand⟩ | htag | hentity | hkeyword
  · exact command?_kind hcommand
  · rcases tag?_kind htag with hkind | hkind <;> rw [hkind] <;> rfl
  · exact entity?_kind hentity
  · exact keyword?_kind hkeyword

theorem plain_kind (t : Text) : isOfLines (plain t).kind = false := by
  rcases plain_forms t with hmarked | haddress | hmail | hword
  · exact marked?_kind hmarked
  · rw [(address?_kind haddress).1]
    rfl
  · rw [mail?_kind hmail]
    rfl
  · rw [hword]
    rfl

/-- In preformatted text nothing is found by lines. -/
theorem next_insidePre_kind (insideList atLineStart : Bool) (t : Text) :
    isOfLines (next true insideList atLineStart t).kind = false := by
  cases hspace : t.head?.any isSpace with
  | false => rw [next_insidePre_eq_plain insideList atLineStart hspace, plain_kind]
  | true =>
      unfold next
      rw [hspace]
      simp [whiteSpace, lineFeeds_gap_insidePre, isOfLines]

/-- No scheme begins with a unit of a marker. -/
theorem address?_eq_none_of_isMarkerUnit {u : CodeUnit} (hu : isMarkerUnit u) (t : Text) :
    address? (u :: t) = none := by
  unfold address?
  dsimp only
  split
  · rfl
  · next scheme hfind =>
    have hfound := List.find?_some hfind
    simp only [Bool.and_eq_true, List.isPrefixOf_iff_prefix] at hfound
    obtain ⟨tail, htail⟩ := hfound.1.trans (List.take_prefix ..)
    have hletter : ∀ scheme ∈ schemes, (units scheme).head?.any isMarkerUnit = false ∧
        units scheme ≠ [] := by decide
    obtain ⟨hhead, hne⟩ := hletter scheme (List.mem_of_find?_eq_some hfind)
    generalize units scheme = written at htail hhead hne
    cases written with
    | nil => exact absurd rfl hne
    | cons v written =>
        obtain rfl : v = u := (List.cons.inj htail).1
        exact absurd (hu.symm.trans hhead) (by decide)

/-- Markers hold no at-sign, and no mailbox reaches past white space. -/
theorem mail?_eq_none_of_isMarkerUnit {marker : Text} (hmarker : ∀ u ∈ marker, isMarkerUnit u)
    (hrest : rest.head?.all isSpace) : mail? (marker ++ rest) = none := by
  refine mail?_eq_none fun mailbox hmailbox hprefix => ?_
  obtain ⟨tail, htail⟩ := hprefix
  rw [List.append_assoc, List.singleton_append] at htail
  have hat (hhead : rest.head? = some (unit '@')) : False := by
    rw [hhead] at hrest
    exact absurd hrest (by decide)
  rcases List.append_eq_append_iff.1 htail with ⟨_ | ⟨u, inner⟩, hsplit, hinner⟩ |
      ⟨_ | ⟨u, inner⟩, hsplit, hinner⟩
  · exact hat (by rw [← hinner.trans (List.nil_append _)]; rfl)
  · obtain ⟨rfl, -⟩ := List.cons.inj hinner
    exact absurd (hmarker (unit '@') (by simp [hsplit])) (by decide)
  · exact hat (by rw [hinner]; rfl)
  · have hspace : isSpace u = true := by rwa [hinner] at hrest
    have hu : isMailboxUnit u = true := hmailbox u (by simp [hsplit])
    simp only [isSpace, isHorizontalSpace, CodeUnit.isLineBreak, Bool.or_eq_true,
      beq_iff_eq] at hspace
    rcases hspace with (rfl | rfl) | rfl | rfl <;> exact absurd hu (by decide)

/-- A marker is read as a word where lines are not looked at. -/
theorem plain_marker {marker : Text} (hmarker : ∀ u ∈ marker, isMarkerUnit u) (hne : marker ≠ [])
    (hrest : rest.head?.all isSpace) :
    plain (marker ++ rest) = { kind := .word, length := marker.length, value := marker } := by
  have hword : ∀ u ∈ marker, isWordUnit u := fun u hu =>
    CodeUnit.isWordUnit_of_isMarkerUnit (hmarker u hu)
  have htail : wordTail rest = 0 := by
    cases rest with
    | nil => rfl
    | cons u rest =>
        have hu : isSpace u = true := hrest
        simp [wordTail, hu]
  have hmark : (marker ++ rest).head?.any isMark = false := by
    cases marker with
    | nil => exact absurd rfl hne
    | cons u marker =>
        exact CodeUnit.isMark_eq_false_of_isMarkerUnit (hmarker u List.mem_cons_self)
  have haddress : address? (marker ++ rest) = none := by
    cases marker with
    | nil => exact absurd rfl hne
    | cons u marker => exact address?_eq_none_of_isMarkerUnit (hmarker u List.mem_cons_self) _
  rw [plain, marked?_eq_none hmark, haddress, mail?_eq_none_of_isMarkerUnit hmarker hrest,
    ← word_append hword hne htail]
  rfl

/-- The marker of a list item is found at the beginning of a line. -/
theorem exists_listItem {insidePre insideList atLineStart : Bool}
    (h : (next insidePre insideList atLineStart t).kind = .listItem) :
    listItem? t = some (next insidePre insideList atLineStart t) := by
  rcases next_forms insidePre insideList atLineStart t with
    ⟨-, -, hitem | hend⟩ | ⟨-, heq⟩ | ⟨-, heq⟩
  · exact hitem
  · obtain ⟨found, -, hfound⟩ := Option.map_eq_some_iff.1 hend
    rw [← hfound] at h
    cases h
  · rw [heq] at h
    rcases whiteSpace_kind insidePre insideList t with hkind | hkind <;> cases h.symm.trans hkind
  · have hplain := plain_kind t
    rw [← heq, h] at hplain
    cases hplain

/-- A list marker has the number that it bears in writing. -/
theorem number_next {insidePre insideList atLineStart : Bool}
    (h : (next insidePre insideList atLineStart t).kind = .listItem) :
    (next insidePre insideList atLineStart t).number =
      Line.writtenNumber? (next insidePre insideList atLineStart t).value := by
  obtain ⟨found, hfound, hlexeme⟩ := Option.map_eq_some_iff.1 (exists_listItem h)
  obtain ⟨u, rest, -, -, hmarker, -⟩ := Line.exists_isMarker hfound
  rw [← hlexeme]
  exact hmarker.number_eq

/-- The settings of the scanner make no difference but to white space and to markers of lists. -/
theorem next_cases (insidePre insideList atLineStart : Bool) (t : Text) :
    (next insidePre insideList atLineStart t).Skips t ∨
      t.head?.any isSpace = false ∧ next insidePre insideList atLineStart t = plain t := by
  rcases next_forms insidePre insideList atLineStart t with
    ⟨-, -, hitem | hend⟩ | ⟨-, heq⟩ | hplain
  · exact .inl (listItem?_skips hitem)
  · exact .inl (endList?_skips hend)
  · exact .inl (heq ▸ whiteSpace_skips ..)
  · exact .inr hplain

end Lexeme

end DocMarkup
