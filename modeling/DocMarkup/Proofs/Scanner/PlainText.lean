import DocMarkup.Proofs.Scanner.Comments

/-!
Text without marks of markup.  It is read as words, addresses and white space, but for what its
lines begin with: a list marker is read with the blanks around it, and a dot alone on its line with
the first unit of the line break as well.
-/

namespace DocMarkup

open CodeUnit (isSpace isBlank isHorizontalSpace isLineBreak lineFeed)

namespace Text

variable {t rest : Text}

/-- Whether a line starts behind a text, given whether one starts before it. -/
def endsLine (atLineStart : Bool) : Text → Bool
  | [] => atLineStart
  | u :: rest => endsLine (u == lineFeed) rest

theorem atLineStart_advance (n : Nat) (c : Cursor) :
    (c.advance n).atLineStart = endsLine c.atLineStart (c.ahead.take n) := by
  induction n generalizing c with
  | zero => rfl
  | succ n ih =>
      rcases c with ⟨behind, _ | ⟨u, ahead⟩, offset, h⟩
      · rfl
      · rw [Cursor.advance, ih, List.take_succ_cons, endsLine]
        rfl

/-- Blanks around something that holds none are trimmed. -/
theorem trim_append {before shown after : Text} (hbefore : ∀ u ∈ before, isBlank u = true)
    (hshown : ∀ u ∈ shown, isBlank u = false) (hne : shown ≠ [])
    (hafter : ∀ u ∈ after, isBlank u = true) : trim (before ++ (shown ++ after)) = shown := by
  have hleft : (before ++ (shown ++ after)).dropWhile isBlank = shown ++ after := by
    rw [List.dropWhile_append_of_pos hbefore]
    obtain ⟨u, shown, rfl⟩ := List.exists_cons_of_ne_nil hne
    rw [List.cons_append, List.dropWhile_cons_of_neg (by simp [hshown u List.mem_cons_self])]
  have hright : (shown ++ after).reverse.dropWhile isBlank = shown.reverse := by
    rw [List.reverse_append, List.dropWhile_append_of_pos (by simpa using hafter)]
    obtain ⟨u, others, hreverse⟩ := List.exists_cons_of_ne_nil (List.reverse_ne_nil_iff.2 hne)
    have hu : u ∈ shown := List.mem_reverse.1 (hreverse ▸ List.mem_cons_self)
    rw [hreverse, List.dropWhile_cons_of_neg (by simp [hshown u hu])]
  rw [trim, dropWhileRight, hleft, hright, List.reverse_reverse]

end Text

theorem Line.IsMarker.ne_nil {marker : Text} {number : Option Whole} (h : IsMarker marker number) :
    marker ≠ [] := by
  cases h with
  | bullet u h => exact List.cons_ne_nil _ _
  | hash => exact List.cons_ne_nil _ _
  | digits digits hne h => exact fun hnil => hne (List.append_eq_nil_iff.1 hnil).1

namespace Lexeme

variable {t rest shown : Text} {lexeme : Lexeme} {atLineStart : Bool}

/-- What stands at the start of a line only: a list marker, or a dot alone on its line. -/
def listLine? (t : Text) : Option Lexeme := (listItem? t).or (endList? t)

theorem isSome_listLine? (t : Text) : (listLine? t).isSome = Line.isListLine t := by
  rw [listLine?, Option.isSome_or, listItem?, endList?, Option.isSome_map, Option.isSome_map,
    Line.isListLine]

/-- The text without the blanks around list markers and around dots that stand alone on their line,
and without the unit behind such a dot that breaks the line. -/
def tightened (atLineStart : Bool) : Text → Text
  | [] => []
  | u :: rest =>
    match if atLineStart then listLine? (u :: rest) else none with
    | some lexeme =>
      lexeme.value ++ tightened (Text.endsLine atLineStart ((u :: rest).take lexeme.length))
        (rest.drop (lexeme.length - 1))
    | none => u :: tightened (u == lineFeed) rest
termination_by t => t.length
decreasing_by all_goals simp only [List.length_drop, List.length_cons]; omega

theorem tightened_cons {u : CodeUnit} (h : atLineStart = true → listLine? (u :: rest) = none) :
    tightened atLineStart (u :: rest) = u :: tightened (u == lineFeed) rest := by
  have hnone : (if atLineStart then listLine? (u :: rest) else none) = none := by
    split
    · next hstart => exact h hstart
    · rfl
  rw [tightened, hnone]

theorem listLine?_proper (h : listLine? t = some lexeme) : lexeme.Proper := by
  rcases Option.or_eq_some_iff.1 h with hitem | ⟨-, hend⟩
  · exact listItem?_proper hitem
  · exact endList?_proper hend

theorem tightened_of_listLine? (h : listLine? t = some lexeme) :
    tightened true t = lexeme.value ++
      tightened (Text.endsLine true (t.take lexeme.length)) (t.drop lexeme.length) := by
  cases t with
  | nil => exact nomatch (show listLine? [] = none from rfl).symm.trans h
  | cons u rest =>
      have hpos := (listLine?_proper h).length_pos
      obtain ⟨n, hn⟩ := Nat.exists_eq_add_of_lt hpos
      rw [Nat.zero_add] at hn
      rw [tightened, if_pos rfl, h]
      dsimp only
      rw [hn, List.drop_succ_cons, Nat.add_sub_cancel]

/-- Where no line begins with a list marker or is a dot alone, nothing is left out. -/
theorem tightened_eq_self (h : ∀ before rest, t = before ++ rest →
    Text.endsLine atLineStart before = true → Line.isListLine rest = false) :
    tightened atLineStart t = t := by
  induction t generalizing atLineStart with
  | nil => exact tightened.eq_1 _
  | cons u rest ih =>
      rw [tightened_cons, ih]
      · intro before more hsplit hstart
        exact h (u :: before) more (by rw [hsplit, List.cons_append]) hstart
      · intro hstart
        rw [← Option.not_isSome_iff_eq_none, isSome_listLine?, h [] (u :: rest) rfl hstart]
        exact Bool.false_ne_true

/-- Within a line nothing is left out. -/
theorem tightened_append (hshown : ∀ u ∈ shown, isSpace u = false)
    (h : atLineStart = true → listLine? (shown ++ rest) = none) :
    tightened atLineStart (shown ++ rest) =
      shown ++ tightened (Text.endsLine atLineStart shown) rest := by
  induction shown generalizing atLineStart with
  | nil => rfl
  | cons u shown ih =>
      obtain ⟨hu, hshown⟩ := List.forall_mem_cons.1 hshown
      have hfeed : (u == lineFeed) = false := by
        rw [beq_eq_false_iff_ne]
        rintro rfl
        exact absurd hu (by decide)
      rw [List.cons_append] at h ⊢
      have hmore := @ih false hshown nofun
      rw [tightened_cons h, hfeed, hmore, List.cons_append, Text.endsLine, hfeed]

/-- White space is left as it is up to the next line that begins with something of its own. -/
theorem tightened_gap (lastLine : Text) (h : atLineStart = true → listLine? t = none) :
    let n := (gap false lastLine t).length
    tightened atLineStart t = t.take n ++
      tightened (Text.endsLine atLineStart (t.take n)) (t.drop n) := by
  induction t generalizing lastLine atLineStart with
  | nil => rfl
  | cons u rest ih =>
      dsimp only
      rw [gap]
      split
      · rfl
      · split
        · next hfeed =>
          split
          · rw [tightened_cons h]
            rfl
          · next hline =>
            rw [tightened_cons h]
            simp only [List.take_succ_cons, List.drop_succ_cons, List.cons_append, Text.endsLine]
            rw [← ih rest]
            intro _
            rwa [← Option.not_isSome_iff_eq_none, isSome_listLine?]
        · next hfeed =>
          rw [tightened_cons h]
          simp only [List.take_succ_cons, List.drop_succ_cons, List.cons_append, Text.endsLine]
          rw [← ih lastLine]
          intro hstart
          simp [hstart] at hfeed

/-- White space ends before something else, or before a line that begins with something of its
own. -/
theorem gap_ends (lastLine : Text) (atLineStart : Bool) :
    let n := (gap false lastLine t).length
    (t.drop n).head?.any isSpace = false ∨
      (Text.endsLine atLineStart (t.take n) = true ∧ (listLine? (t.drop n)).isSome) := by
  induction t generalizing lastLine atLineStart with
  | nil => exact .inl rfl
  | cons u rest ih =>
      dsimp only
      rw [gap]
      split
      · next hspace => exact .inl (by simpa using hspace)
      · split
        · next hfeed =>
          split
          · next hline =>
            rw [Bool.and_eq_true] at hfeed
            exact .inr ⟨hfeed.1, by rw [isSome_listLine?]; exact hline⟩
          · exact ih rest _
        · exact ih lastLine _

theorem isBlank_of_isMarkerUnit {u : CodeUnit} (h : CodeUnit.isMarkerUnit u) :
    isBlank u = false := by
  have hsigns : (units "-*+#.").any isBlank = false := by decide
  rcases Bool.or_eq_true_iff.1 h with hsign | hdigit
  · exact Bool.eq_false_iff.2 (List.any_eq_false.1 hsigns u (List.elem_iff.1 hsign))
  · rw [Bool.eq_false_iff]
    intro hblank
    have hchar := CodeUnit.isIdentifierChar_eq_false_of_isBlank hblank
    rw [CodeUnit.isIdentifierChar, hdigit, Bool.or_true] at hchar
    cases hchar

/-- What stands at the start of a line is the value read, with blanks around it. -/
theorem listLine?_parts (h : listLine? t = some lexeme) :
    ∃ blanks spaces rest, t = blanks ++ (lexeme.value ++ (spaces ++ rest)) ∧
      lexeme.length = blanks.length + lexeme.value.length + spaces.length ∧
      (∀ u ∈ blanks, isSpace u) ∧ (∀ u ∈ lexeme.value, CodeUnit.isMarkerUnit u) ∧
      (∀ u ∈ spaces, isSpace u) ∧ (spaces ++ rest).head?.all isSpace := by
  rcases Option.or_eq_some_iff.1 h with hitem | ⟨-, hend⟩
  · exact listItem?_parts hitem
  · exact endList?_parts hend

theorem listLine?_ne_nil (h : listLine? t = some lexeme) : lexeme.value ≠ [] := by
  rcases Option.or_eq_some_iff.1 h with hitem | ⟨-, hend⟩
  · obtain ⟨found, hfound, rfl⟩ := Option.map_eq_some_iff.1 hitem
    obtain ⟨u, rest, -, -, hmarker, -⟩ := Line.exists_isMarker hfound
    exact hmarker.ne_nil
  · obtain ⟨found, -, rfl⟩ := Option.map_eq_some_iff.1 hend
    exact List.cons_ne_nil _ _

theorem trim_listLine? (h : listLine? t = some lexeme) :
    Text.trim (t.take lexeme.length) = lexeme.value := by
  obtain ⟨blanks, spaces, rest, ht, hlength, hblanks, hmarker, hspaces, -⟩ := listLine?_parts h
  have htake : t.take lexeme.length = blanks ++ (lexeme.value ++ spaces) := by
    have hsplit : t = (blanks ++ (lexeme.value ++ spaces)) ++ rest := by
      rw [List.append_assoc, List.append_assoc]
      exact ht
    rw [hsplit]
    refine List.take_left' ?_
    rw [List.length_append, List.length_append, hlength, Nat.add_assoc]
  rw [htake]
  exact Text.trim_append (fun u hu => CodeUnit.isBlank_of_isSpace (hblanks u hu))
    (fun u hu => isBlank_of_isMarkerUnit (hmarker u hu)) (listLine?_ne_nil h)
    (fun u hu => CodeUnit.isBlank_of_isSpace (hspaces u hu))

/-- Nothing but white space is left out. -/
theorem filter_tightened (atLineStart : Bool) (t : Text) :
    (tightened atLineStart t).filter (fun u => !isSpace u) = t.filter fun u => !isSpace u := by
  have hsolid {marker : Text} (h : ∀ u ∈ marker, CodeUnit.isMarkerUnit u) :
      marker.filter (fun u => !isSpace u) = marker := by
    rw [List.filter_eq_self]
    intro u hu
    rw [CodeUnit.isSpace_eq_false_of_isMarkerUnit (h u hu), Bool.not_false]
  have hspace {spaces : Text} (h : ∀ u ∈ spaces, isSpace u) :
      spaces.filter (fun u => !isSpace u) = [] := by
    rw [List.filter_eq_nil_iff]
    intro u hu
    rw [h u hu]
    exact Bool.false_ne_true
  -- a list line goes on behind its marker, so the induction is on the length
  induction hn : t.length using Nat.strongRecOn generalizing t atLineStart with
  | _ n ih =>
  subst hn
  cases t with
  | nil => rw [tightened]
  | cons u rest =>
      by_cases hline : atLineStart = true → listLine? (u :: rest) = none
      · rw [tightened_cons hline, List.filter_cons, List.filter_cons,
          ih _ (Nat.lt_succ_self _) _ _ rfl]
      · rw [Classical.not_imp] at hline
        obtain ⟨rfl, hsome⟩ := hline
        obtain ⟨lexeme, hlexeme⟩ := Option.ne_none_iff_exists'.1 hsome
        have hpos := (listLine?_proper hlexeme).length_pos
        obtain ⟨blanks, spaces, more, ht, hlength, hblanks, hmarker, hspaces, -⟩ :=
          listLine?_parts hlexeme
        have hdrop : (u :: rest).drop lexeme.length = more := by
          have hsplit : u :: rest = (blanks ++ (lexeme.value ++ spaces)) ++ more := by
            simpa only [List.append_assoc] using ht
          rw [hsplit]
          refine List.drop_left' ?_
          rw [List.length_append, List.length_append, hlength, Nat.add_assoc]
        have hlt : ((u :: rest).drop lexeme.length).length < (u :: rest).length := by
          rw [List.length_drop, List.length_cons]
          omega
        rw [tightened_of_listLine? hlexeme, List.filter_append, ih _ hlt _ _ rfl, hdrop]
        conv_rhs => rw [ht]
        rw [List.filter_append, List.filter_append, List.filter_append, hspace hblanks,
          hspace hspaces, List.nil_append, List.nil_append]

/-! ### What plain text begins with -/

/-- A lexeme that shows a part of the line: a word, an address, or a list marker or dot. -/
structure Solid (atLineStart : Bool) (t : Text) (lexeme : Lexeme) (shown : Text) : Prop where
  ne_nil : shown ≠ []
  solid : ∀ u ∈ shown, isSpace u = false
  tightened : tightened atLineStart t = shown ++
    tightened (Text.endsLine atLineStart (t.take lexeme.length)) (t.drop lexeme.length)
  written : (lexeme.kind = .word ∨ lexeme.kind = .url) ∧ lexeme.value = shown ∨
    (lexeme.kind = .listItem ∨ lexeme.kind = .endList) ∧
      Text.trim (lexeme.payload.getD (t.take lexeme.length)) = shown

/-- White space, behind which there is none. -/
structure Hollow (atLineStart : Bool) (t : Text) (lexeme : Lexeme) : Prop where
  kind : lexeme.kind = .whiteSpace ∨ lexeme.kind = .newParagraph
  length_pos : 0 < lexeme.length
  hollow : ∀ u ∈ t.take lexeme.length, isSpace u = true
  tightened : tightened atLineStart t = t.take lexeme.length ++
    tightened (Text.endsLine atLineStart (t.take lexeme.length)) (t.drop lexeme.length)
  ends : (t.drop lexeme.length).head?.any isSpace = false ∨
    (Text.endsLine atLineStart (t.take lexeme.length) = true ∧
      (listLine? (t.drop lexeme.length)).isSome)

/-- Where a line begins with something of its own, that is read first. -/
theorem next_of_listLine? (h : listLine? t = some lexeme) : next false false true t = lexeme := by
  rw [listLine?] at h
  simp only [next, Bool.not_false, Bool.and_true, if_true, h]

theorem next_of_none (h : atLineStart = true → listLine? t = none) :
    next false false atLineStart t =
      if t.head?.any isSpace then whiteSpace false false t else plain t := by
  have hline : (if !false && atLineStart then (listItem? t).or (endList? t) else none) = none := by
    cases atLineStart with
    | false => rfl
    | true => exact h rfl
  simp only [next, hline]
  rfl

theorem solid_of_listLine? (h : listLine? t = some lexeme) :
    Solid true t lexeme lexeme.value := by
  obtain ⟨blanks, spaces, rest, -, -, -, hmarker, -, -⟩ := listLine?_parts h
  refine ⟨listLine?_ne_nil h, ?_, tightened_of_listLine? h, .inr ⟨?_, ?_⟩⟩
  · exact fun u hu => CodeUnit.isSpace_eq_false_of_isMarkerUnit (hmarker u hu)
  · rcases Option.or_eq_some_iff.1 h with hitem | ⟨-, hend⟩
    · obtain ⟨found, -, rfl⟩ := Option.map_eq_some_iff.1 hitem
      exact .inl rfl
    · obtain ⟨found, -, rfl⟩ := Option.map_eq_some_iff.1 hend
      exact .inr rfl
  · have hpayload : lexeme.payload = none := by
      rcases Option.or_eq_some_iff.1 h with hitem | ⟨-, hend⟩
      · obtain ⟨found, -, rfl⟩ := Option.map_eq_some_iff.1 hitem
        rfl
      · obtain ⟨found, -, rfl⟩ := Option.map_eq_some_iff.1 hend
        rfl
    rw [hpayload, Option.getD_none]
    exact trim_listLine? h

/-- A word or an address as it was written. -/
theorem solid_of_take (hline : atLineStart = true → listLine? t = none)
    (hkind : lexeme.kind = .word ∨ lexeme.kind = .url) (hvalue : lexeme.value = t.take lexeme.length)
    (hne : lexeme.value ≠ []) (hsolid : ∀ u ∈ lexeme.value, isSpace u = false) :
    Solid atLineStart t lexeme lexeme.value := by
  refine ⟨hne, hsolid, ?_, .inl ⟨hkind, rfl⟩⟩
  have hsplit : lexeme.value ++ t.drop lexeme.length = t := by
    rw [hvalue, List.take_append_drop]
  have htightened := @tightened_append (t.drop lexeme.length) lexeme.value atLineStart hsolid
    (by rwa [hsplit])
  rw [← hvalue]
  rwa [hsplit] at htightened

theorem take_ne_nil (hne : t ≠ []) (hpos : 0 < lexeme.length)
    (hvalue : lexeme.value = t.take lexeme.length) : lexeme.value ≠ [] := by
  rw [hvalue, ne_eq, List.take_eq_nil_iff, not_or]
  exact ⟨hpos.ne', hne⟩

theorem solid_word (hspace : t.head?.any isSpace = false) :
    ∀ u ∈ (word t).value, isSpace u = false := by
  intro u hu
  obtain ⟨i, hi⟩ := List.mem_iff_getElem?.1 hu
  have hlt : i < (word t).length := by
    have hle : i < (t.take (word t).length).length := (List.getElem?_eq_some_iff.1 hi).1
    rw [List.length_take] at hle
    omega
  have hunit : t[i]? = some u := by
    rw [← hi]
    exact (List.getElem?_take_of_lt hlt).symm
  have hsolid := isSpace_word hspace hlt
  rwa [hunit, Option.any_some] at hsolid

theorem address?_value (h : address? t = some lexeme) :
    lexeme.value = t.take lexeme.length ∧ ∀ u ∈ lexeme.value, isSpace u = false := by
  obtain ⟨_, -, -, _, _, rfl, rfl, rfl⟩ := address?_shape h
  have hfront : Text.dropWhileRight isTrailingPunctuation
      ((t.take addressWindow).takeWhile isAddressUnit) <+:
      (t.take addressWindow).takeWhile isAddressUnit :=
    List.rdropWhile_prefix _ _
  refine ⟨?_, ?_⟩
  · exact List.prefix_iff_eq_take.1
      (hfront.trans ((List.takeWhile_prefix _).trans (List.take_prefix ..)))
  · intro u hu
    have hunit := List.mem_takeWhile_imp (hfront.subset hu)
    rw [Bool.eq_false_iff]
    intro hspace
    rw [isAddressUnit, CodeUnit.isBlank_of_isSpace hspace] at hunit
    cases hunit

theorem unmarked_of_any (h : t.any isMark = false) : ∀ u ∈ t, isMark u = false := by
  simpa only [List.any_eq_false, Bool.not_eq_true] using h

theorem plain_of_isMark (h : ∀ u ∈ t, isMark u = false) :
    plain t = (address? t).getD (word t) := by
  have hhead : t.head?.any isMark = false := by
    cases t with
    | nil => rfl
    | cons u rest => exact h u List.mem_cons_self
  have hmail : mail? t = none := by
    refine mail?_eq_none fun mailbox _ hfront => ?_
    exact absurd (h (unit '@') (hfront.subset (by simp))) (by decide)
  rw [plain, marked?_eq_none hhead, hmail, Option.none_or, Option.or_none]

/-- Plain text begins with something solid or with white space. -/
theorem next_plainText (h : ∀ u ∈ t, isMark u = false) (hne : t ≠ []) (atLineStart : Bool) :
    (∃ shown, Solid atLineStart t (next false false atLineStart t) shown) ∨
      Hollow atLineStart t (next false false atLineStart t) := by
  -- a list line comes first, then white space, then an address, then a word
  by_cases hline : atLineStart = true → listLine? t = none
  · rw [next_of_none hline]
    split
    · next hspace =>
      right
      have hlength : (whiteSpace false false t).length = (gap false t t).length := by
        unfold whiteSpace
        dsimp only
        split <;> rfl
      have hkind : (whiteSpace false false t).kind = .whiteSpace ∨
          (whiteSpace false false t).kind = .newParagraph := by
        unfold whiteSpace
        dsimp only
        split
        · exact .inr rfl
        · exact .inl rfl
      refine ⟨hkind, (whiteSpace_proper hspace).length_pos, ?_, ?_, ?_⟩ <;> rw [hlength]
      · exact isSpace_of_mem_gap
      · exact tightened_gap t hline
      · exact gap_ends t atLineStart
    · next hspace =>
      left
      rw [Bool.not_eq_true] at hspace
      rw [plain_of_isMark h]
      cases haddress : address? t with
      | some lexeme =>
          obtain ⟨hvalue, hsolid⟩ := address?_value haddress
          have hpos := (address?_proper haddress).length_pos
          refine ⟨_, solid_of_take hline (.inr (address?_kind haddress).1) hvalue ?_ hsolid⟩
          exact take_ne_nil hne hpos hvalue
      | none =>
          refine ⟨_, solid_of_take hline (.inl rfl) rfl ?_ (solid_word hspace)⟩
          exact take_ne_nil hne (word_proper t).length_pos rfl
  · rw [Classical.not_imp] at hline
    obtain ⟨rfl, hsome⟩ := hline
    obtain ⟨lexeme, hlexeme⟩ := Option.ne_none_iff_exists'.1 hsome
    rw [next_of_listLine? hlexeme]
    exact .inl ⟨_, solid_of_listLine? hlexeme⟩

/-- No white space follows white space. -/
theorem Hollow.not_hollow_next (h : Hollow atLineStart t lexeme) (hne : t.drop lexeme.length ≠ []) :
    let behind := Text.endsLine atLineStart (t.take lexeme.length)
    ¬ Hollow behind (t.drop lexeme.length) (next false false behind (t.drop lexeme.length)) := by
  intro behind hnext
  rcases h.ends with hspace | ⟨hstart, hline⟩
  · generalize t.drop lexeme.length = rest at hne hnext hspace
    have hpos := hnext.length_pos
    have hhollow := hnext.hollow
    generalize (next false false behind rest).length = n at hpos hhollow
    cases rest with
    | nil => exact absurd rfl hne
    | cons u rest =>
        obtain ⟨n, rfl⟩ := Nat.exists_eq_add_of_lt hpos
        have hu := hhollow u (by rw [Nat.zero_add]; exact List.mem_cons_self)
        rw [List.head?_cons, Option.any_some, hu] at hspace
        cases hspace
  · obtain ⟨marker, hmarker⟩ := Option.isSome_iff_exists.1 hline
    have hkind := hnext.kind
    rw [show behind = true from hstart, next_of_listLine? hmarker] at hkind
    rcases (solid_of_listLine? hmarker).written with ⟨hother | hother, -⟩ | ⟨hother | hother, -⟩ <;>
      rw [hother] at hkind <;> exact absurd hkind (by decide)

end Lexeme

end DocMarkup
