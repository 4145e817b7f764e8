import DocMarkup.Proofs.Scanner.Signs
import DocMarkup.Proofs.Text.LineEnds

/-!
Texts that begin with the same line.  Most lexemes stay on their line, and what finds them does not
look behind it: it answers alike whatever the line ends with and whatever comes after.
-/

namespace DocMarkup

open CodeUnit (isLineBreak isHorizontalSpace isDigit lineFeed carriageReturn)

namespace Text

/-- Two texts that are the same up to their first line ends, or as a whole if they have none. -/
inductive SameLine : Text → Text → Prop
  | nil : SameLine [] []
  | broken {u v : CodeUnit} (hu : isLineBreak u) (hv : isLineBreak v) (t t' : Text) :
      SameLine (u :: t) (v :: t')
  | cons (u : CodeUnit) {t t' : Text} (h : SameLine t t') : SameLine (u :: t) (u :: t')

theorem sameLine_crlf (t : Text) : SameLine t (crlf t) := by
  induction t with
  | nil => exact .nil
  | cons u t ih =>
      by_cases hu : u = lineFeed
      · rw [hu, crlf_lineFeed]
        exact .broken rfl rfl _ _
      · rw [crlf_cons hu]
        exact .cons u ih

theorem isLineBreak_iff {u : CodeUnit} : isLineBreak u ↔ u = lineFeed ∨ u = carriageReturn := by
  rw [isLineBreak, Bool.or_eq_true, beq_iff_eq, beq_iff_eq]

theorem apply_isLineBreak {α : Type} {f : CodeUnit → α} (h : f carriageReturn = f lineFeed)
    {u : CodeUnit} (hu : isLineBreak u) : f u = f lineFeed := by
  rcases isLineBreak_iff.1 hu with rfl | rfl
  · rfl
  · exact h

/-- A line end is none of the other units. -/
theorem beq_of_isLineBreak {u c : CodeUnit} (hu : isLineBreak u) (hc : isLineBreak c = false) :
    (u == c) = false := by
  refine beq_eq_false_iff_ne.2 fun heq => ?_
  rw [heq, hc] at hu
  cases hu

theorem not_isLineBreak {p : CodeUnit → Bool} (hreturn : p carriageReturn = false)
    (hfeed : p lineFeed = false) {u : CodeUnit} (hu : p u) : isLineBreak u = false := by
  refine Bool.eq_false_iff.2 fun hbreak => ?_
  rw [apply_isLineBreak (hreturn.trans hfeed.symm) hbreak, hfeed] at hu
  cases hu

theorem isUnbroken_takeWhile {p : CodeUnit → Bool} (hreturn : p carriageReturn = false)
    (hfeed : p lineFeed = false) (t : Text) : IsUnbroken (t.takeWhile p) :=
  fun _ hu => not_isLineBreak hreturn hfeed (List.mem_takeWhile_imp hu)

namespace SameLine

variable {t t' : Text} {p : CodeUnit → Bool}

theorem any_head? (h : SameLine t t') (hp : p carriageReturn = p lineFeed) :
    t'.head?.any p = t.head?.any p := by
  cases h with
  | nil => rfl
  | broken hu hv => exact (apply_isLineBreak hp hv).trans (apply_isLineBreak hp hu).symm
  | cons => rfl

theorem head?_eq {c : CodeUnit} (h : SameLine t t') (hc : isLineBreak c = false) :
    (t'.head? == some c) = (t.head? == some c) := by
  cases h with
  | nil => rfl
  | broken hu hv => exact (beq_of_isLineBreak hv hc).trans (beq_of_isLineBreak hu hc).symm
  | cons => rfl

theorem takeWhile_eq (h : SameLine t t') (hreturn : p carriageReturn = false)
    (hfeed : p lineFeed = false) : t'.takeWhile p = t.takeWhile p := by
  have hp {u : CodeUnit} (hu : isLineBreak u) : p u = false :=
    (apply_isLineBreak (hreturn.trans hfeed.symm) hu).trans hfeed
  induction h with
  | nil => rfl
  | broken hu hv =>
      rw [List.takeWhile_cons, List.takeWhile_cons, hp hu, hp hv]
      rfl
  | cons u h ih => rw [List.takeWhile_cons, List.takeWhile_cons, ih]

theorem dropWhile (h : SameLine t t') (hreturn : p carriageReturn = false)
    (hfeed : p lineFeed = false) : SameLine (t.dropWhile p) (t'.dropWhile p) := by
  have hp {u : CodeUnit} (hu : isLineBreak u) : p u = false :=
    (apply_isLineBreak (hreturn.trans hfeed.symm) hu).trans hfeed
  induction h with
  | nil => exact .nil
  | broken hu hv t t' =>
      rw [List.dropWhile_cons, List.dropWhile_cons, hp hu, hp hv]
      exact .broken hu hv t t'
  | cons u h ih =>
      rw [List.dropWhile_cons, List.dropWhile_cons]
      split
      · exact ih
      · exact .cons u h

/-- Behind a run of units that line ends do not belong to. -/
theorem drop_run (h : SameLine t t') (hreturn : p carriageReturn = false)
    (hfeed : p lineFeed = false) :
    SameLine (t.drop (t.takeWhile p).length) (t'.drop (t.takeWhile p).length) := by
  have hrun := h.dropWhile hreturn hfeed
  rwa [← drop_length_takeWhile, ← drop_length_takeWhile, h.takeWhile_eq hreturn hfeed] at hrun

theorem isEmpty_eq (h : SameLine t t') : t'.isEmpty = t.isEmpty := by
  cases h <;> rfl

theorem take (h : SameLine t t') (n : Nat) : SameLine (t.take n) (t'.take n) := by
  induction h generalizing n with
  | nil => rw [List.take_nil]; exact .nil
  | broken hu hv t t' =>
      cases n with
      | zero => exact .nil
      | succ n => exact .broken hu hv _ _
  | cons u h ih =>
      cases n with
      | zero => exact .nil
      | succ n => exact .cons u (ih n)

theorem tail {u v : CodeUnit} (h : SameLine (u :: t) (v :: t')) (hu : isLineBreak u = false) :
    v = u ∧ SameLine t t' := by
  cases h with
  | broken hbreak => rw [hu] at hbreak; cases hbreak
  | cons _ h => exact ⟨rfl, h⟩

/-- What is cut off before the first line end is the same in both. -/
theorem split (h : SameLine t t') {n : Nat} (hn : IsUnbroken (t.take n)) :
    t'.take n = t.take n ∧ SameLine (t.drop n) (t'.drop n) := by
  induction h generalizing n with
  | nil => exact ⟨rfl, by rw [List.drop_nil]; exact .nil⟩
  | broken hu hv t t' =>
      cases n with
      | zero => exact ⟨rfl, .broken hu hv t t'⟩
      | succ n =>
          have hbreak := (isUnbroken_cons.1 hn).1
          rw [hu] at hbreak
          cases hbreak
  | cons u h ih =>
      cases n with
      | zero => exact ⟨rfl, .cons u h⟩
      | succ n =>
          obtain ⟨htake, hdrop⟩ := ih (isUnbroken_cons.1 hn).2
          exact ⟨congrArg (u :: ·) htake, hdrop⟩

theorem exists_append {s after : Text} {c : CodeUnit} (h : SameLine (s ++ c :: after) t')
    (hs : IsUnbroken s) (hc : isLineBreak c = false) :
    ∃ after', t' = s ++ c :: after' ∧ SameLine after after' := by
  have htake : (s ++ c :: after).take (s.length + 1) = s ++ [c] := by
    rw [List.take_length_add_append]
    rfl
  have hdrop : (s ++ c :: after).drop (s.length + 1) = after := by
    rw [List.drop_length_add_append]
    rfl
  obtain ⟨htake', hdrop'⟩ := h.split (n := s.length + 1) (by
    rw [htake]
    exact List.forall_mem_append.2 ⟨hs, List.forall_mem_singleton.2 hc⟩)
  rw [htake] at htake'
  rw [hdrop] at hdrop'
  refine ⟨_, ?_, hdrop'⟩
  conv_lhs => rw [← List.take_append_drop (s.length + 1) t', htake', List.append_assoc]
  rfl

theorem symm (h : SameLine t t') : SameLine t' t := by
  induction h with
  | nil => exact .nil
  | broken hu hv t t' => exact .broken hv hu t' t
  | cons u h ih => exact .cons u ih

theorem isPrefixOf_eq (h : SameLine t t') {needle : Text} (hneedle : needle.IsUnbroken) :
    needle.isPrefixOf t' = needle.isPrefixOf t := by
  induction needle generalizing t t' with
  | nil => rw [List.isPrefixOf_nil_left, List.isPrefixOf_nil_left]
  | cons c needle ih =>
      obtain ⟨hc, hneedle⟩ := isUnbroken_cons.1 hneedle
      cases h with
      | nil => rfl
      | broken hu hv =>
          rw [List.isPrefixOf_cons_cons, List.isPrefixOf_cons_cons, BEq.comm,
            beq_of_isLineBreak hv hc, BEq.comm, beq_of_isLineBreak hu hc]
          rfl
      | cons u h => rw [List.isPrefixOf_cons_cons, List.isPrefixOf_cons_cons, ih h hneedle]

end SameLine

end Text

open Text (SameLine IsUnbroken)

variable {t t' : Text}

/-! ### Lines -/

namespace Line

theorem indentation_sameLine (h : SameLine t t') (column : Nat) :
    indentation column t' = indentation column t := by
  have hnone {u : CodeUnit} (hu : isLineBreak u) : CodeUnit.isHorizontalSpace u = false :=
    Text.apply_isLineBreak (f := CodeUnit.isHorizontalSpace) rfl hu
  induction h generalizing column with
  | nil => rfl
  | broken hu hv => rw [indentation, indentation, hnone hu, hnone hv]; rfl
  | cons u h ih => simp only [indentation, ih]

theorem markerAt?_sameLine (h : SameLine t t') : markerAt? t' = markerAt? t := by
  cases h with
  | nil => rfl
  | broken hu hv rest rest' =>
      rcases Text.isLineBreak_iff.1 hu with rfl | rfl <;>
        rcases Text.isLineBreak_iff.1 hv with rfl | rfl <;> rfl
  | @cons u rest rest' hrest =>
      have hall := SameLine.cons u hrest
      have hdigits : (u :: rest').takeWhile isDigit = (u :: rest).takeWhile isDigit :=
        hall.takeWhile_eq rfl rfl
      have hdot := (hall.drop_run (p := isDigit) rfl rfl).head?_eq
        (rfl : isLineBreak (unit '.') = false)
      dsimp only [markerAt?]
      rw [hrest.head?_eq rfl, hdigits, hdot]

theorem listMarker?_sameLine (h : SameLine t t') : listMarker? t' = listMarker? t := by
  have hbody := h.dropWhile (p := isHorizontalSpace) rfl rfl
  rw [listMarker?_eq, listMarker?_eq, indentation_sameLine h]
  generalize t.dropWhile isHorizontalSpace = body, t'.dropWhile isHorizontalSpace = body' at hbody ⊢
  rw [markerAt?_sameLine hbody]
  split
  · rfl
  · next length isNumbered number hmarker =>
    have hunbroken : IsUnbroken (body.take length) := fun u hu =>
      Text.not_isLineBreak (p := CodeUnit.isMarkerUnit) rfl rfl
        ((isMarker_of_markerAt? hmarker).isMarkerUnit u hu)
    obtain ⟨htake, hdrop⟩ := hbody.split hunbroken
    rw [htake]
    generalize body.drop length = after, body'.drop length = after' at hdrop ⊢
    cases hdrop with
    | nil => rfl
    | broken hu hv =>
        have hsolid {u : CodeUnit} (hu : isLineBreak u) : isHorizontalSpace u = false :=
          Text.apply_isLineBreak (f := isHorizontalSpace) rfl hu
        dsimp only
        rw [hsolid hu, hsolid hv]
    | cons => rfl

theorem endOfList?_sameLine (h : SameLine t t') : endOfList? t' = endOfList? t := by
  have hbody := h.dropWhile (p := isHorizontalSpace) rfl rfl
  unfold endOfList?
  dsimp only
  rw [drop_blanks, drop_blanks, indentation_sameLine h]
  generalize indentation 0 t = found
  generalize t.dropWhile isHorizontalSpace = body, t'.dropWhile isHorizontalSpace = body' at hbody ⊢
  cases hbody with
  | nil => rfl
  | broken hu hv =>
      dsimp only
      rw [bne, bne, Text.beq_of_isLineBreak hu rfl, Text.beq_of_isLineBreak hv rfl]
      rfl
  | @cons u rest rest' hrest =>
      have hafter := hrest.dropWhile (p := isHorizontalSpace) rfl rfl
      dsimp only
      generalize rest.dropWhile isHorizontalSpace = after,
        rest'.dropWhile isHorizontalSpace = after' at hafter ⊢
      cases hafter with
      | nil => rfl
      | broken hu hv =>
          dsimp only
          rw [hu, hv]
      | cons => rfl

theorem isListLine_sameLine (h : SameLine t t') : isListLine t' = isListLine t := by
  rw [isListLine, isListLine, listMarker?_sameLine h, endOfList?_sameLine h]

end Line

/-! ### Lexemes -/

theorem Escape.match?_sameLine (h : SameLine t t') : match? t' = match? t := by
  cases h with
  | nil => rfl
  | broken hu hv =>
      rcases Text.isLineBreak_iff.1 hu with rfl | rfl <;>
        rcases Text.isLineBreak_iff.1 hv with rfl | rfl <;> rfl
  | @cons u t t' h =>
      unfold match?
      dsimp only
      rw [h.head?_eq (rfl : isLineBreak (unit ':') = false)]

/-- An escape stays on its line. -/
theorem Escape.isUnbroken_of_match? {name : Text} {length : Nat}
    (h : match? t = some (name, length)) : IsUnbroken (t.take length) := by
  cases t with
  | nil => cases h
  | cons u rest =>
      unfold match? at h
      dsimp only at h
      split at h
      · next hcolon =>
        split at h
        · next hnext =>
          cases h
          cases rest with
          | nil => cases eq_of_beq hnext
          | cons v rest =>
              rw [eq_of_beq hcolon, Option.some.inj (eq_of_beq hnext)]
              show IsUnbroken [unit ':', unit ':']
              decide
        · cases h
      · obtain ⟨sign, hsign, heq⟩ := Option.map_eq_some_iff.1 h
        cases heq
        have hu := List.find?_some hsign
        rw [← eq_of_beq hu]
        have hsigns : ∀ sign ∈ Escape.signs, isLineBreak (unit sign.1) = false := by decide
        exact List.forall_mem_singleton.2 (hsigns sign (List.mem_of_find?_eq_some hsign))

namespace Lexeme

variable {lexeme : Lexeme}

/-- A lexeme that takes no line feed, and nothing of a kind that could hold one. -/
structure OnLine (t : Text) (lexeme : Lexeme) : Prop where
  feed : lineFeed ∉ t.take lexeme.length
  solid : (lexeme.kind == .whiteSpace || lexeme.kind == .newParagraph) = false
  attributes : lexeme.attributes = []

theorem lineFeed_not_mem (h : IsUnbroken t) : lineFeed ∉ t := fun hmem =>
  Bool.noConfusion (h lineFeed hmem)

theorem isUnbroken_take_of_listMarker? {found : Line.ListMarker}
    (h : Line.listMarker? t = some found) :
    IsUnbroken (t.take (found.blanks + found.marker.length)) := by
  obtain ⟨u, rest, hdrop, htake, hmarker, -⟩ := Line.split_of_listMarker? h
  rw [List.take_add, hdrop, List.take_left, htake]
  refine List.forall_mem_append.2 ⟨Text.isUnbroken_takeWhile rfl rfl t, fun v hv => ?_⟩
  exact Text.not_isLineBreak (p := CodeUnit.isMarkerUnit) rfl rfl (hmarker v hv)

theorem listItem?_sameLine (h : SameLine t t') : listItem? t' = listItem? t := by
  unfold listItem?
  rw [Line.listMarker?_sameLine h]
  cases hfound : Line.listMarker? t with
  | none => rfl
  | some found =>
      have hafter := (h.split (isUnbroken_take_of_listMarker? hfound)).2
      have htail := hafter.takeWhile_eq (p := isHorizontalSpace) rfl rfl
      dsimp only [Option.map_some]
      rw [htail]

theorem isUnbroken_take_of_endOfList? {indent blanks : Nat}
    (h : Line.endOfList? t = some (indent, blanks)) : IsUnbroken (t.take (blanks + 1)) := by
  obtain ⟨rest, ht, rfl, -⟩ := Line.takeWhile_of_endOfList? h
  have hspace : IsUnbroken (t.takeWhile isHorizontalSpace) := Text.isUnbroken_takeWhile rfl rfl t
  generalize t.takeWhile isHorizontalSpace = run at ht hspace
  rw [ht, List.take_length_add_append]
  exact List.forall_mem_append.2 ⟨hspace, List.forall_mem_singleton.2 rfl⟩

theorem endList?_sameLine (h : SameLine t t') : endList? t' = endList? t := by
  unfold endList?
  rw [Line.endOfList?_sameLine h]
  cases hfound : Line.endOfList? t with
  | none => rfl
  | some found =>
      obtain ⟨indent, blanks⟩ := found
      have hafter := (h.split (isUnbroken_take_of_endOfList? hfound)).2
      have htail := hafter.takeWhile_eq (p := fun u => !isLineBreak u) rfl rfl
      have hbreak := hafter.drop_run (p := fun u => !isLineBreak u) rfl rfl
      dsimp only [Option.map_some]
      rw [htail, hbreak.isEmpty_eq]

theorem identifier?_sameLine (h : SameLine t t') : identifier? t' = identifier? t := by
  cases h with
  | nil => rfl
  | broken hu hv =>
      have hnone {u : CodeUnit} (hu : isLineBreak u) : CodeUnit.isIdentifierStart u = false :=
        Text.apply_isLineBreak (f := CodeUnit.isIdentifierStart) rfl hu
      unfold identifier?
      dsimp only
      rw [hnone hu, hnone hv]
      rfl
  | @cons u t t' h =>
      unfold identifier?
      dsimp only
      rw [(SameLine.cons u h).takeWhile_eq rfl rfl]

theorem command?_sameLine (u : CodeUnit) (h : SameLine t t') :
    command? (u :: t') = command? (u :: t) := by
  unfold command?
  dsimp only
  rw [Escape.match?_sameLine h, identifier?_sameLine h]
  split
  · rfl
  · cases h with
    | nil => rfl
    | broken hu hv t t' =>
        have hf {u : CodeUnit} (hu : isLineBreak u) : (u == unit 'f') = false :=
          Text.beq_of_isLineBreak hu rfl
        cases t <;> cases t' <;> simp only [hf hu, hf hv, Bool.false_and, Bool.false_eq_true, if_false]
    | cons v h =>
        cases h with
        | nil => rfl
        | broken hu hv =>
            have hbracket {u : CodeUnit} (hu : isLineBreak u) : formulaBrackets.contains u = false :=
              Text.apply_isLineBreak (f := formulaBrackets.contains) (by decide) hu
            dsimp only
            simp only [hbracket hu, hbracket hv, Bool.and_false, Bool.false_eq_true, if_false]
        | cons => rfl

theorem startsCommand_sameLine (u : CodeUnit) (h : SameLine t t') :
    startsCommand u t' = startsCommand u t := by
  rw [startsCommand, startsCommand, Escape.match?_sameLine h, h.any_head? rfl]

/-- The body of an entity is found again if it stays on its line. -/
theorem entityBody?_sameLine {u : CodeUnit} {body : Text} (h : SameLine t t')
    (hbody : IsUnbroken body) (hfound : entityBody? (u :: t) = some body) :
    entityBody? (u :: t') = some body := by
  have hwindow := h.take 39
  unfold entityBody? at hfound ⊢
  rw [entityWindow, List.take_succ_cons] at hfound ⊢
  dsimp only at hfound ⊢
  generalize t.take 39 = window, t'.take 39 = window' at hwindow hfound ⊢
  split at hfound
  · cases hfound
  · next hclosed =>
    obtain ⟨after, hsplit⟩ := Text.exists_of_drop_takeWhile hclosed
    rw [Option.some.inj hfound] at hsplit
    have hmem : ∀ v ∈ body, (v != unit ';') = true := by
      intro v hv
      rw [← Option.some.inj hfound] at hv
      exact List.mem_takeWhile_imp (p := (· != unit ';')) hv
    obtain ⟨after', hsplit', -⟩ := (hsplit ▸ hwindow).exists_append hbody rfl
    have hrun : window'.takeWhile (· != unit ';') = body := by
      rw [hsplit', List.takeWhile_append_of_pos hmem, List.takeWhile_cons]
      exact List.append_nil body
    rw [hrun, if_neg]
    rw [hsplit', List.drop_left]
    exact Bool.false_ne_true

/-- The bodies in two texts are the same or go on behind the line. -/
theorem entityBody?_cases {u : CodeUnit} (h : SameLine t t') :
    (∃ body, IsUnbroken body ∧ entityBody? (u :: t') = some body ∧
      entityBody? (u :: t) = some body) ∨
    (∀ body, entityBody? (u :: t') = some body → ¬ IsUnbroken body) ∧
      ∀ body, entityBody? (u :: t) = some body → ¬ IsUnbroken body := by
  by_cases hfound : ∃ body, IsUnbroken body ∧ entityBody? (u :: t) = some body
  · obtain ⟨body, hline, hbody⟩ := hfound
    exact .inl ⟨body, hline, entityBody?_sameLine h hline hbody, hbody⟩
  · refine .inr ⟨fun body hbody hline => hfound ⟨body, hline, ?_⟩, fun body hbody hline =>
      hfound ⟨body, hline, hbody⟩⟩
    exact entityBody?_sameLine h.symm hline hbody

theorem isUnbroken_of_isEntityUnit {body : Text} (h : ∀ v ∈ body, isEntityUnit v) :
    IsUnbroken body :=
  fun v hv => Text.not_isLineBreak (p := isEntityUnit) rfl rfl (h v hv)

theorem entity?_eq_none (h : ∀ body, entityBody? t = some body → ¬ IsUnbroken body) :
    entity? t = none := by
  unfold entity?
  cases hbody : entityBody? t with
  | none => rfl
  | some body =>
      have hbroken (hentity : isEntityNumber body ∨ isEntityName body) : False :=
        h body hbody (isUnbroken_of_isEntityUnit (isEntityUnit_of_isEntity hentity))
      have hnumber : ¬ isEntityNumber body = true := fun hnumber => hbroken (.inl hnumber)
      have hname : ¬ (isEntityName body && Symbol.isKnown body) = true := fun hname =>
        hbroken (.inr (Bool.and_eq_true_iff.1 hname).1)
      dsimp only
      rw [if_neg hnumber, if_neg hname]

theorem entity?_sameLine (u : CodeUnit) (h : SameLine t t') :
    entity? (u :: t') = entity? (u :: t) := by
  rcases entityBody?_cases (u := u) h with ⟨body, hline, hbody', hbody⟩ | ⟨ht', ht⟩
  · obtain ⟨v, after, hsplit⟩ := exists_of_entityBody? hbody
    obtain ⟨rfl, rfl⟩ := List.cons.inj hsplit
    obtain ⟨after', rfl, -⟩ := h.exists_append hline rfl
    unfold entity?
    rw [hbody', hbody]
    dsimp only
    rw [List.take_succ_cons, List.take_succ_cons, List.take_length_add_append,
      List.take_length_add_append]
    rfl
  · rw [entity?_eq_none ht', entity?_eq_none ht]

theorem startsEntity_eq_false (h : ∀ body, entityBody? t = some body → ¬ IsUnbroken body) :
    startsEntity t = false := by
  unfold startsEntity
  cases hbody : entityBody? t with
  | none => rfl
  | some body =>
      have hbroken (hunits : ∀ v ∈ body, isEntityUnit v) : False :=
        h body hbody (isUnbroken_of_isEntityUnit hunits)
      refine Bool.eq_false_iff.2 fun hstarts => ?_
      rcases Bool.or_eq_true_iff.1 hstarts with hname | hnumber
      · exact hbroken (isEntityUnit_of_name hname)
      · rcases body with _ | ⟨hash, _ | ⟨x, rest⟩⟩
        · cases hnumber
        · cases hnumber
        · obtain ⟨hhash, hdigits⟩ := Bool.and_eq_true_iff.1 hnumber
          exact hbroken (isEntityUnit_of_number hhash hdigits)

theorem startsEntity_sameLine (u : CodeUnit) (h : SameLine t t') :
    startsEntity (u :: t') = startsEntity (u :: t) := by
  rcases entityBody?_cases (u := u) h with ⟨body, -, hbody', hbody⟩ | ⟨ht', ht⟩
  · unfold startsEntity
    rw [hbody', hbody]
  · rw [startsEntity_eq_false ht', startsEntity_eq_false ht]

theorem address?_sameLine (h : SameLine t t') : address? t' = address? t := by
  have hwindow := h.take addressWindow
  have hscheme : ∀ scheme ∈ schemes, IsUnbroken (units scheme) := by decide
  unfold address?
  dsimp only
  rw [hwindow.takeWhile_eq (p := isAddressUnit) rfl rfl]
  generalize t.take addressWindow = window, t'.take addressWindow = window' at hwindow ⊢
  have hfind : (schemes.find? fun scheme => (units scheme).isPrefixOf window' &&
        (window'.drop (units scheme).length).head?.any isAddressUnit) =
      schemes.find? fun scheme => (units scheme).isPrefixOf window &&
        (window.drop (units scheme).length).head?.any isAddressUnit := by
    rw [← List.head?_filter, ← List.head?_filter]
    refine congrArg List.head? (List.filter_congr fun scheme hmem => ?_)
    rw [hwindow.isPrefixOf_eq (hscheme scheme hmem)]
    cases hprefix : (units scheme).isPrefixOf window with
    | false => rfl
    | true =>
        have htake := List.prefix_iff_eq_take.1 (List.isPrefixOf_iff_prefix.1 hprefix)
        have hdrop := (hwindow.split (htake ▸ hscheme scheme hmem)).2
        rw [hdrop.any_head? rfl]
  rw [hfind]

theorem domainLength_eq_zero {u : CodeUnit} (hu : isLineBreak u) (rest : Text) :
    domainLength (u :: rest) = 0 := by
  cases rest with
  | nil => rw [domainLength]; exact fun _ _ _ h => by cases h
  | cons v rest => rw [domainLength, Text.beq_of_isLineBreak hu rfl]; rfl

theorem domainLength_sameLine (h : SameLine t t') : domainLength t' = domainLength t := by
  -- one label at a time; a line break ends the last one
  induction t using domainLength.induct generalizing t' with
  | case1 dot u rest hdot label =>
      rename_i ih
      obtain ⟨hsep, hunit⟩ := Bool.and_eq_true_iff.1 hdot
      cases h with
      | broken hbreak => rw [Text.beq_of_isLineBreak hbreak rfl] at hsep; cases hsep
      | cons _ h =>
          cases h with
          | broken hbreak =>
              rw [Text.not_isLineBreak (p := isDomainUnit) rfl rfl hunit] at hbreak
              cases hbreak
          | cons _ h =>
              have hlabel := h.takeWhile_eq (p := isDomainUnit) rfl rfl
              have hafter := h.drop_run (p := isDomainUnit) rfl rfl
              rw [domainLength, domainLength, if_pos hdot, if_pos hdot]
              dsimp only
              rw [hlabel, ih hafter]
  | case2 dot u rest hdot =>
      cases h with
      | broken hu hv => rw [domainLength_eq_zero hu, domainLength_eq_zero hv]
      | cons _ h =>
          rw [domainLength, if_neg hdot]
          cases h with
          | broken hu hv =>
              have hlabel := Text.apply_isLineBreak (f := isDomainUnit) rfl hv
              rw [domainLength, hlabel, if_neg]
              rw [Bool.and_comm]
              exact Bool.false_ne_true
          | cons _ h => rw [domainLength, if_neg hdot]
  | case3 t hshort =>
      cases h with
      | nil => rfl
      | broken hu hv => rw [domainLength_eq_zero hu, domainLength_eq_zero hv]
      | @cons dot rest rest' h =>
          cases h with
          | nil => rfl
          | broken => exact absurd rfl (hshort _ _ _)
          | cons => exact absurd rfl (hshort _ _ _)

theorem isUnbroken_mail {window mailbox tail : Text} (hmailbox : IsUnbroken mailbox)
    (htake : mailbox = window.take mailbox.length)
    (hdrop : window.drop mailbox.length = unit '@' :: tail) :
    IsUnbroken (window.take (mailbox.length + 1 + (tail.takeWhile isDomainUnit).length +
      domainLength (tail.drop (tail.takeWhile isDomainUnit).length))) := by
  rw [Nat.add_assoc, Nat.add_assoc, List.take_add, hdrop, ← htake, Nat.add_comm 1,
    List.take_succ_cons, List.take_add,
    ← List.prefix_iff_eq_take.1 (List.takeWhile_prefix isDomainUnit)]
  refine List.forall_mem_append.2 ⟨hmailbox, List.forall_mem_cons.2 ⟨rfl, ?_⟩⟩
  refine List.forall_mem_append.2 ⟨Text.isUnbroken_takeWhile rfl rfl tail, fun u hu => ?_⟩
  exact Text.not_isLineBreak (p := isHostUnit) rfl rfl (isHostUnit_of_domainLength _ u hu)

theorem mail?_sameLine (h : SameLine t t') : mail? t' = mail? t := by
  have hwindow := h.take addressWindow
  unfold mail?
  dsimp only
  generalize t.take addressWindow = window, t'.take addressWindow = window' at hwindow ⊢
  rw [hwindow.takeWhile_eq (p := isMailboxUnit) rfl rfl]
  have hrest := hwindow.drop_run (p := isMailboxUnit) rfl rfl
  have hmailbox := Text.isUnbroken_takeWhile (p := isMailboxUnit) rfl rfl window
  have hprefix := List.prefix_iff_eq_take.1 (List.takeWhile_prefix (l := window) isMailboxUnit)
  generalize window.takeWhile isMailboxUnit = mailbox at hrest hmailbox hprefix ⊢
  generalize hdrop : window.drop mailbox.length = rest at hrest ⊢
  generalize window'.drop mailbox.length = rest' at hrest ⊢
  have hat {u : CodeUnit} (hu : isLineBreak u) : (u != unit '@') = true := by
    rw [bne, Text.beq_of_isLineBreak hu rfl]
    rfl
  cases hrest with
  | nil => rfl
  | broken hu hv =>
      dsimp only
      rw [hat hu, hat hv]
      simp
  | @cons at_ tail tail' htail =>
      dsimp only
      rw [htail.takeWhile_eq (p := isDomainUnit) rfl rfl,
        domainLength_sameLine (htail.drop_run (p := isDomainUnit) rfl rfl)]
      split
      · rfl
      · next hshape =>
        have hat : at_ = unit '@' := by
          simp only [Bool.or_eq_true, not_or, bne_iff_ne, not_not] at hshape
          exact hshape.1.1.2
        rw [(hwindow.split (isUnbroken_mail hmailbox hprefix (hat ▸ hdrop))).1]

theorem endsWord_sameLine (u : CodeUnit) (h : SameLine t t') :
    Tag.endsWord (u :: t') = Tag.endsWord (u :: t) := by
  have hwindow := h.take 19
  unfold Tag.endsWord
  rw [Tag.lookAhead, List.take_succ_cons, List.take_succ_cons]
  dsimp only
  generalize t.take 19 = window, t'.take 19 = window' at hwindow ⊢
  have hbody : SameLine (if window.head? == some (unit '/') then window.drop 1 else window)
      (if window'.head? == some (unit '/') then window'.drop 1 else window') := by
    rw [hwindow.head?_eq (rfl : isLineBreak (unit '/') = false)]
    split
    · next hslash =>
      cases hwindow with
      | nil => exact .nil
      | broken hu => rw [Option.some.inj (eq_of_beq hslash)] at hu; cases hu
      | cons _ hrest => exact hrest
    · exact hwindow
  generalize (if window.head? == some (unit '/') then window.drop 1 else window) = body,
    (if window'.head? == some (unit '/') then window'.drop 1 else window') = body' at hbody ⊢
  have hafter := hbody.drop_run (p := fun u => CodeUnit.isLetter u || CodeUnit.isDigit u) rfl rfl
  rw [hbody.takeWhile_eq (p := fun u => CodeUnit.isLetter u || CodeUnit.isDigit u) rfl rfl]
  generalize body.takeWhile (fun u => CodeUnit.isLetter u || CodeUnit.isDigit u) = name at hafter ⊢
  generalize body.drop name.length = after, body'.drop name.length = after' at hafter ⊢
  cases hafter with
  | nil => rfl
  | broken hu hv =>
      have hblank {u : CodeUnit} (hu : isLineBreak u) : CodeUnit.isBlank u = true :=
        Text.apply_isLineBreak (f := CodeUnit.isBlank) rfl hu
      cases name.head? with
      | none => rfl
      | some first =>
          dsimp only [List.head?_cons]
          rw [hblank hu, hblank hv]
          rfl
  | cons => rfl

theorem wordTail_sameLine (h : SameLine t t') : wordTail t' = wordTail t := by
  induction h with
  | nil => rfl
  | broken hu hv =>
      have hspace {u : CodeUnit} (hu : isLineBreak u) : CodeUnit.isSpace u = true :=
        Text.apply_isLineBreak (f := CodeUnit.isSpace) rfl hu
      rw [wordTail, wordTail, hspace hu, hspace hv]
      rfl
  | cons u h ih =>
      rw [wordTail, wordTail, startsCommand_sameLine u h, endsWord_sameLine u h,
        startsEntity_sameLine u h, ih]

/-! ### What is taken of a line -/

theorem listItem?_onLine (h : listItem? t = some lexeme) : lexeme.OnLine t := by
  obtain ⟨found, hfound, rfl⟩ := Option.map_eq_some_iff.1 h
  refine ⟨lineFeed_not_mem ?_, rfl, rfl⟩
  have hbefore := isUnbroken_take_of_listMarker? hfound
  dsimp only
  rw [List.take_add, ← List.prefix_iff_eq_take.1 (List.takeWhile_prefix _)]
  exact List.forall_mem_append.2 ⟨hbefore, Text.isUnbroken_takeWhile rfl rfl _⟩

theorem command?_onLine {u : CodeUnit} (hu : isLineBreak u = false)
    (h : command? (u :: t) = some lexeme) : lexeme.OnLine (u :: t) := by
  have hsign {n : Nat} (hn : IsUnbroken (t.take n)) : lineFeed ∉ (u :: t).take (n + 1) :=
    lineFeed_not_mem (Text.isUnbroken_cons.2 ⟨hu, hn⟩)
  obtain ⟨_, _, ⟨⟩, ⟨name, length, hescape, rfl⟩ | ⟨bracket, more, rfl, hbracket, rfl⟩ | rfl⟩ :=
    command?_shape h
  · exact ⟨hsign (Escape.isUnbroken_of_match? hescape), rfl, rfl⟩
  · refine ⟨hsign (n := 2) (Text.isUnbroken_cons.2 ⟨rfl, List.forall_mem_singleton.2 ?_⟩), rfl, rfl⟩
    exact Text.not_isLineBreak (p := formulaBrackets.contains) (by decide) (by decide) hbracket
  · refine ⟨hsign ?_, rfl, rfl⟩
    rw [← List.prefix_iff_eq_take.1 (List.takeWhile_prefix _)]
    exact Text.isUnbroken_takeWhile rfl rfl _

theorem entity?_onLine {u : CodeUnit} (hu : isLineBreak u = false)
    (h : entity? (u :: t) = some lexeme) : lexeme.OnLine (u :: t) := by
  obtain ⟨body, kind, value, hbody, rfl, hform⟩ := entity?_shape h
  obtain ⟨_, after, ⟨⟩⟩ := exists_of_entityBody? hbody
  refine ⟨lineFeed_not_mem ?_, ?_, rfl⟩
  · rw [List.take_succ_cons, List.take_length_add_append]
    refine Text.isUnbroken_cons.2 ⟨hu, List.forall_mem_append.2 ⟨?_, ?_⟩⟩
    · exact isUnbroken_of_isEntityUnit (isEntityUnit_of_isEntity (hform.imp And.left And.left))
    · exact List.forall_mem_singleton.2 rfl
  · rcases hform with ⟨-, rfl, -⟩ | ⟨-, rfl, -⟩ <;> rfl

theorem address?_onLine (h : address? t = some lexeme) : lexeme.OnLine t := by
  obtain ⟨_, -, -, _, _, rfl, rfl, rfl⟩ := address?_shape h
  refine ⟨lineFeed_not_mem ?_, rfl, rfl⟩
  have hrun : Text.dropWhileRight isTrailingPunctuation
      ((t.take addressWindow).takeWhile isAddressUnit) <+:
      (t.take addressWindow).takeWhile isAddressUnit := List.rdropWhile_prefix _ _
  have hprefix := hrun.trans ((List.takeWhile_prefix _).trans (List.take_prefix _ _))
  rw [← List.prefix_iff_eq_take.1 hprefix]
  exact fun u hu => Text.isUnbroken_takeWhile rfl rfl _ u (hrun.subset hu)

theorem mail?_onLine (h : mail? t = some lexeme) : lexeme.OnLine t := by
  have hle := length_le_of_mail? h
  obtain ⟨_, tail, _, _, rfl, hdrop, rfl, rfl, -, rfl⟩ := mail?_shape h
  refine ⟨lineFeed_not_mem ?_, rfl, rfl⟩
  have hline := isUnbroken_mail (Text.isUnbroken_takeWhile (p := isMailboxUnit) rfl rfl _)
    (List.prefix_iff_eq_take.1 (List.takeWhile_prefix _)) hdrop
  rw [List.length_take] at hle
  rwa [List.take_take, min_eq_left (hle.trans (min_le_left ..))] at hline

theorem isUnbroken_take_wordTail (t : Text) : IsUnbroken (t.take (wordTail t)) := by
  induction t with
  | nil => exact fun u hu => absurd hu List.not_mem_nil
  | cons u rest ih =>
      rw [wordTail]
      split
      · exact fun u hu => absurd hu List.not_mem_nil
      · next hgoes =>
        simp only [Bool.or_eq_true, not_or, Bool.not_eq_true] at hgoes
        refine Text.isUnbroken_cons.2 ⟨?_, ih⟩
        exact (Bool.or_eq_false_iff.1 hgoes.1.1.1).2

theorem word_onLine {u : CodeUnit} (hu : isLineBreak u = false) : (word (u :: t)).OnLine (u :: t) := by
  refine ⟨lineFeed_not_mem ?_, rfl, rfl⟩
  rw [word, Nat.add_comm]
  exact Text.isUnbroken_cons.2 ⟨hu, isUnbroken_take_wordTail t⟩

end Lexeme

end DocMarkup
