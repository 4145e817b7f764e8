import DocMarkup.Proofs.Scanner.SameLine

/-!
Scanning texts with line ends of two units.  Every lexeme takes as much of the text as before, with
the carriage returns in it; only the line that ends a list takes one unit of its line end, whatever
that consists of.
-/

namespace DocMarkup

open CodeUnit (isLineBreak lineFeed carriageReturn)
open Text (crlf crlfOffset crlf_cons crlf_append crlf_nil IsUnbroken)

/-- Behind a run of units that line ends do not belong to. -/
theorem Text.drop_run_crlf {p : CodeUnit → Bool} (hreturn : p carriageReturn = false)
    (hfeed : p lineFeed = false) (t : Text) :
    (crlf t).drop (t.takeWhile p).length = crlf (t.drop (t.takeWhile p).length) := by
  have hrun := drop_length_takeWhile p (crlf t)
  rwa [takeWhile_crlf_eq hreturn hfeed, dropWhile_crlf (hreturn.trans hfeed.symm),
    ← drop_length_takeWhile] at hrun

/-! ### Tags -/

namespace Tag

variable {t : Text}

theorem attributeName_prefix (t : Text) : attributeName t <+: t := by
  induction t with
  | nil => exact List.prefix_refl _
  | cons u rest ih =>
      rw [attributeName]
      split
      · exact List.nil_prefix
      · exact List.prefix_cons_inj _ |>.2 ih

theorem lineFeed_not_mem_attributeName (t : Text) : lineFeed ∉ attributeName t := by
  induction t with
  | nil => exact List.not_mem_nil
  | cons u rest ih =>
      rw [attributeName]
      split
      · exact List.not_mem_nil
      · next hname =>
        simp only [Bool.or_eq_true, not_or] at hname
        rw [List.mem_cons, not_or]
        refine ⟨?_, ih⟩
        rintro rfl
        exact hname.1.1.1 rfl

theorem attributeName_crlf (t : Text) : attributeName (crlf t) = attributeName t := by
  induction t with
  | nil => rfl
  | cons u rest ih =>
      by_cases hu : u = lineFeed
      · rw [hu]
        rfl
      · rw [crlf_cons hu, attributeName, attributeName, ih,
          Text.head?_crlf_eq (by decide) (by decide)]

theorem drop_attributeName (t : Text) :
    (crlf t).drop (attributeName t).length = crlf (t.drop (attributeName t).length) := by
  have hprefix := attributeName_prefix t
  have hoffset : crlfOffset t (attributeName t).length = (attributeName t).length := by
    refine Text.crlfOffset_eq_self ?_ hprefix.length_le
    rw [← List.prefix_iff_eq_take.1 hprefix]
    exact lineFeed_not_mem_attributeName t
  rw [← Text.drop_crlf, hoffset]

theorem attributeValue?_crlf (t : Text) :
    attributeValue? (crlf t) = (attributeValue? t).map (Prod.map crlf crlf) := by
  cases t with
  | nil => rfl
  | cons u rest =>
      by_cases hu : u = lineFeed
      · rw [hu]
        rfl
      · rw [crlf_cons hu]
        unfold attributeValue?
        dsimp only
        split
        · rw [← crlf_cons hu]
          rfl
        · cases rest with
          | nil => rfl
          | cons quote body =>
              by_cases hquote : quote = lineFeed
              · rw [hquote]
                rfl
              · rw [crlf_cons hquote]
                dsimp only
                split
                · next hquoted =>
                  have hends : (carriageReturn != quote) = (lineFeed != quote) := by
                    rcases Bool.or_eq_true_iff.1 hquoted with heq | heq <;>
                      (rw [eq_of_beq heq]; rfl)
                  rw [Text.takeWhile_crlf (p := (· != quote)) hends,
                    Text.dropWhile_crlf (p := (· != quote)) hends]
                  cases hafter : body.dropWhile (· != quote) with
                  | nil => rfl
                  | cons v after =>
                      have hv := List.head?_dropWhile_not (· != quote) body
                      rw [hafter] at hv
                      obtain rfl : v = quote := by simpa using hv
                      rw [crlf_cons hquote]
                      rfl
                · rw [← crlf_cons hquote, Text.takeWhile_crlf (by rfl), Text.dropWhile_crlf (by rfl)]
                  rfl

theorem attributes?_of_nil (h : t.dropWhile CodeUnit.isSpace = []) : attributes? t = none := by
  unfold attributes?
  split
  · rfl
  · next u rest ht => rw [h] at ht; cases ht

/-- One attribute, and the others behind it. -/
theorem attributes?_of_cons {u : CodeUnit} {rest : Text}
    (h : t.dropWhile CodeUnit.isSpace = u :: rest) :
    attributes? t =
      if u == unit '>' then some ([], false, rest)
      else if u == unit '/' && rest.head? == some (unit '>') then some ([], true, rest.drop 1)
      else if attributeName (u :: rest) = [] then none
      else (attributeValue? ((u :: rest).drop (attributeName (u :: rest)).length)).bind fun found =>
        (attributes? found.2).map fun more =>
          ({ name := Text.toLower (attributeName (u :: rest)), value := found.1 } :: more.1,
            more.2.1, more.2.2) := by
  rw [attributes?]
  split
  · next ht => rw [h] at ht; cases ht
  · next v more ht =>
    obtain ⟨rfl, rfl⟩ := List.cons.inj (h.symm.trans ht)
    dsimp only
    split
    · rfl
    · split
      · rfl
      · split
        · rfl
        · split
          · next hvalue => rw [hvalue]; rfl
          · next value after hvalue => rw [hvalue]; rfl

theorem attributes?_crlf (t : Text) :
    attributes? (crlf t) =
      (attributes? t).map fun found => (found.1.mapValues crlf, found.2.1, crlf found.2.2) := by
  -- every attribute that is read leaves less text
  induction hn : t.length using Nat.strongRecOn generalizing t with
  | _ n ih =>
      subst hn
      have hspaces : (crlf t).dropWhile CodeUnit.isSpace = crlf (t.dropWhile CodeUnit.isSpace) :=
        Text.dropWhile_crlf (by rfl) t
      cases ht : t.dropWhile CodeUnit.isSpace with
      | nil =>
          rw [attributes?_of_nil ht, attributes?_of_nil (by rw [hspaces, ht, crlf_nil])]
          rfl
      | cons u rest =>
          have hu : u ≠ lineFeed := by
            rintro rfl
            have hsolid := List.head?_dropWhile_not CodeUnit.isSpace t
            rw [ht] at hsolid
            exact Bool.noConfusion (show true = false from hsolid)
          have hname := attributeName_crlf (u :: rest)
          have hdrop := drop_attributeName (u :: rest)
          rw [ht, crlf_cons hu] at hspaces
          rw [crlf_cons hu] at hname hdrop
          rw [attributes?_of_cons ht, attributes?_of_cons hspaces, hname, hdrop,
            attributeValue?_crlf, Text.head?_crlf_eq (by decide) (by decide)]
          split
          · rfl
          · split
            · next hslash =>
              cases rest with
              | nil => rfl
              | cons v rest =>
                  obtain rfl : v = unit '>' := by
                    simpa using (Bool.and_eq_true_iff.1 hslash).2
                  rw [crlf_cons (by decide)]
                  rfl
            · split
              · rfl
              · next hne =>
                cases hvalue : attributeValue? ((u :: rest).drop (attributeName (u :: rest)).length) with
                | none => rfl
                | some found =>
                    have hlt := length_lt_of_attribute ht hne (List.cons_ne_nil _ _) hvalue
                    have hmore := ih _ hlt found.2 rfl
                    show (attributes? (crlf found.2)).map _ = ((attributes? found.2).map _).map _
                    rw [hmore]
                    simp only [Option.map_map]
                    rfl

theorem suffix_of_attributes? {found : Attributes × Bool × Text} (h : attributes? t = some found) :
    found.2.2 <:+ t := by
  obtain ⟨attributes, selfClosing, rest⟩ := found
  exact (List.suffix_cons _ _).trans (closed_of_attributes? h)

/-- The same tag with the carriage returns in its attributes. -/
def Found.crlf (t : Text) (found : Found) : Found :=
  { found with
    attributes := found.attributes.mapValues Text.crlf
    length := crlfOffset t found.length }

theorem match?_crlf {u : CodeUnit} (hu : u ≠ lineFeed) (rest : Text) :
    match? (u :: crlf rest) = (match? (u :: rest)).map (Found.crlf (u :: rest)) := by
  have hbody : (if (crlf rest).head? == some (unit '/') then (crlf rest).drop 1 else crlf rest) =
      crlf (if rest.head? == some (unit '/') then rest.drop 1 else rest) := by
    rw [Text.head?_crlf_eq (by decide) (by decide)]
    split
    · next hslash =>
      cases rest with
      | nil => rfl
      | cons v rest =>
          rw [Option.some.inj (eq_of_beq hslash), crlf_cons (by decide)]
          rfl
    · rfl
  have hsuffix : (if rest.head? == some (unit '/') then rest.drop 1 else rest) <:+ rest := by
    split
    · exact List.drop_suffix 1 rest
    · exact List.suffix_refl rest
  unfold match?
  dsimp only
  rw [hbody, Text.head?_crlf_eq (by decide) (by decide)]
  generalize (if rest.head? == some (unit '/') then rest.drop 1 else rest) = body at hsuffix ⊢
  rw [Text.takeWhile_crlf_eq (p := CodeUnit.isIdentifierChar) (by rfl) (by rfl)]
  split
  · rfl
  · rw [Text.drop_run_crlf (p := CodeUnit.isIdentifierChar) (by rfl) (by rfl), attributes?_crlf]
    cases hfound : attributes? (body.drop (body.takeWhile CodeUnit.isIdentifierChar).length) with
    | none => rfl
    | some found =>
        obtain ⟨before, rfl⟩ :=
          ((suffix_of_attributes? hfound).trans (List.drop_suffix _ _)).trans hsuffix
        -- a tag is as long as what is left of the text behind it tells
        have hlength : crlfOffset (u :: (before ++ found.2.2))
            ((before ++ found.2.2).length + 1 - found.2.2.length) =
            (crlf (before ++ found.2.2)).length + 1 - (crlf found.2.2).length := by
          have hcount : (before ++ found.2.2).length + 1 - found.2.2.length =
              (u :: before).length := by
            rw [List.length_append, List.length_cons]
            omega
          rw [hcount, crlfOffset, ← List.cons_append, List.take_left, crlf_cons hu, crlf_append,
            List.length_append, List.length_cons]
          omega
        simp only [Option.map_some, Found.crlf, hlength]

end Tag

/-! ### Lexemes -/

namespace Lexeme

variable {t : Text} {lexeme : Lexeme}

/-- The same lexeme in the text with carriage returns.  Only white space is kept as it was
written. -/
def crlf (t : Text) (lexeme : Lexeme) : Lexeme :=
  { lexeme with
    length := crlfOffset t lexeme.length
    value :=
      if lexeme.kind == .whiteSpace || lexeme.kind == .newParagraph then Text.crlf lexeme.value
      else lexeme.value
    attributes := lexeme.attributes.mapValues Text.crlf }

theorem OnLine.crlf_eq (h : lexeme.OnLine t) (hfits : lexeme.Fits t) : lexeme.crlf t = lexeme := by
  have hlength := Text.crlfOffset_eq_self h.feed hfits.length_le
  have hvalues : lexeme.attributes.mapValues Text.crlf = lexeme.attributes := by
    rw [h.attributes]
    rfl
  unfold crlf
  rw [hlength, h.solid, hvalues]
  rfl

theorem isListLine_crlf (t : Text) : Line.isListLine (Text.crlf t) = Line.isListLine t :=
  Line.isListLine_sameLine (Text.sameLine_crlf t)

/-- Lexemes that stay on their line are found again. -/
theorem OnLine.map_crlf {found found' : Option Lexeme} (hsame : found' = found)
    (h : ∀ lexeme, found = some lexeme → lexeme.OnLine t ∧ lexeme.Fits t) :
    found' = found.map (crlf t) := by
  rw [hsame]
  cases found with
  | none => rfl
  | some lexeme =>
      obtain ⟨honline, hfits⟩ := h lexeme rfl
      rw [Option.map_some, honline.crlf_eq hfits]

/-- The same run of white space with the carriage returns in it. -/
def Gap.crlf (t : Text) (found : Gap) : Gap :=
  { found with
    length := crlfOffset t found.length
    lastLine := Text.crlf found.lastLine }

theorem gap_crlf (insidePre : Bool) (lastLine t : Text) :
    gap insidePre (Text.crlf lastLine) (Text.crlf t) = (gap insidePre lastLine t).crlf t := by
  induction t generalizing lastLine with
  | nil => rfl
  | cons u rest ih =>
      by_cases hu : u = lineFeed
      · have hreturn (s : Text) : gap insidePre (Text.crlf lastLine) (carriageReturn :: s) =
            { gap insidePre (Text.crlf lastLine) s with
              length := (gap insidePre (Text.crlf lastLine) s).length + 1 } := rfl
        have hoffset (n : Nat) : crlfOffset (lineFeed :: rest) (n + 1) = crlfOffset rest n + 2 := by
          rw [Text.crlfOffset_succ, Nat.add_comm]
          rfl
        have hspace : ¬ (!CodeUnit.isSpace lineFeed) = true := by decide
        rw [hu, Text.crlf_lineFeed, hreturn, gap, gap, isListLine_crlf, ih, ih, if_neg hspace,
          if_neg hspace]
        split
        · split
          · rfl
          · simp only [Gap.crlf, hoffset]
        · simp only [Gap.crlf, hoffset]
      · have hbreak : ¬ (u == lineFeed && !insidePre) = true := by simp [hu]
        have hoffset (n : Nat) : crlfOffset (u :: rest) (n + 1) = crlfOffset rest n + 1 := by
          rw [Text.crlfOffset_succ, crlf_cons hu, Nat.add_comm]
          rfl
        rw [crlf_cons hu, gap, gap, if_neg hbreak, if_neg hbreak, ih]
        split
        · rfl
        · simp only [Gap.crlf, hoffset]

theorem whiteSpace_crlf (insidePre insideList : Bool) (t : Text) :
    whiteSpace insidePre insideList (Text.crlf t) = (whiteSpace insidePre insideList t).crlf t := by
  have hindent (lastLine : Text) :
      Line.indentation 0 (Text.crlf lastLine) = Line.indentation 0 lastLine :=
    Line.indentation_sameLine (Text.sameLine_crlf lastLine) 0
  unfold whiteSpace
  rw [gap_crlf]
  dsimp only [Gap.crlf]
  rw [hindent, Text.take_crlf]
  split <;> rfl

/-- A unit of the text of a keyword. -/
def isKeywordUnit (u : CodeUnit) : Bool := u != lineFeed && u != unit '$'

/-- The text of a keyword is closed on its line, or it is not closed at all. -/
theorem keywordBody_crlf (t : Text) :
    (((Text.crlf t).drop ((Text.crlf t).takeWhile isKeywordUnit).length).head? == some (unit '$')) =
        ((t.drop (t.takeWhile isKeywordUnit).length).head? == some (unit '$')) ∧
      ((t.drop (t.takeWhile isKeywordUnit).length).head? == some (unit '$') →
        (Text.crlf t).takeWhile isKeywordUnit = t.takeWhile isKeywordUnit) := by
  induction t with
  | nil => exact ⟨rfl, fun _ => rfl⟩
  | cons u rest ih =>
      by_cases hu : u = lineFeed
      · rw [hu, Text.crlf_lineFeed]
        exact ⟨rfl, fun hclosed => Bool.noConfusion (show false = true from hclosed)⟩
      · rw [crlf_cons hu, List.takeWhile_cons, List.takeWhile_cons]
        split
        · exact ⟨ih.1, fun hclosed => congrArg (u :: ·) (ih.2 hclosed)⟩
        · exact ⟨rfl, fun _ => rfl⟩

theorem keyword?_sameText (u : CodeUnit) (rest : Text) :
    keyword? (u :: Text.crlf rest) = keyword? (u :: rest) := by
  unfold keyword?
  dsimp only
  rw [Text.takeWhile_crlf_eq (p := CodeUnit.isLetter) (by rfl) (by rfl),
    Text.drop_run_crlf (p := CodeUnit.isLetter) (by rfl) (by rfl)]
  cases rest.drop (rest.takeWhile CodeUnit.isLetter).length with
  | nil => rfl
  | cons colon tail =>
      by_cases hcolon : colon = lineFeed
      · have hnone : (lineFeed != unit ':') = true := by decide
        have hnone' : (carriageReturn != unit ':') = true := by decide
        rw [hcolon, Text.crlf_lineFeed]
        dsimp only
        rw [hnone, hnone']
        simp
      · rw [crlf_cons hcolon]
        obtain ⟨hdollar, hbody⟩ := keywordBody_crlf tail
        dsimp only
        have hunits : (fun v : CodeUnit => v != lineFeed && v != unit '$') = isKeywordUnit := rfl
        simp only [hunits]
        simp only [bne, hdollar]
        by_cases hclosed : (tail.drop (tail.takeWhile isKeywordUnit).length).head? == some (unit '$')
        · rw [hbody hclosed]
        · simp only [Bool.not_eq_true] at hclosed
          simp only [hclosed, Bool.not_false, Bool.or_true, if_true]

theorem tag?_crlf {u : CodeUnit} (hu : u ≠ lineFeed) (rest : Text) :
    tag? (u :: Text.crlf rest) = (tag? (u :: rest)).map (crlf (u :: rest)) := by
  unfold tag?
  rw [Tag.match?_crlf hu, Option.map_map, Option.map_map]
  refine congrArg (Option.map · _) (funext fun found => ?_)
  cases hend : found.isEnd <;> simp [crlf, Tag.Found.crlf, hend]

theorem commentLength?_crlf (t : Text) :
    commentLength? (Text.crlf t) = (commentLength? t).map (crlfOffset t) := by
  unfold commentLength?
  rw [Text.isPrefixOf_crlf (by decide)]
  split
  · next hopens =>
    obtain ⟨rest, rfl⟩ := List.isPrefixOf_iff_prefix.1 hopens
    have hopening : Text.crlf (units "<!--") = units "<!--" := by decide
    have hdrop (s : Text) : (units "<!--" ++ s).drop 4 = s := List.drop_left' rfl
    have hclosing : IsUnbroken (units "-->") := by decide
    rw [crlf_append, hopening, hdrop, hdrop, Text.indexOf?_crlf hclosing (by decide)]
    cases hfound : Text.indexOf? (units "-->") rest with
    | none =>
        dsimp only [Option.map_none, Option.map_some]
        rw [Text.crlfOffset_length, crlf_append, hopening]
    | some i =>
        obtain ⟨after, hafter⟩ := (Text.of_indexOf?_eq_some hfound).1
        dsimp only [Option.map_some]
        have hsplit : i + 7 = 4 + (i + 3) := by omega
        have hend : crlfOffset (rest.drop i) 3 = 3 := by
          rw [← hafter]
          rfl
        rw [hsplit, Text.crlfOffset_add, hdrop, Text.crlfOffset_add, hend]
        show some _ = some (4 + (crlfOffset rest i + 3))
        congr 1
        omega
  · rfl

theorem keyword?_onLine {u : CodeUnit} {rest : Text} (hu : u ≠ lineFeed)
    (h : keyword? (u :: rest) = some lexeme) : lexeme.OnLine (u :: rest) := by
  obtain ⟨_, name, body, after, ⟨⟩, hletters, hbody, rfl⟩ := keyword?_shape h
  refine ⟨?_, rfl, rfl⟩
  have hname : IsUnbroken name := fun v hv =>
    Text.not_isLineBreak (p := CodeUnit.isLetter) rfl rfl (hletters v hv)
  have hall : u :: (name ++ unit ':' :: (body ++ unit '$' :: after)) =
      u :: (name ++ unit ':' :: (body ++ [unit '$'])) ++ after := by simp
  rw [hall, List.take_left' (by simp; omega)]
  simp only [List.mem_cons, List.mem_append, List.not_mem_nil, not_or, or_false]
  exact ⟨Ne.symm hu, lineFeed_not_mem hname, by decide, hbody, by decide⟩

theorem marked?_crlf {u : CodeUnit} (hu : isLineBreak u = false) (rest : Text) :
    marked? (u :: Text.crlf rest) = (marked? (u :: rest)).map (crlf (u :: rest)) := by
  have hfeed := (Text.ne_of_not_isLineBreak hu).1
  have hline := Text.sameLine_crlf rest
  simp only [marked?]
  split
  · exact OnLine.map_crlf (command?_sameLine u hline) fun lexeme h =>
      ⟨command?_onLine hu h, command?_fits h⟩
  · split
    · exact tag?_crlf hfeed rest
    · split
      · exact OnLine.map_crlf (entity?_sameLine u hline) fun lexeme h =>
          ⟨entity?_onLine hu h, entity?_fits h⟩
      · split
        · exact OnLine.map_crlf (keyword?_sameText u rest) fun lexeme h =>
            ⟨keyword?_onLine hfeed h, keyword?_fits h⟩
        · rfl

theorem marked?_named {u : CodeUnit} {rest : Text} (hu : isLineBreak u = false)
    (h : marked? (u :: rest) = some lexeme)
    (hkind : lexeme.kind = .command ∨ lexeme.kind = .keyword) :
    lineFeed ∉ (u :: rest).take lexeme.length := by
  rcases marked?_forms h with ⟨_, _, ⟨⟩, -, hcommand⟩ | htag | hentity | hkeyword
  · exact (command?_onLine hu hcommand).feed
  · rcases tag?_kind htag with htag | htag <;>
      rcases hkind with hkind | hkind <;> cases hkind.symm.trans htag
  · exact (entity?_onLine hu hentity).feed
  · exact (keyword?_onLine (Text.ne_of_not_isLineBreak hu).1 hkeyword).feed

theorem endList?_onLine (h : endList? t = some lexeme) (hfeed : lineFeed ∉ t.take lexeme.length) :
    lexeme.OnLine t := by
  obtain ⟨found, -, rfl⟩ := Option.map_eq_some_iff.1 h
  exact ⟨hfeed, rfl, rfl⟩

theorem plain_crlf {u : CodeUnit} (hu : isLineBreak u = false) (rest : Text) :
    plain (u :: Text.crlf rest) = (plain (u :: rest)).crlf (u :: rest) := by
  have hline := Text.SameLine.cons u (Text.sameLine_crlf rest)
  have haddress := OnLine.map_crlf (address?_sameLine hline) fun lexeme h =>
    ⟨address?_onLine h, address?_fits h⟩
  have hmail := OnLine.map_crlf (mail?_sameLine hline) fun lexeme h =>
    ⟨mail?_onLine h, mail?_fits h⟩
  have hword : word (u :: Text.crlf rest) = (word (u :: rest)).crlf (u :: rest) := by
    have htail := wordTail_sameLine (Text.sameLine_crlf rest)
    have htake := (hline.split (n := 1 + wordTail rest) (by
      rw [Nat.add_comm]
      exact Text.isUnbroken_cons.2 ⟨hu, isUnbroken_take_wordTail rest⟩)).1
    rw [(word_onLine hu).crlf_eq (word_fits (List.cons_ne_nil u rest))]
    have hdrop (s : Text) : (u :: s).drop 1 = s := rfl
    unfold word
    rw [hdrop, hdrop, htail]
    dsimp only
    rw [htake]
  unfold plain
  rw [marked?_crlf hu, haddress, hmail, hword]
  cases marked? (u :: rest) with
  | some lexeme => rfl
  | none =>
      cases address? (u :: rest) with
      | some lexeme => rfl
      | none => cases mail? (u :: rest) <;> rfl

/-- A lexeme grows by the carriage returns in it, unless it ends a list on a line that goes on. -/
theorem next_crlf (insidePre insideList atLineStart : Bool) (hne : t ≠ [])
    (hlist : (next insidePre insideList atLineStart t).kind = .endList →
      lineFeed ∉ t.take (next insidePre insideList atLineStart t).length) :
    next insidePre insideList atLineStart (Text.crlf t) =
      (next insidePre insideList atLineStart t).crlf t := by
  have hfits := next_fits insidePre insideList atLineStart hne
  unfold next at hlist hfits ⊢
  dsimp only at hlist hfits ⊢
  rw [listItem?_sameLine (Text.sameLine_crlf t), endList?_sameLine (Text.sameLine_crlf t)]
  split
  · next lexeme hline =>
    rw [hline] at hlist hfits
    dsimp only at hlist hfits
    refine (OnLine.crlf_eq ?_ hfits).symm
    split at hline
    · rcases Option.or_eq_some_iff.1 hline with hitem | ⟨-, hend⟩
      · exact listItem?_onLine hitem
      · refine endList?_onLine hend (hlist ?_)
        obtain ⟨found, -, rfl⟩ := Option.map_eq_some_iff.1 hend
        rfl
    · cases hline
  · rw [Text.any_head?_crlf (by rfl)]
    split
    · exact whiteSpace_crlf ..
    · next hsolid =>
      cases t with
      | nil => exact absurd rfl hne
      | cons u rest =>
          have hu : isLineBreak u = false := by
            simp only [List.head?_cons, Option.any_some, CodeUnit.isSpace, Bool.or_eq_true,
              not_or, Bool.not_eq_true] at hsolid
            exact hsolid.2
          rw [crlf_cons (Text.ne_of_not_isLineBreak hu).1]
          exact plain_crlf hu rest

/-- Commands and keywords stay on their line. -/
theorem next_named (insidePre insideList atLineStart : Bool) (hne : t ≠ [])
    (hkind : (next insidePre insideList atLineStart t).kind = .command ∨
      (next insidePre insideList atLineStart t).kind = .keyword) :
    lineFeed ∉ t.take (next insidePre insideList atLineStart t).length := by
  rcases next_forms insidePre insideList atLineStart t with
    ⟨-, -, hitem | hend⟩ | ⟨-, heq⟩ | ⟨hspace, heq⟩
  · exact (listItem?_onLine hitem).feed
  · obtain ⟨found, -, hfound⟩ := Option.map_eq_some_iff.1 hend
    rw [← hfound] at hkind
    rcases hkind with hkind | hkind <;> cases hkind
  · rw [heq] at hkind
    rcases whiteSpace_kind insidePre insideList t with hblank | hblank <;>
      rcases hkind with hkind | hkind <;> cases hkind.symm.trans hblank
  · rw [heq] at hkind ⊢
    cases t with
    | nil => exact absurd rfl hne
    | cons u rest =>
        have hu : isLineBreak u = false := by
          simp only [List.head?_cons, Option.any_some, CodeUnit.isSpace, Bool.or_eq_false_iff]
            at hspace
          exact hspace.2
        rcases plain_forms (u :: rest) with hmarked | haddress | hmail | hword
        · exact marked?_named hu hmarked hkind
        · exact (address?_onLine haddress).feed
        · exact (mail?_onLine hmail).feed
        · exact hword ▸ (word_onLine hu).feed

/-! ### Ends of lists -/

/-- A list ends at the start of a line only. -/
theorem atLineStart_of_endList {insidePre insideList atLineStart : Bool}
    (h : (next insidePre insideList atLineStart t).kind = .endList) : atLineStart = true := by
  rcases next_forms insidePre insideList atLineStart t with
    ⟨-, hstart, -⟩ | ⟨-, heq⟩ | ⟨-, heq⟩
  · exact hstart
  · rw [heq] at h
    rcases whiteSpace_kind insidePre insideList t with hkind | hkind <;> cases h.symm.trans hkind
  · have hlines := plain_kind t
    rw [← heq, h] at hlines
    cases hlines

end Lexeme

end DocMarkup
