import DocMarkup.Parser.Basic
import DocMarkup.Proofs.Scanner.PlainText

/-!
What plain text says.  A text without marks of markup becomes words, addresses and single spaces,
and these say what was written, each run of white space being one space and none standing at either
end.  Only a list marker at the start of a line, and a dot that stands there alone, come without the
blanks around them.
-/

namespace DocMarkup

open CodeUnit (isSpace)

namespace Text

variable {t rest : Text} {begun gap : Bool}

/-- As `squeeze`, behind something if `begun`, and behind white space if `gap`. -/
def squeezeFrom (begun gap : Bool) : Text → Text
  | [] => []
  | u :: rest =>
    if isSpace u then squeezeFrom begun true rest
    else if begun && gap then CodeUnit.space :: u :: squeezeFrom true false rest
    else u :: squeezeFrom true false rest

/-- The text with every run of white space as one space, and with none at either end. -/
def squeeze (t : Text) : Text := squeezeFrom false false t

theorem squeezeFrom_not_begun (gap : Bool) (t : Text) :
    squeezeFrom false gap t = squeezeFrom false false t := by
  cases t with
  | nil => rfl
  | cons u rest => rfl

theorem squeezeFrom_spaces {spaces : Text} (h : ∀ u ∈ spaces, isSpace u = true)
    (hne : spaces ≠ []) (rest : Text) :
    squeezeFrom begun gap (spaces ++ rest) = squeezeFrom begun true rest := by
  induction spaces generalizing gap with
  | nil => exact absurd rfl hne
  | cons u spaces ih =>
      obtain ⟨hu, hspaces⟩ := List.forall_mem_cons.1 h
      rw [List.cons_append, squeezeFrom, if_pos hu]
      cases spaces with
      | nil => rfl
      | cons v spaces => exact ih hspaces (List.cons_ne_nil _ _)

theorem squeezeFrom_solid {shown : Text} (h : ∀ u ∈ shown, isSpace u = false)
    (hne : shown ≠ []) (rest : Text) :
    squeezeFrom begun gap (shown ++ rest) =
      (if begun && gap then [CodeUnit.space] else []) ++
        (shown ++ squeezeFrom true false rest) := by
  have hmore : ∀ shown : Text, (∀ u ∈ shown, isSpace u = false) →
      squeezeFrom true false (shown ++ rest) = shown ++ squeezeFrom true false rest := by
    intro shown
    induction shown with
    | nil => exact fun _ => rfl
    | cons u shown ih =>
        intro h
        obtain ⟨hu, hshown⟩ := List.forall_mem_cons.1 h
        simp only [List.cons_append, squeezeFrom, hu, Bool.false_eq_true, if_false, Bool.and_false,
          ih hshown]
  obtain ⟨u, shown, rfl⟩ := List.exists_cons_of_ne_nil hne
  obtain ⟨hu, hshown⟩ := List.forall_mem_cons.1 h
  rw [List.cons_append, squeezeFrom, if_neg (by simp [hu]), hmore shown hshown]
  cases begun && gap <;> rfl

theorem filter_squeezeFrom (begun gap : Bool) (t : Text) :
    (squeezeFrom begun gap t).filter (fun u => !isSpace u) = t.filter fun u => !isSpace u := by
  induction t generalizing begun gap with
  | nil => rfl
  | cons u rest ih =>
      rw [squeezeFrom]
      split_ifs with hspace hgap
      · rw [ih, List.filter_cons_of_neg (by simp [hspace])]
      · rw [List.filter_cons_of_neg (by decide), List.filter_cons, List.filter_cons, ih]
      · rw [List.filter_cons, List.filter_cons, ih]

end Text

/-- Where no command and no escape is written, expansion changes nothing. -/
theorem AliasTable.expand_of_noSign (table : AliasTable) {t : Text} (fileName : Text)
    (h : ∀ u ∈ t, u ≠ unit '\\' ∧ u ≠ unit '@') : table.expand t fileName = (t, []) := by
  have hfrom (offset : Nat) : table.expandFrom maxDepth [] none offset t = (t, []) := by
    induction t generalizing offset with
    | nil => rw [expandFrom]
    | cons u rest ih =>
        obtain ⟨⟨hbackslash, hat⟩, hrest⟩ := List.forall_mem_cons.1 h
        have hu : (u != unit '\\' && u != unit '@') = true := by
          rw [Bool.and_eq_true, bne_iff_ne, bne_iff_ne]
          exact ⟨hbackslash, hat⟩
        rw [expandFrom, if_pos hu, ih hrest]
  rw [expand, hfrom]
  rfl

namespace Scanner

variable {s : Scanner}

/-- A scanner that looks at lines, outside of lists, with plain text ahead. -/
structure ReadsPlain (s : Scanner) : Prop where
  insidePre : s.insidePre = false
  listDepth : s.listDepth = 0
  plain : ∀ u ∈ s.cursor.ahead, Lexeme.isMark u = false

/-- What is still to be read, as it will be shown. -/
def remaining (s : Scanner) : Text := Lexeme.tightened s.cursor.atLineStart s.cursor.ahead

theorem ReadsPlain.lexeme (h : s.ReadsPlain) (hne : s.cursor.ahead ≠ []) :
    s.lexeme s.cursor = Lexeme.next false false s.cursor.atLineStart s.cursor.ahead := by
  rw [s.lexeme_eq_next hne, h.insidePre, h.listDepth]
  rfl

theorem ReadsPlain.commentLength? (h : s.ReadsPlain) :
    Lexeme.commentLength? s.cursor.ahead = none := by
  apply Lexeme.commentLength?_eq_none
  intro hhead
  exact absurd (h.plain _ (List.mem_of_head? hhead)) (by decide)

theorem ReadsPlain.scan (h : s.ReadsPlain) : s.scan.ReadsPlain := by
  refine ⟨h.insidePre, h.listDepth, fun u hu => h.plain u ?_⟩
  rw [(s.reads h.commentLength?).ahead] at hu
  exact List.mem_of_mem_drop hu

theorem ReadsPlain.cursor_scan (h : s.ReadsPlain) :
    s.scan.cursor = s.cursor.advance (s.lexeme s.cursor).length := by
  simp only [Scanner.scan, skipComments_eq h.commentLength?]

theorem ReadsPlain.remaining_scan (h : s.ReadsPlain) :
    s.scan.remaining = Lexeme.tightened
      (Text.endsLine s.cursor.atLineStart (s.cursor.ahead.take (s.lexeme s.cursor).length))
      (s.cursor.ahead.drop (s.lexeme s.cursor).length) := by
  rw [remaining, h.cursor_scan, Text.atLineStart_advance, Cursor.ahead_advance]

/-- The next token is white space. -/
def Gap (s : Scanner) : Prop :=
  s.scan.token.kind = .whiteSpace ∨ s.scan.token.kind = .newParagraph

/-- The next token shows a part of the line: a word, an address, or a list marker or dot. -/
def Shows (s : Scanner) (shown : Text) : Prop :=
  (s.scan.token.kind = .word ∨ s.scan.token.kind = .url) ∧ s.scan.token.value = shown ∨
    (s.scan.token.kind = .listItem ∨ s.scan.token.kind = .endList) ∧
      Text.trim s.scan.token.text = shown

theorem Shows.not_gap {shown : Text} (h : s.Shows shown) : ¬ s.Gap := by
  rintro (hgap | hgap) <;> rcases h with ⟨hkind | hkind, -⟩ | ⟨hkind | hkind, -⟩ <;>
    exact nomatch hgap.symm.trans hkind

theorem ReadsPlain.shows (h : s.ReadsPlain) {shown : Text}
    (hsolid : Lexeme.Solid s.cursor.atLineStart s.cursor.ahead (s.lexeme s.cursor) shown) :
    s.Shows shown := by
  have hreads := s.reads h.commentLength?
  rw [Shows, hreads.kind, hreads.value, hreads.text]
  exact hsolid.written

/-- The next token of plain text is a part of a line, or white space with none behind it. -/
theorem ReadsPlain.cases (h : s.ReadsPlain) (hne : s.cursor.ahead ≠ []) :
    (∃ shown : Text, shown ≠ [] ∧ (∀ u ∈ shown, isSpace u = false) ∧
      s.remaining = shown ++ s.scan.remaining ∧ s.Shows shown) ∨
    (∃ spaces : Text, spaces ≠ [] ∧ (∀ u ∈ spaces, isSpace u = true) ∧
      s.remaining = spaces ++ s.scan.remaining ∧ s.Gap ∧ ¬ s.scan.Gap) := by
  rcases Lexeme.next_plainText h.plain hne s.cursor.atLineStart with ⟨shown, hsolid⟩ | hhollow
  · left
    rw [← h.lexeme hne] at hsolid
    refine ⟨shown, hsolid.ne_nil, hsolid.solid, ?_, h.shows hsolid⟩
    rw [h.remaining_scan]
    exact hsolid.tightened
  · right
    rw [← h.lexeme hne] at hhollow
    refine ⟨_, ?_, hhollow.hollow, ?_, ?_, ?_⟩
    · rw [ne_eq, List.take_eq_nil_iff, not_or]
      exact ⟨hhollow.length_pos.ne', hne⟩
    · rw [h.remaining_scan]
      exact hhollow.tightened
    · rw [Gap, (s.reads h.commentLength?).kind]
      exact hhollow.kind
    · by_cases hend : s.scan.cursor.ahead = []
      · rw [Gap, kind_scan_of_atEnd hend]
        decide
      · have hahead : s.scan.cursor.ahead = s.cursor.ahead.drop (s.lexeme s.cursor).length :=
          (s.reads h.commentLength?).ahead
        have hstart : s.scan.cursor.atLineStart = Text.endsLine s.cursor.atLineStart
            (s.cursor.ahead.take (s.lexeme s.cursor).length) := by
          rw [h.cursor_scan, Text.atLineStart_advance]
        rcases Lexeme.next_plainText h.scan.plain hend s.scan.cursor.atLineStart with
          ⟨shown, hsolid⟩ | hagain
        · rw [← h.scan.lexeme hend] at hsolid
          exact (h.scan.shows hsolid).not_gap
        · rw [hahead, hstart] at hagain
          exact absurd hagain (hhollow.not_hollow_next (hahead ▸ hend))

end Scanner

/-- The text that a word, an address or white space says. -/
def Node.said (n : Node) : Text :=
  match n.content with
  | .word word => word
  | .url url _ => url
  | .whiteSpace units => units
  | _ => []

namespace Parser

open Scanner (ReadsPlain Gap Shows)

variable {s : Scanner}

/-- The text that nodes say, the last of which comes first. -/
def saidBefore (before : List Node) : Text := before.reverse.flatMap Node.said

theorem saidBefore_cons (n : Node) (before : List Node) :
    saidBefore (n :: before) = saidBefore before ++ n.said := by
  rw [saidBefore, List.reverse_cons, List.flatMap_append, List.flatMap_singleton, saidBefore]

theorem plainNodes_of_shows {shown : Text} (h : s.Shows shown) (hne : shown ≠ [])
    (atStart : Bool) : ∃ n, plainNodes atStart s.scan.token = [n] ∧ n.said = shown ∧
      n.isKind .whiteSpace = false := by
  unfold plainNodes
  rcases h with ⟨hkind | hkind, rfl⟩ | ⟨hkind | hkind, rfl⟩ <;> rw [hkind]
  · exact ⟨_, rfl, rfl, rfl⟩
  · exact ⟨_, rfl, rfl, rfl⟩
  all_goals
    have hwritten : (Text.trim s.scan.token.text).isEmpty = false := by
      rwa [List.isEmpty_eq_false_iff]
    dsimp only
    rw [hwritten]
    exact ⟨_, rfl, rfl, rfl⟩

theorem plainNodes_of_gap (h : s.Gap) (atStart : Bool) :
    plainNodes atStart s.scan.token =
      if atStart then [] else [.leaf (.whiteSpace [CodeUnit.space])] := by
  unfold plainNodes
  rcases h with h | h <;> rw [h]

/-- Nodes that end without white space, and a space behind them if there is a gap. -/
structure Written (nodes core : List Node) (gap : Bool) : Prop where
  nodes_eq : nodes = if gap then .leaf (.whiteSpace [CodeUnit.space]) :: core else core
  core_ends : dropTrailingSpace core = core
  begun : gap = true → core ≠ []

namespace Written

variable {nodes core : List Node} {gap : Bool}

theorem dropTrailingSpace_eq (h : Written nodes core gap) : dropTrailingSpace nodes = core := by
  rw [h.nodes_eq]
  cases gap with
  | false => exact h.core_ends
  | true => exact h.core_ends

theorem saidBefore_eq (h : Written nodes core gap) :
    saidBefore nodes = saidBefore core ++ if gap then [CodeUnit.space] else [] := by
  rw [h.nodes_eq]
  cases gap with
  | false => exact (List.append_nil _).symm
  | true => exact saidBefore_cons ..

theorem cons {n : Node} (hn : n.isKind .whiteSpace = false) (nodes : List Node) :
    Written (n :: nodes) (n :: nodes) false :=
  ⟨rfl, List.dropWhile_cons_of_neg (by simp [hn]), nofun⟩

end Written

theorem plainNodesAfter_cons (nodes : List Node) (token : Token) (more : List Token) :
    plainNodesAfter nodes (token :: more) =
      plainNodesAfter ((plainNodes nodes.isEmpty token).reverse ++ nodes) more := rfl

/-- Reading on behind some nodes adds to them what is still to be read, squeezed. -/
theorem said_plainNodesAfter (hs : s.ReadsPlain) {nodes core : List Node} {gap : Bool}
    (hwritten : Written nodes core gap) (hgap : gap = true → ¬ s.Gap) :
    saidBefore (dropTrailingSpace (plainNodesAfter nodes s.readAll.1)) =
      saidBefore core ++ Text.squeezeFrom (!core.isEmpty) gap s.remaining := by
  induction hn : s.cursor.ahead.length using Nat.strongRecOn generalizing s nodes core gap with
  | _ n ih =>
  subst hn
  by_cases hend : s.cursor.ahead = []
  · have hkind := Scanner.kind_scan_of_atEnd hend
    have hnone (atStart : Bool) : plainNodes atStart s.scan.token = [] := by
      rw [plainNodes, hkind]
    have hremaining : s.remaining = [] := by
      rw [Scanner.remaining, hend, Lexeme.tightened]
    rw [Scanner.readAll_of_endOfText hkind, plainNodesAfter_cons, hnone, hremaining]
    exact (congrArg saidBefore hwritten.dropTrailingSpace_eq).trans (List.append_nil _).symm
  · have hmore {kind : TokenKind} (h : s.scan.token.kind = kind) (hne : kind ≠ .endOfText) :
        s.readAll.1 = s.scan.token :: s.scan.readAll.1 ∧
          s.scan.cursor.ahead.length < s.cursor.ahead.length :=
      ⟨Scanner.readAll_cons (h ▸ hne), Scanner.length_ahead_scan (h ▸ hne)⟩
    -- the next token shows something or is white space, and less text is behind it
    rcases hs.cases hend with ⟨shown, hne, hsolid, hremaining, hshows⟩ |
      ⟨spaces, hne, hspaces, hremaining, hhere, hbehind⟩
    · obtain ⟨hcons, hlt⟩ : s.readAll.1 = s.scan.token :: s.scan.readAll.1 ∧
          s.scan.cursor.ahead.length < s.cursor.ahead.length := by
        rcases hshows with ⟨hkind | hkind, -⟩ | ⟨hkind | hkind, -⟩
        all_goals exact hmore hkind (by rintro ⟨⟩)
      obtain ⟨n, hnode, hsaid, hother⟩ := plainNodes_of_shows hshows hne nodes.isEmpty
      have hrest := ih _ hlt hs.scan (Written.cons hother nodes) (by rintro ⟨⟩) rfl
      rw [hcons, plainNodesAfter_cons, hnode, List.reverse_singleton, List.singleton_append, hrest,
        saidBefore_cons, hwritten.saidBefore_eq, hsaid, hremaining,
        Text.squeezeFrom_solid hsolid hne]
      have hspace : (!core.isEmpty && gap) = gap := by
        cases hg : gap with
        | false => rw [Bool.and_false]
        | true => simpa using hwritten.begun hg
      rw [hspace]
      simp only [List.append_assoc, List.isEmpty_cons, Bool.not_false]
    · obtain ⟨hcons, hlt⟩ : s.readAll.1 = s.scan.token :: s.scan.readAll.1 ∧
          s.scan.cursor.ahead.length < s.cursor.ahead.length := by
        rcases hhere with hkind | hkind <;> exact hmore hkind (by rintro ⟨⟩)
      -- white space is read as one token, so no gap stands in front of another
      have hnone : gap = false := by
        rw [Bool.eq_false_iff]
        exact fun hg => hgap hg hhere
      subst hnone
      obtain rfl : nodes = core := hwritten.nodes_eq
      rw [hcons, plainNodesAfter_cons, plainNodes_of_gap hhere, hremaining,
        Text.squeezeFrom_spaces hspaces hne]
      cases nodes with
      | nil =>
          have hrest := ih _ hlt hs.scan hwritten (by rintro ⟨⟩) rfl
          rw [List.isEmpty_nil, Bool.not_true, Text.squeezeFrom_not_begun]
          exact hrest
      | cons n nodes =>
          have hspaced :
              Written (.leaf (.whiteSpace [CodeUnit.space]) :: n :: nodes) (n :: nodes) true :=
            ⟨rfl, hwritten.core_ends, fun _ => List.cons_ne_nil _ _⟩
          exact ih _ hlt hs.scan hspaced (fun _ => hbehind) rfl

theorem said_plainText {t : Text} (h : ∀ u ∈ t, Lexeme.isMark u = false) :
    (plainText (Scanner.ofText t).readAll.1).flatMap Node.said =
      Text.squeeze (Lexeme.tightened true t) := by
  have hplain : (Scanner.ofText t).ReadsPlain := ⟨rfl, rfl, h⟩
  have hwritten : Written [] [] false := ⟨rfl, rfl, nofun⟩
  exact said_plainNodesAfter hplain hwritten nofun

theorem expandAliases_of_isMark (options : Options) {comment : Comment}
    (h : ∀ u ∈ comment.text, Lexeme.isMark u = false) :
    expandAliases options comment = (comment.text, []) := by
  unfold expandAliases
  cases options.aliases with
  | none => rfl
  | some table =>
      refine table.expand_of_noSign _ fun u hu => ⟨?_, ?_⟩ <;>
      · rintro rfl
        exact absurd (h _ hu) (by decide)

/-- Plain text says what was written, squeezed, but for the blanks around list markers and lone
dots; it never says less than all units that are not white space, and where no line begins with
such a marker it says the text itself, squeezed. -/
theorem parseText_said (p : Parser) (t : Text) (fileName : Option Text)
    (h : ∀ u ∈ t, Lexeme.isMark u = false) :
    let said := (p.parseText t fileName).root.children.flatMap Node.said
    said = Text.squeeze (Lexeme.tightened true t) ∧
      said.filter (fun u => !isSpace u) = t.filter (fun u => !isSpace u) ∧
      ((∀ before rest, t = before ++ rest → Text.endsLine true before = true →
        Line.isListLine rest = false) → said = Text.squeeze t) := by
  have hsaid : (p.parseText t fileName).root.children.flatMap Node.said =
      Text.squeeze (Lexeme.tightened true t) := by
    have hexpanded : expandAliases p.options { text := t, fileName } = (t, []) :=
      expandAliases_of_isMark p.options h
    simp only [parseText, hexpanded]
    exact said_plainText h
  refine ⟨hsaid, ?_, ?_⟩
  · rw [hsaid, Text.squeeze, Text.filter_squeezeFrom, Lexeme.filter_tightened]
  · intro hlines
    rw [hsaid, Lexeme.tightened_eq_self hlines]

/-- A line that begins with a number and one that does not. -/
theorem parseText_said_heading :
    let t := units "see  http://a.b,\n1. Introduction"
    (∀ u ∈ t, Lexeme.isMark u = false) ∧
      (({} : Parser).parseText t none).root.children.flatMap Node.said =
        Text.squeeze (Lexeme.tightened true t) := by
  intro t
  have hplain : ∀ u ∈ t, Lexeme.isMark u = false := Lexeme.unmarked_of_any (by decide)
  exact ⟨hplain, (parseText_said {} t none hplain).1⟩

/-- The blank behind a list marker is not said. -/
theorem parseText_drops_blank :
    ∃ t, (∀ u ∈ t, Lexeme.isMark u = false) ∧
      (({} : Parser).parseText t none).root.children.flatMap Node.said ≠ Text.squeeze t :=
  ⟨units "- note", Lexeme.unmarked_of_any (by decide), by decide +kernel⟩

end Parser

end DocMarkup
