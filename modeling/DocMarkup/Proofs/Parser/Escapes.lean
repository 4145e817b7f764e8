import DocMarkup.Proofs.Parser.RunningText

/-!
Escapes.  Any text without white space can be written literally: with a command character before
every sign, it is read as words and symbols that show the text and nothing else.
-/

namespace DocMarkup

namespace Escape

variable {t rest : Text} {u : CodeUnit}

/-- A text with a command character before every sign. -/
def write (t : Text) : Text := t.flatMap fun u => if isSign u then [unit '\\', u] else [u]

theorem write_sign (hu : isSign u) (t : Text) : write (u :: t) = unit '\\' :: u :: write t := by
  rw [write, List.flatMap_cons, if_pos hu]
  rfl

theorem write_plain (hu : isSign u = false) (t : Text) : write (u :: t) = u :: write t := by
  rw [write, List.flatMap_cons, hu]
  rfl

/-- What is written without a command character stands in the text, and none of it is a sign. -/
theorem prefix_of_prefix_write {p : Text} (hp : ∀ u ∈ p, u ≠ unit '\\') (h : p <+: write t) :
    p <+: t ∧ ∀ u ∈ p, isSign u = false := by
  induction p generalizing t with
  | nil => exact ⟨List.nil_prefix, List.forall_mem_nil _⟩
  | cons v p ih =>
      obtain ⟨hv, hp⟩ := List.forall_mem_cons.1 hp
      cases t with
      | nil => exact absurd (List.prefix_nil.1 h) (List.cons_ne_nil v p)
      | cons u t =>
          cases hu : isSign u with
          | true =>
              rw [write_sign hu] at h
              exact absurd (List.cons_prefix_cons.1 h).1 hv
          | false =>
              rw [write_plain hu] at h
              obtain ⟨rfl, hmore⟩ := List.cons_prefix_cons.1 h
              obtain ⟨hrest, hplain⟩ := ih hp hmore
              exact ⟨List.cons_prefix_cons.2 ⟨rfl, hrest⟩, List.forall_mem_cons.2 ⟨hu, hplain⟩⟩

/-- Writing a text brings no text without signs into it. -/
theorem infix_of_infix_write {p : Text} (hne : p ≠ []) (hp : ∀ u ∈ p, isSign u = false)
    (h : p <:+: write t) : p <:+: t := by
  have hsign : ∀ u ∈ p, u ≠ unit '\\' := by
    rintro _ hu rfl
    exact absurd (hp _ hu) (by decide)
  induction t with
  | nil => exact h
  | cons u t ih =>
      cases hu : isSign u with
      | true =>
          rw [write_sign hu, List.infix_cons_iff, List.infix_cons_iff] at h
          rcases h with hhere | hhere | hmore
          · obtain ⟨v, p, rfl⟩ := List.exists_cons_of_ne_nil hne
            exact absurd (List.cons_prefix_cons.1 hhere).1 (hsign v (List.mem_cons_self ..))
          · obtain ⟨v, p, rfl⟩ := List.exists_cons_of_ne_nil hne
            have hv := hp v (List.mem_cons_self ..)
            rw [(List.cons_prefix_cons.1 hhere).1, hu] at hv
            cases hv
          · exact (ih hmore).trans (List.suffix_cons u t).isInfix
      | false =>
          have hhere : p <+: write (u :: t) → p <+: u :: t := fun hstarts =>
            (prefix_of_prefix_write hsign hstarts).1
          rw [write_plain hu] at h hhere
          rcases List.infix_cons_iff.1 h with hstarts | hmore
          · exact (hhere hstarts).isInfix
          · exact (ih hmore).trans (List.suffix_cons u t).isInfix

theorem mem_write {v : CodeUnit} (h : v ∈ write t) : v = unit '\\' ∨ v ∈ t := by
  obtain ⟨u, hu, hv⟩ := List.mem_flatMap.1 h
  split at hv
  · rcases List.mem_pair.1 hv with rfl | rfl
    · exact .inl rfl
    · exact .inr hu
  · exact .inr (List.mem_singleton.1 hv ▸ hu)

/-- A text is a run without signs, and then nothing or a sign. -/
theorem write_eq_append (t : Text) :
    write t = t.takeWhile (!isSign ·) ++ write (t.dropWhile (!isSign ·)) := by
  induction t with
  | nil => rfl
  | cons u t ih =>
      cases hu : isSign u with
      | true => simp [hu]
      | false =>
          rw [write_plain hu, List.takeWhile_cons_of_pos (by simp [hu]),
            List.dropWhile_cons_of_pos (by simp [hu]), List.cons_append, ← ih]

/-- Every sign is escaped as a symbol that shows it. -/
theorem exists_match?_sign (hu : isSign u) (rest : Text) :
    ∃ name, match? (u :: rest) = some (name, 1) ∧
      (Symbol.find? name).map Symbol.plain = some [u] := by
  have hcolon : (u == unit ':') = false := by
    refine beq_eq_false_iff_ne.2 ?_
    rintro rfl
    exact absurd hu (by decide)
  have hshown : ∀ sign ∈ signs,
      (Symbol.find? (units sign.2)).map Symbol.plain = some [unit sign.1] := by
    decide +kernel
  obtain ⟨sign, hfind⟩ := Option.isSome_iff_exists.1 (List.find?_isSome.2 (List.any_eq_true.1 hu))
  refine ⟨units sign.2, ?_, ?_⟩
  · rw [match?, hcolon, hfind]
    rfl
  · rw [hshown sign (List.mem_of_find?_eq_some hfind)]
    exact congrArg (fun v => some [v]) (by simpa using List.find?_some hfind)

/-- A word of a written text ends before its first sign. -/
theorem word_write (hu : isSign u = false) (hspace : ∀ v ∈ u :: t, CodeUnit.isSpace v = false) :
    Lexeme.word (write (u :: t)) =
      { kind := .word
        length := ((u :: t).takeWhile (!isSign ·)).length
        value := (u :: t).takeWhile (!isSign ·) } := by
  rw [write_eq_append]
  refine Lexeme.word_append ?_ ?_ ?_
  · intro v hv
    have hother : ∀ sign, isSign sign → v ≠ sign := by
      rintro sign hsign rfl
      simpa [hsign] using List.mem_takeWhile_imp hv
    have hmem := (List.takeWhile_sublist _).subset hv
    simp [Lexeme.isWordUnit, hspace v hmem, hother (unit '\\') (by decide),
      hother (unit '@') (by decide), hother (unit '<') (by decide), hother (unit '&') (by decide)]
  · simp [hu]
  · cases hrest : (u :: t).dropWhile (!isSign ·) with
    | nil => rfl
    | cons v rest =>
        have hv : isSign v := by
          have hhead := List.head?_dropWhile_not (!isSign ·) (u :: t)
          rw [hrest] at hhead
          simpa using hhead
        obtain ⟨name, hmatch, -⟩ := exists_match?_sign hv (write rest)
        rw [write_sign hv, Lexeme.wordTail, if_pos]
        simp [Lexeme.startsCommand, hmatch]

/-- A written text that begins with no sign begins with a word. -/
theorem next_write {insidePre insideList atLineStart : Bool} (hu : isSign u = false)
    (hspace : ∀ v ∈ u :: t, CodeUnit.isSpace v = false) (haddress : ¬ units "://" <:+: u :: t) :
    Lexeme.next insidePre insideList atLineStart (write (u :: t)) =
      Lexeme.word (write (u :: t)) := by
  have hother : ∀ sign, isSign sign → u ≠ sign := by
    rintro sign hsign rfl
    rw [hsign] at hu
    cases hu
  have hsolid : ∀ v ∈ write (u :: t), CodeUnit.isHorizontalSpace v = false := by
    intro v hv
    rcases mem_write hv with rfl | hmem
    · rfl
    · exact (Bool.or_eq_false_iff.1 (hspace v hmem)).1
  -- no list line, no white space, no sign, no address and no mail address begins here
  refine Lexeme.next_eq_word (Line.listMarker?_eq_none_of_solid hsolid) ?_ ?_ ?_ ?_ ?_
  · refine Line.endOfList?_eq_none fun hhead => hother (unit '.') (by decide) ?_
    rw [List.dropWhile_eq_self_iff.2 fun _ => ?_, write_plain hu] at hhead
    · exact Option.some.inj hhead
    · rw [Bool.not_eq_true]
      exact hsolid _ (List.getElem_mem _)
  · rw [write_plain hu]
    exact hspace u (List.mem_cons_self ..)
  · rw [write_plain hu]
    simp [Lexeme.isMark, hother (unit '\\') (by decide), hother (unit '@') (by decide),
      hother (unit '<') (by decide), hother (unit '&') (by decide), hother (unit '$') (by decide)]
  · refine Lexeme.address?_eq_none (fun hinside => haddress ?_) fun hstarts => ?_
    · refine infix_of_infix_write (List.cons_ne_nil _ _) (fun v hv => ?_) hinside
      have hall : (units "://").all (!isSign ·) := by decide
      simpa using List.all_eq_true.1 hall v hv
    · have hall : (units "www.").all (· != unit '\\') := by decide
      have hdot := (prefix_of_prefix_write
        (fun v hv => bne_iff_ne.1 (List.all_eq_true.1 hall v hv)) hstarts).2 (unit '.') (by decide)
      exact absurd hdot (by decide)
  · refine Lexeme.mail?_eq_none fun mailbox hmailbox hstarts => ?_
    have hat := (prefix_of_prefix_write ?_ hstarts).2 (unit '@')
      (List.mem_append_right _ (List.mem_singleton_self _))
    · exact absurd hat (by decide)
    · rintro v hv rfl
      rcases List.mem_append.1 hv with hin | hat
      · exact absurd (hmailbox _ hin) (by decide)
      · exact absurd (List.mem_singleton.1 hat) (by decide)

end Escape

/-! ### Tokens -/

/-- What a leaf of words and symbols shows. -/
def Node.literal? : Node → Option Text
  | .node (.word word) _ [] [] [] => some word
  | .node (.symbol name) _ [] [] [] => (Symbol.find? name).map Symbol.plain
  | _ => none

namespace Scanner

variable {s : Scanner} {t : Text}

/-- An escaped sign is read as a symbol that shows it. -/
theorem reads_sign {u : CodeUnit} (hu : Escape.isSign u)
    (hahead : s.cursor.ahead = Escape.write (u :: t)) :
    s.scan.token.kind = .symbol ∧
      (Symbol.find? s.scan.token.value).map Symbol.plain = some [u] ∧
      s.scan.cursor.ahead = Escape.write t := by
  obtain ⟨name, hmatch, hshown⟩ := Escape.exists_match?_sign hu (Escape.write t)
  rw [Escape.write_sign hu] at hahead
  have hlexeme : s.lexeme s.cursor = { kind := .symbol, length := 2, value := name } := by
    rw [lexeme_eq_next (by rw [hahead]; exact List.cons_ne_nil _ _), hahead]
    refine Lexeme.next_eq_command (.inl rfl) ?_
    simp only [Lexeme.command?, hmatch]
  have hreads := s.reads (by rw [hahead]; rfl)
  rw [hlexeme] at hreads
  refine ⟨hreads.kind, by rw [hreads.value]; exact hshown, ?_⟩
  rw [hreads.ahead, hahead]
  rfl

/-- Between two signs all units belong to one word. -/
theorem reads_run {u : CodeUnit} (hu : Escape.isSign u = false)
    (hahead : s.cursor.ahead = Escape.write (u :: t))
    (hspace : ∀ v ∈ u :: t, CodeUnit.isSpace v = false) (haddress : ¬ units "://" <:+: u :: t) :
    s.scan.token.kind = .word ∧
      s.scan.token.value = (u :: t).takeWhile (!Escape.isSign ·) ∧
      s.scan.cursor.ahead = Escape.write ((u :: t).dropWhile (!Escape.isSign ·)) := by
  have hne : s.cursor.ahead ≠ [] := by
    rw [hahead, Escape.write_plain hu]
    exact List.cons_ne_nil _ _
  have hreads := s.reads (Lexeme.commentLength?_eq_none (by
    rw [hahead, Escape.write_plain hu, List.head?_cons]
    rintro ⟨⟩
    cases hu))
  rw [lexeme_eq_next hne, hahead, Escape.next_write hu hspace haddress,
    Escape.word_write hu hspace] at hreads
  refine ⟨hreads.kind, hreads.value, ?_⟩
  rw [hreads.ahead, hahead, Escape.write_eq_append (u :: t)]
  exact List.drop_left' rfl

end Scanner

namespace Parser

/-- What a token shows in a paragraph. -/
def literalOf (token : Token) : Option Text := (wordNode token).literal?

/-- Words and symbols that show a text. -/
structure Shows (tokens : List Token) (t : Text) : Prop where
  kinds : ∀ token ∈ tokens, token.kind = .word ∨ token.kind = .symbol
  parts : ∃ parts : List Text, tokens.map literalOf = parts.map some ∧ parts.flatten = t

theorem Shows.nil : Shows [] [] := ⟨List.forall_mem_nil _, [], rfl, rfl⟩

theorem Shows.cons {token : Token} {tokens : List Token} {part t : Text}
    (hkind : token.kind = .word ∨ token.kind = .symbol) (hpart : literalOf token = some part)
    (h : Shows tokens t) : Shows (token :: tokens) (part ++ t) := by
  obtain ⟨parts, hshown, rfl⟩ := h.parts
  refine ⟨List.forall_mem_cons.2 ⟨hkind, h.kinds⟩, part :: parts, ?_, List.flatten_cons⟩
  rw [List.map_cons, List.map_cons, hpart, hshown]

/-- A written text is read as words and symbols that show the text. -/
theorem scans_write {s : Scanner} {t : Text} (hahead : s.cursor.ahead = Escape.write t)
    (hspace : ∀ u ∈ t, CodeUnit.isSpace u = false) (haddress : ¬ units "://" <:+: t) :
    ∃ tokens s', s.Scans tokens s' ∧ s'.cursor.ahead = [] ∧ Shows tokens t := by
  induction hn : t.length using Nat.strongRecOn generalizing s t with
  | _ n ih =>
      subst hn
      have hmore : ∀ part rest, part ++ rest = t → rest.length < t.length →
          s.scan.cursor.ahead = Escape.write rest →
          (s.scan.token.kind = .word ∨ s.scan.token.kind = .symbol) →
          literalOf s.scan.token = some part →
          ∃ tokens s', s.Scans tokens s' ∧ s'.cursor.ahead = [] ∧ Shows tokens t := by
        rintro part rest rfl hlt hscan hkind hpart
        obtain ⟨tokens, s', hscans, hend, hshows⟩ :=
          ih rest.length hlt hscan (fun v hv => hspace v (List.mem_append_right part hv))
            (fun hinside => haddress (hinside.trans (List.suffix_append part rest).isInfix)) rfl
        have hgoes : s.scan.token.kind ≠ .endOfText := by
          rcases hkind with hkind | hkind <;> simp [hkind]
        exact ⟨_, s', .head hgoes hscans, hend, hshows.cons hkind hpart⟩
      cases t with
      | nil => exact ⟨[], s, .refl s, hahead, .nil⟩
      | cons u t =>
          cases hu : Escape.isSign u with
          | true =>
              obtain ⟨hkind, hshown, hscan⟩ := Scanner.reads_sign hu hahead
              refine hmore [u] t rfl (Nat.lt_succ_self _) hscan (.inr hkind) ?_
              rw [literalOf, wordNode, hkind]
              exact hshown
          | false =>
              obtain ⟨hkind, hvalue, hscan⟩ := Scanner.reads_run hu hahead hspace haddress
              refine hmore _ _ (List.takeWhile_append_dropWhile ..) ?_ hscan (.inl hkind) ?_
              · rw [List.dropWhile_cons_of_pos (by simp [hu])]
                exact Nat.lt_succ_of_le (List.dropWhile_sublist _).length_le
              · rw [literalOf, wordNode, hkind]
                exact congrArg some hvalue

/-- Words and symbols all go to the paragraph they stand in. -/
theorem foldl_sortToken {tokens : List Token}
    (h : ∀ token ∈ tokens, token.kind = .word ∨ token.kind = .symbol)
    (read : List Node × List Node) :
    tokens.foldl sortToken read = (read.1, (tokens.map wordNode).reverse ++ read.2) := by
  induction tokens generalizing read with
  | nil => rfl
  | cons token tokens ih =>
      obtain ⟨hkind, hmore⟩ := List.forall_mem_cons.1 h
      have hsorted : sortToken read token = (read.1, wordNode token :: read.2) := by
        rcases hkind with hkind | hkind <;> rw [sortToken, hkind]
      rw [List.foldl_cons, hsorted, ih hmore, List.map_cons, List.reverse_cons, List.append_assoc]
      rfl

/-- A comment that is read as words and symbols is one paragraph of them. -/
theorem parse_shown {p : Parser} {comment : Comment} {tokens : List Token} {last : Token} {t : Text}
    (hresolve : p.options.surroundings.resolve? = none)
    (htokens : tokensOf p.options comment = tokens ++ [last]) (hlast : last.kind = .endOfText)
    (hshows : Shows tokens t) (hne : t ≠ []) :
    (p.parse comment).1.root =
        .branch (.root comment.singleLine)
          [.branch (.paragraph { isFirst := true, isLast := true }) (tokens.map wordNode)] ∧
      (p.parse comment).1.diagnostics = (expandAliases p.options comment).2 := by
  have hrunning : ∀ token ∈ tokensOf p.options comment, IsRunning p.options token := by
    rw [htokens]
    refine List.forall_mem_append.2 ⟨fun token htoken => ?_, ?_⟩
    · rcases hshows.kinds token htoken with hkind | hkind <;> rw [IsRunning, hkind]
      · exact .inl hresolve
      · trivial
    · rw [List.forall_mem_singleton, IsRunning, hlast]
      trivial
  obtain ⟨hroot, hdiagnostics⟩ := parse_runningText p comment hrunning
  refine ⟨hroot.trans ?_, hdiagnostics⟩
  have hsorted : ((tokensOf p.options comment).foldl sortToken ([], [])).1 =
      [.branch (.paragraph {}) (tokens.map wordNode)] := by
    rw [htokens, List.foldl_append, foldl_sortToken hshows.kinds, List.foldl_cons, List.foldl_nil,
      sortToken, hlast, List.append_nil]
    rcases List.eq_nil_or_concat tokens with rfl | ⟨before, token, rfl⟩
    · obtain ⟨parts, hparts, rfl⟩ := hshows.parts
      cases parts with
      | nil => exact absurd rfl hne
      | cons => cases hparts
    · have hadd := addParagraph_cons (isKind_wordNode token) [] (before.map wordNode).reverse
      simpa using hadd
  rw [hsorted]
  rfl

/-- Any text without white space can be written literally, unless it holds the separator behind the
scheme of an address.  With a command character before every sign it is read as one paragraph of
words and symbols that show the text, and no problem is met in it. -/
theorem parse_escaped (p : Parser) (comment : Comment) {t : Text}
    (haliases : p.options.aliases = none) (hresolve : p.options.surroundings.resolve? = none)
    (htext : comment.text = Escape.write t) (hne : t ≠ [])
    (hspace : ∀ u ∈ t, CodeUnit.isSpace u = false) (haddress : ¬ units "://" <:+: t) :
    ∃ (nodes : List Node) (parts : List Text),
      (p.parse comment).1.root =
        .branch (.root comment.singleLine)
          [.branch (.paragraph { isFirst := true, isLast := true }) nodes] ∧
      nodes.map Node.literal? = parts.map some ∧ parts.flatten = t ∧
      (p.parse comment).1.diagnostics = [] := by
  have hexpanded : expandAliases p.options comment = (comment.text, []) := by
    rw [expandAliases, haliases]
  obtain ⟨tokens, s, hscans, hend, hshows⟩ :=
    scans_write (s := Scanner.ofText (Escape.write t)) rfl hspace haddress
  have htokens : tokensOf p.options comment = tokens ++ [s.scan.token] := by
    rw [tokensOf, hexpanded, htext]
    exact hscans.readAll hend
  obtain ⟨hroot, hdiagnostics⟩ :=
    parse_shown hresolve htokens (Scanner.kind_scan_of_atEnd hend) hshows hne
  obtain ⟨parts, hshown, hflatten⟩ := hshows.parts
  exact ⟨tokens.map wordNode, parts, hroot, by rw [List.map_map]; exact hshown, hflatten,
    hdiagnostics.trans (congrArg Prod.snd hexpanded)⟩

/-- What looks like a list marker, a comment, an address of either kind, an entity, a keyword or a
command is none of these when it is written literally. -/
theorem parse_escaped_of_marks :
    let t := units "-1.<!--a@b.org&lt;$Id:x$www.c.d\\e"
    (t ≠ [] ∧ (∀ u ∈ t, CodeUnit.isSpace u = false) ∧ ¬ units "://" <:+: t) ∧
      ∃ (nodes : List Node) (parts : List Text),
        (({} : Parser).parse { text := Escape.write t }).1.root =
          .branch (.root false)
            [.branch (.paragraph { isFirst := true, isLast := true }) nodes] ∧
        nodes.map Node.literal? = parts.map some ∧ parts.flatten = t ∧
        (({} : Parser).parse { text := Escape.write t }).1.diagnostics = [] := by
  intro t
  have hne : t ≠ [] := List.cons_ne_nil _ _
  have hspace : ∀ u ∈ t, CodeUnit.isSpace u = false := by
    have hall : t.all (!CodeUnit.isSpace ·) := by decide
    intro u hu
    simpa using List.all_eq_true.1 hall u hu
  have haddress : ¬ units "://" <:+: t := by decide
  exact ⟨⟨hne, hspace, haddress⟩,
    parse_escaped {} { text := Escape.write t } rfl rfl rfl hne hspace haddress⟩

end Parser

end DocMarkup
