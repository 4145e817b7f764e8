import Mathlib.Data.List.TakeWhile
import DocMarkup.Scanner.Basic

/-!
Every lexeme takes at least one unit, and none of them is the end of the text.
-/

namespace DocMarkup

namespace Tag

/-- What follows a tag is shorter than the text behind its name. -/
theorem length_lt_of_attributes? {t after : Text} {attributes : Attributes} {selfClosing : Bool}
    (h : attributes? t = some (attributes, selfClosing, after)) : after.length < t.length := by
  induction hn : t.length using Nat.strongRecOn
    generalizing t attributes selfClosing after with
  | _ n ih =>
      subst hn
      have hsuffix := (List.dropWhile_suffix (l := t) CodeUnit.isSpace).length_le
      unfold attributes? at h
      split at h
      · cases h
      · next u rest ht =>
        rw [ht, List.length_cons] at hsuffix
        split at h
        · cases h
          omega
        · split at h
          · cases h
            rw [List.length_drop]
            omega
          · dsimp only at h
            split at h
            · cases h
            · next hname =>
              split at h
              · cases h
              · next value next hvalue =>
                have hlt := length_lt_of_attribute ht hname (by simp) hvalue
                obtain ⟨⟨more, closing, final⟩, hmore, heq⟩ := Option.map_eq_some_iff.1 h
                cases heq
                exact (ih _ hlt hmore rfl).trans hlt

theorem length_pos_of_match? {t : Text} {found : Found} (h : match? t = some found) :
    0 < found.length := by
  cases t with
  | nil => cases h
  | cons u rest =>
      have hbody : ∀ b : Bool, (if b then rest.drop 1 else rest).length ≤ rest.length := by
        intro b
        cases b <;> simp
      specialize hbody (rest.head? == some (unit '/'))
      unfold match? at h
      dsimp only at h
      generalize (if rest.head? == some (unit '/') then rest.drop 1 else rest) = body at h hbody
      rw [Option.ite_none_left_eq_some] at h
      obtain ⟨⟨attributes, selfClosing, after⟩, hafter, rfl⟩ := Option.map_eq_some_iff.1 h.2
      have hlt := length_lt_of_attributes? hafter
      rw [List.length_drop] at hlt
      dsimp only
      omega

end Tag

namespace Symbol

theorem isKnown_sign {sign : String × String × String} (h : sign ∈ Entity.signs) :
    isKnown (units sign.1) := by
  rw [isKnown, find?, Option.isSome_map, List.find?_isSome]
  exact ⟨_, List.mem_append_right _ (List.mem_map_of_mem h), beq_self_eq_true _⟩

end Symbol

/-- Every escape stands for a symbol. -/
theorem Escape.isKnown_of_match? {t name : Text} {length : Nat}
    (h : Escape.match? t = some (name, length)) : Symbol.isKnown name := by
  have hnamed : ∀ name ∈ "DoubleColon" :: Escape.signs.map (·.2),
      ∃ sign ∈ Entity.signs, sign.1 = name := by decide
  have hknown : ∀ name ∈ "DoubleColon" :: Escape.signs.map (·.2),
      Symbol.isKnown (units name) := by
    intro name hname
    obtain ⟨sign, hsign, rfl⟩ := hnamed name hname
    exact Symbol.isKnown_sign hsign
  cases t with
  | nil => cases h
  | cons u rest =>
      simp only [Escape.match?] at h
      split at h
      · split at h
        · cases h
          exact hknown _ (List.mem_cons_self ..)
        · cases h
      · obtain ⟨sign, hfind, heq⟩ := Option.map_eq_some_iff.1 h
        cases heq
        refine hknown _ (List.mem_cons_of_mem _ (List.mem_map_of_mem ?_))
        exact List.mem_of_find?_eq_some hfind

namespace Lexeme

variable {t : Text} {lexeme : Lexeme}

/-- A lexeme that takes something and is not the end of the text; if it is a symbol, a known
one. -/
structure Proper (lexeme : Lexeme) : Prop where
  length_pos : 0 < lexeme.length
  kind_ne : lexeme.kind ≠ .endOfText
  isKnown : lexeme.kind = .symbol → Symbol.isKnown lexeme.value

theorem listItem?_proper (h : listItem? t = some lexeme) : lexeme.Proper := by
  obtain ⟨found, hfound, rfl⟩ := Option.map_eq_some_iff.1 h
  refine ⟨?_, by simp, by simp⟩
  suffices hmarker : 0 < found.marker.length by
    dsimp only
    omega
  unfold Line.listMarker? at hfound
  dsimp only at hfound
  split at hfound
  · cases hfound
  · next length isNumbered number hmarker =>
    split at hfound
    · cases hfound
    · next u rest hafter =>
      split at hfound
      · cases hfound
        have hlength : 0 < length := by
          split at hmarker
          · cases hmarker
          · split at hmarker
            · cases hmarker
              omega
            · split at hmarker
              · cases hmarker
                omega
              · split at hmarker
                · cases hmarker
                  omega
                · cases hmarker
        have hdrop := congrArg List.length hafter
        rw [List.length_drop, List.length_cons] at hdrop
        rw [List.length_take]
        omega
      · cases hfound

theorem endList?_proper (h : endList? t = some lexeme) : lexeme.Proper := by
  obtain ⟨⟨indent, blanks⟩, -, rfl⟩ := Option.map_eq_some_iff.1 h
  exact ⟨by dsimp only; omega, by simp, by simp⟩

theorem gap_length_pos (insidePre : Bool) (lastLine : Text) (h : t.head?.any CodeUnit.isSpace) :
    0 < (gap insidePre lastLine t).length := by
  cases t with
  | nil => simp at h
  | cons u rest =>
      have hspace : CodeUnit.isSpace u = true := by simpa using h
      simp only [gap, hspace, Bool.not_true, Bool.false_eq_true, if_false]
      split
      · split <;> simp
      · simp

theorem whiteSpace_proper {insidePre insideList : Bool} (h : t.head?.any CodeUnit.isSpace) :
    (whiteSpace insidePre insideList t).Proper := by
  have hpos := gap_length_pos insidePre t h
  unfold whiteSpace
  dsimp only
  split <;> exact ⟨hpos, by simp, by simp⟩

theorem identifier?_shape (h : identifier? t = some lexeme) :
    lexeme =
      { kind := .command
        length := (t.takeWhile CodeUnit.isIdentifierChar).length + 1
        value := t.takeWhile CodeUnit.isIdentifierChar } := by
  cases t with
  | nil => cases h
  | cons u rest =>
      simp only [identifier?] at h
      split at h <;> cases h
      rfl

/-- Behind its sign stands an escape, the beginning or the end of a formula, or a name. -/
theorem command?_shape (h : command? t = some lexeme) :
    ∃ sign rest, t = sign :: rest ∧
      ((∃ name length, Escape.match? rest = some (name, length) ∧
          lexeme = { kind := .symbol, length := length + 1, value := name }) ∨
        (∃ bracket more, rest = unit 'f' :: bracket :: more ∧ formulaBrackets.contains bracket ∧
          lexeme = { kind := .command, length := 3, value := [unit 'f', bracket] }) ∨
        lexeme =
          { kind := .command
            length := (rest.takeWhile CodeUnit.isIdentifierChar).length + 1
            value := rest.takeWhile CodeUnit.isIdentifierChar }) := by
  cases t with
  | nil => cases h
  | cons sign rest =>
      refine ⟨sign, rest, rfl, ?_⟩
      simp only [command?] at h
      split at h
      · next name length hescape =>
        cases h
        exact .inl ⟨name, length, hescape, rfl⟩
      · rcases rest with _ | ⟨u, _ | ⟨bracket, more⟩⟩
        · exact .inr (.inr (identifier?_shape h))
        · exact .inr (.inr (identifier?_shape h))
        · dsimp only at h
          split at h
          · next hformula =>
            cases h
            obtain ⟨hf, hbracket⟩ := Bool.and_eq_true_iff.1 hformula
            obtain rfl := beq_iff_eq.1 hf
            exact .inr (.inl ⟨bracket, more, rfl, hbracket, rfl⟩)
          · exact .inr (.inr (identifier?_shape h))

theorem command?_proper (h : command? t = some lexeme) : lexeme.Proper := by
  obtain ⟨sign, rest, rfl, ⟨name, length, hescape, rfl⟩ | ⟨bracket, more, rfl, -, rfl⟩ | rfl⟩ :=
    command?_shape h
  · exact ⟨by simp, by simp, fun _ => Escape.isKnown_of_match? hescape⟩
  · exact ⟨by simp, by simp, by simp⟩
  · exact ⟨by simp, by simp, by simp⟩

/-- An entity is a number, which becomes a word, or a known name. -/
theorem entity?_shape (h : entity? t = some lexeme) :
    ∃ body kind value, entityBody? t = some body ∧
      lexeme = { kind, length := body.length + 2, value } ∧
      ((isEntityNumber body ∧ kind = .word ∧
          Entity.decode? (t.take (body.length + 2)) = some value) ∨
        (isEntityName body ∧ kind = .symbol ∧ Symbol.isKnown body ∧ value = body)) := by
  unfold entity? at h
  split at h
  · cases h
  · next body hbody =>
    split at h
    · next hnumber =>
      obtain ⟨decoded, hdecoded, rfl⟩ := Option.map_eq_some_iff.1 h
      exact ⟨body, _, _, hbody, rfl, .inl ⟨hnumber, rfl, hdecoded⟩⟩
    · split at h
      · next hname =>
        cases h
        obtain ⟨hname, hknown⟩ := Bool.and_eq_true_iff.1 hname
        exact ⟨body, _, _, hbody, rfl, .inr ⟨hname, rfl, hknown, rfl⟩⟩
      · cases h

theorem entity?_proper (h : entity? t = some lexeme) : lexeme.Proper := by
  obtain ⟨body, kind, value, -, rfl, ⟨-, rfl, -⟩ | ⟨-, rfl, hknown, rfl⟩⟩ := entity?_shape h
  · exact ⟨by simp, by simp, by simp⟩
  · exact ⟨by simp, by simp, fun _ => hknown⟩

/-- A keyword is a name in letters and a text on the same line, up to a second dollar sign. -/
theorem keyword?_shape (h : keyword? t = some lexeme) :
    ∃ u name body after, t = u :: (name ++ unit ':' :: (body ++ unit '$' :: after)) ∧
      (∀ v ∈ name, CodeUnit.isLetter v) ∧ CodeUnit.lineFeed ∉ body ∧
      lexeme =
        { kind := .keyword
          length := name.length + body.length + 3
          value := name
          payload := some (Text.trim body) } := by
  cases t with
  | nil => cases h
  | cons u rest =>
      simp only [keyword?] at h
      split at h
      · cases h
      · next colon tail hdrop =>
        split at h
        · cases h
        · next hshape =>
          cases h
          simp only [Bool.or_eq_true, not_or, bne_iff_ne, ne_eq, not_not] at hshape
          obtain ⟨⟨⟨-, rfl⟩, -⟩, hclosed⟩ := hshape
          obtain ⟨after, hafter⟩ := List.head?_eq_some_iff.1 hclosed
          refine ⟨u, _, _, after, ?_, fun v => List.mem_takeWhile_imp, fun hfeed => ?_, rfl⟩
          · rw [← hafter, List.prefix_iff_eq_append.1 (List.takeWhile_prefix _), ← hdrop,
              List.prefix_iff_eq_append.1 (List.takeWhile_prefix _)]
          · exact Bool.noConfusion (show false = true from List.mem_takeWhile_imp hfeed)

theorem keyword?_proper (h : keyword? t = some lexeme) : lexeme.Proper := by
  obtain ⟨u, name, body, after, -, -, -, rfl⟩ := keyword?_shape h
  exact ⟨by simp, by simp, by simp⟩

theorem tag?_proper (h : tag? t = some lexeme) : lexeme.Proper := by
  obtain ⟨found, hfound, rfl⟩ := Option.map_eq_some_iff.1 h
  refine ⟨Tag.length_pos_of_match? hfound, ?_, ?_⟩ <;>
  · dsimp only
    split <;> simp

theorem length_dropWhileRight_pos {p : CodeUnit → Bool} {u : CodeUnit} (hu : u ∈ t)
    (hp : p u = false) : 0 < (Text.dropWhileRight p t).length := by
  rw [Text.dropWhileRight, List.length_reverse, List.length_pos_iff]
  intro hnil
  have hall := List.dropWhile_eq_nil_iff.1 hnil u (List.mem_reverse.2 hu)
  rw [hp] at hall
  cases hall

/-- Every scheme begins with a unit that is no punctuation. -/
theorem schemes_head {scheme : String} (h : scheme ∈ schemes) :
    ∃ u rest, units scheme = u :: rest ∧ isAddressUnit u = true ∧
      isTrailingPunctuation u = false := by
  simp only [schemes, List.mem_cons, List.not_mem_nil, or_false] at h
  rcases h with rfl | rfl | rfl | rfl | rfl | rfl <;>
    exact ⟨_, _, rfl, by decide, by decide⟩

/-- An address begins with a scheme and gives back the punctuation at the end of its run. -/
theorem address?_shape (h : address? t = some lexeme) :
    ∃ scheme ∈ schemes, units scheme <+: t.take addressWindow ∧
      ∃ run address, (t.take addressWindow).takeWhile isAddressUnit = run ∧
        Text.dropWhileRight isTrailingPunctuation run = address ∧
        lexeme = { kind := .url, length := address.length, value := address } := by
  unfold address? at h
  dsimp only at h
  split at h
  · cases h
  · next scheme hfind =>
    cases h
    have hfound := List.find?_some hfind
    simp only [Bool.and_eq_true, List.isPrefixOf_iff_prefix] at hfound
    exact ⟨scheme, List.mem_of_find?_eq_some hfind, hfound.1, _, _, rfl, rfl, rfl⟩

theorem address?_proper (h : address? t = some lexeme) : lexeme.Proper := by
  obtain ⟨scheme, hscheme, ⟨tail, htail⟩, _, _, rfl, rfl, rfl⟩ := address?_shape h
  refine ⟨?_, by simp, by simp⟩
  obtain ⟨u, rest, hunits, haddress, hpunctuation⟩ := schemes_head hscheme
  rw [hunits] at htail
  refine length_dropWhileRight_pos (u := u) ?_ hpunctuation
  rw [← htail]
  simp [haddress]

/-- An e-mail address is a mailbox, a label behind the sign and at least one label behind a dot. -/
theorem mail?_shape (h : mail? t = some lexeme) :
    ∃ mailbox tail label more,
      (t.take addressWindow).takeWhile isMailboxUnit = mailbox ∧
      (t.take addressWindow).drop mailbox.length = unit '@' :: tail ∧
      tail.takeWhile isDomainUnit = label ∧
      domainLength (tail.drop label.length) = more ∧ 0 < more ∧
      lexeme = {
        kind := .url
        length := mailbox.length + 1 + label.length + more
        value := (t.take addressWindow).take (mailbox.length + 1 + label.length + more)
        isEmail := true } := by
  unfold mail? at h
  dsimp only at h
  split at h
  · cases h
  · next sign tail hdrop =>
    split at h
    · cases h
    · next hparts =>
      cases h
      simp only [Bool.or_eq_true, not_or, bne_iff_ne, not_not, beq_iff_eq] at hparts
      obtain ⟨⟨⟨-, rfl⟩, -⟩, hmore⟩ := hparts
      exact ⟨_, tail, _, _, rfl, hdrop, rfl, rfl, Nat.pos_of_ne_zero hmore, rfl⟩

theorem mail?_proper (h : mail? t = some lexeme) : lexeme.Proper := by
  obtain ⟨mailbox, tail, label, more, -, -, -, -, hmore, rfl⟩ := mail?_shape h
  exact ⟨by dsimp only; omega, by simp, by simp⟩

theorem word_proper (t : Text) : (word t).Proper :=
  ⟨by simp only [word]; omega, by simp [word], by simp [word]⟩

/-! ### Kinds -/

theorem tag?_kind (h : tag? t = some lexeme) :
    lexeme.kind = .endTag ∨ lexeme.kind = .startTag := by
  obtain ⟨found, -, rfl⟩ := Option.map_eq_some_iff.1 h
  dsimp only
  split
  · exact .inl rfl
  · exact .inr rfl

theorem address?_kind (h : address? t = some lexeme) :
    lexeme.kind = .url ∧ lexeme.isEmail = false := by
  obtain ⟨_, -, -, _, _, -, -, rfl⟩ := address?_shape h
  exact ⟨rfl, rfl⟩

theorem mail?_kind (h : mail? t = some lexeme) : lexeme.kind = .url := by
  obtain ⟨_, _, _, _, -, -, -, -, -, rfl⟩ := mail?_shape h
  rfl

theorem whiteSpace_kind (insidePre insideList : Bool) (t : Text) :
    (whiteSpace insidePre insideList t).kind = .whiteSpace ∨
      (whiteSpace insidePre insideList t).kind = .newParagraph := by
  unfold whiteSpace
  dsimp only
  split
  · exact .inr rfl
  · exact .inl rfl

/-! ### Forms -/

/-- A mark begins a command behind its sign, a tag, an entity or a keyword. -/
theorem marked?_forms (h : marked? t = some lexeme) :
    (∃ u rest, t = u :: rest ∧ (u == unit '\\' || u == unit '@') = true ∧
      command? (u :: rest) = some lexeme) ∨
    tag? t = some lexeme ∨ entity? t = some lexeme ∨ keyword? t = some lexeme := by
  cases t with
  | nil => cases h
  | cons u rest =>
      simp only [marked?] at h
      split at h
      · next hsign => exact .inl ⟨u, rest, rfl, hsign, h⟩
      · split at h
        · exact .inr (.inl h)
        · split at h
          · exact .inr (.inr (.inl h))
          · split at h
            · exact .inr (.inr (.inr h))
            · cases h

/-- What a text begins with that does not depend on lines. -/
def plain (t : Text) : Lexeme := ((marked? t).or ((address? t).or (mail? t))).getD (word t)

/-- What does not depend on lines begins with a mark, is an address or a mail address, or is a
word. -/
theorem plain_forms (t : Text) :
    marked? t = some (plain t) ∨ address? t = some (plain t) ∨ mail? t = some (plain t) ∨
      plain t = word t := by
  unfold plain
  cases hfound : (marked? t).or ((address? t).or (mail? t)) with
  | none => exact .inr (.inr (.inr rfl))
  | some lexeme =>
      rcases Option.or_eq_some_iff.1 hfound with hmarked | ⟨-, hmore⟩
      · exact .inl hmarked
      · rcases Option.or_eq_some_iff.1 hmore with haddress | ⟨-, hmail⟩
        · exact .inr (.inl haddress)
        · exact .inr (.inr (.inl hmail))

/-- What comes next is found by the line, or it is white space, or it depends on the text alone. -/
theorem next_forms (insidePre insideList atLineStart : Bool) (t : Text) :
    (insidePre = false ∧ atLineStart = true ∧
      (listItem? t = some (next insidePre insideList atLineStart t) ∨
        endList? t = some (next insidePre insideList atLineStart t))) ∨
    (t.head?.any CodeUnit.isSpace = true ∧
      next insidePre insideList atLineStart t = whiteSpace insidePre insideList t) ∨
    (t.head?.any CodeUnit.isSpace = false ∧
      next insidePre insideList atLineStart t = plain t) := by
  unfold next
  dsimp only
  split
  · next lexeme hline =>
    split at hline
    · next hlines =>
      rw [Bool.and_eq_true, Bool.not_eq_true'] at hlines
      rcases Option.or_eq_some_iff.1 hline with hitem | ⟨-, hend⟩
      · exact .inl ⟨hlines.1, hlines.2, .inl hitem⟩
      · exact .inl ⟨hlines.1, hlines.2, .inr hend⟩
    · cases hline
  · split
    · next hspace => exact .inr (.inl ⟨hspace, rfl⟩)
    · next hspace => exact .inr (.inr ⟨by simpa using hspace, rfl⟩)

theorem marked?_proper (h : marked? t = some lexeme) : lexeme.Proper := by
  rcases marked?_forms h with ⟨u, rest, rfl, -, hcommand⟩ | htag | hentity | hkeyword
  · exact command?_proper hcommand
  · exact tag?_proper htag
  · exact entity?_proper hentity
  · exact keyword?_proper hkeyword

theorem plain_proper (t : Text) : (plain t).Proper := by
  rcases plain_forms t with hmarked | haddress | hmail | hword
  · exact marked?_proper hmarked
  · exact address?_proper haddress
  · exact mail?_proper hmail
  · exact hword ▸ word_proper t

/-- The lexeme at any place of a text. -/
theorem next_proper (insidePre insideList atLineStart : Bool) (t : Text) :
    (next insidePre insideList atLineStart t).Proper := by
  rcases next_forms insidePre insideList atLineStart t with
    ⟨-, -, hitem | hend⟩ | ⟨hspace, heq⟩ | ⟨-, heq⟩
  · exact listItem?_proper hitem
  · exact endList?_proper hend
  · exact heq ▸ whiteSpace_proper hspace
  · exact heq ▸ plain_proper t

end Lexeme

end DocMarkup
