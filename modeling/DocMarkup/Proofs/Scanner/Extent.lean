import DocMarkup.Proofs.Scanner.Progress

/-!
No lexeme reaches past the text it was found in, and only a keyword has a text that differs from
what was written.
-/

namespace DocMarkup

theorem Escape.length_le_of_match? {t name : Text} {length : Nat}
    (h : Escape.match? t = some (name, length)) : length ≤ t.length := by
  cases t with
  | nil => cases h
  | cons u rest =>
      simp only [Escape.match?] at h
      split at h
      · split at h
        · next hcolon =>
          cases h
          cases rest with
          | nil => simp at hcolon
          | cons v after => simp
        · cases h
      · obtain ⟨sign, -, heq⟩ := Option.map_eq_some_iff.1 h
        cases heq
        simp

/-- Units of an indentation are units of the line. -/
theorem Line.blanks_le (column : Nat) (line : Text) :
    (Line.indentation column line).2 ≤ line.length := by
  induction line generalizing column with
  | nil => simp [Line.indentation]
  | cons u rest ih =>
      simp only [Line.indentation]
      split
      · exact Nat.succ_le_succ (ih _)
      · simp

/-- A list marker and the units before it belong to the line. -/
theorem Line.length_le_of_listMarker? {line : Text} {found : Line.ListMarker}
    (h : Line.listMarker? line = some found) :
    found.blanks + found.marker.length ≤ line.length := by
  have hblanks := Line.blanks_le 0 line
  unfold Line.listMarker? at h
  dsimp only at h
  split at h
  · cases h
  · split at h
    · cases h
    · split at h
      · cases h
        rw [List.length_take, List.length_drop]
        dsimp only
        omega
      · cases h

theorem Line.length_lt_of_endOfList? {line : Text} {indent blanks : Nat}
    (h : Line.endOfList? line = some (indent, blanks)) : blanks < line.length := by
  have hblanks : blanks = (Line.indentation 0 line).2 ∧ line.drop blanks ≠ [] := by
    unfold Line.endOfList? at h
    dsimp only at h
    split at h
    · cases h
    · next u rest hdrop =>
      have hne : line.drop (Line.indentation 0 line).2 ≠ [] := by
        rw [hdrop]
        exact List.cons_ne_nil _ _
      split at h
      · cases h
      · split at h
        · cases h
          exact ⟨rfl, hne⟩
        · split at h
          · cases h
            exact ⟨rfl, hne⟩
          · cases h
  have hpos := List.length_pos_iff.2 hblanks.2
  rw [List.length_drop] at hpos
  omega

theorem Tag.length_le_of_match? {t : Text} {found : Tag.Found} (h : Tag.match? t = some found) :
    found.length ≤ t.length := by
  cases t with
  | nil => cases h
  | cons u rest =>
      unfold Tag.match? at h
      dsimp only at h
      rw [Option.ite_none_left_eq_some] at h
      obtain ⟨⟨attributes, selfClosing, after⟩, -, rfl⟩ := Option.map_eq_some_iff.1 h.2
      simp only [List.length_cons]
      omega

namespace Lexeme

variable {t : Text} {lexeme : Lexeme}

/-- A lexeme inside the text it begins; its token is what was written, or it is a keyword. -/
structure Fits (t : Text) (lexeme : Lexeme) : Prop where
  length_le : lexeme.length ≤ t.length
  payload_eq : lexeme.kind ≠ .keyword → lexeme.payload = none

theorem length_takeWhile_le (p : CodeUnit → Bool) (t : Text) : (t.takeWhile p).length ≤ t.length :=
  (List.takeWhile_prefix p).length_le

theorem listItem?_fits (h : listItem? t = some lexeme) : lexeme.Fits t := by
  obtain ⟨found, hfound, rfl⟩ := Option.map_eq_some_iff.1 h
  refine ⟨?_, fun _ => rfl⟩
  have hmarker := Line.length_le_of_listMarker? hfound
  have hblanks := length_takeWhile_le CodeUnit.isHorizontalSpace
    (t.drop (found.blanks + found.marker.length))
  rw [List.length_drop] at hblanks
  dsimp only
  omega

theorem endList?_fits (h : endList? t = some lexeme) : lexeme.Fits t := by
  obtain ⟨⟨indent, blanks⟩, hfound, rfl⟩ := Option.map_eq_some_iff.1 h
  refine ⟨?_, fun _ => rfl⟩
  have hdot := Line.length_lt_of_endOfList? hfound
  have htail := length_takeWhile_le (fun u => !CodeUnit.isLineBreak u) (t.drop (blanks + 1))
  have hbreak : ∀ rest : Text, (if rest.isEmpty then 0 else 1) ≤ rest.length := by
    rintro (_ | ⟨u, rest⟩) <;> simp
  specialize hbreak ((t.drop (blanks + 1)).drop
    ((t.drop (blanks + 1)).takeWhile fun u => !CodeUnit.isLineBreak u).length)
  rw [List.length_drop] at htail
  rw [List.length_drop, List.length_drop] at hbreak
  dsimp only
  omega

theorem gap_length_le (insidePre : Bool) (lastLine t : Text) :
    (gap insidePre lastLine t).length ≤ t.length := by
  induction t generalizing lastLine with
  | nil => simp [gap]
  | cons u rest ih =>
      simp only [gap]
      split
      · simp
      · split
        · split
          · simp
          · exact Nat.succ_le_succ (ih _)
        · exact Nat.succ_le_succ (ih _)

theorem whiteSpace_fits (insidePre insideList : Bool) (t : Text) :
    (whiteSpace insidePre insideList t).Fits t := by
  have hgap := gap_length_le insidePre t t
  unfold whiteSpace
  dsimp only
  split <;> exact ⟨hgap, fun _ => rfl⟩

theorem command?_fits (h : command? t = some lexeme) : lexeme.Fits t := by
  obtain ⟨sign, rest, rfl, ⟨name, length, hescape, rfl⟩ | ⟨bracket, more, rfl, -, rfl⟩ | rfl⟩ :=
    command?_shape h
  · exact ⟨Nat.succ_le_succ (Escape.length_le_of_match? hescape), fun _ => rfl⟩
  · exact ⟨by simp, fun _ => rfl⟩
  · exact ⟨Nat.succ_le_succ (length_takeWhile_le ..), fun _ => rfl⟩

theorem length_lt_of_entityBody? {body : Text} (h : entityBody? t = some body) :
    body.length + 2 ≤ t.length := by
  unfold entityBody? at h
  split at h
  · cases h
  · next u rest htake =>
    have hwindow := congrArg List.length htake
    rw [List.length_take, List.length_cons] at hwindow
    dsimp only at h
    split at h
    · cases h
    · next hne =>
      cases h
      rw [Bool.not_eq_true, List.isEmpty_eq_false_iff] at hne
      have hpos := List.length_pos_iff.2 hne
      rw [List.length_drop] at hpos
      omega

theorem entity?_fits (h : entity? t = some lexeme) : lexeme.Fits t := by
  obtain ⟨body, kind, value, hbody, rfl, -⟩ := entity?_shape h
  exact ⟨length_lt_of_entityBody? hbody, fun _ => rfl⟩

theorem keyword?_fits (h : keyword? t = some lexeme) : lexeme.Fits t := by
  obtain ⟨u, name, body, after, rfl, -, -, rfl⟩ := keyword?_shape h
  refine ⟨?_, fun hkind => absurd rfl hkind⟩
  simp only [List.length_cons, List.length_append]
  omega

theorem tag?_fits (h : tag? t = some lexeme) : lexeme.Fits t := by
  obtain ⟨found, hfound, rfl⟩ := Option.map_eq_some_iff.1 h
  exact ⟨Tag.length_le_of_match? hfound, fun _ => rfl⟩

theorem length_dropWhileRight_le (p : CodeUnit → Bool) (t : Text) :
    (Text.dropWhileRight p t).length ≤ t.length := by
  rw [Text.dropWhileRight, List.length_reverse]
  exact (List.length_dropWhile_le ..).trans_eq (List.length_reverse ..)

theorem address?_fits (h : address? t = some lexeme) : lexeme.Fits t := by
  obtain ⟨_, -, -, _, _, rfl, rfl, rfl⟩ := address?_shape h
  refine ⟨?_, fun _ => rfl⟩
  calc _ ≤ ((t.take addressWindow).takeWhile isAddressUnit).length :=
        length_dropWhileRight_le ..
    _ ≤ (t.take addressWindow).length := length_takeWhile_le ..
    _ ≤ t.length := List.length_take_le' ..

theorem domainLength_le (t : Text) : domainLength t ≤ t.length := by
  induction t using domainLength.induct with
  | case1 dot u rest hdot label ih =>
      have hlabel : label.length ≤ rest.length := length_takeWhile_le ..
      rw [domainLength, if_pos hdot]
      change label.length + 2 + domainLength (rest.drop label.length) ≤ _
      rw [List.length_drop] at ih
      simp only [List.length_cons]
      omega
  | case2 dot u rest hdot =>
      rw [domainLength, if_neg hdot]
      exact Nat.zero_le _
  | case3 t hshort =>
      rw [domainLength]
      · exact Nat.zero_le _
      · exact hshort

/-- What follows the sign of an e-mail address has its domain in it. -/
theorem length_domain_le (tail : Text) :
    (tail.takeWhile isDomainUnit).length +
      domainLength (tail.drop (tail.takeWhile isDomainUnit).length) ≤ tail.length := by
  have hlabel := length_takeWhile_le isDomainUnit tail
  have hmore := domainLength_le (tail.drop (tail.takeWhile isDomainUnit).length)
  rw [List.length_drop] at hmore
  omega

theorem length_le_of_mail? (h : mail? t = some lexeme) :
    lexeme.length ≤ (t.take addressWindow).length := by
  obtain ⟨mailbox, tail, _, _, -, hdrop, rfl, rfl, -, rfl⟩ := mail?_shape h
  have hwindow := congrArg List.length hdrop
  have hdomain := length_domain_le tail
  rw [List.length_drop, List.length_cons] at hwindow
  dsimp only
  omega

theorem mail?_fits (h : mail? t = some lexeme) : lexeme.Fits t := by
  have hle := length_le_of_mail? h
  obtain ⟨_, _, _, _, -, -, -, -, -, rfl⟩ := mail?_shape h
  exact ⟨hle.trans (List.length_take_le' ..), fun _ => rfl⟩

theorem wordTail_le (t : Text) : wordTail t ≤ t.length := by
  induction t with
  | nil => simp [wordTail]
  | cons u rest ih =>
      simp only [wordTail]
      split
      · exact Nat.zero_le _
      · exact Nat.succ_le_succ ih

theorem word_fits (h : t ≠ []) : (word t).Fits t := by
  refine ⟨?_, fun _ => rfl⟩
  have hpos := List.length_pos_iff.2 h
  have htail := wordTail_le (t.drop 1)
  rw [List.length_drop] at htail
  simp only [word]
  omega

theorem marked?_fits (h : marked? t = some lexeme) : lexeme.Fits t := by
  rcases marked?_forms h with ⟨u, rest, rfl, -, hcommand⟩ | htag | hentity | hkeyword
  · exact command?_fits hcommand
  · exact tag?_fits htag
  · exact entity?_fits hentity
  · exact keyword?_fits hkeyword

theorem plain_fits (hne : t ≠ []) : (plain t).Fits t := by
  rcases plain_forms t with hmarked | haddress | hmail | hword
  · exact marked?_fits hmarked
  · exact address?_fits haddress
  · exact mail?_fits hmail
  · exact hword ▸ word_fits hne

/-- The lexeme at any place before the end of a text. -/
theorem next_fits (insidePre insideList atLineStart : Bool) (hne : t ≠ []) :
    (next insidePre insideList atLineStart t).Fits t := by
  rcases next_forms insidePre insideList atLineStart t with
    ⟨-, -, hitem | hend⟩ | ⟨-, heq⟩ | ⟨-, heq⟩
  · exact listItem?_fits hitem
  · exact endList?_fits hend
  · exact heq ▸ whiteSpace_fits ..
  · exact heq ▸ plain_fits hne

end Lexeme

end DocMarkup
