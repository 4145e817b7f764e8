import Mathlib.Data.List.DropRight
import DocMarkup.Proofs.Scanner.Markers

/-!
Command characters inside lexemes.  Behind its first unit a lexeme holds a command character only
in words, where no command starts at it, in escapes, in addresses, and in tags and keywords, which
close with a sign of their own.  So where two command characters follow each other, a lexeme can
end between them only if it is an escape, or an address that takes all it may take.
-/

namespace DocMarkup

namespace CodeUnit

/-- The units that commands and escapes begin with. -/
def isCommandSign (u : CodeUnit) : Bool := u == unit '\\' || u == unit '@'

theorem isCommandSign_iff {u : CodeUnit} : isCommandSign u ↔ u = unit '\\' ∨ u = unit '@' := by
  simp [isCommandSign]

/-- Units of a kind that neither command character is of. -/
theorem isCommandSign_eq_false (kind : CodeUnit → Bool) (hbackslash : kind (unit '\\') = false)
    (hat : kind (unit '@') = false) {u : CodeUnit} (hu : kind u = true) :
    isCommandSign u = false := by
  rw [Bool.eq_false_iff]
  intro hsign
  rcases isCommandSign_iff.1 hsign with rfl | rfl
  · rw [hbackslash] at hu
    cases hu
  · rw [hat] at hu
    cases hu

/-- What a command character begins, it begins for either of them. -/
theorem of_isCommandSign (kind : CodeUnit → Prop) {u : CodeUnit} (hu : isCommandSign u)
    (hbackslash : kind (unit '\\')) (hat : kind (unit '@')) : kind u := by
  rcases isCommandSign_iff.1 hu with rfl | rfl
  · exact hbackslash
  · exact hat

theorem isSign_of_isCommandSign {u : CodeUnit} (hu : isCommandSign u) : Escape.isSign u :=
  of_isCommandSign (fun u => Escape.isSign u) hu (by decide) (by decide)

end CodeUnit

open CodeUnit (isCommandSign isCommandSign_eq_false of_isCommandSign)

/-- Whether a command character stands at an offset. -/
def Text.signAt (t : Text) (i : Nat) : Bool := t[i]?.any isCommandSign

namespace Text

theorem signAt_drop (t : Text) (n i : Nat) : signAt (t.drop n) i = signAt t (n + i) := by
  rw [signAt, List.getElem?_drop, signAt]

theorem signAt_eq_head (t : Text) (n : Nat) :
    signAt t n = (t.drop n).head?.any isCommandSign := by
  rw [signAt, List.head?_drop]

/-- Where all units taken are of another kind, none of them is a command character. -/
theorem signAt_eq_false {t : Text} {n i : Nat} (h : ∀ u ∈ t.take n, isCommandSign u = false)
    (hi : i < n) : signAt t i = false := by
  cases hu : t[i]? with
  | none => rw [signAt, hu, Option.any_none]
  | some u =>
      rw [signAt, hu, Option.any_some]
      exact h u (List.mem_of_getElem? (by rw [List.getElem?_take_of_lt hi, hu]))

/-- What is left behind the units other than `c` begins with it. -/
theorem exists_of_drop_takeWhile {c : CodeUnit} {t : Text}
    (h : ¬ (t.drop (t.takeWhile (· != c)).length).isEmpty) :
    ∃ after, t = t.takeWhile (· != c) ++ c :: after := by
  rw [drop_length_takeWhile] at h
  cases hdrop : t.dropWhile (· != c) with
  | nil => simp [hdrop] at h
  | cons v after =>
      have hv := List.head?_dropWhile_not (· != c) t
      rw [hdrop] at hv
      obtain rfl : v = c := by simpa using hv
      exact ⟨after, by rw [← hdrop, List.takeWhile_append_dropWhile]⟩

end Text

/-! ### The last unit of a tag -/

namespace Tag

theorem suffix_of_attributeValue? {t value after : Text}
    (h : attributeValue? t = some (value, after)) : after <:+ t := by
  rcases t with _ | ⟨u, _ | ⟨quote, body⟩⟩
  · cases h
    exact List.suffix_refl _
  · simp only [attributeValue?] at h
    split at h <;> cases h
    · exact List.suffix_refl _
    · exact List.nil_suffix
  · simp only [attributeValue?] at h
    split at h
    · cases h
      exact List.suffix_refl _
    · split at h
      · split at h
        · cases h
        · next closing after hbody =>
          cases h
          have hclosing := List.dropWhile_suffix (l := body) (· != quote)
          rw [hbody] at hclosing
          exact (List.suffix_cons closing _).trans
            (hclosing.trans ((List.suffix_cons quote body).trans (List.suffix_cons u _)))
      · cases h
        exact (List.dropWhile_suffix _).trans (List.suffix_cons u _)

/-- The attributes of a tag end in its angle bracket. -/
theorem closed_of_attributes? {t after : Text} {attributes : Attributes} {selfClosing : Bool}
    (h : attributes? t = some (attributes, selfClosing, after)) : unit '>' :: after <:+ t := by
  induction hn : t.length using Nat.strongRecOn
    generalizing t attributes selfClosing after with
  | _ n ih =>
      subst hn
      have hsuffix := List.dropWhile_suffix (l := t) CodeUnit.isSpace
      unfold attributes? at h
      split at h
      · cases h
      · next u rest ht =>
        rw [ht] at hsuffix
        split at h
        · next hbracket =>
          cases h
          rwa [← beq_iff_eq.1 hbracket]
        · split at h
          · next hslash =>
            cases h
            cases rest with
            | nil => simp at hslash
            | cons v rest =>
                have hv : v = unit '>' := by simpa using (Bool.and_eq_true_iff.1 hslash).2
                rw [List.drop_succ_cons, List.drop_zero, ← hv]
                exact (List.suffix_cons u _).trans hsuffix
          · dsimp only at h
            split at h
            · cases h
            · next hname =>
              split at h
              · cases h
              · next value next hvalue =>
                have hlt := length_lt_of_attribute ht hname (by simp) hvalue
                have hnext := (suffix_of_attributeValue? hvalue).trans (List.drop_suffix _ _)
                obtain ⟨⟨more, closing, final⟩, hmore, heq⟩ := Option.map_eq_some_iff.1 h
                cases heq
                exact (ih _ hlt hmore rfl).trans (hnext.trans hsuffix)

/-- A tag ends in its angle bracket. -/
theorem closed_of_match? {t : Text} {found : Found} (h : match? t = some found) :
    t[found.length - 1]? = some (unit '>') := by
  cases t with
  | nil => cases h
  | cons u rest =>
      unfold match? at h
      dsimp only at h
      have hbody : (if rest.head? == some (unit '/') then rest.drop 1 else rest) <:+ rest := by
        split
        · exact List.drop_suffix 1 rest
        · exact List.suffix_refl rest
      rw [Option.ite_none_left_eq_some] at h
      obtain ⟨⟨attributes, selfClosing, after⟩, hattributes, rfl⟩ := Option.map_eq_some_iff.1 h.2
      have hclosed := ((closed_of_attributes? hattributes).trans (List.drop_suffix _ _)).trans hbody
      obtain ⟨before, hbefore⟩ := hclosed.trans (List.suffix_cons u rest)
      have hlength := congrArg List.length hbefore
      rw [List.length_append, List.length_cons, List.length_cons] at hlength
      have hplace : rest.length + 1 - after.length - 1 = before.length := by omega
      rw [hplace, ← hbefore, List.getElem?_append_right (Nat.le_refl _), Nat.sub_self]
      rfl

end Tag

/-! ### Command characters by kinds of lexemes -/

namespace Lexeme

variable {t : Text} {lexeme : Lexeme}

/-- The kinds of lexemes by the command characters they may hold behind their first unit. -/
inductive Shows (t : Text) (lexeme : Lexeme) : Prop
  | plain (unsigned : ∀ i, 0 < i → i < lexeme.length → Text.signAt t i = false)
  | word (kind : lexeme.kind = .word)
      (starts : ∀ i u rest, 0 < i → i < lexeme.length → t.drop i = u :: rest →
        startsCommand u rest = false)
  | escape (kind : lexeme.kind = .symbol) (length : lexeme.length = 2)
      (sign : Text.signAt t 0 = true)
  | address (kind : lexeme.kind = .url)
      (ends : lexeme.length = addressWindow ∨ Text.signAt t (lexeme.length - 1) = false ∨
        Text.signAt t lexeme.length = false)
  | closed (kind : lexeme.kind = .startTag ∨ lexeme.kind = .endTag ∨ lexeme.kind = .keyword)
      (ends : Text.signAt t (lexeme.length - 1) = false)

/-- Lexemes whose units are all of other kinds than command characters. -/
theorem Shows.of_take (h : ∀ u ∈ t.take lexeme.length, isCommandSign u = false) :
    lexeme.Shows t :=
  .plain fun _ _ hi => Text.signAt_eq_false h hi

/-- What is skipped is white space and a marker. -/
theorem Skips.units (h : lexeme.Skips t) :
    ∀ u ∈ t.take lexeme.length, CodeUnit.isSpace u = true ∨ CodeUnit.isMarkerUnit u = true := by
  obtain ⟨-, blanks, marker, spaces, rest, rfl, hlength, hblanks, hmarker, hspaces, -⟩ := h
  have htake : (blanks ++ (marker ++ (spaces ++ rest))).take lexeme.length =
      blanks ++ (marker ++ spaces) := by
    rw [hlength, ← List.append_assoc marker, ← List.append_assoc, Nat.add_assoc,
      ← List.length_append, ← List.length_append, List.take_left]
  rw [htake]
  exact List.forall_mem_append.2 ⟨fun u hu => .inl (hblanks u hu),
    List.forall_mem_append.2 ⟨fun u hu => .inr (hmarker u hu), fun u hu => .inl (hspaces u hu)⟩⟩

theorem Skips.shows (h : lexeme.Skips t) : lexeme.Shows t := by
  refine .of_take fun u hu => ?_
  rcases h.units u hu with hspace | hmarker
  · exact isCommandSign_eq_false _ rfl rfl hspace
  · exact isCommandSign_eq_false CodeUnit.isMarkerUnit (by decide) (by decide) hmarker

/-- Behind a command character, units of a kind that neither command character is of. -/
theorem Shows.of_tail {u : CodeUnit} {rest : Text}
    (h : ∀ v ∈ rest.take (lexeme.length - 1), isCommandSign v = false) :
    lexeme.Shows (u :: rest) := by
  refine .plain fun i hi hlt => ?_
  have hsign : Text.signAt rest (i - 1) = false := Text.signAt_eq_false h (by omega)
  have hdrop := Text.signAt_drop (u :: rest) 1 (i - 1)
  rw [List.drop_succ_cons, List.drop_zero, hsign] at hdrop
  rw [hdrop]
  congr 1
  omega

theorem command?_shows (hsign : Text.signAt t 0 = true) (h : command? t = some lexeme) :
    lexeme.Shows t := by
  obtain ⟨sign, rest, rfl,
    ⟨name, length, hescape, rfl⟩ | ⟨bracket, more, rfl, hbracket, rfl⟩ | rfl⟩ := command?_shape h
  · cases rest with
    | nil => cases hescape
    | cons v rest =>
        simp only [Escape.match?] at hescape
        split at hescape
        · next hcolon =>
          split at hescape
          · next hcolons =>
            cases hescape
            refine .of_tail ?_
            cases rest with
            | nil => cases hcolons
            | cons w rest =>
                rw [beq_iff_eq.1 hcolon, Option.some.inj (beq_iff_eq.1 hcolons)]
                simpa using by decide
          · cases hescape
        · obtain ⟨found, -, heq⟩ := Option.map_eq_some_iff.1 hescape
          cases heq
          exact .escape rfl rfl hsign
  · refine .of_tail ?_
    show ∀ w ∈ [unit 'f', bracket], isCommandSign w = false
    exact List.forall_mem_cons.2 ⟨by decide,
      List.forall_mem_singleton.2 (isCommandSign_eq_false _ rfl rfl hbracket)⟩
  · refine .of_tail fun w hw => ?_
    rw [Nat.add_sub_cancel, ← List.prefix_iff_eq_take.1 (List.takeWhile_prefix _)] at hw
    exact isCommandSign_eq_false _ rfl rfl (List.mem_takeWhile_imp hw)

/-- An entity reaches from its ampersand to the first semicolon. -/
theorem exists_of_entityBody? {body : Text} (h : entityBody? t = some body) :
    ∃ u after, t = u :: (body ++ unit ';' :: after) := by
  unfold entityBody? at h
  split at h
  · cases h
  · next u rest htake =>
    dsimp only at h
    split at h
    · cases h
    · next hclosed =>
      cases h
      obtain ⟨after, hrest⟩ := Text.exists_of_drop_takeWhile hclosed
      refine ⟨u, after ++ t.drop entityWindow, ?_⟩
      calc t = t.take entityWindow ++ t.drop entityWindow := (List.take_append_drop ..).symm
        _ = u :: rest ++ t.drop entityWindow := by rw [htake]
        _ = u :: (rest.takeWhile (· != unit ';') ++ unit ';' :: after) ++
              t.drop entityWindow := by rw [← hrest]
        _ = _ := by simp

/-- Units of the numbers and names of entities. -/
def isEntityUnit (u : CodeUnit) : Bool :=
  u == unit '#' || CodeUnit.isLetter u || CodeUnit.isDigit u

theorem isEntityUnit_of_isHexDigit {u : CodeUnit} (h : CodeUnit.isHexDigit u) : isEntityUnit u := by
  simp only [CodeUnit.isHexDigit, CodeUnit.isDigit, Bool.or_eq_true, Bool.and_eq_true,
    decide_eq_true_eq, UInt16.le_iff_toNat_le] at h
  simp only [isEntityUnit, CodeUnit.isLetter, CodeUnit.isDigit, Bool.or_eq_true,
    Bool.and_eq_true, decide_eq_true_eq, UInt16.le_iff_toNat_le]
  rcases h with (h | ⟨hlow, hhigh⟩) | ⟨hlow, hhigh⟩
  · exact .inr h
  · exact .inl (.inr (.inl ⟨hlow, hhigh.trans (by decide)⟩))
  · exact .inl (.inr (.inr ⟨hlow, hhigh.trans (by decide)⟩))

/-- A number sign with hexadecimal digits, with or without an `x` before them. -/
theorem isEntityUnit_of_number {hash u : CodeUnit} {rest : Text} (hhash : hash == unit '#')
    (h : (if u == unit 'x' then !rest.isEmpty && rest.all CodeUnit.isHexDigit
      else (u :: rest).all CodeUnit.isHexDigit) = true) : ∀ v ∈ hash :: u :: rest, isEntityUnit v := by
  rw [eq_of_beq hhash]
  refine List.forall_mem_cons.2 ⟨by decide, ?_⟩
  split at h
  · next hx =>
    rw [eq_of_beq hx]
    refine List.forall_mem_cons.2 ⟨by decide, fun v hv => isEntityUnit_of_isHexDigit ?_⟩
    exact List.all_eq_true.1 (Bool.and_eq_true_iff.1 h).2 v hv
  · exact fun v hv => isEntityUnit_of_isHexDigit (List.all_eq_true.1 h v hv)

theorem isEntityUnit_of_name {body : Text} (h : isEntityName body) :
    ∀ v ∈ body, isEntityUnit v := by
  have hunit {v : CodeUnit} (hv : CodeUnit.isLetter v || CodeUnit.isDigit v) : isEntityUnit v := by
    rw [isEntityUnit, Bool.or_assoc, hv, Bool.or_true]
  cases body with
  | nil => exact fun v hv => absurd hv List.not_mem_nil
  | cons u rest =>
      obtain ⟨hu, hrest⟩ := Bool.and_eq_true_iff.1 h
      refine List.forall_mem_cons.2 ⟨hunit (Bool.or_eq_true_iff.2 (.inl hu)), fun v hv => ?_⟩
      exact hunit (List.all_eq_true.1 hrest v hv)

/-- Numbers and names of entities hold units of their own only. -/
theorem isEntityUnit_of_isEntity {body : Text} (h : isEntityNumber body ∨ isEntityName body) :
    ∀ v ∈ body, isEntityUnit v := by
  rcases h with hnumber | hname
  · rcases body with _ | ⟨hash, _ | ⟨x, rest⟩⟩
    · cases hnumber
    · cases hnumber
    · obtain ⟨hhash, hnumber⟩ := Bool.and_eq_true_iff.1 hnumber
      refine isEntityUnit_of_number hhash ?_
      split at hnumber
      · next hx =>
        rw [if_pos hx]
        exact hnumber
      · next hx =>
        rw [if_neg hx]
        refine List.all_eq_true.2 fun v hv => ?_
        rw [CodeUnit.isHexDigit, List.all_eq_true.1 hnumber v hv]
        rfl
  · exact isEntityUnit_of_name hname

/-- Numbers and names of entities hold no command character. -/
theorem unsigned_of_isEntity {body : Text} (h : isEntityNumber body ∨ isEntityName body) :
    ∀ u ∈ body, isCommandSign u = false :=
  fun u hu => isCommandSign_eq_false _ rfl rfl (isEntityUnit_of_isEntity h u hu)

theorem entity?_shows (h : entity? t = some lexeme) : lexeme.Shows t := by
  obtain ⟨body, kind, value, hbody, rfl, hform⟩ := entity?_shape h
  obtain ⟨u, after, rfl⟩ := exists_of_entityBody? hbody
  refine .of_tail fun v hv => ?_
  have htake : (body ++ unit ';' :: after).take (body.length + 2 - 1) = body ++ [unit ';'] := by
    rw [show body.length + 2 - 1 = body.length + 1 from rfl, List.take_length_add_append]
    rfl
  rw [htake, List.mem_append, List.mem_singleton] at hv
  rcases hv with hv | rfl
  · exact unsigned_of_isEntity (hform.imp And.left And.left) v hv
  · decide

/-- A keyword ends in its second dollar sign. -/
theorem keyword?_closed (h : keyword? t = some lexeme) :
    lexeme.kind = .keyword ∧ t[lexeme.length - 1]? = some (unit '$') := by
  obtain ⟨u, name, body, after, rfl, -, -, rfl⟩ := keyword?_shape h
  refine ⟨rfl, ?_⟩
  have hplace : name.length + body.length + 3 - 1 = (u :: (name ++ unit ':' :: body)).length := by
    simp only [List.length_cons, List.length_append]
    omega
  have hsplit : u :: (name ++ unit ':' :: (body ++ unit '$' :: after)) =
      u :: (name ++ unit ':' :: body) ++ unit '$' :: after := by simp
  rw [hplace, hsplit, List.getElem?_append_right le_rfl, Nat.sub_self]
  rfl

theorem keyword?_shows (h : keyword? t = some lexeme) : lexeme.Shows t := by
  obtain ⟨hkind, hclosed⟩ := keyword?_closed h
  refine .closed (.inr (.inr hkind)) ?_
  rw [Text.signAt, hclosed]
  decide

theorem tag?_shows (h : tag? t = some lexeme) : lexeme.Shows t := by
  obtain ⟨found, hfound, rfl⟩ := Option.map_eq_some_iff.1 h
  refine .closed ?_ ?_
  · dsimp only
    split
    · exact .inr (.inl rfl)
    · exact .inl rfl
  · rw [Text.signAt, Tag.closed_of_match? hfound]
    decide

/-- An address takes all it may take, or ends before punctuation or what cannot be part of one. -/
theorem address?_ends (h : address? t = some lexeme) :
    lexeme.length = addressWindow ∨ ∀ u, t[lexeme.length]? = some u →
      isTrailingPunctuation u = true ∨ isAddressUnit u = false := by
  obtain ⟨_, -, -, run, address, hrun, haddress, rfl⟩ := address?_shape h
  have hprefix : run <+: t.take addressWindow := hrun ▸ List.takeWhile_prefix _
  have hsplit : address ++ run.rtakeWhile isTrailingPunctuation = run :=
    haddress ▸ List.rdropWhile_append_rtakeWhile ..
  rw [or_iff_not_imp_left]
  intro hne u hu
  cases hpunctuation : run.rtakeWhile isTrailingPunctuation with
  | cons v more =>
      refine .inl ?_
      have hv : isTrailingPunctuation v = true :=
        List.mem_rtakeWhile_imp (hpunctuation ▸ List.mem_cons_self ..)
      rw [hpunctuation] at hsplit
      obtain ⟨after, rfl⟩ := hprefix.trans (List.take_prefix ..)
      have hplace : (run ++ after)[address.length]? = some v := by
        rw [← hsplit, List.append_assoc, List.getElem?_append_right (Nat.le_refl _),
          Nat.sub_self, List.cons_append, List.getElem?_cons_zero]
      cases hu.symm.trans hplace
      exact hv
  | nil =>
      refine .inr ?_
      rw [hpunctuation, List.append_nil] at hsplit
      subst hsplit
      have hstop := List.head?_dropWhile_not isAddressUnit (t.take addressWindow)
      have hle := hprefix.length_le
      rw [List.length_take] at hle
      rw [← Text.drop_length_takeWhile, hrun, List.head?_drop,
        List.getElem?_take_of_lt (by dsimp only at hne; omega), hu] at hstop
      simpa using hstop

/-- A command character behind an address is out of its reach: it would neither end the address nor
be punctuation behind it. -/
theorem address?_shows (h : address? t = some lexeme) : lexeme.Shows t := by
  refine .address (address?_kind h).1 ((address?_ends h).imp_right fun hends => .inr ?_)
  cases hnext : t[lexeme.length]? with
  | none => rw [Text.signAt, hnext, Option.any_none]
  | some u =>
      rw [Text.signAt, hnext, Option.any_some, Bool.eq_false_iff]
      intro hu
      rcases hends u hnext with hpunctuation | hend
      · rw [isCommandSign_eq_false _ rfl rfl hpunctuation] at hu
        cases hu
      · have haddress : isAddressUnit u = true :=
          of_isCommandSign (fun u => isAddressUnit u = true) hu rfl rfl
        exact Bool.false_ne_true (hend.symm.trans haddress)

/-- A dot, or a unit of a label in a domain name. -/
def isHostUnit (u : CodeUnit) : Bool := u == unit '.' || isDomainUnit u

theorem isHostUnit_of_domainLength (t : Text) :
    ∀ u ∈ t.take (domainLength t), isHostUnit u := by
  have hlabel {u : CodeUnit} (hu : isDomainUnit u) : isHostUnit u :=
    Bool.or_eq_true_iff.2 (.inr hu)
  induction t using domainLength.induct with
  | case1 dot u rest hdot label ih =>
      rw [domainLength, if_pos hdot]
      obtain ⟨hdot, hu⟩ := Bool.and_eq_true_iff.1 hdot
      intro v hv
      have hlength : (rest.takeWhile isDomainUnit).length + 2 +
          domainLength (rest.drop (rest.takeWhile isDomainUnit).length) =
          2 + (label.length + domainLength (rest.drop label.length)) := by
        rw [← Nat.add_assoc, Nat.add_comm 2]
      rw [hlength, List.take_add, List.mem_append] at hv
      rcases hv with hv | hv
      · have hv : v = dot ∨ v = u := by simpa using hv
        rcases hv with rfl | rfl
        · exact Bool.or_eq_true_iff.2 (.inl hdot)
        · exact hlabel hu
      · rw [List.drop_succ_cons, List.drop_succ_cons, List.drop_zero, List.take_add,
          List.mem_append] at hv
        rcases hv with hv | hv
        · rw [← List.prefix_iff_eq_take.1 (List.takeWhile_prefix _)] at hv
          exact hlabel (List.mem_takeWhile_imp hv)
        · exact ih v hv
  | case2 dot u rest hdot =>
      rw [domainLength, if_neg hdot]
      simp
  | case3 t hshort =>
      rw [domainLength]
      · simp
      · exact hshort

/-- An e-mail address ends in its domain. -/
theorem mail?_closed (h : mail? t = some lexeme) :
    lexeme.kind = .url ∧ ∃ u, t[lexeme.length - 1]? = some u ∧ isHostUnit u = true := by
  have hle := length_le_of_mail? h
  obtain ⟨mailbox, tail, label, more, -, hdrop, -, rfl, hpos, rfl⟩ := mail?_shape h
  have hmore := domainLength_le (tail.drop label.length)
  have hhost := isHostUnit_of_domainLength (tail.drop label.length)
  generalize domainLength (tail.drop label.length) = more at hle hhost hmore hpos ⊢
  have htail : (t.take addressWindow).drop (mailbox.length + 1) = tail := by
    rw [← List.drop_drop, hdrop, List.drop_succ_cons, List.drop_zero]
  obtain ⟨u, hu⟩ : ∃ u, (tail.drop label.length)[more - 1]? = some u :=
    ⟨_, List.getElem?_eq_getElem (by omega)⟩
  refine ⟨rfl, u, ?_, hhost u (List.mem_of_getElem? (i := more - 1) ?_)⟩
  · dsimp only at hle ⊢
    rw [List.length_take] at hle
    rw [← htail, List.drop_drop, List.getElem?_drop, List.getElem?_take_of_lt (by omega)] at hu
    rw [← hu]
    congr 1
    omega
  · rw [List.getElem?_take_of_lt (by omega), hu]

theorem mail?_shows (h : mail? t = some lexeme) : lexeme.Shows t := by
  obtain ⟨hkind, u, hlast, hhost⟩ := mail?_closed h
  refine .address hkind (.inr (.inl ?_))
  rw [Text.signAt, hlast, Option.any_some]
  exact isCommandSign_eq_false _ rfl rfl hhost

/-- No command starts inside the tail of a word. -/
theorem startsCommand_of_lt_wordTail {i : Nat} {u : CodeUnit} {rest : Text}
    (hi : i < wordTail t) (hdrop : t.drop i = u :: rest) : startsCommand u rest = false := by
  induction t generalizing i with
  | nil => cases hi
  | cons v more ih =>
      rw [wordTail] at hi
      split at hi
      · cases hi
      · next hgoes =>
        cases i with
        | zero =>
            cases hdrop
            simp only [Bool.or_eq_true, not_or] at hgoes
            exact Bool.eq_false_iff.2 hgoes.1.1.2
        | succ i => exact ih (Nat.lt_of_succ_lt_succ hi) hdrop

theorem word_shows (t : Text) : (word t).Shows t := by
  refine .word rfl fun i u rest hpos hlt hdrop => ?_
  obtain ⟨i, rfl⟩ := Nat.exists_eq_add_of_lt hpos
  have hlt : 0 + i + 1 < 1 + wordTail (t.drop 1) := hlt
  refine startsCommand_of_lt_wordTail (t := t.drop 1) (i := i) (by omega) ?_
  rw [List.drop_drop, ← hdrop]
  congr 1
  omega

theorem marked?_shows (h : marked? t = some lexeme) : lexeme.Shows t := by
  rcases marked?_forms h with ⟨u, rest, rfl, hsign, hcommand⟩ | htag | hentity | hkeyword
  · exact command?_shows hsign hcommand
  · exact tag?_shows htag
  · exact entity?_shows hentity
  · exact keyword?_shows hkeyword

theorem plain_shows (t : Text) : (plain t).Shows t := by
  rcases plain_forms t with hmarked | haddress | hmail | hword
  · exact marked?_shows hmarked
  · exact address?_shows haddress
  · exact mail?_shows hmail
  · exact hword ▸ word_shows t

/-- Which command characters the lexeme at any place of a text may hold. -/
theorem next_shows (insidePre insideList atLineStart : Bool) (t : Text) :
    (next insidePre insideList atLineStart t).Shows t := by
  rcases next_cases insidePre insideList atLineStart t with hskips | ⟨-, hplain⟩
  · exact hskips.shows
  · rw [hplain]
    exact plain_shows t

end Lexeme

end DocMarkup
