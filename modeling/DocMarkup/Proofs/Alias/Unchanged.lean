import Mathlib.Algebra.Ring.Parity
import DocMarkup.Proofs.Alias.Commands
import DocMarkup.Proofs.Alias.Places
import DocMarkup.Proofs.Alias.Seams

/-!
Texts that expansion leaves as they are.  A command sign that takes part in an escape begins no
command: in a run of such signs they escape each other by pairs, from the left.  So the name of an
alias is no reference behind an odd number of signs before its own, and a text without references
stays as it is, whatever else stands in it.
-/

namespace DocMarkup

namespace Text

/-- How many command signs stand directly before an offset. -/
def signsBefore (t : Text) : Nat → Nat
  | 0 => 0
  | offset + 1 => if signAt t offset then signsBefore t offset + 1 else 0

theorem signsBefore_succ {t : Text} {offset : Nat} (h : signAt t offset) :
    signsBefore t (offset + 1) = signsBefore t offset + 1 :=
  if_pos h

theorem signsBefore_succ_of_not {t : Text} {offset : Nat} (h : ¬signAt t offset) :
    signsBefore t (offset + 1) = 0 :=
  if_neg h

end Text

namespace AliasTable

variable {table : AliasTable} {t : Text} {offset : Nat}

/-! ### Names of aliases -/

theorem NamesAliasAt.signAt (h : table.NamesAliasAt t offset) : Text.signAt t offset := by
  obtain ⟨sign, name, after, hdrop, hsign, -⟩ := h
  rw [Text.signAt_eq_head, hdrop]
  exact CodeUnit.isCommandSign_iff.2 hsign

theorem NamesAliasAt.lt_length (h : table.NamesAliasAt t offset) : offset < t.length := by
  obtain ⟨sign, name, after, hdrop, -⟩ := h
  by_contra hle
  rw [List.drop_eq_nil_of_le (Nat.le_of_not_lt hle)] at hdrop
  cases hdrop

/-- The name of an alias is the whole identifier behind a command sign. -/
theorem namesAliasAt_iff :
    table.NamesAliasAt t offset ↔
      Text.signAt t offset ∧
        (t.drop (offset + 1)).head?.any CodeUnit.isIdentifierStart ∧
        table.hasName ((t.drop (offset + 1)).takeWhile CodeUnit.isIdentifierChar) := by
  rw [← List.drop_drop]
  constructor
  · intro h
    obtain ⟨sign, name, after, hdrop, -, hstart, hname, hstop, hnamed⟩ := id h
    have hhead : (name ++ after).head?.any CodeUnit.isIdentifierStart := by
      cases name with
      | nil => cases hstart
      | cons u name => exact hstart
    have hafter : after.takeWhile CodeUnit.isIdentifierChar = [] := by
      cases after with
      | nil => rfl
      | cons u after => exact List.takeWhile_cons_of_neg (by simpa using hstop)
    refine ⟨h.signAt, ?_, ?_⟩
    · rwa [hdrop, List.drop_succ_cons, List.drop_zero]
    · rwa [hdrop, List.drop_succ_cons, List.drop_zero,
        List.takeWhile_append_of_pos (List.all_eq_true.1 hname), hafter, List.append_nil]
  · rintro ⟨hsign, hhead, hnamed⟩
    rw [Text.signAt_eq_head] at hsign
    cases hdrop : t.drop offset with
    | nil => rw [hdrop] at hsign; cases hsign
    | cons sign rest =>
        rw [hdrop, List.drop_succ_cons, List.drop_zero] at hhead hnamed
        obtain ⟨name, after, rfl, htaken, hstart, hname, hstop⟩ := exists_identifier hhead
        rw [hdrop] at hsign
        rw [htaken] at hnamed
        exact ⟨sign, name, after, hdrop, CodeUnit.isCommandSign_iff.1 hsign, hstart, hname, hstop,
          hnamed⟩

instance : Decidable (table.NamesAliasAt t offset) := decidable_of_iff' _ namesAliasAt_iff

/-! ### Escapes by pairs -/

/-- Before a command sign that is read on its own the command signs escape each other by pairs. -/
theorem even_signsBefore {piece : Nat × Text} (h : piece ∈ table.cuts 0 t)
    (hsign : Text.signAt t piece.1) : Even (Text.signsBefore t piece.1) := by
  induction hplace : piece.1 using Nat.strongRecOn generalizing piece with
  | ind offset ih =>
      cases offset with
      | zero => exact ⟨0, rfl⟩
      | succ i =>
          by_cases hfirst : Text.signAt t i
          case neg => exact ⟨0, Text.signsBefore_succ_of_not hfirst⟩
          case pos =>
            -- the two signs are an escape and the next piece, so the escape began one before
            obtain ⟨before, hbefore, hends, hescape⟩ :=
              escape_before h hplace hfirst (hplace ▸ hsign)
            obtain ⟨j, rfl⟩ : ∃ j, i = j + 1 := ⟨before.1, by omega⟩
            have hbegins : before.1 = j := by omega
            have heven := ih j (by omega) hbefore hescape hbegins
            rw [Text.signsBefore_succ hfirst, Text.signsBefore_succ (hbegins ▸ hescape)]
            exact heven.add even_two

/-! ### Texts without references -/

/-- A piece that is no name of an alias, or begins inside an escape, is no reference. -/
theorem inert_of_escaped {definitions : List Alias}
    (h : ∀ offset, (ofList definitions).NamesAliasAt t offset → Odd (Text.signsBefore t offset))
    {piece : Nat × Text} (hpiece : piece ∈ (ofList definitions).cuts 0 t) :
    (ofList definitions).Inert piece.2 := by
  intro found hfound
  rw [(lead_of_mem_cuts hpiece).2] at hfound
  obtain ⟨sign, name, after, hdrop, hsign, hstart, hname, hstop, rfl⟩ := lead_eq_command hfound
  have hsilent : ¬(((ofList definitions).reference name after).value.isSome ∨
      ((ofList definitions).reference name after).wrongCount) := by
    intro hreference
    have hnames : (ofList definitions).NamesAliasAt t piece.1 :=
      ⟨sign, name, after, hdrop, hsign, hstart, hname, hstop,
        hasName_of_reference hname hreference⟩
    exact Nat.not_odd_iff_even.2 (even_signsBefore hpiece hnames.signAt) (h piece.1 hnames)
  simpa [not_or] using hsilent

/-- A text in which every name of an alias behind a command sign is escaped, or in which there is
none, is its own expansion, and nothing is reported. -/
theorem expand_eq_self (definitions : List Alias) (t fileName : Text)
    (h : ∀ offset, (ofList definitions).NamesAliasAt t offset → Odd (Text.signsBefore t offset)) :
    (ofList definitions).expand t fileName = (t, []) := by
  have hinert : ∀ piece ∈ (ofList definitions).tokens t, (ofList definitions).Inert piece := by
    rw [tokens]
    exact List.forall_mem_map.2 fun piece hpiece => inert_of_escaped h hpiece
  rw [expand, expandFrom_of_inert hinert]
  rfl

/-- Names of aliases behind one and behind three command signs before their own, a command that only
begins like an alias, one that no alias is named like, and signs that begin no command. -/
theorem expand_eq_self_escaped :
    let definitions : List Alias :=
      [⟨units "sig", 0, units "Signed"⟩, ⟨units "bold", 1, units "<b>\\1</b>"⟩]
    let t := units
      "\\\\bold\x7bx\x7d \\\\\\@sig \\bolder\x7bc\x7d @unknown\x7ba,b\x7d \\. sig@ 7\\"
    (ofList definitions).NamesAliasAt t 1 ∧
      (∀ offset, (ofList definitions).NamesAliasAt t offset →
        Odd (Text.signsBefore t offset)) ∧
      (ofList definitions).expand t [] = (t, []) := by
  intro definitions t
  have hescaped : ∀ offset, (ofList definitions).NamesAliasAt t offset →
      Odd (Text.signsBefore t offset) := by
    have hall : ∀ offset < t.length, (ofList definitions).NamesAliasAt t offset →
        Odd (Text.signsBefore t offset) := by
      decide +kernel
    exact fun offset hnames => hall offset hnames.lt_length hnames
  exact ⟨by decide +kernel, hescaped, expand_eq_self definitions t [] hescaped⟩

end AliasTable

end DocMarkup
