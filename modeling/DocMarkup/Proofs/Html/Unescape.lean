import Mathlib.Data.List.Infix
import DocMarkup.Html.Escape

/-!
Entities read back.  When no entity begins another one and the ampersand itself has one, a single
pass over an escaped text, from left to right, finds the entities that were written and no others.
When moreover no entity holds an escaped unit behind its ampersand, every ampersand of an escaped
text is one that was written with an entity.
-/

namespace DocMarkup.Html

/-- The text from which the entities of a table are read, where some units at the start still belong
to an entity that has been read. -/
def unescapeFrom (table : EscapeTable) : Nat → Text → Text
  | _, [] => []
  | skip + 1, _ :: rest => unescapeFrom table skip rest
  | 0, u :: rest =>
    match table.find? fun entry => entry.2.isPrefixOf (u :: rest) with
    | some entry => entry.1 :: unescapeFrom table (entry.2.length - 1) rest
    | none => u :: unescapeFrom table 0 rest

/-- The text with the entities of a table replaced by what they stand for, in one pass from left to
right. -/
def unescapeWith (table : EscapeTable) (t : Text) : Text := unescapeFrom table 0 t

/-- Every entity begins with an ampersand, which has an entity, and none begins another one. -/
structure IsEntityTable (table : EscapeTable) : Prop where
  starts : ∀ entry ∈ table, entry.2.head? = some (unit '&')
  ampersand : ∃ entry ∈ table, entry.1 = unit '&'
  apart : ∀ entry ∈ table, ∀ other ∈ table, other.2 <+: entry.2 → other = entry

instance (table : EscapeTable) : Decidable (IsEntityTable table) :=
  decidable_of_iff
    ((∀ entry ∈ table, entry.2.head? = some (unit '&')) ∧ (∃ entry ∈ table, entry.1 = unit '&') ∧
      ∀ entry ∈ table, ∀ other ∈ table, other.2 <+: entry.2 → other = entry)
    ⟨fun ⟨starts, ampersand, apart⟩ => ⟨starts, ampersand, apart⟩,
      fun h => ⟨h.starts, h.ampersand, h.apart⟩⟩

theorem isEntityTable_page : IsEntityTable pageTable := by decide

/-- Behind its ampersand, no entity holds a unit that has an entity itself. -/
def IsPlainBehind (table : EscapeTable) : Prop :=
  ∀ entry ∈ table, ∀ u ∈ entry.2.tail, ∀ other ∈ table, other.1 ≠ u

instance (table : EscapeTable) : Decidable (IsPlainBehind table) :=
  decidable_of_iff
    (table.all fun entry => entry.2.tail.all fun u => table.all fun other => other.1 != u)
    (by simp [IsPlainBehind])

variable {table : EscapeTable} {t : Text}

/-! ### One step of reading -/

theorem unescapeWith_nil : unescapeWith table [] = [] := rfl

theorem unescapeFrom_eq (skip : Nat) (t : Text) :
    unescapeFrom table skip t = unescapeWith table (t.drop skip) := by
  induction skip generalizing t with
  | zero => rfl
  | succ skip ih =>
      cases t with
      | nil => rfl
      | cons u rest => exact ih rest

/-- Two entities at the start of one text are the same. -/
theorem IsEntityTable.eq_of_prefix (h : IsEntityTable table) {entry other : CodeUnit × Text}
    (hentry : entry ∈ table) (hother : other ∈ table) (hread : entry.2 <+: t)
    (hotherRead : other.2 <+: t) : other = entry := by
  rcases List.prefix_or_prefix_of_prefix hread hotherRead with hprefix | hprefix
  · exact (h.apart other hother entry hentry hprefix).symm
  · exact h.apart entry hentry other hother hprefix

theorem unescapeWith_entity (h : IsEntityTable table) {entry : CodeUnit × Text}
    (hentry : entry ∈ table) (rest : Text) :
    unescapeWith table (entry.2 ++ rest) = entry.1 :: unescapeWith table rest := by
  obtain ⟨tail, htail⟩ : ∃ tail, entry.2 = unit '&' :: tail := by
    have hstart := h.starts entry hentry
    cases hentity : entry.2 with
    | nil => simp [hentity] at hstart
    | cons u tail => exact ⟨tail, by simpa [hentity] using hstart⟩
  have hfound : (table.find? fun other => other.2.isPrefixOf (entry.2 ++ rest)) = some entry := by
    cases hfind : table.find? fun other => other.2.isPrefixOf (entry.2 ++ rest) with
    | none =>
        have hnone := List.find?_eq_none.1 hfind entry hentry
        exact absurd (List.isPrefixOf_iff_prefix.2 (List.prefix_append ..)) hnone
    | some other =>
        have hother := List.mem_of_find?_eq_some hfind
        have hread := List.find?_some hfind
        rw [h.eq_of_prefix hentry hother (List.prefix_append ..)
          (List.isPrefixOf_iff_prefix.1 hread)]
  rw [htail, List.cons_append] at hfound ⊢
  rw [unescapeWith, unescapeFrom, hfound]
  dsimp only
  rw [unescapeFrom_eq, htail, List.length_cons, Nat.add_sub_cancel, List.drop_left]

theorem unescapeWith_cons (h : IsEntityTable table) {u : CodeUnit} (hu : u ≠ unit '&')
    (rest : Text) : unescapeWith table (u :: rest) = u :: unescapeWith table rest := by
  have hnone : (table.find? fun entry => entry.2.isPrefixOf (u :: rest)) = none := by
    rw [List.find?_eq_none]
    intro entry hentry hread
    have hstart := h.starts entry hentry
    obtain ⟨tail, htail⟩ := List.isPrefixOf_iff_prefix.1 hread
    cases hentity : entry.2 with
    | nil => simp [hentity] at hstart
    | cons v entity =>
        rw [hentity] at hstart htail
        exact hu ((List.cons.inj htail).1.symm.trans (Option.some.inj hstart))
  rw [unescapeWith, unescapeFrom, hnone]
  rfl

/-! ### Whole texts -/

/-- An escaped text is read back, whatever follows it. -/
theorem unescapeWith_escapeWith_append (h : IsEntityTable table) (t rest : Text) :
    unescapeWith table (escapeWith table t ++ rest) = t ++ unescapeWith table rest := by
  induction t with
  | nil => rfl
  | cons u t ih =>
      have hstep : escapeWith table (u :: t) =
          ((table.find? (·.1 == u)).map (·.2)).getD [u] ++ escapeWith table t := List.flatMap_cons
      rw [hstep, List.append_assoc]
      cases hfound : table.find? (·.1 == u) with
      | some entry =>
          have hunit := List.find?_some hfound
          rw [Option.map_some, Option.getD_some,
            unescapeWith_entity h (List.mem_of_find?_eq_some hfound), ih, beq_iff_eq.1 hunit]
          rfl
      | none =>
          have hu : u ≠ unit '&' := by
            rintro rfl
            obtain ⟨entry, hentry, hunit⟩ := h.ampersand
            exact List.find?_eq_none.1 hfound entry hentry (beq_iff_eq.2 hunit)
          rw [Option.map_none, Option.getD_none, List.singleton_append, unescapeWith_cons h hu, ih]
          rfl

/-- Reading undoes escaping. -/
theorem unescapeWith_escapeWith (h : IsEntityTable table) (t : Text) :
    unescapeWith table (escapeWith table t) = t := by
  have hread := unescapeWith_escapeWith_append h t []
  rwa [unescapeWith_nil, List.append_nil, List.append_nil] at hread

theorem escapeWith_append (table : EscapeTable) (a b : Text) :
    escapeWith table (a ++ b) = escapeWith table a ++ escapeWith table b := List.flatMap_append

/-! ### What an escaped text holds -/

/-- A unit without an entity is written as itself; otherwise its entity is written, which is an
ampersand and units without entities. -/
theorem escapeWith_singleton (h : IsEntityTable table) (hplain : IsPlainBehind table)
    (u : CodeUnit) :
    (escapeWith table [u] = [u] ∧ ∀ entry ∈ table, entry.1 ≠ u) ∨
      ∃ entry ∈ table, ∃ tail, escapeWith table [u] = unit '&' :: tail ∧
        entry.2 = unit '&' :: tail ∧ ∀ v ∈ tail, ∀ other ∈ table, other.1 ≠ v := by
  rw [escapeWith, List.flatMap_singleton]
  cases hfound : table.find? (·.1 == u) with
  | none =>
      refine .inl ⟨rfl, fun entry hentry hunit => ?_⟩
      exact List.find?_eq_none.1 hfound entry hentry (beq_iff_eq.2 hunit)
  | some entry =>
      have hentry := List.mem_of_find?_eq_some hfound
      have hstart := h.starts entry hentry
      have hentity : entry.2 = unit '&' :: entry.2.tail := List.eq_cons_of_mem_head? hstart
      exact .inr ⟨entry, hentry, entry.2.tail, hentity, hentity, hplain entry hentry⟩

/-- Of the units that have entities, only the ampersand is left. -/
theorem eq_ampersand_of_mem_escapeWith (h : IsEntityTable table) (hplain : IsPlainBehind table)
    {entry : CodeUnit × Text} (hentry : entry ∈ table) (hleft : entry.1 ∈ escapeWith table t) :
    entry.1 = unit '&' := by
  induction t with
  | nil => simp [escapeWith] at hleft
  | cons u t ih =>
      rw [← List.singleton_append, escapeWith_append, List.mem_append] at hleft
      rcases hleft with hhead | hrest
      · rcases escapeWith_singleton h hplain u with
          ⟨hkept, hnone⟩ | ⟨_, _, tail, hwritten, _, hfree⟩
        · rw [hkept, List.mem_singleton] at hhead
          exact absurd hhead (hnone entry hentry)
        · rw [hwritten, List.mem_cons] at hhead
          exact hhead.resolve_right fun htail => hfree _ htail entry hentry rfl
      · exact ih hrest

/-- Every ampersand is the start of an entity. -/
theorem exists_entity_of_escapeWith_eq (h : IsEntityTable table) (hplain : IsPlainBehind table)
    {before after : Text} (hwritten : escapeWith table t = before ++ unit '&' :: after) :
    ∃ entry ∈ table, entry.2 <+: unit '&' :: after := by
  obtain ⟨amp, hamp, hampUnit⟩ := h.ampersand
  induction t generalizing before with
  | nil => simp [escapeWith] at hwritten
  | cons u t ih =>
      rw [← List.singleton_append, escapeWith_append] at hwritten
      -- The ampersand stands in what is written for the first unit, or behind it.
      rcases List.append_eq_append_iff.1 hwritten with ⟨mid, -, hrest⟩ | ⟨mid, hhead, hrest⟩
      case inl => exact ih hrest
      case inr =>
        cases mid with
        | nil =>
            have hbehind : escapeWith table t = [] ++ unit '&' :: after := hrest.symm
            exact ih hbehind
        | cons v mid =>
            obtain ⟨rfl, rfl⟩ := List.cons.inj hrest
            rcases escapeWith_singleton h hplain u with
              ⟨hkept, hnone⟩ | ⟨entry, hentry, tail, hentity, hname, hfree⟩
            · rw [hkept, List.singleton_eq_append_iff] at hhead
              rcases hhead with ⟨-, hunit⟩ | ⟨-, hunit⟩
              · exact absurd (hampUnit.trans (List.cons.inj hunit).1) (hnone amp hamp)
              · cases hunit
            · rw [hentity] at hhead
              cases before with
              | nil =>
                  have htail : tail = mid := (List.cons.inj hhead).2
                  refine ⟨entry, hentry, ?_⟩
                  rw [hname, htail]
                  exact ⟨escapeWith table t, rfl⟩
              | cons w before =>
                  have hinner : unit '&' ∈ tail := by
                    rw [(List.cons.inj hhead).2]
                    exact List.mem_append_right _ (List.mem_cons_self ..)
                  exact absurd hampUnit (hfree _ hinner amp hamp)

/-! ### Nothing is lost -/

/-- Escaping with the entities of a table loses nothing: the text is read back in one pass, no unit
with an entity is left but the ampersand, every ampersand starts an entity of the table, different
texts are written differently, and a text can be escaped in parts. -/
structure IsLossless (table : EscapeTable) (escape : Text → Text) : Prop where
  unescape : ∀ t, unescapeWith table (escape t) = t
  only_ampersand : ∀ t, ∀ entry ∈ table, entry.1 ∈ escape t → entry.1 = unit '&'
  ampersand_starts : ∀ t before after, escape t = before ++ unit '&' :: after →
    ∃ entry ∈ table, entry.2 <+: unit '&' :: after
  injective : Function.Injective escape
  append : ∀ a b, escape (a ++ b) = escape a ++ escape b

theorem isLossless_escapeWith (h : IsEntityTable table) (hplain : IsPlainBehind table) :
    IsLossless table (escapeWith table) where
  unescape := unescapeWith_escapeWith h
  only_ampersand _ _ hentry hleft := eq_ampersand_of_mem_escapeWith h hplain hentry hleft
  ampersand_starts _ _ _ hwritten := exists_entity_of_escapeWith_eq h hplain hwritten
  injective := Function.LeftInverse.injective (unescapeWith_escapeWith h)
  append := escapeWith_append table

/-- Entities named by their characters. -/
def entities (named : List (Char × String)) : EscapeTable :=
  named.map fun (c, entity) => (unit c, units entity)

/-- Whichever place a text is escaped for, nothing is lost. -/
theorem isLossless_escapes :
    IsLossless (entities [('<', "&lt;"), ('>', "&gt;"), ('&', "&amp;")]) escapeText ∧
    IsLossless (entities [('<', "&lt;"), ('>', "&gt;"), ('&', "&amp;"), ('"', "&quot;"),
      ('\'', "&apos;")]) escapeAttribute ∧
    IsLossless (entities [('<', "&lt;"), ('>', "&gt;"), ('&', "&amp;"), ('"', "&quot;")])
      escapeQuoted ∧
    IsLossless (entities [('<', "&lt;"), ('>', "&gt;"), ('&', "&amp;"), ('\'', "&#39;"),
      ('"', "&quot;")]) escapePage :=
  ⟨isLossless_escapeWith (by decide) (by decide), isLossless_escapeWith (by decide) (by decide),
    isLossless_escapeWith (by decide) (by decide), isLossless_escapeWith (by decide) (by decide)⟩

end DocMarkup.Html
