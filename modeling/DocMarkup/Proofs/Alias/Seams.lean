import Mathlib.Data.List.Basic
import DocMarkup.Proofs.Alias.Expansion

/-!
Expanding twice.  The text of an expansion is put together from stretches that were expanded apart.
Each of them holds no reference to an alias any more, so only what is read across a seam between
two of them can be one.
-/

namespace DocMarkup

namespace AliasTable

mutual

/-- The pieces a part keeps, before those of later parts.  What is kept joins the run that follows;
a value is a stretch of its own. -/
def Part.runs : Part → List (List Text) → List (List Text)
  | .kept text _, later => later.modifyHead (text :: ·)
  | .entered _ parts, later => [] :: (runs parts ++ later)

/-- The pieces that parts keep, in runs that stood side by side in the text they were read from. -/
def runs : List Part → List (List Text)
  | [] => [[]]
  | part :: rest => part.runs (runs rest)

end

/-- The text that parts write, cut where a value begins or ends. -/
def stretches (parts : List Part) : List Text := (runs parts).map List.flatten

/-- No command and no escape reaches from one of these texts into the next when they are read as
one. -/
def ReadsApart (table : AliasTable) (texts : List Text) : Prop :=
  table.tokens texts.flatten = texts.flatMap table.tokens

instance (table : AliasTable) (texts : List Text) : Decidable (table.ReadsApart texts) :=
  inferInstanceAs (Decidable (_ = _))

theorem runs_ne_nil (parts : List Part) : runs parts ≠ [] := by
  induction parts with
  | nil => exact List.cons_ne_nil _ _
  | cons part parts ih =>
      cases part with
      | kept text troubles => simpa [runs, Part.runs] using ih
      | entered key inner => exact List.cons_ne_nil _ _

mutual

theorem Part.flatten_runs : ∀ (part : Part) {later : List (List Text)}, later ≠ [] →
    (part.runs later).flatten = part.gather (fun text _ => [text]) ++ later.flatten
  | .kept text troubles, [], h => absurd rfl h
  | .kept text troubles, head :: others, _ => rfl
  | .entered key parts, later, _ => by
      rw [Part.runs, List.flatten_cons, List.nil_append, List.flatten_append, flatten_runs parts]
      rfl

theorem flatten_runs : ∀ parts : List Part, (runs parts).flatten = keptOf parts
  | [] => rfl
  | part :: rest => by
      rw [runs, Part.flatten_runs part (runs_ne_nil rest), flatten_runs rest]
      rfl

end

mutual

theorem Part.flatten_gather {α : Type} (select : Text → List Trouble → List (List α)) :
    ∀ part : Part, (part.gather select).flatten =
      part.gather fun text troubles => (select text troubles).flatten
  | .kept _ _ => rfl
  | .entered _ parts => flatten_gather select parts

theorem flatten_gather {α : Type} (select : Text → List Trouble → List (List α)) :
    ∀ parts : List Part, (gather select parts).flatten =
      gather (fun text troubles => (select text troubles).flatten) parts
  | [] => rfl
  | part :: rest => by
      rw [gather, gather, List.flatten_append, Part.flatten_gather select part,
        flatten_gather select rest]

end

theorem flatten_keptOf (parts : List Part) : (keptOf parts).flatten = textOf parts := by
  rw [keptOf, flatten_gather, textOf]
  simp only [List.flatten_singleton]

theorem flatten_stretches (parts : List Part) : (stretches parts).flatten = textOf parts := by
  rw [stretches, ← List.flatten_flatten, flatten_runs, flatten_keptOf]

/-- The runs of parts start with one that stood at the start of the text, and each stood at the
start of some text. -/
theorem runs_start (table : AliasTable) (depth : Nat) (active : List Text)
    (origin : Option Nat) (offset : Nat) (t : Text) :
    ∃ head others, runs (table.parts depth active origin offset t) = head :: others ∧
      head <+: table.tokens t ∧ ∀ run ∈ others, ∃ s, run <+: table.tokens s := by
  induction depth using Nat.strongRecOn generalizing active origin offset t with
  | ind depth ihdepth =>
      rw [parts]
      -- the pieces of the text extend its first run or end it, those of a value are met by depth
      fun_induction cuts table offset t with
      | case1 => exact ⟨[], [], rfl, List.nil_prefix, List.forall_mem_nil _⟩
      | case2 offset u rest length ih =>
          obtain ⟨head, others, hruns, hhead, hothers⟩ := ih
          have hbecomes := table.becomes_part depth active origin (offset, (u :: rest).take length)
          have hkept : (u :: rest).take length :: head <+: table.tokens (u :: rest) := by
            rw [tokens_of_ne_nil (List.cons_ne_nil u rest)]
            exact List.cons_prefix_cons.2 ⟨rfl, hhead⟩
          rw [List.map_cons, runs, hruns]
          generalize table.part depth active origin (offset, (u :: rest).take length) = part
            at hbecomes ⊢
          cases hbecomes with
          | kept => exact ⟨_, others, rfl, hkept, hothers⟩
          | wrong => exact ⟨_, others, rfl, hkept, hothers⟩
          | stopped => exact ⟨_, others, rfl, hkept, hothers⟩
          | entered =>
              refine ⟨[], _, rfl, List.nil_prefix, fun run hrun => ?_⟩
              rcases List.mem_append.1 hrun with hinner | hlater
              · obtain ⟨_, _, hinnerRuns, hstart, hmore⟩ := ihdepth _ (Nat.lt_succ_self _)
                  _ _ _ _
                rw [hinnerRuns] at hinner
                rcases List.mem_cons.1 hinner with rfl | hinner
                · exact ⟨_, hstart⟩
                · exact hmore run hinner
              · rcases List.mem_cons.1 hlater with rfl | hlater
                · exact ⟨_, hhead⟩
                · exact hothers run hlater

theorem tokens_flatten_of_mem_runs {table : AliasTable} {depth : Nat} {active : List Text}
    {origin : Option Nat} {offset : Nat} {t : Text} {run : List Text}
    (h : run ∈ runs (table.parts depth active origin offset t)) :
    table.tokens run.flatten = run := by
  obtain ⟨head, others, hruns, hhead, hothers⟩ := table.runs_start depth active origin offset t
  rw [hruns] at h
  rcases List.mem_cons.1 h with rfl | h
  · exact tokens_flatten_of_starts hhead
  · obtain ⟨_, hstart⟩ := hothers run h
    exact tokens_flatten_of_starts hstart

/-- If nothing reaches across a seam, the text of an expansion is cut into the pieces kept. -/
theorem tokens_textOf {table : AliasTable} {depth : Nat} {active : List Text}
    {origin : Option Nat} {offset : Nat} {t : Text}
    (h : table.ReadsApart (stretches (table.parts depth active origin offset t))) :
    table.tokens (textOf (table.parts depth active origin offset t)) =
      keptOf (table.parts depth active origin offset t) := by
  rw [ReadsApart, flatten_stretches, stretches, List.flatMap_map] at h
  rw [h, ← flatten_runs, ← List.flatMap_id]
  exact List.flatMap_congr fun run hrun => tokens_flatten_of_mem_runs hrun

/-! ### Expanding twice -/

/-- A piece that expansion leaves alone without a word: no reference to an alias. -/
def Inert (table : AliasTable) (piece : Text) : Prop :=
  ∀ found, table.lead piece = .command found → found.value = none ∧ found.wrongCount = false

theorem inert_of_mem_keptOf {table : AliasTable} {depth : Nat} {active : List Text}
    {origin : Option Nat} {offset : Nat} {t : Text}
    (h : troublesOf (table.parts depth active origin offset t) = []) {piece : Text}
    (hpiece : piece ∈ keptOf (table.parts depth active origin offset t)) :
    table.Inert piece := by
  induction depth using Nat.strongRecOn generalizing active origin offset t with
  | ind depth ih =>
      rw [keptOf, gather_eq_flatMap] at hpiece
      rw [troublesOf, gather_eq_flatMap, List.flatMap_eq_nil_iff] at h
      obtain ⟨part, hpart, hkept⟩ := List.mem_flatMap.1 hpiece
      have hsilent := h part hpart
      obtain ⟨cut, -, rfl⟩ := List.mem_map.1 hpart
      have hbecomes := table.becomes_part depth active origin cut
      generalize table.part depth active origin cut = part at hbecomes hkept hsilent
      cases hbecomes with
      | kept hinert =>
          rw [List.mem_singleton.1 hkept]
          exact hinert
      | wrong _ _ hwrong =>
          rw [Part.gather, Reference.wrong, if_pos hwrong] at hsilent
          cases hsilent
      | stopped =>
          rw [Part.gather, Reference.recursive] at hsilent
          cases hsilent
      | entered => exact ih _ (Nat.lt_succ_self _) hsilent hkept

theorem part_of_inert {table : AliasTable} {depth : Nat} {active : List Text}
    {origin : Option Nat} {piece : Nat × Text} (h : table.Inert piece.2) :
    table.part depth active origin piece = .kept piece.2 [] := by
  have hbecomes := table.becomes_part depth active origin piece
  generalize table.part depth active origin piece = part at hbecomes
  cases hbecomes with
  | kept => rfl
  | wrong hlead _ hwrong => exact absurd hwrong (by simp [(h _ hlead).2])
  | stopped hlead hvalue => exact absurd hvalue (by simp [(h _ hlead).1])
  | entered hlead hvalue => exact absurd hvalue (by simp [(h _ hlead).1])

/-- A text of inert pieces is its own expansion. -/
theorem expandFrom_of_inert {table : AliasTable} {depth : Nat} {active : List Text}
    {origin : Option Nat} {offset : Nat} {t : Text}
    (h : ∀ piece ∈ table.tokens t, table.Inert piece) :
    table.expandFrom depth active origin offset t = (t, []) := by
  rw [← table.map_snd_cuts offset t] at h
  have hparts : table.parts depth active origin offset t =
      (table.cuts offset t).map fun piece => .kept piece.2 [] :=
    List.map_congr_left fun piece hpiece => part_of_inert (h _ (List.mem_map_of_mem hpiece))
  rw [expandFrom_eq, hparts]
  refine Prod.ext ?text ?troubles
  case text =>
    calc textOf ((table.cuts offset t).map fun piece => .kept piece.2 [])
        = (table.cuts offset t).flatMap (·.2) := by
          rw [textOf, gather_eq_flatMap, List.flatMap_map]
          rfl
      _ = (table.tokens t).flatten := by
          rw [← table.map_snd_cuts offset t, List.flatMap_def]
      _ = t := table.flatten_tokens t
  case troubles =>
    rw [troublesOf, gather_eq_flatMap, List.flatMap_map]
    exact List.flatMap_eq_nil_iff.2 fun _ _ => rfl

/-- A text that expands without trouble expands to a text that stays as it is, provided nothing in
it is read across a seam. -/
theorem expand_expand (table : AliasTable) (t fileName other : Text)
    (h : (table.expand t fileName).2 = [])
    (hseams : table.ReadsApart (stretches (table.tree t))) :
    table.expand (table.expand t fileName).1 other = ((table.expand t fileName).1, []) := by
  rw [table.expand_eq t fileName] at h ⊢
  have hsilent : troublesOf (table.tree t) = [] := List.map_eq_nil_iff.1 h
  have hinert : ∀ piece ∈ table.tokens (textOf (table.tree t)), table.Inert piece := by
    rw [tree, tokens_textOf hseams]
    exact fun piece hpiece => inert_of_mem_keptOf hsilent hpiece
  rw [expand, expandFrom_of_inert hinert]
  rfl

/-- The text of a test: an alias whose value refers to another one. -/
theorem expand_expand_wrapped :
    let table := (ofLines [units "pair\x7b2\x7d=(\\1; \\2)",
      units "wrap\x7b1\x7d=[\\pair\x7b\\1,z\x7d]"] settingsFile).1
    let t := units "see \\wrap\x7ba\x7d"
    (table.expand t []).2 = [] ∧ table.ReadsApart (stretches (table.tree t)) ∧
      (table.expand t []).1 = units "see [(a; z)]" ∧
      table.expand (table.expand t []).1 [] = ((table.expand t []).1, []) := by
  intro table t
  have hsilent : (table.expand t []).2 = [] := by
    rw [expand_eq]
    decide +kernel
  have hseams : table.ReadsApart (stretches (table.tree t)) := by decide +kernel
  refine ⟨hsilent, hseams, ?_, table.expand_expand t [] [] hsilent hseams⟩
  rw [expand_eq]
  decide +kernel

/-- Braces behind a plain alias are left alone, and become the arguments of a command that its value
ends with: the expansion of this text, met without trouble, is a text that expands further. -/
theorem expand_braces_again :
    let table := (ofLines [units "a=\\bold", units "bold\x7b1\x7d=<b>\\1</b>"] settingsFile).1
    table.expand (units "\\a\x7bx\x7d") [] = (units "\\bold\x7bx\x7d", []) ∧
      table.expand (units "\\bold\x7bx\x7d") [] = (units "<b>x</b>", []) := by
  simp only [expand_eq]
  decide +kernel

end AliasTable

end DocMarkup
