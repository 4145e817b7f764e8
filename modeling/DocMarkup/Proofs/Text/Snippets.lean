import Mathlib.Data.List.Infix
import DocMarkup.Text.Lines
import DocMarkup.Proofs.Scanner.Tiling

/-!
The block of a text that a marker encloses, seen line by line.  It begins behind the first line that
holds the marker, and ends before the next line that does, or with the text.  How often the marker
stands in a line, and where, does not matter.
-/

namespace DocMarkup.Text

open CodeUnit (lineFeed)

/-- The lines before the next line that holds the marker, each with its line feed; all of them, as
they stand in the text, when there is no such line. -/
def untilMarked (marker : Text) (lines : List Text) : Text :=
  if ∃ line ∈ lines, marker <:+: line then
    (lines.takeWhile fun line => ¬marker <:+: line).flatMap (· ++ [lineFeed])
  else join [lineFeed] lines

/-- The block that a marker encloses, by lines: what lies behind the first line that holds the
marker, up to the next. -/
def snippetOfLines? (marker : Text) (lines : List Text) : Option Text :=
  match lines.dropWhile fun line => ¬marker <:+: line with
  | [] => none
  | _ :: later => some (untilMarked marker later)

variable {marker line rest t : Text}

/-! ### Lines -/

/-- A text is one line, or a line with its line feed and a text behind it. -/
theorem lines_induction {motive : Text → Prop} (single : ∀ line, lineFeed ∉ line → motive line)
    (cons : ∀ line rest, lineFeed ∉ line → motive rest → motive (line ++ lineFeed :: rest))
    (t : Text) : motive t := by
  induction hlength : t.length using Nat.strongRecOn generalizing t with
  | ind n ih =>
      by_cases hfeed : lineFeed ∈ t
      case neg => exact single t hfeed
      case pos =>
        obtain ⟨line, rest, rfl, hline⟩ := List.eq_append_cons_of_mem hfeed
        refine cons line rest hline (ih rest.length ?_ rest rfl)
        rw [← hlength, List.length_append, List.length_cons]
        omega

theorem join_cons {lines : List Text} (hne : lines ≠ []) :
    join [lineFeed] (line :: lines) = line ++ lineFeed :: join [lineFeed] lines := by
  obtain ⟨next, lines, rfl⟩ := List.exists_cons_of_ne_nil hne
  simp [join]

/-! ### Markers in a line -/

/-- A marker without a line feed that begins in a line ends in it. -/
theorem prefix_line (hmarker : lineFeed ∉ marker) (h : marker <+: line ++ lineFeed :: rest) :
    marker <+: line := by
  rcases List.prefix_or_prefix_of_prefix h (List.prefix_append line _) with hline | ⟨more, rfl⟩
  · exact hline
  · cases more with
    | nil => rw [List.append_nil]
    | cons u more =>
        rw [List.prefix_append_right_inj, List.cons_prefix_cons] at h
        exact absurd (by simp [h.1]) hmarker

theorem not_isPrefixOf_line (hmarker : lineFeed ∉ marker) (h : ¬marker <+: line) :
    marker.isPrefixOf (line ++ lineFeed :: rest) = false := by
  rw [← Bool.not_eq_true, List.isPrefixOf_iff_prefix]
  exact fun hprefix => h (prefix_line hmarker hprefix)

/-- A line without the marker is passed over. -/
theorem indexOf?_line (hmarker : lineFeed ∉ marker) (h : ¬marker <:+: line) :
    indexOf? marker (line ++ lineFeed :: rest) =
      (indexOf? marker rest).map (· + (line.length + 1)) := by
  induction line with
  | nil =>
      rw [List.infix_nil, ← List.prefix_nil] at h
      rw [List.nil_append, indexOf?, ← List.nil_append (lineFeed :: rest),
        not_isPrefixOf_line hmarker h]
      rfl
  | cons u line ih =>
      rw [List.infix_cons_iff, not_or] at h
      rw [List.cons_append, indexOf?, ← List.cons_append, not_isPrefixOf_line hmarker h.1,
        ih h.2, if_neg Bool.false_ne_true, Option.map_map]
      rfl

/-- In a line with the marker its first occurrence ends in the line. -/
theorem exists_indexOf?_line (h : marker <:+: line) (more : Text) :
    ∃ i, indexOf? marker (line ++ more) = some i ∧ i + marker.length ≤ line.length := by
  obtain ⟨before, after, rfl⟩ := h
  cases hfound : indexOf? marker (before ++ marker ++ after ++ more) with
  | none =>
      refine absurd ?_ (not_isInfix_of_indexOf?_eq_none hfound)
      exact ⟨before, after ++ more, by simp⟩
  | some i =>
      refine ⟨i, rfl, ?_⟩
      have hle : i ≤ before.length := by
        by_contra hlt
        refine (of_indexOf?_eq_some hfound).2 before.length (by omega) ?_
        simp
      simp
      omega

theorem indexOf?_eq_none (h : ¬marker <:+: t) : indexOf? marker t = none := by
  cases hfound : indexOf? marker t with
  | none => rfl
  | some i =>
      exact absurd ((of_indexOf?_eq_some hfound).1.isInfix.trans (List.drop_suffix i t).isInfix) h

/-! ### Line feeds -/

theorem afterLineFeed?_line (hline : lineFeed ∉ line) :
    afterLineFeed? (line ++ lineFeed :: rest) = some rest := by
  have hpass : ∀ u ∈ line, (u != lineFeed) = true := fun u hu => by
    rw [bne_iff_ne]
    exact ne_of_mem_of_not_mem hu hline
  rw [afterLineFeed?, List.dropWhile_append_of_pos hpass,
    List.dropWhile_cons_of_neg (by simp)]

theorem afterLineFeed?_eq_none (hline : lineFeed ∉ line) : afterLineFeed? line = none := by
  have hpass : line.dropWhile (· != lineFeed) = [] := List.dropWhile_eq_nil_iff.2 fun u hu => by
    rw [bne_iff_ne]
    exact ne_of_mem_of_not_mem hu hline
  rw [afterLineFeed?, hpass]

theorem lastIndexOf?_eq_none {u : CodeUnit} (h : u ∉ t) : lastIndexOf? u t = none := by
  induction t with
  | nil => rfl
  | cons v t ih =>
      rw [List.mem_cons, not_or] at h
      rw [lastIndexOf?, ih h.2, if_neg (by simpa using Ne.symm h.1)]

theorem lastIndexOf?_line {u : CodeUnit} :
    lastIndexOf? u (line ++ u :: rest) =
      some (((lastIndexOf? u rest).map (· + (line.length + 1))).getD line.length) := by
  induction line with
  | nil =>
      rw [List.nil_append, lastIndexOf?]
      cases lastIndexOf? u rest with
      | none => exact if_pos (beq_self_eq_true u)
      | some i => rfl
  | cons v line ih =>
      rw [List.cons_append, lastIndexOf?, ih]
      cases lastIndexOf? u rest <;> rfl

/-! ### The block up to the next line with the marker -/

/-- The part of a text before the line that holds the marker next. -/
def beforeMarked (marker block : Text) : Text :=
  match indexOf? marker block with
  | none => block
  | some next =>
    match lastIndexOf? lineFeed (block.take (next + 1)) with
    | none => []
    | some last => block.take (last + 1)

theorem beforeMarked_marked (hne : marker ≠ []) (hline : lineFeed ∉ line)
    (h : marker <:+: line) (more : Text) : beforeMarked marker (line ++ more) = [] := by
  obtain ⟨i, hi, hle⟩ := exists_indexOf?_line h more
  have hpos := List.length_pos_iff.2 hne
  have htake : (line ++ more).take (i + 1) = line.take (i + 1) :=
    List.take_append_of_le_length (by omega)
  have hnone : lastIndexOf? lineFeed (line.take (i + 1)) = none :=
    lastIndexOf?_eq_none fun hmem => hline (List.mem_of_mem_take hmem)
  simp only [beforeMarked, hi, htake, hnone]

theorem beforeMarked_unmarked (hmarker : lineFeed ∉ marker) (h : ¬marker <:+: line) :
    beforeMarked marker (line ++ lineFeed :: rest) =
      line ++ lineFeed :: beforeMarked marker rest := by
  have htake (n : Nat) : (line ++ lineFeed :: rest).take (n + (line.length + 1)) =
      line ++ lineFeed :: rest.take n := by
    rw [Nat.add_comm, Nat.add_assoc, List.take_length_add_append, Nat.add_comm 1,
      List.take_succ_cons]
  rw [beforeMarked, beforeMarked, indexOf?_line hmarker h]
  cases indexOf? marker rest with
  | none => rfl
  | some next =>
      rw [Option.map_some]
      dsimp only
      rw [Nat.add_right_comm, htake, lastIndexOf?_line]
      cases lastIndexOf? lineFeed (rest.take (next + 1)) with
      | none => simpa using htake 0
      | some last => simpa [Nat.add_right_comm] using htake (last + 1)

theorem untilMarked_marked {lines : List Text} (h : marker <:+: line) :
    untilMarked marker (line :: lines) = [] := by
  rw [untilMarked, if_pos ⟨line, List.mem_cons_self, h⟩,
    List.takeWhile_cons_of_neg (by simpa using h)]
  rfl

theorem untilMarked_unmarked {lines : List Text} (hne : lines ≠ []) (h : ¬marker <:+: line) :
    untilMarked marker (line :: lines) = line ++ lineFeed :: untilMarked marker lines := by
  have hiff : (∃ other ∈ line :: lines, marker <:+: other) ↔
      ∃ other ∈ lines, marker <:+: other := by
    simp [h]
  rw [untilMarked, untilMarked, List.takeWhile_cons_of_pos (by simpa using h), join_cons hne]
  simp only [hiff]
  split
  · rw [List.flatMap_cons, List.append_assoc]
    rfl
  · rfl

theorem beforeMarked_eq (hne : marker ≠ []) (hmarker : lineFeed ∉ marker) (t : Text) :
    beforeMarked marker t = untilMarked marker (t.splitOn lineFeed) := by
  induction t using lines_induction with
  | single line hline =>
      rw [List.splitOn_eq_singleton hline]
      by_cases h : marker <:+: line
      · rw [untilMarked_marked h, ← List.append_nil line, beforeMarked_marked hne hline h]
      · rw [beforeMarked, indexOf?_eq_none h, untilMarked, if_neg (by simpa using h)]
        simp [join]
  | cons line rest hline ih =>
      rw [List.splitOn_append_cons_self_of_not_mem hline]
      by_cases h : marker <:+: line
      · rw [untilMarked_marked h, beforeMarked_marked hne hline h]
      · rw [untilMarked_unmarked (List.splitOn_ne_nil _ _) h, beforeMarked_unmarked hmarker h, ih]

/-! ### The block -/

theorem snippet?_eq (marker t : Text) :
    snippet? marker t = (indexOf? marker t).map fun first =>
      ((afterLineFeed? (t.drop (first + marker.length))).map (beforeMarked marker)).getD [] := by
  cases hfirst : indexOf? marker t with
  | none => simp only [snippet?, hfirst, Option.map_none]
  | some first =>
      cases hblock : afterLineFeed? (t.drop (first + marker.length)) with
      | none =>
          simp only [snippet?, hfirst, hblock, Option.map_some, Option.map_none, Option.getD_none]
      | some block =>
          simp only [snippet?, beforeMarked, hfirst, hblock, Option.map_some, Option.getD_some]
          cases indexOf? marker block with
          | none => rfl
          | some second =>
              dsimp only
              cases lastIndexOf? lineFeed (block.take (second + 1)) <;> rfl

theorem snippet?_marked (hline : lineFeed ∉ line) (h : marker <:+: line) :
    snippet? marker (line ++ lineFeed :: rest) = some (beforeMarked marker rest) := by
  obtain ⟨i, hi, hle⟩ := exists_indexOf?_line h (lineFeed :: rest)
  rw [snippet?_eq, hi, Option.map_some, List.drop_append_of_le_length hle,
    afterLineFeed?_line fun hmem => hline (List.mem_of_mem_drop hmem)]
  rfl

theorem snippet?_marked_last (hline : lineFeed ∉ line) (h : marker <:+: line) :
    snippet? marker line = some [] := by
  obtain ⟨i, hi, -⟩ := exists_indexOf?_line h []
  rw [List.append_nil] at hi
  rw [snippet?_eq, hi, Option.map_some,
    afterLineFeed?_eq_none fun hmem => hline (List.mem_of_mem_drop hmem)]
  rfl

theorem snippet?_unmarked (hmarker : lineFeed ∉ marker) (h : ¬marker <:+: line) :
    snippet? marker (line ++ lineFeed :: rest) = snippet? marker rest := by
  have hdrop (first : Nat) :
      (line ++ lineFeed :: rest).drop (first + (line.length + 1) + marker.length) =
        rest.drop (first + marker.length) := by
    rw [show first + (line.length + 1) + marker.length =
      line.length + (first + marker.length + 1) by omega, List.drop_length_add_append,
      List.drop_succ_cons]
  rw [snippet?_eq, snippet?_eq, indexOf?_line hmarker h, Option.map_map]
  simp only [Function.comp_def, hdrop]

/-- The block that a marker encloses is found line by line. -/
theorem snippet?_eq_snippetOfLines? (t : Text) (hne : marker ≠ []) (hmarker : lineFeed ∉ marker) :
    snippet? marker t = snippetOfLines? marker (t.splitOn lineFeed) := by
  induction t using lines_induction with
  | single line hline =>
      rw [List.splitOn_eq_singleton hline, snippetOfLines?]
      by_cases h : marker <:+: line
      · rw [snippet?_marked_last hline h, List.dropWhile_cons_of_neg (by simpa using h)]
        rfl
      · rw [snippet?, indexOf?_eq_none h, List.dropWhile_cons_of_pos (by simpa using h)]
        rfl
  | cons line rest hline ih =>
      rw [List.splitOn_append_cons_self_of_not_mem hline, snippetOfLines?]
      by_cases h : marker <:+: line
      · rw [snippet?_marked hline h, List.dropWhile_cons_of_neg (by simpa using h),
          beforeMarked_eq hne hmarker]
      · rw [snippet?_unmarked hmarker h, List.dropWhile_cons_of_pos (by simpa using h), ih,
          snippetOfLines?]

/-- A marker that stands twice in the line it opens a block in, and inside the line that ends it. -/
theorem snippet?_twice_in_line :
    let marker := units "[it]"
    let t := units "a\n// [it] [it]\none\n\ntwo\n// end [it]\nb"
    marker ≠ [] ∧ lineFeed ∉ marker ∧ snippet? marker t = some (units "one\n\ntwo\n") ∧
      snippet? marker t = snippetOfLines? marker (t.splitOn lineFeed) := by
  intro marker t
  have hne : marker ≠ [] := by decide +kernel
  have hmarker : lineFeed ∉ marker := by decide +kernel
  exact ⟨hne, hmarker, by decide +kernel, snippet?_eq_snippetOfLines? t hne hmarker⟩

end DocMarkup.Text
