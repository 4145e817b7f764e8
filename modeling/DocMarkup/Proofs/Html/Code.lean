import DocMarkup.Html.Page
import DocMarkup.Proofs.Html.Unescape
import DocMarkup.Proofs.Text.CodePoints

/-!
Code as it is written.  It makes no difference whether a line of code is written at once or cut into
parts: the column goes on where it was, and what is written for a code point depends on the column
alone.  A tab is filled up to the next tab stop.
-/

namespace DocMarkup.Html

namespace Page

/-- What is written stands behind what was written before, unless output is hidden. -/
theorem contents_put (p : Page) (piece : Piece) :
    (p.put piece).contents = p.contents ++ if p.hidden then [] else piece.write := by
  unfold put
  split
  · rw [List.append_nil]
  · simp [contents]

/-! ### Code in parts -/

/-- What one code point of code is written as, and the column behind it. -/
def writePoint (tabSize column point : Nat) : Text × Nat :=
  if point = 0x09 then
    let spaces := tabSize - column % tabSize
    (List.replicate spaces CodeUnit.space, column + spaces)
  else if point = 0x0A then ([CodeUnit.lineFeed], 0)
  else if point = 0x0D then ([], column)
  else (escapePage (unitsOfCodePoint point), column + 1)

theorem writeCode_cons (tabSize column point : Nat) (rest : List Nat) :
    writeCode tabSize column (point :: rest) =
      ((writePoint tabSize column point).1 ++
          (writeCode tabSize (writePoint tabSize column point).2 rest).1,
        (writeCode tabSize (writePoint tabSize column point).2 rest).2) := by
  rw [writeCode, writePoint]
  simp only [beq_iff_eq]
  split_ifs <;> rfl

/-- Behind some code, more code goes on from the column that was reached. -/
theorem writeCode_append (tabSize column : Nat) (a b : List Nat) :
    writeCode tabSize column (a ++ b) =
      ((writeCode tabSize column a).1 ++ (writeCode tabSize (writeCode tabSize column a).2 b).1,
        (writeCode tabSize (writeCode tabSize column a).2 b).2) := by
  induction a generalizing column with
  | nil => rfl
  | cons point a ih =>
      rw [List.cons_append, writeCode_cons, writeCode_cons, ih, List.append_assoc]

theorem contents_putCode (p : Page) (t : Text) :
    (p.putCode t).contents = p.contents ++
      if p.hidden then []
      else (writeCode p.options.tabSize p.column (Text.codePoints t)).1 :=
  contents_put ..

theorem options_put (p : Page) (piece : Piece) : (p.put piece).options = p.options := by
  unfold put
  split <;> rfl

theorem hidden_put (p : Page) (piece : Piece) : (p.put piece).hidden = p.hidden := by
  unfold put
  split <;> rfl

theorem column_put (p : Page) (piece : Piece) : (p.put piece).column = p.column := by
  unfold put
  split <;> rfl

theorem options_putCode (p : Page) (t : Text) : (p.putCode t).options = p.options := options_put ..

theorem hidden_putCode (p : Page) (t : Text) : (p.putCode t).hidden = p.hidden := hidden_put ..

theorem column_putCode (p : Page) (t : Text) :
    (p.putCode t).column = (writeCode p.options.tabSize p.column (Text.codePoints t)).2 :=
  column_put ..

/-! ### Tab stops -/

/-- Code points from a column on, and the same with the tabs filled up: a tab becomes as many
spaces, one at least, as lead to the next multiple of the tab size. -/
inductive Fills (tabSize : Nat) : Nat → List Nat → List Nat → Prop
  | nil {column : Nat} : Fills tabSize column [] []
  | point {column point : Nat} {code filled : List Nat} (hpoint : point ≠ 0x09)
      (hrest : Fills tabSize (column + 1) code filled) :
      Fills tabSize column (point :: code) (point :: filled)
  | tab {column spaces : Nat} {code filled : List Nat} (hleast : 1 ≤ spaces)
      (hmost : spaces ≤ tabSize) (hstop : tabSize ∣ column + spaces)
      (hrest : Fills tabSize (column + spaces) code filled) :
      Fills tabSize column (0x09 :: code) (List.replicate spaces 0x20 ++ filled)

theorem escapePage_spaces (n : Nat) :
    escapePage (Text.ofCodePoints (List.replicate n 0x20)) = List.replicate n CodeUnit.space := by
  induction n with
  | zero => rfl
  | succ n ih =>
      rw [List.replicate_succ, List.replicate_succ, ← ih]
      rfl

/-- Without line feeds, code is written as the escaped text with its tabs filled up and its carriage
returns dropped. -/
theorem writeCode_fills {tabSize : Nat} (htab : 0 < tabSize) {code : List Nat} (h : 0x0A ∉ code)
    (column : Nat) :
    ∃ filled, Fills tabSize column (code.filter (· != 0x0D)) filled ∧
      writeCode tabSize column code =
        (escapePage (Text.ofCodePoints filled), column + filled.length) := by
  induction code generalizing column with
  | nil => exact ⟨[], .nil, rfl⟩
  | cons point code ih =>
      obtain ⟨hpoint, hcode⟩ := not_or.1 (mt List.mem_cons.2 h)
      rw [writeCode_cons]
      by_cases htabPoint : point = 0x09
      case pos =>
        have hmod := Nat.mod_lt column htab
        have hstop : tabSize ∣ column + (tabSize - column % tabSize) := by
          have hdiv := Nat.div_add_mod column tabSize
          refine ⟨column / tabSize + 1, ?_⟩
          rw [Nat.mul_add, Nat.mul_one]
          omega
        obtain ⟨filled, hfills, hwritten⟩ := ih hcode (column + (tabSize - column % tabSize))
        rw [htabPoint]
        refine ⟨_, .tab (by omega) (by omega) hstop hfills, ?_⟩
        rw [writePoint, if_pos rfl]
        dsimp only
        rw [hwritten, Text.ofCodePoints_append, escapePage, escapeWith_append, ← escapePage,
          escapePage_spaces, List.length_append, List.length_replicate, Nat.add_assoc]
      case neg =>
        by_cases hreturn : point = 0x0D
        case pos =>
          rw [hreturn]
          exact ih hcode column
        case neg =>
          obtain ⟨filled, hfills, hwritten⟩ := ih hcode (column + 1)
          refine ⟨point :: filled, ?_, ?_⟩
          · rw [List.filter_cons_of_pos (by simpa using hreturn)]
            exact .point htabPoint hfills
          · rw [writePoint, if_neg htabPoint, if_neg (Ne.symm hpoint), if_neg hreturn]
            dsimp only
            rw [hwritten, ← List.singleton_append, Text.ofCodePoints_append, escapePage,
              escapeWith_append, List.length_append, Nat.add_assoc]
            simp [Text.ofCodePoints]

/-- Code may be written in parts, cut anywhere but between the halves of a surrogate pair: the text
and the column are the same.  A line of code reads back as the code without its carriage returns and
with its tabs filled up. -/
theorem putCode_cut {p : Page} (htab : 0 < p.options.tabSize) {a b : Text}
    (hcut : Text.splitsPair a b = false) :
    ((p.putCode a).putCode b).contents = (p.putCode (a ++ b)).contents ∧
      ((p.putCode a).putCode b).column = (p.putCode (a ++ b)).column ∧
      ∀ line : Text, CodeUnit.lineFeed ∉ line → ∃ written filled,
        (p.startCodeLine.putCode line).contents =
            p.startCodeLine.contents ++ (if p.hidden then [] else written) ∧
          Fills p.options.tabSize 0 ((Text.codePoints line).filter (· != 0x0D)) filled ∧
          unescapeWith pageTable written = Text.ofCodePoints filled ∧
          (p.startCodeLine.putCode line).column = filled.length := by
  refine ⟨?_, ?_, fun line hline => ?_⟩
  · rw [contents_putCode, contents_putCode, contents_putCode, options_putCode, hidden_putCode,
      column_putCode, Text.codePoints_append hcut, writeCode_append]
    split <;> simp
  · rw [column_putCode, column_putCode, column_putCode, options_putCode,
      Text.codePoints_append hcut, writeCode_append]
  · have hfeed : 0x0A ∉ Text.codePoints line := by
      intro hpoint
      obtain ⟨u, hu, hpoint⟩ := Text.exists_unit_of_mem_codePoints hpoint (by decide)
      have hlineFeed : u = CodeUnit.lineFeed := UInt16.toNat_inj.1 hpoint
      exact hline (hlineFeed ▸ hu)
    obtain ⟨filled, hfills, hwritten⟩ := writeCode_fills htab hfeed 0
    have hoptions : p.startCodeLine.options = p.options := options_put ..
    have hhidden : p.startCodeLine.hidden = p.hidden := hidden_put ..
    have hcolumn : p.startCodeLine.column = 0 := column_put ..
    refine ⟨escapePage (Text.ofCodePoints filled), filled, ?_, hfills,
      unescapeWith_escapeWith isEntityTable_page _, ?_⟩
    · rw [contents_putCode, hoptions, hhidden, hcolumn, hwritten]
    · rw [column_putCode, hoptions, hcolumn, hwritten, Nat.zero_add]

/-- A cut in front of a tab, and a line with a tab behind characters that are escaped. -/
theorem putCode_cut_before_tab :
    let p : Page := { column := 3 }
    let a := units "é<😀"
    let b := units "\t'\t\n"
    0 < p.options.tabSize ∧ Text.splitsPair a b = false ∧
      (p.putCode (a ++ b)).contents = units "é&lt;😀  &#39;   \n" ∧
      ((p.putCode a).putCode b).contents = units "é&lt;😀  &#39;   \n" ∧
      ((p.putCode a).putCode b).column = 0 := by
  intro p a b
  have htab : 0 < p.options.tabSize := by decide
  have hcut : Text.splitsPair a b = false := by decide
  obtain ⟨hcontents, hcolumn, -⟩ := putCode_cut htab hcut
  have hwhole : (p.putCode (a ++ b)).contents = units "é&lt;😀  &#39;   \n" := by decide
  refine ⟨htab, hcut, hwhole, hcontents.trans hwhole, hcolumn.trans ?_⟩
  decide

end Page

end DocMarkup.Html
