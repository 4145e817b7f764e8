import DocMarkup.Proofs.Parser.Shadows.Step

/-!
Comments whose lines end in a carriage return and a line feed.  They give the same trees as with
line feeds alone, but for the carriage returns in texts that are kept as they were written, unless a
line that ends a list is followed by more of the comment: of its line end only one unit is taken.
-/

namespace DocMarkup.Parser

open CodeUnit (carriageReturn)
open Text (crlfOffset)

/-- The same parser behind comments with carriage returns. -/
def crlf (p : Parser) : Parser := { p with formulas := p.formulas.map Text.crlf }

/-- The two machines begin side by side. -/
theorem start_shadows (p : Parser) (options : Options) {comment : Comment}
    (hplain : carriageReturn ∉ comment.text) :
    (p.start (settingOf options comment comment.text)).Shadows comment.text
      (p.crlf.start (settingOf options { comment with text := Text.crlf comment.text }
        (Text.crlf comment.text))) where
  setting := rfl
  text := rfl
  plainText := hplain
  scanner :=
    { cursor := rfl
      insidePre := rfl
      listDepth := rfl }
  stack := .cons ⟨Construct.alike_crlf _, rfl, rfl, rfl⟩ .nil
  phase := rfl
  reopening := rfl
  included := rfl
  items := rfl
  formulas := rfl
  begun := rfl
  failure := rfl

variable {p : Parser} {comment : Comment}

/-- The two machines stay side by side to the end of the comment. -/
theorem final_shadows (haliases : p.options.aliases = none) (hplain : carriageReturn ∉ comment.text)
    (hlist : ∀ n, (p.after comment n).scanner.breaksListEnd = false) :
    (p.final comment).Shadows comment.text
      (p.crlf.final { comment with text := Text.crlf comment.text }) := by
  have hexpand (comment : Comment) : (expandAliases p.options comment).1 = comment.text := by
    unfold expandAliases
    rw [haliases]
  have hexpand' (comment : Comment) : (expandAliases p.crlf.options comment).1 = comment.text :=
    hexpand comment
  have hstart := start_shadows p p.options hplain
  have hafter (n : Nat) : (p.after comment n).Shadows comment.text
      (p.crlf.after { comment with text := Text.crlf comment.text } n) := by
    unfold after at hlist ⊢
    rw [hexpand] at hlist ⊢
    rw [hexpand']
    exact hstart.run hlist n
  -- as many steps as the longer text may take are enough for both
  have hfinished : p.after comment (maxSteps (Text.crlf comment.text).length) = p.final comment := by
    refine after_of_finished (n := maxSteps (expandAliases p.options comment).1.length)
      (final_finished p comment) ?_
    have hlength := Text.length_le_crlf comment.text
    rw [hexpand]
    unfold maxSteps
    omega
  have hfinished' (comment : Comment) :
      p.crlf.after comment (maxSteps comment.text.length) = p.crlf.final comment := by
    unfold after final
    rw [hexpand']
  have hend := hafter (maxSteps (Text.crlf comment.text).length)
  rw [hfinished] at hend
  exact hfinished' { comment with text := Text.crlf comment.text } ▸ hend

/-- What is left of the machine between comments. -/
theorem parse_leaves (p : Parser) (comment : Comment) : (p.parse comment).2 =
    { p with items := (p.final comment).items, formulas := (p.final comment).formulas } := by
  have hparse : (p.parse comment).2 = { p with
      items := (reportOpenStyles (p.final comment)).items
      formulas := (reportOpenStyles (p.final comment)).formulas } := rfl
  rw [hparse, reportOpenStyles_eq]

/-- A comment is read in the same way whether its lines end in line feeds or in carriage returns and
line feeds. -/
theorem parse_crlf (haliases : p.options.aliases = none) (hplain : carriageReturn ∉ comment.text)
    (hlist : ∀ n, (p.after comment n).scanner.breaksListEnd = false) :
    let returned := p.crlf.parse { comment with text := Text.crlf comment.text }
    returned.1.root.dropReturns = (p.parse comment).1.root.dropReturns ∧
      returned.2 = (p.parse comment).2.crlf := by
  intro returned
  have hfinal := final_shadows haliases hplain hlist
  constructor
  · rw [parse_root, parse_root]
    have hlast {stack stack' : List Frame}
        (hstack : List.Forall₂ (Frame.Alike (crlfOffset comment.text)) stack stack') :
        ((stack'.getLast?.map Frame.toNode).getD default).dropReturns =
          ((stack.getLast?.map Frame.toNode).getD default).dropReturns := by
      induction hstack with
      | nil => rfl
      | cons hf houter ih =>
          cases houter with
          | nil => exact hf.toNode
          | cons => exact ih
    exact hlast hfinal.stack
  · rw [parse_leaves, parse_leaves, hfinal.items, hfinal.formulas]
    rfl

/-- A dot on a line of its own in code, an attribute on its own line, and a list that ends with the
comment. -/
theorem parse_crlf_around_list :
    let comment : Comment := { text := units "\\code\n.\n\\endcode\n- <b\nid=x>a</b>\n- b\n." }
    (∀ n, (({} : Parser).after comment n).scanner.breaksListEnd = false) ∧
      (({} : Parser).parse { comment with text := Text.crlf comment.text }).1.root.dropReturns =
        (({} : Parser).parse comment).1.root.dropReturns := by
  intro comment
  have hfinished : (({} : Parser).after comment 40).phase = .finished := by decide +kernel
  have hbefore : ∀ n < 41, (({} : Parser).after comment n).scanner.breaksListEnd = false := by
    decide +kernel
  have hlist (n : Nat) : (({} : Parser).after comment n).scanner.breaksListEnd = false := by
    rcases Nat.lt_or_ge n 41 with hn | hn
    · exact hbefore n hn
    · rw [after_of_finished hfinished (by omega)]
      exact hbefore 40 (by decide)
  exact ⟨hlist, (parse_crlf (p := {}) rfl (by decide) hlist).1⟩

/-- The line that ends a list takes one unit of its line end along, so a carriage return leaves a
line feed, which parts the paragraph that follows. -/
theorem parse_parts_paragraph_behind_list :
    let text := units "- a\n.\n\nb"
    let plain := (({} : Parser).parse { text }).1.root
    let returned := (({} : Parser).parse { text := Text.crlf text }).1.root
    plain.children.map Node.kind = [.paragraph] ∧
      returned.children.map Node.kind = [.paragraph, .paragraph] := by
  decide +kernel

end DocMarkup.Parser
