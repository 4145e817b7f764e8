import DocMarkup.Proofs.Compiler
import DocMarkup.Proofs.Parser.Prose

/-!
Plain prose on the page.  Its paragraphs stand in tags of their own, and the words of each are
parted by single spaces.
-/

namespace DocMarkup

namespace Html

/-- Letters stand for themselves. -/
theorem escapeText_word {word : Text} (hword : Prose.IsWord word) : escapeText word = word := by
  refine escapeWith_eq_self fun u hu entry hentry heq => ?_
  have hletter : (textTable.map (·.1)).all (!CodeUnit.isLetter ·) := by decide
  have hother := List.all_eq_true.1 hletter entry.1 (List.mem_map_of_mem hentry)
  rw [heq, hword.letters u hu] at hother
  cases hother

end Html

namespace Prose

/-- The words of a paragraph on the page. -/
def wordsHtml (words : List Text) : Text := Text.join [CodeUnit.space] words

/-- A paragraph on the page. -/
def paragraphHtml (words : List Text) : Text :=
  units "<p>" ++ wordsHtml words ++ units "</p>\n"

end Prose

namespace Rendering

open DocMarkup.Parser Prose

variable {r : Rendering} (context : RenderContext) {html : Text} {words : List Text}
  {paragraphs : List (List Text)} {nodes : List Node}

/-- Output is shown, no problem was met, and the page holds the given text. -/
structure Holds (r : Rendering) (html : Text) : Prop where
  hidden : r.page.hidden = false
  insidePre : r.insidePre = false
  contents : r.page.contents = html
  diagnostics : r.diagnostics = []

namespace Holds

theorem piece (h : r.Holds html) (piece : Html.Piece) :
    (r.piece piece).Holds (html ++ piece.write) := by
  have hpage : r.page.put piece = { r.page with pieces := piece :: r.page.pieces } :=
    if_neg (by simp [h.hidden])
  have hwritten : (r.piece piece).page = { r.page with pieces := piece :: r.page.pieces } := hpage
  refine ⟨?_, h.insidePre, ?_, h.diagnostics⟩
  · rw [hwritten]
    exact h.hidden
  · rw [hwritten, ← h.contents]
    simp only [Html.Page.contents, List.reverse_cons, List.flatMap_append, List.flatMap_singleton]

theorem node_leaf_eq (h : r.Holds html) {content : Content}
    (hleaf : content.kind.isComposite = false) (way : Way) :
    node context way r (.leaf content) = r.shownLeaf context way content := by
  have hshown : (r.page.hidden && content.kind != .includeStep) = false := by simp [h.hidden]
  have hnode : node context way r (.leaf content) = r.leaf context way content := node_leaf hleaf
  rw [hnode, leaf, hshown]
  rfl

theorem word {word : Text} (h : r.Holds html) (hword : IsWord word) (way : Way) :
    (node context way r (.leaf (.word word))).Holds (html ++ word) := by
  have hwritten := h.piece (.text (Html.escapeText word))
  rw [Html.Piece.write, Html.escapeText_word hword] at hwritten
  rw [h.node_leaf_eq context rfl, shownLeaf, text, onPage, Html.Page.putText, Html.escapeText_word hword]
  exact hwritten

theorem whiteSpace (h : r.Holds html) (gap : Text) (way : Way) :
    (node context way r (.leaf (.whiteSpace gap))).Holds (html ++ [CodeUnit.space]) := by
  have hwritten := h.piece (.text [CodeUnit.space])
  rw [h.node_leaf_eq context rfl, shownLeaf, h.insidePre]
  exact hwritten

end Holds

/-- Words are written with single spaces between them. -/
theorem nodes_words (place : Nat → Way) (index : Nat) (hr : r.Holds html) (h : HoldsWords words nodes)
    (hwords : ∀ word ∈ words, IsWord word) :
    (Rendering.nodes context place index r nodes).Holds (html ++ wordsHtml words) := by
  induction h generalizing index r html with
  | single word =>
      rw [Rendering.nodes, Rendering.nodes, wordsHtml, Text.join]
      simpa using hr.word context (hwords word (List.mem_cons_self ..)) (place index)
  | @cons word gap words nodes more ih =>
      obtain ⟨hword, hmore⟩ := List.forall_mem_cons.1 hwords
      have hspaced := (hr.word context hword (place index)).whiteSpace context gap
        (place (index + 1))
      have hall := ih (index + 1 + 1) hspaced hmore
      have hjoin : html ++ wordsHtml (word :: words) =
          html ++ word ++ [CodeUnit.space] ++ wordsHtml words := by
        cases more <;> simp [wordsHtml, Text.join]
      rw [Rendering.nodes, Rendering.nodes, hjoin]
      exact hall

/-- A word stands at both sides of a paragraph. -/
theorem atSide_words (h : HoldsWords words nodes) (side : Balance.Side) :
    ∃ word, Balance.atSide (nodes.map Node.content) side = some (.word word) := by
  cases side with
  | start => cases h <;> exact ⟨_, rfl⟩
  | stop =>
      have hlast : ∃ before word, nodes.map Node.content = before ++ [.word word] := by
        induction h with
        | single word => exact ⟨[], word, rfl⟩
        | cons word gap _ ih =>
            obtain ⟨before, last, hlast⟩ := ih
            exact ⟨.word word :: .whiteSpace gap :: before, last, by
              rw [List.map_cons, List.map_cons, hlast]; rfl⟩
      obtain ⟨before, word, hlast⟩ := hlast
      refine ⟨word, ?_⟩
      rw [Balance.atSide, hlast]
      simp [Content.isSpace]

/-- A paragraph below the root has tags of its own. -/
theorem node_paragraph {place : Place} {way : Way} {n : Node} (hr : r.Holds html)
    (hplace : place.above = .root false) (hwords : ∀ word ∈ words, IsWord word)
    (h : IsParagraphOf words n) :
    (node context (place :: way) r n).Holds (html ++ paragraphHtml words) := by
  obtain ⟨paragraph, nodes, hholds, rfl⟩ := h
  have hposition : Balance.position (place :: way) = {} := by
    rw [Balance.position, hplace]
  have htag : ∀ side, Balance.needsTag (nodes.map Node.content) (place :: way) side := by
    intro side
    obtain ⟨word, hside⟩ := atSide_words hholds side
    rw [Balance.needsTag, hside, hposition, hplace]
    rfl
  have henter : r.enter context (place :: way) (.branch (.paragraph paragraph) nodes) =
      r.piece (.opening "p" []) := by
    refine (if_pos (htag .start)).trans ?_
    rw [hposition]
    rfl
  have hleave : ∀ r : Rendering, r.leave context (place :: way) (.branch (.paragraph paragraph) nodes) =
      (r.piece (.closing "p")).piece (.text (units "\n")) := fun r => if_pos (htag .stop)
  have hwritten := nodes_words context
    (fun index => placeBelow (.branch (.paragraph paragraph) nodes) (some index) :: place :: way) 0
    (hr.piece (.opening "p" [])) hholds hwords
  have hclosed := (hwritten.piece (.closing "p")).piece (.text (units "\n"))
  have hhtml : html ++ paragraphHtml words = html ++ (Html.Piece.opening "p" []).write ++
      wordsHtml words ++ (Html.Piece.closing "p").write ++ (Html.Piece.text (units "\n")).write := by
    simp only [paragraphHtml, List.append_assoc]
    rfl
  rw [node_composite rfl, henter, hleave, hhtml]
  exact hclosed

/-- Paragraphs are written one after the other. -/
theorem nodes_paragraphs {index : Nat} {place : Nat → Place} {way : Way} (hr : r.Holds html)
    (hplace : ∀ index, (place index).above = .root false)
    (hwords : ∀ words ∈ paragraphs, ∀ word ∈ words, IsWord word)
    (h : List.Forall₂ IsParagraphOf paragraphs nodes) :
    (Rendering.nodes context (fun index => place index :: way) index r nodes).Holds
      (html ++ paragraphs.flatMap paragraphHtml) := by
  induction h generalizing index r html with
  | nil =>
      rw [Rendering.nodes, List.flatMap_nil, List.append_nil]
      exact hr
  | cons hparagraph _ ih =>
      obtain ⟨hfirst, hmore⟩ := List.forall_mem_cons.1 hwords
      rw [Rendering.nodes, List.flatMap_cons, ← List.append_assoc]
      exact ih (node_paragraph context hr (hplace index) hfirst hparagraph) hmore

/-- The page of some paragraphs. -/
theorem document_prose {relPath : Text} {diagramCounts : DiagramCounts} {way : Way}
    (hwords : ∀ words ∈ paragraphs, ∀ word ∈ words, IsWord word)
    (h : List.Forall₂ IsParagraphOf paragraphs nodes) :
    (document context relPath diagramCounts way (.branch (.root false) nodes)).Holds
      (paragraphs.flatMap paragraphHtml) := by
  have hstart : (start context relPath diagramCounts).Holds [] := ⟨rfl, rfl, rfl, rfl⟩
  rw [document, node_composite rfl]
  exact nodes_paragraphs context hstart (fun _ => rfl) hwords h

end Rendering

namespace Prose

variable {words : List Text} {paragraphs : List (List Text)} {t : Text}

theorem WritesWords.isWord (h : WritesWords words t) : ∀ word ∈ words, IsWord word := by
  induction h with
  | single hword => exact List.forall_mem_singleton.2 hword
  | cons hword _ _ ih => exact List.forall_mem_cons.2 ⟨hword, ih⟩

theorem WritesParagraphs.isWord (h : WritesParagraphs paragraphs t) :
    ∀ words ∈ paragraphs, ∀ word ∈ words, IsWord word := by
  induction h with
  | single hwords => exact List.forall_mem_singleton.2 hwords.isWord
  | cons hwords _ _ ih => exact List.forall_mem_cons.2 ⟨hwords.isWord, ih⟩

theorem Writes.isWord (h : Writes paragraphs t) :
    ∀ words ∈ paragraphs, ∀ word ∈ words, IsWord word := by
  cases h with
  | blank => exact List.forall_mem_nil _
  | paragraphs _ hparagraphs _ => exact hparagraphs.isWord

end Prose

namespace Compiler

open Prose

/-- Plain prose comes out as its paragraphs, in order, whatever the settings are, whatever was
compiled before it, and however its white space is written: each paragraph stands in tags of its
own with single spaces between its words.  No problem is reported. -/
theorem compile_prose (c : Compiler) {comment : Comment} {paragraphs : List (List Text)}
    (hline : comment.singleLine = false) (h : Writes paragraphs comment.text) :
    (c.compile comment).1.html = some (paragraphs.flatMap paragraphHtml) ∧
      (c.compile comment).1.diagnostics = [] := by
  obtain ⟨nodes, hroot, hall, hdiagnostics⟩ := c.parser.parse_prose h
  obtain ⟨-, hhtml, hreported⟩ := c.compile_renders comment
  have hholds : (c.compile comment).1.rendering.Holds (paragraphs.flatMap paragraphHtml) := by
    rw [rendering_eq, hroot, hline]
    exact Rendering.document_prose _ h.isWord hall
  refine ⟨hhtml.trans (congrArg some hholds.contents), ?_⟩
  rw [Result.diagnostics, hreported, hholds.diagnostics]
  exact (List.append_nil _).trans hdiagnostics

/-- Two paragraphs, with tabs and line feeds between words, lines of blanks between the paragraphs
and white space around them. -/
theorem compile_prose_of_two_paragraphs :
    let compiler := (Compiler.ofSettings {} {} {}).1
    let comment : Comment := { text := units "\n  \nOne\t \n two\n \t\nthree \n\n\n" }
    let paragraphs := [[units "One", units "two"], [units "three"]]
    (comment.singleLine = false ∧ Writes paragraphs comment.text) ∧
      paragraphs.flatMap paragraphHtml = units "<p>One two</p>\n<p>three</p>\n" ∧
      (compiler.compile comment).1.html = some (paragraphs.flatMap paragraphHtml) ∧
      (compiler.compile comment).1.diagnostics = [] := by
  intro compiler comment paragraphs
  have hword : ∀ word : Text, word ≠ [] → word.all CodeUnit.isLetter → IsWord word :=
    fun word hne hletters => ⟨hne, List.all_eq_true.1 hletters⟩
  have hmargin : ∀ gap : Text, gap.all isGapUnit → IsMargin gap :=
    fun gap hunits => List.all_eq_true.1 hunits
  have hgap : IsGap (units "\t \n ") := ⟨by decide, hmargin _ (by decide), by decide⟩
  have hone : IsWord (units "One") := hword _ (by decide) (by decide)
  have htwo : IsWord (units "two") := hword _ (by decide) (by decide)
  have hthree : IsWord (units "three") := hword _ (by decide) (by decide)
  have hbreak : IsBreak (units "\n \t\n") := ⟨hmargin _ (by decide), by decide⟩
  have hbefore : IsMargin (units "\n  \n") := hmargin _ (by decide)
  have hafter : IsMargin (units " \n\n\n") := hmargin _ (by decide)
  have hparagraphs := WritesParagraphs.cons (.cons hone hgap (.single htwo)) hbreak
    (.single (.single hthree))
  have hall := Writes.paragraphs hbefore hparagraphs hafter
  have hwrites : Writes paragraphs comment.text := hall
  exact ⟨⟨rfl, hwrites⟩, by decide, compile_prose compiler rfl hwrites⟩

end Compiler

end DocMarkup
