import DocMarkup.Compiler
import DocMarkup.Proofs.Aliases
import DocMarkup.Proofs.Doc.Faults
import DocMarkup.Proofs.Parser.Conformance
import DocMarkup.Proofs.Render.Elements
import DocMarkup.Proofs.Render.Paragraphs

/-!
The compiler.  Whatever was compiled before, a comment is read to its end, its tree is linked
without a fault, and its page is delivered with all output shown.  The paragraphs of the page follow
one another where every block parts the paragraph around it or need not, and its elements nest where
nothing with a bracket in it is written as it is.
-/

namespace DocMarkup

/-! ### Comments -/

namespace Compiler

/-- The compiler after some comments. -/
def after (c : Compiler) (comments : List Comment) : Compiler :=
  comments.foldl (fun c comment => (c.compile comment).2) c

/-- The tree of a comment has no fault, so its rendering is delivered as it is. -/
theorem compile_renders (c : Compiler) (comment : Comment) :
    let result := (c.compile comment).1
    result.rendering.Steady 0 ∧ result.html = some result.rendering.page.contents ∧
      result.renderDiagnostics = result.rendering.diagnostics.reverse := by
  obtain ⟨hkind, hproper⟩ := c.parser.parse_proper comment
  have hfault := LinkedTree.fault?_ofNode hproper
  have hsteady {context : RenderContext} {relPath : Text} {way : Way} :=
    Rendering.document_steady context relPath c.diagramCounts way hproper (by rw [hkind]; nofun)
  simp only [compile, LinkedTree.renderAfter, hfault, LinkedTree.toNode_ofNode]
  rw [hsteady.html]
  exact ⟨hsteady, rfl, rfl⟩

/-- The tree of a comment is rendered as it was read. -/
theorem rendering_eq (c : Compiler) (comment : Comment) :
    (c.compile comment).1.rendering =
      Rendering.document
        { settings := c.settings
          tools := c.tools
          fileName := comment.fileName.getD Comment.anonymous }
        (if comment.linkFromIndex then [] else Path.toRoot (comment.scope.bind Scope.outputFile))
        c.diagramCounts ((LinkedTree.ofNode (c.parser.parse comment).1.root).way 0)
        (c.parser.parse comment).1.root := by
  obtain ⟨-, hproper⟩ := c.parser.parse_proper comment
  have hfault := LinkedTree.fault?_ofNode hproper
  simp only [compile, LinkedTree.renderAfter, hfault, LinkedTree.toNode_ofNode]

/-! ### Paragraphs of the page -/

/-- Rendering is told the settings of the compiler. -/
theorem exists_rendering_eq (c : Compiler) (comment : Comment) :
    ∃ (context : RenderContext) (relPath : Text) (way : Way), context.settings = c.settings ∧
      (c.compile comment).1.rendering =
        Rendering.document context relPath c.diagramCounts way (c.parser.parse comment).1.root :=
  ⟨_, _, _, rfl, c.rendering_eq comment⟩

/-- The paragraph tags of a page alternate, the first opening a paragraph and the last closing one,
whenever every block in the tree of the comment parts the paragraph it stands in or stands where it
need not. -/
theorem compile_paragraphs_alternate (c : Compiler) (comment : Comment)
    (h : (c.parser.parse comment).1.root.Everywhere
      (Node.KeepsParagraphs c.settings.internalDocs)) :
    let result := (c.compile comment).1
    result.html = some result.rendering.page.contents ∧
      ∃ n, result.rendering.page.paragraphTags =
        (List.replicate n [.opening, .closing]).flatten := by
  obtain ⟨hkind, hproper⟩ := c.parser.parse_proper comment
  refine ⟨(c.compile_renders comment).2.1, ?_⟩
  obtain ⟨context, relPath, way, hsettings, hrendering⟩ := c.exists_rendering_eq comment
  have halternates : (c.compile comment).1.rendering.Alternates false := by
    rw [hrendering]
    exact Rendering.document_alternates relPath c.diagramCounts way hkind hproper (hsettings ▸ h)
  obtain ⟨n, hn⟩ := halternates.tags
  exact ⟨n, hn.trans (List.append_nil _)⟩

/-- A rule, an internal block that is not shown, and a block for another format between words. -/
theorem compile_paragraphs_alternate_between_words :
    let compiler : Compiler := {}
    let comment : Comment :=
      { text := units "a <hr> b\n\n\\internal c \\endinternal\n\nd \\latexonly x \\endlatexonly e" }
    let result := (compiler.compile comment).1
    (compiler.parser.parse comment).1.root.Everywhere (Node.KeepsParagraphs false) ∧
      result.html = some (units "<p>a </p><hr/>\n<p> b</p>\n<p>d  e</p>\n") ∧
      ∃ n, result.rendering.page.paragraphTags =
        (List.replicate n [.opening, .closing]).flatten := by
  intro compiler comment result
  have hkeeps : (compiler.parser.parse comment).1.root.Everywhere (Node.KeepsParagraphs false) := by
    decide +kernel
  exact ⟨hkeeps, by decide +kernel,
    (compile_paragraphs_alternate compiler comment hkeeps).2⟩

/-- An internal block at the end of a paragraph leaves the paragraph open, one that is shown stands
inside it, a division within a division opens it twice, and in a single line a rule closes a
paragraph that was not opened. -/
theorem compile_unbalances_paragraphs :
    let tags (settings : Settings) (comment : Comment) :=
      (({ settings } : Compiler).compile comment).1.rendering.page.paragraphTags
    tags {} { text := units "text \\internal secret \\endinternal" } = [.opening] ∧
      tags { internalDocs := true } { text := units "text \\internal secret \\endinternal" } =
        [.opening, .opening, .closing] ∧
      tags {} { text := units "a <div>b <div>c</div> d</div> e" } =
        [.opening, .closing, .opening, .opening, .closing] ∧
      tags {} { text := units "a<hr>b", singleLine := true } = [.closing, .opening] := by
  decide +kernel

/-! ### Elements of the page -/

/-- The elements of a page nest, and every one that is opened is closed: lists, tables, headings,
quotations and divisions.  This is so whenever the tree of the comment has no steps through an
included text, and nothing with a bracket in it is written as it is: markup for the page or another
text of the tree that is seen, or a text of the settings or the tools. -/
theorem compile_elements_nest (c : Compiler) (comment : Comment)
    (hsettings : c.settings.KeepTags) (htools : c.tools.KeepTags)
    (hsteps : (c.parser.parse comment).1.root.Everywhere fun n => n.kind ≠ .includeStep)
    (hfree : ((c.parser.parse comment).1.root.shown { settings := c.settings }).Everywhere
      fun n => n.content.IsTagFree) :
    ∃ html, (c.compile comment).1.html = some html ∧
      Html.WellNested (Html.structuralTags html) := by
  obtain ⟨hkind, hproper⟩ := c.parser.parse_proper comment
  have hdivisions := c.parser.parse_divisions_nest comment
  have htitles := c.parser.parse_titles comment
  have hrelPath : Html.TagFree (if comment.linkFromIndex then []
      else Path.toRoot (comment.scope.bind Scope.outputFile)) := by
    split
    · exact Html.tagFree_nil
    · exact Path.tagFree_toRoot _
  refine ⟨_, (c.compile_renders comment).2.1, Rendering.Nests.wellNested ?_⟩
  rw [c.rendering_eq comment]
  refine Rendering.document_nests hsettings htools hrelPath _ _ hkind ?_ ?_
  · intro n hn
    exact ⟨(hproper n hn).toConforms, hsteps n hn, hdivisions n hn, htitles n hn⟩
  · rw [Node.shown_settings]
    exact hfree

/-- A section with a title and a division in it, and a list behind it. -/
theorem compile_elements_nest_around_section :
    let compiler : Compiler := {}
    let comment : Comment := { text := units "\\par T\n<div>a</div>\n\n<ul><li>b</li></ul>" }
    let tag (name : String) (opens : Bool) : Html.Tag := { name := units name, opens }
    let root := (compiler.parser.parse comment).1.root
    compiler.settings.KeepTags ∧ compiler.tools.KeepTags ∧
      (root.Everywhere fun n => n.kind ≠ .includeStep) ∧
      ((root.shown { settings := compiler.settings }).Everywhere fun n => n.content.IsTagFree) ∧
      ∃ html, (compiler.compile comment).1.html = some html ∧
        Html.structuralTags html =
          [tag "dl" true, tag "dt" true, tag "dt" false, tag "dd" true, tag "div" true,
            tag "div" false, tag "dd" false, tag "dl" false, tag "ul" true, tag "li" true,
            tag "li" false, tag "ul" false] ∧
        Html.WellNested (Html.structuralTags html) := by
  intro compiler comment tag root
  have hsettings : compiler.settings.KeepTags := ⟨by decide, nofun⟩
  have hsteps : root.Everywhere fun n => n.kind ≠ .includeStep := by decide +kernel
  have hfree : (root.shown { settings := compiler.settings }).Everywhere
      fun n => n.content.IsTagFree := by
    decide +kernel
  obtain ⟨html, hhtml, hnests⟩ :=
    compile_elements_nest compiler comment hsettings RenderTools.keepTags_default hsteps hfree
  refine ⟨hsettings, RenderTools.keepTags_default, hsteps, hfree, html, hhtml, ?_, hnests⟩
  have htags : (compiler.compile comment).1.html.map Html.structuralTags =
      some [tag "dl" true, tag "dt" true, tag "dt" false, tag "dd" true, tag "div" true,
        tag "div" false, tag "dd" false, tag "dl" false, tag "ul" true, tag "li" true,
        tag "li" false, tag "ul" false] := by
    decide +kernel
  rw [hhtml] at htags
  exact Option.some.inj htags

end Compiler

end DocMarkup
