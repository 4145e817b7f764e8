import DocMarkup.Proofs.Compiler
import DocMarkup.Proofs.Render.Markup

/-!
What a comment can make of the markup of its page.  Where it is written as it is, a text of the
comment is kept out of tags by what it must not hold.
-/

namespace DocMarkup.Compiler

open Html

/-- The page of a comment is made of text without brackets and of tags of its own elements, whose
attributes all have their values in quotes, whenever nothing of the comment, the settings or the
tools that is written as it is holds a quote or a bracket. -/
theorem compile_writes_markup (c : Compiler) (comment : Comment)
    (hsettings : c.settings.AreSealed) (htools : c.tools.AreSealed)
    (hsealed : (c.parser.parse comment).1.root.Everywhere (·.content.IsSealed)) :
    ∃ html, (c.compile comment).1.html = some html ∧ IsMarkup html := by
  have hrelPath : IsValue (if comment.linkFromIndex then []
      else Path.toRoot (comment.scope.bind Scope.outputFile)) := by
    split
    · exact isValue_nil
    · exact Path.isValue_toRoot _
  refine ⟨_, (c.compile_renders comment).2.1, Page.IsSealed.isMarkup ?_⟩
  rw [c.rendering_eq comment]
  exact Rendering.document_sealed hsettings htools hrelPath _ _ hsealed

/-- Quotes and a bracket in words, in an address and in an attribute. -/
theorem compile_writes_markup_around_quotes :
    let compiler : Compiler := {}
    let comment : Comment :=
      { text := units "\\anchor top a \\< \"b\" <a href='x\"y' title='\"z\"'>c</a>" }
    let page := units "<p><a class=\"anchor\" id=\"top\"></a> a &lt; \"b\" " ++
      units "<a href=\"x&quot;y\" title=\"&quot;z&quot;\">c</a></p>\n"
    compiler.settings.AreSealed ∧ compiler.tools.AreSealed ∧
      (compiler.parser.parse comment).1.root.Everywhere (·.content.IsSealed) ∧
      (compiler.compile comment).1.html = some page ∧ IsMarkup page := by
  intro compiler comment page
  have hsettings : compiler.settings.AreSealed := ⟨by decide, nofun⟩
  have hsealed : (compiler.parser.parse comment).1.root.Everywhere (·.content.IsSealed) := by
    decide +kernel
  have hpage : (compiler.compile comment).1.html = some page := by decide +kernel
  obtain ⟨html, hhtml, hmarkup⟩ :=
    compile_writes_markup compiler comment hsettings RenderTools.areSealed_default hsealed
  obtain rfl := Option.some.inj (hhtml.symm.trans hpage)
  exact ⟨hsettings, RenderTools.areSealed_default, hsealed, hpage, hmarkup⟩

/-- The name of an anchor is written as it is, so a quote in it ends the attribute. -/
theorem compile_breaks_out_of_anchor :
    ∃ html, (({} : Compiler).compile { text := units "\\anchor a\"b" }).1.html = some html ∧
      html = units "<p><a class=\"anchor\" id=\"a\"b\"></a></p>\n" ∧ ¬ IsMarkup html := by
  refine ⟨_, by decide +kernel, rfl, fun hmarkup => ?_⟩
  have hoff := TagState.after_markup hmarkup
  revert hoff
  decide

end DocMarkup.Compiler
