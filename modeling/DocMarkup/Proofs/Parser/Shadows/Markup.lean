import DocMarkup.Parser.Markup
import DocMarkup.Proofs.Parser.Shadows.Inline

/-!
Markup tags in machines that read a text with and without carriage returns.  Line ends within a tag
stay in the values of its attributes, where numbers and addresses are not changed by them.
-/

namespace DocMarkup.Parser.Machine

open Text (crlfOffset)

theorem firstNumber_crlf (attributes : Attributes) :
    firstNumber (attributes.mapValues Text.crlf) = firstNumber attributes := by
  have hread : Whole.read? (((attributes.mapValues Text.crlf).get? (units "start")).getD (units "1")) =
      Whole.read? ((attributes.get? (units "start")).getD (units "1")) := by
    rw [Attributes.get?_mapValues]
    cases attributes.get? (units "start") with
    | none => rfl
    | some value => exact Text.read?_crlf value
  rw [firstNumber, hread, firstNumber]

namespace Shadows

variable {t : Text} {m m' : Machine} (h : Shadows t m m')
include h

/-! ### Lists and tables -/

theorem closeBefore (opener opener' token : Token) :
    Shadows t (m.closeBefore opener token)
      (m'.closeBefore opener' (token.crlf (crlfOffset t))) :=
  Shadows.close (h.report ..) (.handBack token)

theorem closeAtEnd (opener opener' : Token) :
    Shadows t (m.closeAtEnd opener) (m'.closeAtEnd opener') :=
  (h.reportUnclosed opener opener').close .endOfText

theorem partEnded (opener opener' : Token) (outcome : Outcome) :
    Shadows t (m.partEnded opener outcome)
      (m'.partEnded opener' (outcome.crlf (crlfOffset t))) := by
  unfold Machine.partEnded
  cases outcome with
  | complete => exact h.readSolid
  | endOfText => exact h.closeAtEnd opener opener'
  | newParagraph token => exact h.readSolid
  | handBack token => exact h.take token

theorem list {token : Token} (hsolid : token.isBlank = false) :
    Shadows t (m.list token) (m'.list (token.crlf (crlfOffset t))) := by
  have hfirst : firstNumber (opener (crlfOffset t) token).attributes =
      firstNumber token.attributes := firstNumber_crlf token.attributes
  rw [crlf_eq_opener hsolid]
  unfold Machine.list
  dsimp only
  rw [hfirst]
  exact (h.push (Construct.alike_crlf (.list _ _ token))).readSolid

theorem listItem (token : Token) :
    Shadows t (m.listItem token) (m'.listItem (token.crlf (crlfOffset t))) := by
  have hnumber : Whole.read? (((token.crlf (crlfOffset t)).attributes.get? (units "value")).getD []) =
      Whole.read? ((token.attributes.get? (units "value")).getD []) :=
    token.attributes.read?_mapValues Text.read?_crlf _
  unfold Machine.listItem
  rw [hnumber]
  rcases h.stack_cases with ⟨hm, hm'⟩ | ⟨f, f', outer, outer', hm, hm', hf, houter⟩
  · rw [hm, hm']
    exact h.read
  · rw [hm, hm']
    obtain ⟨heads, hconstruct, -⟩ := hf.construct
    have hread : Shadows t m.read m'.read := h.read
    dsimp only
    rw [hconstruct]
    cases f.construct
    case list l next opener =>
      have hitem (number : Whole) : Shadows t
          (({ m with stack := { f with construct := .list l (number + 1) opener } :: outer } :
            Machine).push (.listItem { number, attributes := token.attributes })).read
          (({ m' with stack := { f' with
                construct := (Construct.list l (number + 1) opener).crlf (crlfOffset t) } :: outer' } :
            Machine).push
              (.listItem { number, attributes := token.attributes.mapValues Text.crlf })).read := by
        have hnext : Frame.Alike (crlfOffset t)
            { f with construct := .list l (number + 1) opener }
            { f' with construct := (Construct.list l (number + 1) opener).crlf (crlfOffset t) } :=
          { hf with construct := Construct.alike_crlf _ }
        have hcounted : Shadows t
            { m with stack := { f with construct := .list l (number + 1) opener } :: outer }
            { m' with stack := { f' with
                construct := (Construct.list l (number + 1) opener).crlf (crlfOffset t) } :: outer' } :=
          { h with stack := .cons hnext houter }
        exact (hcounted.push (Construct.alike_crlf (.listItem _))).read
      exact hitem _
    all_goals exact hread

theorem takeInList (opener opener' token : Token) :
    Shadows t (m.takeInList opener token)
      (m'.takeInList opener' (token.crlf (crlfOffset t))) := by
  unfold Machine.takeInList
  rw [Token.isStartTag_crlf, Token.isEndTag_crlf, Token.kind_crlf, Token.isStructural_crlf]
  split
  · exact h.listItem token
  · split
    · exact Shadows.close (h.report_unless ..) .complete
    · split
      · exact h.closeAtEnd opener opener'
      · split
        · exact h.closeBefore opener opener' token
        · exact Shadows.readSolid (h.report ..)

theorem takeInDescList (opener opener' token : Token) :
    Shadows t (m.takeInDescList opener token)
      (m'.takeInDescList opener' (token.crlf (crlfOffset t))) := by
  unfold Machine.takeInDescList
  rw [Token.isStartTag_crlf, Token.isStartTag_crlf, Token.isEndTag_crlf, Token.kind_crlf,
    Token.isStructural_crlf]
  split
  · exact (h.push (Construct.alike_crlf (.descTitle token.attributes))).read
  · split
    · exact (h.push (Construct.alike_crlf (.descData token.attributes))).read
    · split
      · exact h.close .complete
      · split
        · exact h.closeAtEnd opener opener'
        · split
          · exact h.closeBefore opener opener' token
          · exact Shadows.readSolid (h.report ..)

theorem takeInTable {given given' : Option Node} (hgiven : given'.isSome = given.isSome)
    (opener opener' token : Token) :
    Shadows t (m.takeInTable given opener token)
      (m'.takeInTable given' opener' (token.crlf (crlfOffset t))) := by
  have hnone : given'.isNone = given.isNone := by
    rw [← Option.not_isSome, hgiven, Option.not_isSome]
  unfold Machine.takeInTable
  rw [Token.kind_crlf, Token.isStructural_crlf, hgiven, hnone]
  simp only [Token.isStartTag_crlf, Token.isEndTag_crlf]
  split
  · exact Shadows.read (Shadows.push (h.report_if ..)
      (Construct.alike_crlf (.caption token.attributes given.isNone)))
  · split
    · exact (h.push (Construct.alike_crlf (.row token.attributes))).readSolid
    · split
      · exact Shadows.take (Shadows.push (h.report ..) (Construct.alike_crlf (.row []))) token
      · split
        · exact h.close .complete
        · split
          · exact h.closeAtEnd opener opener'
          · split
            · exact h.readSolid
            · split
              · exact h.closeBefore opener opener' token
              · exact Shadows.readSolid (h.report ..)

theorem takeInRow (token : Token) :
    Shadows t (m.takeInRow token) (m'.takeInRow (token.crlf (crlfOffset t))) := by
  unfold Machine.takeInRow
  rw [Token.kind_crlf, Token.isStructural_crlf, Token.isBlank_crlf]
  simp only [Token.isStartTag_crlf, Token.isEndTag_crlf]
  split
  · next hcell =>
    rw [Token.value_crlf (Token.isBlank_of_isStartTag hcell)]
    exact (h.push (Construct.alike_crlf (.cell token.attributes (token.value == units "th")))).read
  · split
    · exact h.close .complete
    · split
      · exact h.close .endOfText
      · split
        · exact h.close (.handBack token)
        · split
          · exact h.readSolid
          · split
            · exact h.close (.handBack token)
            · exact Shadows.readSolid (h.report ..)

theorem cellEnded (outcome : Outcome) :
    Shadows t (m.cellEnded outcome) (m'.cellEnded (outcome.crlf (crlfOffset t))) := by
  unfold Machine.cellEnded
  cases outcome with
  | complete => exact h.readSolid
  | endOfText => exact h.close .endOfText
  | newParagraph token => exact h.readSolid
  | handBack token => exact h.take token

/-! ### Tags -/

theorem anchorTag {token : Token} (hsolid : token.isBlank = false) :
    Shadows t (m.anchorTag token) (m'.anchorTag (token.crlf (crlfOffset t))) := by
  rw [crlf_eq_opener hsolid]
  have hattributes : (opener (crlfOffset t) token).attributes =
    token.attributes.mapValues Text.crlf := rfl
  have hflags : (opener (crlfOffset t) token).flags = token.flags := rfl
  unfold Machine.anchorTag
  dsimp only
  rw [hattributes, hflags, h.relPath, h.outputFile, Attributes.get?_mapValues,
    Attributes.get?_mapValues, Attributes.get?_mapValues, ← Option.map_or]
  cases token.attributes.get? (units "href") with
  | some url =>
      dsimp only [Option.map_some]
      rw [Text.isAbsolute_crlf, Attributes.without_mapValues]
      split
      · refine Shadows.read (h.appendLeaf ?_)
        simp only [Content.dropReturns, Text.dropReturns_crlf, Attributes.dropReturns_mapValues]
      · exact (h.push (Construct.alike_crlf (.hyperlink _ token))).read
  | none =>
      dsimp only [Option.map_none]
      cases (token.attributes.get? (units "name")).or (token.attributes.get? (units "id")) with
      | some name =>
          refine Shadows.read (h.appendLeaf ?_)
          simp only [Content.dropReturns, Text.dropReturns_crlf]
      | none => exact Shadows.read (h.report ..)

theorem imageTag (token : Token) :
    Shadows t (m.imageTag token) (m'.imageTag (token.crlf (crlfOffset t))) := by
  have hsource : ((token.crlf (crlfOffset t)).attributes.get? (units "src")).getD [] =
      Text.crlf ((token.attributes.get? (units "src")).getD []) := by
    show ((token.attributes.mapValues Text.crlf).get? _).getD [] = _
    rw [Attributes.get?_mapValues]
    cases token.attributes.get? (units "src") <;> rfl
  have hrest : (token.crlf (crlfOffset t)).attributes.without (units "src") =
      (token.attributes.without (units "src")).mapValues Text.crlf :=
    token.attributes.without_mapValues _
  unfold Machine.imageTag
  dsimp only
  rw [hsource, hrest, h.relPath, Text.isEmpty_crlf, Text.isAbsolute_crlf]
  split
  · exact Shadows.read (h.report ..)
  · refine Shadows.read (h.appendLeaf ?_)
    simp only [Content.dropReturns, Text.dropReturns_crlf, Attributes.dropReturns_mapValues]
    split
    · rw [Text.dropReturns_crlf]
    · rfl

theorem paragraphTag (token : Token) :
    Shadows t (m.paragraphTag token) (m'.paragraphTag (token.crlf (crlfOffset t))) := by
  unfold Machine.paragraphTag
  rw [h.onlySynthetic]
  split
  · refine Shadows.read (h.modifyTop fun {a a'} ha => ?_)
    rcases ha.construct.paragraph_cases with ⟨attributes, styles, hc, hc'⟩ | ⟨hc, hc'⟩
    · rw [hc, hc']
      exact { ha with construct := Construct.alike_crlf (.paragraph token.attributes styles) }
    · split
      · exact absurd ‹_› (hc _ _)
      · exact ha
  · exact h.closeParagraph (.newParagraph token)

theorem startTag {token : Token} (hsolid : token.isBlank = false) :
    Shadows t (m.startTag token) (m'.startTag (token.crlf (crlfOffset t))) := by
  have hopener : token.crlf (crlfOffset t) = opener (crlfOffset t) token := crlf_eq_opener hsolid
  have hpush {c : Construct} {c' : Construct} (hc : c.crlf (crlfOffset t) = c') :
      Shadows t (m.push c) (m'.push c') := h.push (hc ▸ Construct.alike_crlf c)
  unfold Machine.startTag
  rw [Token.value_crlf hsolid]
  split
  · exact h.styleStart hsolid _
  · next level _ _ =>
    refine (hpush ?_).read
    rw [hopener]
    rfl
  · split
    · exact h.paragraphTag token
    · exact (h.appendLeaf rfl).read
    · exact (h.appendLeaf rfl).read
    · exact h.list hsolid
    · refine (hpush ?_).readSolid
      rw [hopener]
      rfl
    · refine (hpush ?_).readSolid
      rw [hopener]
      rfl
    · refine (hpush ?_).read
      rw [hopener]
      rfl
    · exact h.anchorTag hsolid
    · exact h.imageTag token
    · rw [h.container?]
      split
      · exact h.closeParagraph (.handBack token)
      · exact Shadows.read (h.report ..)
    · exact Shadows.read (h.report ..)

theorem endTag {token : Token} (hsolid : token.isBlank = false) :
    Shadows t (m.endTag token) (m'.endTag (token.crlf (crlfOffset t))) := by
  unfold Machine.endTag
  rw [Token.value_crlf hsolid]
  split
  · exact h.styleEnd token _
  · split
    · exact h.read
    · dsimp only
      rw [h.container?]
      split
      · exact h.closeParagraph (.handBack token)
      · exact Shadows.read (h.report ..)

end Shadows

end DocMarkup.Parser.Machine
