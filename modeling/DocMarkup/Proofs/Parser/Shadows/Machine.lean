import DocMarkup.Parser.PlainText
import DocMarkup.Parser.Paragraph
import DocMarkup.Proofs.Parser.Shadows.Frames

/-!
Machines that read a text and the same text with carriage returns side by side.  Whatever a handler
asks of the one machine it is told by the other, and what it does to both keeps them side by side.
What is reported is not compared: subjects and offsets differ.
-/

namespace DocMarkup.Parser

open CodeUnit (lineFeed carriageReturn)
open Text (crlfOffset)

/-- The setting of the same comment with carriage returns. -/
def Setting.crlf (setting : Setting) : Setting :=
  { setting with
    comment := { setting.comment with text := Text.crlf setting.comment.text }
    text := Text.crlf setting.text }

namespace Machine

/-- The second machine stands in the text with carriage returns where the first stands in the
text `t`. -/
structure Shadows (t : Text) (m m' : Machine) : Prop where
  setting : m'.setting = m.setting.crlf
  text : m.scanner.text = t
  plainText : carriageReturn ∉ t
  scanner : m.scanner.Shadows m'.scanner
  stack : List.Forall₂ (Frame.Alike (crlfOffset t)) m.stack m'.stack
  phase : m'.phase = m.phase.crlf (crlfOffset t)
  reopening : m'.reopening = m.reopening.map OpenStyle.crlf
  included : m'.included = m.included
  items : m'.items = m.items
  formulas : m'.formulas = m.formulas.map Text.crlf
  begun : m'.begun = m.begun
  failure : m'.failure = m.failure

/-- Two readings of the same, behind which the machines still stand side by side. -/
def ReadAlike {α : Type} (t : Text) (r r' : α × Machine) : Prop :=
  ∃ a m m', r = (a, m) ∧ r' = (a, m') ∧ Shadows t m m'

namespace Shadows

variable {t : Text} {m m' : Machine} (h : Shadows t m m')
include h

/-! ### What is asked of the machine -/

theorem options : m'.setting.options = m.setting.options := by rw [h.setting]; rfl

theorem relPath : m'.setting.relPath = m.setting.relPath := by rw [h.setting]; rfl

theorem origin : m'.origin = m.origin := by rw [Machine.origin, h.setting]; rfl

theorem outputFile : m'.outputFile = m.outputFile := by rw [Machine.outputFile, h.setting]; rfl

theorem insidePre : m'.insidePre = m.insidePre := h.scanner.insidePre

theorem offset : m'.scanner.offset = crlfOffset t m.scanner.offset := by
  rw [Scanner.offset, h.scanner.cursor, Cursor.offset_crlf, ← h.text]
  rfl

/-- The innermost frames. -/
theorem stack_cases : m.stack = [] ∧ m'.stack = [] ∨
    ∃ f f' outer outer', m.stack = f :: outer ∧ m'.stack = f' :: outer' ∧
      Frame.Alike (crlfOffset t) f f' ∧
      List.Forall₂ (Frame.Alike (crlfOffset t)) outer outer' := by
  have hstack := h.stack
  revert hstack
  generalize m.stack = stack
  generalize m'.stack = stack'
  rintro (_ | ⟨hf, houter⟩)
  · exact Or.inl ⟨rfl, rfl⟩
  · exact Or.inr ⟨_, _, _, _, rfl, rfl, hf, houter⟩

theorem children : m'.children.map Node.dropReturns = m.children.map Node.dropReturns := by
  unfold Machine.children
  rcases h.stack_cases with ⟨hm, hm'⟩ | ⟨f, f', outer, outer', hm, hm', hf, -⟩
  · rw [hm, hm']
  · rw [hm, hm']
    exact hf.children

theorem onlySynthetic : m'.onlySynthetic = m.onlySynthetic :=
  Node.all_isSynthetic_congr h.children

/-- What is asked of all constructs around. -/
theorem map_around {α : Type} {f : Construct → α}
    (hf : ∀ {c c' : Construct}, c.Alike (crlfOffset t) c' → f c' = f c) :
    m'.around.map f = m.around.map f := by
  have hmap {outer outer' : List Frame}
      (houter : List.Forall₂ (Frame.Alike (crlfOffset t)) outer outer') :
      (outer'.map (·.construct)).map f = (outer.map (·.construct)).map f := by
    induction houter with
    | nil => rfl
    | cons hframe _ ih => exact congrArg₂ List.cons (hf hframe.construct) ih
  unfold around
  rcases h.stack_cases with ⟨hm, hm'⟩ | ⟨f, f', outer, outer', hm, hm', -, houter⟩
  · rw [hm, hm']
  · rw [hm, hm']
    exact hmap houter

theorem container? : m'.container? = m.container? := by
  have hmap := h.map_around Construct.Alike.container?
  have hfind (around : List Construct) : around.findSome? Construct.container? =
      (around.map Construct.container?).findSome? id := by
    rw [List.findSome?_map]
    rfl
  rw [Machine.container?, hfind, hmap, ← hfind, Machine.container?]

theorem nearestAutoList? : nearestAutoList? m'.around = nearestAutoList? m.around := by
  have hmap := h.map_around Construct.Alike.autoList?
  have hfind (around : List Construct) : Machine.nearestAutoList? around =
      (around.map Construct.autoList?).findSome? id := by
    rw [List.findSome?_map]
    rfl
  rw [hfind, hmap, ← hfind]

theorem autoLists :
    m'.around.filterMap Construct.autoList? = m.around.filterMap Construct.autoList? := by
  have hmap := h.map_around Construct.Alike.autoList?
  have hfilter (around : List Construct) : around.filterMap Construct.autoList? =
      (around.map Construct.autoList?).filterMap id := by
    rw [List.filterMap_map]
    rfl
  rw [hfilter, hmap, ← hfilter]

theorem insideSection : m'.insideSection = m.insideSection := by
  have hmap := h.map_around (f := fun c => (c.ownsSections, c.container?.isSome))
    fun hc => by rw [hc.ownsSections, hc.container?]
  have hfind (around : List Construct) :
      (around.find? fun c => c.ownsSections || c.container?.isSome).any Construct.ownsSections =
        ((around.map fun c => (c.ownsSections, c.container?.isSome)).find?
          fun owner => owner.1 || owner.2).any (·.1) := by
    rw [List.find?_map, Option.any_map]
    rfl
  rw [Machine.insideSection, hfind, hmap, ← hfind, Machine.insideSection]

theorem any_around {p : Construct → Bool}
    (hp : ∀ {c c' : Construct}, c.Alike (crlfOffset t) c' → p c' = p c) :
    m'.around.any p = m.around.any p := by
  have hany (around : List Construct) : around.any p = (around.map p).any id := by
    rw [List.any_map]
    rfl
  rw [hany, h.map_around hp, ← hany]

/-! ### What is done to the machine -/

theorem read : Shadows t m.read m'.read := { h with phase := rfl }

theorem readSolid : Shadows t m.readSolid m'.readSolid := { h with phase := rfl }

theorem take (token : Token) : Shadows t (m.take token) (m'.take (token.crlf (crlfOffset t))) :=
  { h with phase := rfl }

theorem ended (outcome : Outcome) :
    Shadows t (m.ended outcome) (m'.ended (outcome.crlf (crlfOffset t))) :=
  { h with phase := rfl }

theorem finished : Shadows t { m with phase := .finished } { m' with phase := .finished } :=
  { h with phase := rfl }

theorem record (event event' : Event) : Shadows t (m.record event) (m'.record event') := { h with }

theorem report (token token' : Token) (problem problem' : Problem) :
    Shadows t (m.report token problem) (m'.report token' problem') := { h with }

/-- Whether something is reported makes no difference. -/
theorem report_if (c c' : Prop) [Decidable c] [Decidable c'] (token token' : Token)
    (problem problem' : Problem) :
    Shadows t (if c then m.report token problem else m)
      (if c' then m'.report token' problem' else m') := by
  split <;> split
  · exact h.report ..
  · exact { h with }
  · exact { h with }
  · exact h

theorem report_unless (c c' : Prop) [Decidable c] [Decidable c'] (token token' : Token)
    (problem problem' : Problem) :
    Shadows t (if c then m else m.report token problem)
      (if c' then m' else m'.report token' problem') := by
  split <;> split
  · exact h
  · exact { h with }
  · exact { h with }
  · exact h.report ..

theorem setInsidePre (insidePre : Bool) :
    Shadows t (m.setInsidePre insidePre) (m'.setInsidePre insidePre) :=
  { h with scanner := { h.scanner with insidePre := rfl } }

theorem fail (failure : Failure) : Shadows t (m.fail failure) (m'.fail failure) :=
  { h with failure := congrArg (Option.or · _) h.failure }

theorem modifyTop {f f' : Frame → Frame}
    (hf : ∀ {a a' : Frame}, Frame.Alike (crlfOffset t) a a' →
      Frame.Alike (crlfOffset t) (f a) (f' a')) :
    Shadows t (m.modifyTop f) (m'.modifyTop f') := by
  unfold Machine.modifyTop
  rcases h.stack_cases with ⟨hm, hm'⟩ | ⟨a, a', outer, outer', hm, hm', ha, houter⟩
  · rw [hm, hm']
    exact h
  · rw [hm, hm']
    exact { h with stack := .cons (hf ha) houter }

theorem setChildren {nodes nodes' : List Node}
    (hnodes : nodes'.map Node.dropReturns = nodes.map Node.dropReturns) :
    Shadows t (m.setChildren nodes) (m'.setChildren nodes') :=
  h.modifyTop fun ha => { ha with children := hnodes }

theorem append {n n' : Node} (hn : n'.dropReturns = n.dropReturns) :
    Shadows t (m.append n) (m'.append n') :=
  h.modifyTop fun ha => { ha with children := congrArg₂ List.cons hn ha.children }

theorem appendLeaf {content content' : Content}
    (hcontent : content'.dropReturns = content.dropReturns) :
    Shadows t (m.append (.leaf content)) (m'.append (.leaf content')) :=
  h.append (by rw [Node.dropReturns_leaf, hcontent, Node.dropReturns_leaf])

theorem appendAll {nodes nodes' : List Node}
    (hnodes : nodes'.map Node.dropReturns = nodes.map Node.dropReturns) :
    Shadows t (m.appendAll nodes) (m'.appendAll nodes') := by
  induction nodes generalizing nodes' m m' with
  | nil =>
      cases nodes' with
      | nil => exact h
      | cons => cases hnodes
  | cons n rest ih =>
      cases nodes' with
      | nil => cases hnodes
      | cons n' rest' =>
          obtain ⟨hn, hrest⟩ := List.cons.inj hnodes
          exact ih (h.append hn) hrest

theorem push {c c' : Construct} (hc : c.Alike (crlfOffset t) c') :
    Shadows t (m.push c) (m'.push c') := by
  have hmade : m'.stack.head?.map Frame.id = m.stack.head?.map Frame.id := by
    rcases h.stack_cases with ⟨hm, hm'⟩ | ⟨a, a', outer, outer', hm, hm', ha, -⟩
    · rw [hm, hm']
    · rw [hm, hm']
      exact congrArg some ha.id
  exact { h with
    stack := .cons ⟨hc, rfl, h.begun, hmade⟩ h.stack
    begun := congrArg (· + 1) h.begun }

theorem pop : Shadows t m.pop m'.pop := by
  unfold Machine.pop
  rcases h.stack_cases with ⟨hm, hm'⟩ | ⟨a, a', outer, outer', hm, hm', -, houter⟩
  · rw [hm, hm']
    exact { h with stack := .nil }
  · rw [hm, hm']
    exact { h with stack := houter }

theorem attach {f f' : Frame} (hf : Frame.Alike (crlfOffset t) f f') :
    Shadows t (m.attach f) (m'.attach f') := by
  have htop : m'.stack.head?.map Frame.id = m.stack.head?.map Frame.id := by
    rcases h.stack_cases with ⟨hm, hm'⟩ | ⟨a, a', outer, outer', hm, hm', ha, -⟩
    · rw [hm, hm']
    · rw [hm, hm']
      exact congrArg some ha.id
  unfold Machine.attach
  rw [htop, hf.madeFor, Node.kind_congr hf.toNode]
  split
  · exact h.append hf.toNode
  · exact h.fail _

theorem close (outcome : Outcome) :
    Shadows t (m.close outcome) (m'.close (outcome.crlf (crlfOffset t))) := by
  unfold Machine.close
  rcases h.stack_cases with ⟨hm, hm'⟩ | ⟨a, a', outer, outer', hm, hm', ha, houter⟩
  · rw [hm, hm']
    exact { h.finished with stack := .nil }
  · rw [hm, hm']
    have houtside : Shadows t { m with stack := outer } { m' with stack := outer' } :=
      { h with stack := houter }
    exact (houtside.attach ha).ended outcome

/-! ### Readers -/

theorem scanned {scanner scanner' : Scanner} (hscanner : scanner.Shadows scanner')
    (htext : scanner.text = m.scanner.text) :
    Shadows t { m with scanner } { m' with scanner := scanner' } :=
  { h with scanner := hscanner, text := htext.trans h.text }

/-- The two scan the same token, unless it ends a list on a line that goes on. -/
theorem next (hlist : m.scanner.breaksListEnd = false) :
    ∃ token x x', m.next = (token, x) ∧ m'.next = (token.crlf (crlfOffset t), x') ∧
      Shadows t x x' := by
  obtain ⟨hscan, -⟩ := h.scanner.scan hlist
  have hscanned := h.scanned hscan m.scanner.advances_scan.text
  have htoken : m'.next.1 = m.next.1.crlf (crlfOffset t) := by
    rw [← h.text]
    exact h.scanner.token hlist
  refine ⟨_, _, _, rfl, Prod.ext htoken rfl, ?_⟩
  unfold Machine.next
  dsimp only
  split <;> split
  · exact hscanned.record ..
  · exact { hscanned with }
  · exact { hscanned with }
  · exact hscanned

theorem argument : ReadAlike t m.argument m'.argument := by
  obtain ⟨hargument, hscanner⟩ := h.scanner.readArgument
  refine ⟨_, _, _, rfl, Prod.ext hargument rfl, h.scanned hscanner ?_⟩
  exact m.scanner.advances_readArgument.text

theorem quoted : ReadAlike t m.quoted m'.quoted := by
  obtain ⟨hargument, hscanner⟩ := h.scanner.readQuoted
  refine ⟨_, _, _, rfl, Prod.ext hargument rfl, h.scanned hscanner ?_⟩
  exact m.scanner.advances_readQuoted.text

theorem restOfLine : ReadAlike t m.restOfLine m'.restOfLine := by
  obtain ⟨hline, hscanner⟩ := h.scanner.readLine
  refine ⟨_, _, _, rfl, Prod.ext hline rfl, h.scanned hscanner ?_⟩
  exact m.scanner.advances_readLine.text

theorem attached (opening closing : Char)
    (hopening : CodeUnit.isLineBreak (unit opening) = false)
    (hclosing : CodeUnit.isLineBreak (unit closing) = false) :
    ReadAlike t (m.attached opening closing) (m'.attached opening closing) := by
  obtain ⟨hargument, hscanner⟩ := h.scanner.readAttached hopening hclosing
  refine ⟨_, _, _, rfl, Prod.ext hargument rfl, h.scanned hscanner ?_⟩
  exact (m.scanner.advances_readAttached ..).text

/-- The two read the same block up to the carriage returns in it. -/
theorem raw {markers : List Text} (hmarkers : ∀ marker ∈ markers, marker.IsUnbroken ∧ marker ≠ []) :
    (m'.raw markers).1 = { (m.raw markers).1 with text := Text.crlf (m.raw markers).1.text } ∧
      Shadows t (m.raw markers).2 (m'.raw markers).2 := by
  obtain ⟨hblock, hscanner⟩ := h.scanner.readRaw hmarkers
  exact ⟨hblock, h.scanned hscanner (m.scanner.advances_readRaw markers).text⟩

theorem moveTo {offset : Nat} (hoffset : offset ≤ t.length) :
    Shadows t (m.moveTo offset) (m'.moveTo (crlfOffset t offset)) := by
  obtain rfl := h.text
  obtain ⟨hmove', hscanner⟩ := h.scanner.moveTo? hoffset
  have hmove := Scanner.moveTo?_of_le hoffset
  unfold Machine.moveTo
  rw [hmove, hmove']
  exact h.scanned hscanner (Cursor.text_moveTo ..)

theorem resolve (target : Text) : ReadAlike t (m.resolve target) (m'.resolve target) := by
  have hresolve :
      m'.setting.options.surroundings.resolve? = m.setting.options.surroundings.resolve? := by
    rw [h.setting]
    rfl
  unfold Machine.resolve
  rw [hresolve, h.setting]
  cases m.setting.options.surroundings.resolve? with
  | none => exact ⟨_, _, _, rfl, rfl, h⟩
  | some resolve? => exact ⟨_, _, _, rfl, rfl, h.record ..⟩

theorem plain (warn : Bool) (written : Text) :
    ReadAlike t (m.plain warn written) (m'.plain warn written) := by
  unfold Machine.plain
  dsimp only
  refine ⟨_, _, _, rfl, rfl, ?_⟩
  generalize (Scanner.ofText written).readAll.1 = tokens
  induction tokens generalizing m m' with
  | nil => exact h
  | cons token rest ih =>
      refine ih ?_
      unfold notePlain
      dsimp only
      split <;> split
      · exact (h.record ..).report ..
      · exact h.report ..
      · exact h.record ..
      · exact h

end Shadows

end Machine

end DocMarkup.Parser
