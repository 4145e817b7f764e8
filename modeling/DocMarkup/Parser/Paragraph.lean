import DocMarkup.Parser.Machine

/-!
The beginning and the end of a paragraph.  Styles that are open where a paragraph ends are closed
with it and opened again in the next one; the nodes for this are synthetic.
-/

namespace DocMarkup.Parser.Machine

/-- A change of style made in recovery. -/
def syntheticChange (style : Style) (enable : Bool) (position : Nat) (attributes : Attributes) :
    Node :=
  (Node.leaf (.styleChange { style, enable, position, attributes })).asSynthetic

/-- Whether the innermost construct holds nothing that was written. -/
def onlySynthetic (m : Machine) : Bool := m.children.all Node.isSynthetic

def enterStyle (m : Machine) (entered : OpenStyle) : Machine :=
  let m := m.modifyTop fun frame =>
    match frame.construct with
    | .paragraph attributes styles =>
      { frame with construct := .paragraph attributes (entered :: styles) }
    | _ => frame
  if entered.style == .preformatted then m.setInsidePre true else m

/-- Begins a paragraph, with the styles that were open at the end of the last. -/
def openParagraph (m : Machine) : Machine :=
  let opened := ({ m with reopening := [] } : Machine).push (.paragraph [] [])
  m.reopening.foldl (fun m entered =>
    (m.append (syntheticChange entered.style true m.scanner.last.start entered.attributes))
      |>.enterStyle entered) opened

/-- The children of a paragraph that ends, last first: white space at its end is dropped and its
styles are closed.  A paragraph of reopened styles alone has no children. -/
def finishedChildren (children : List Node) (styles : List OpenStyle) (insidePre : Bool)
    (position : Nat) : List Node :=
  let trimmed := if insidePre then children else dropTrailingSpace children
  if trimmed.all Node.isSynthetic then []
  else
    dropTrailingSpace
      (styles.foldl (fun children entered =>
        syntheticChange entered.style false position [] :: children) trimmed)

/-- Ends a paragraph that is the innermost construct.  An empty one leaves no node. -/
def closeParagraph (m : Machine) (outcome : Outcome) : Machine :=
  match m.stack with
  | [] => { m with phase := .finished }
  | frame :: outer =>
    let styles := frame.construct.styles
    let children := finishedChildren frame.children styles m.insidePre m.scanner.offset
    let m :=
      if styles.any (·.style == .preformatted) then m.setInsidePre false else m
    let m : Machine := { m with stack := outer, reopening := m.reopening ++ styles.reverse }
    let m := if children.isEmpty then m else m.attach { frame with children }
    m.ended outcome

end DocMarkup.Parser.Machine
