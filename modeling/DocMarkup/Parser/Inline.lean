import DocMarkup.Parser.Word

/-!
Constructs that hold inline text only: links, headers, captions and the terms of description lists.
Their text ends at their end tag or command; any other construct ends it too and is handed back.
-/

namespace DocMarkup.Parser.Machine

/-- Styles that tags may change within inline text. -/
def isInlineStyle (style : Style) : Bool :=
  style != .preformatted && style != .division && style != .center

/-- Whether a token ends the inline text of a construct. -/
def endsInline (construct : Construct) (token : Token) : Bool :=
  match construct with
  | .link .. => token.isCommand ["endlink"]
  | .descTitle _ => token.isEndTag ["dt"]
  | .caption .. => token.isEndTag ["caption"]
  | .hyperlink .. => token.isEndTag ["a"]
  | .header _ opener => token.kind == .endTag && token.value == opener.value
  | _ => false

/-- Reports that a construct is still open at the end of the text. -/
def reportUnclosed (m : Machine) (opener : Token) : Machine :=
  m.report opener (.unclosedAtEnd opener.value)

/-- Ends a link.  One without text shows its target, and one whose target is unknown becomes
emphasized text. -/
def closeLink (m : Machine) (link : Link) (resolved : Bool) (opener : Token)
    (outcome : Outcome) : Machine :=
  let m :=
    if outcome == .complete then m else m.report opener (.unterminatedLink link.target)
  let m := if m.children.isEmpty then m.append (.leaf (.word link.target)) else m
  if resolved then m.close outcome
  else
    let m := m.report opener (.unresolvedLink link.target)
    -- the text moves to the paragraph around, between two changes of style
    let text := m.children.reverse
    let m := m.pop.changeStyle .italic true opener.start []
    ((m.appendAll text).changeStyle .italic false opener.start []).ended outcome

def closeHeader (m : Machine) (opener : Token) (outcome : Outcome) : Machine :=
  let m :=
    match outcome with
    | .complete => m
    | .endOfText => m.reportUnclosed opener
    | _ => m.report opener (.unclosedHeader opener.value)
  m.close outcome

/-- Ends a caption, which goes to its table if it is the first there. -/
def closeCaption (m : Machine) (frame : Frame) (kept : Bool) (outcome : Outcome) : Machine :=
  let m := m.pop
  let m :=
    if !kept then m
    else
      m.modifyTop fun outer =>
        match outer.construct with
        | .table attributes _ opener =>
          { outer with construct := .table attributes (some frame.toNode) opener }
        | _ => outer
  m.ended outcome

/-- Ends the inline text of the innermost construct. -/
def closeInline (m : Machine) (outcome : Outcome) : Machine :=
  let m := m.setChildren (dropTrailingSpace m.children)
  match m.stack with
  | [] => { m with phase := .finished }
  | frame :: _ =>
    match frame.construct with
    | .link link resolved opener => m.closeLink link resolved opener outcome
    | .header _ opener => m.closeHeader opener outcome
    | .hyperlink _ opener =>
      (if outcome == .endOfText then m.reportUnclosed opener else m).close outcome
    | .caption _ kept => m.closeCaption frame kept outcome
    | _ => m.close outcome

def takeInline (m : Machine) (construct : Construct) (token : Token) : Machine :=
  if endsInline construct token then m.closeInline .complete
  else
    match token.kind with
    | .endOfText => m.closeInline .endOfText
    | .newParagraph => m.closeInline (.newParagraph token)
    | .word | .symbol | .url => (m.addInWord token).read
    | .whiteSpace =>
      (if m.children.isEmpty then m else m.append (.leaf (.whiteSpace token.text))).read
    | .startTag | .endTag =>
      match (Command.tagStyle? token.value).filter isInlineStyle with
      | some style =>
        (m.changeStyle style (token.kind == .startTag) token.start token.attributes).read
      | none =>
        if token.isStartTag ["br"] then (m.append (.leaf .lineBreak)).read
        else m.closeInline (.handBack token)
    | .command =>
      match Command.ofName token.value with
      | .word style => m.styledWord token style
      | .lineBreak => (m.append (.leaf .lineBreak)).read
      | _ => m.closeInline (.handBack token)
    | _ => m.closeInline (.handBack token)

end DocMarkup.Parser.Machine
