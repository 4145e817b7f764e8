import DocMarkup.Parser.Paragraph

/-!
Words and styles.  A word that looks like a name is linked if its target is known.
-/

namespace DocMarkup.Parser

/-- Punctuation that does not belong to a name before it. -/
def isEndPunctuation (u : CodeUnit) : Bool := (units ".,;:!?").elem u

/-- Whether a word looks like a name: a scoped one, a call, or one marked with a number sign. -/
def looksLikeName (word : Text) : Bool :=
  Text.occursIn (units "::") word || Text.endsWith (units "()") word ||
    (word.head? == some (unit '#') && 1 < word.length)

/-- A word linked to its target. -/
def linkedWord (word relPath : Text) (target : Target) : LinkedWord where
  word := word
  ref := target.ref.getD []
  file := target.file
  relPath := relPath
  anchor := target.anchor
  tooltip := target.tooltip.getD []

namespace Machine

def plainWord (m : Machine) (word : Text) : Machine :=
  let n := Node.leaf (.word word)
  m.append (if m.insidePre then n.asPreformatted else n)

/-- Adds a word, linked if it names something. -/
def addWord (m : Machine) (word : Text) : Machine :=
  let name := Text.dropWhileRight isEndPunctuation word
  if m.insidePre || !m.setting.options.autolink || !looksLikeName name then m.plainWord word
  else
    -- the number sign marks a name and is not part of it
    let target := if name.head? == some (unit '#') then name.drop 1 else name
    match m.resolve target with
    | (none, m) => m.plainWord word
    | (some found, m) =>
      let m := m.append (.leaf (.linkedWord (linkedWord target m.setting.relPath found)))
      -- the punctuation behind a name is not linked
      if name.length < word.length then m.append (.leaf (.word (word.drop name.length))) else m

/-- Adds a token that can be part of a word. -/
def addInWord (m : Machine) (token : Token) : Machine :=
  match token.kind with
  | .word => m.addWord token.value
  | .symbol => m.append (.leaf (.symbol token.value))
  | _ => m.append (.leaf (.url token.value token.flags.isEmail))

/-- The place where a style begins or ends. -/
def changeStyle (m : Machine) (style : Style) (enable : Bool) (position : Nat)
    (attributes : Attributes) : Machine :=
  m.append (.leaf (.styleChange { style, enable, position, attributes }))

/-- Begins a styled word behind its command. -/
def styledWord (m : Machine) (token : Token) (style : Style) : Machine :=
  let (next, m) := ({ m with scanner := m.scanner.skipHorizontalSpace } : Machine).next
  if next.isInWord then
    { (m.changeStyle style true token.start []).addInWord next with phase := .readWord style }
  else (m.report token (.missingStyledWord token.value)).take next

/-- Goes on with a styled word: it ends before the first token that cannot be part of it. -/
def continueWord (m : Machine) (style : Style) : Machine :=
  let (next, m) := m.next
  if next.isInWord then { m.addInWord next with phase := .readWord style }
  else (m.changeStyle style false next.start []).take next

/-- The style entered last in any open paragraph. -/
def innermostStyle? (m : Machine) : Option OpenStyle :=
  m.stack.findSome? fun frame => frame.construct.styles.head?

/-- The style entered last in the innermost paragraph. -/
def ownStyle? (m : Machine) : Option OpenStyle :=
  m.stack.head?.bind fun frame => frame.construct.styles.head?

def leaveStyle (m : Machine) : Machine :=
  m.modifyTop fun frame =>
    match frame.construct with
    | .paragraph attributes styles =>
      { frame with construct := .paragraph attributes styles.tail }
    | _ => frame

/-- Takes the start tag of a style.  One that closes itself encloses nothing. -/
def styleStart (m : Machine) (token : Token) (style : Style) : Machine :=
  let m := m.changeStyle style true token.start token.attributes
  if token.flags.selfClosing then (m.changeStyle style false token.stop []).read
  else (m.enterStyle { style, tag := token.value, attributes := token.attributes }).read

/-- Takes the end tag of a style, which has to be the one entered last in this paragraph. -/
def styleEnd (m : Machine) (token : Token) (style : Style) : Machine :=
  if m.ownStyle?.any (·.style == style) then
    let m := m.leaveStyle
    -- white space in front of the end counts inside preformatted text, but not at its end
    let m :=
      if m.insidePre && style != .preformatted then m
      else m.setChildren (dropTrailingSpace m.children)
    let m := m.changeStyle style false token.start []
    (if style == .preformatted then m.setInsidePre false else m).read
  else
    let problem :=
      match m.innermostStyle? with
      | some entered => Problem.mismatchedEnd token.value entered.tag
      | none => Problem.unmatchedStyleEnd token.value
    (m.report token problem).read

end Machine

end DocMarkup.Parser
