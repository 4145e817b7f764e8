import DocMarkup.Parser.Block
import DocMarkup.Parser.Markup
import DocMarkup.Parser.Resource

/-!
One step of a parse.  A token goes to the innermost construct, which takes it, begins another
construct with it, or ends and hands it back to the construct around.
-/

namespace DocMarkup.Parser.Machine

def command (m : Machine) (token : Token) : Machine :=
  let m := m.record (.entered token.value)
  let unmatched := (m.report token (.endWithoutStart token.value)).read
  match Command.ofName token.value with
  | .word style => m.styledWord token style
  | .sect _ => m.closeParagraph (.handBack token)
  | .simpleSection type => m.simpleSection token type
  | .paramSection type => m.paramSection token type
  | .xrefItem => m.xrefItem token
  | .verbatim type ending => m.verbatim token type ending
  | .inclusion type => m.inclusion token type
  | .includeStep operator => m.includeStep token operator
  | .diagramFile type => m.diagramFile token type
  | .lineBreak => (m.append (.leaf .lineBreak)).read
  | .sourceBreak => (m.append (.leaf (.whiteSpace [CodeUnit.lineFeed]))).read
  | .anchor => m.anchor token
  | .indexEntry => m.indexEntry
  | .listItem => m.simpleList token
  | .internal => m.internal token
  | .endInternal =>
    if m.around.any Construct.isInternal then m.closeParagraph (.handBack token) else unmatched
  | .parBlock => (m.push (.parBlock token)).read
  | .endParBlock =>
    if m.around.any Construct.isParBlock then m.closeParagraph (.handBack token) else unmatched
  | .refList => (m.push (.refList token)).readSolid
  | .reference isSubPage => m.reference token isSubPage
  | .link => m.link token
  | .citation => m.citation token
  | .internalReference => m.internalReference token
  | .copy brief details => m.copy token brief details
  | .image => m.image token
  | .formula => m.formula token
  | .ignored => m.read
  | .unmatched => unmatched
  | .unknown =>
    ((m.report token (.unknownCommand token.text)).append (.leaf (.word token.text))).read

def takeInParagraph (m : Machine) (token : Token) : Machine :=
  match token.kind with
  | .endOfText => m.closeParagraph .endOfText
  | .newParagraph => m.closeParagraph (.newParagraph token)
  | .whiteSpace =>
    let n := Node.leaf (.whiteSpace token.text)
    if m.insidePre then (m.append n.asPreformatted).read
    -- white space in front of everything written is dropped
    else if m.onlySynthetic then m.read
    else (m.append n).read
  | .word | .symbol | .url => (m.addInWord token).read
  | .listItem => m.listMarker token
  | .endList =>
    if (nearestAutoList? m.around).isSome then m.closeParagraph (.handBack token)
    else (m.report token .endListWithoutList).read
  | .command => m.command token
  | .startTag => m.startTag token
  | .endTag => m.endTag token
  | .keyword => m.keyword token
  | .unknown => m.read

/-- Begins a section with the command of its level. -/
def openSection (m : Machine) (token : Token) (level : Nat) : Machine :=
  let (label?, m) := m.argument
  let (title, m) := if label?.isSome then m.restOfLine else ([], m)
  let m := if label?.isSome then m else m.report token (.missingSectionLabel token.value)
  let label := label?.getD []
  (m.push (.sect { level, label, title, anchor := label, file := m.outputFile })).read

/-- The level of a token that is a section command. -/
def sectionLevel? (token : Token) : Option Nat :=
  if token.kind == .command then Command.sectionLevel? token.value else none

/-- Gives a token to the innermost construct. -/
def dispatch (m : Machine) (token : Token) : Machine :=
  match m.stack with
  | [] => { m with phase := .finished }
  | frame :: _ =>
    match frame.construct with
    | .root _ =>
      match sectionLevel? token with
      | some level =>
        -- a section of any level is opened, with a report if it should lie in another
        let m := if 1 < level then m.report token (.sectionAtTopLevel token.value) else m
        m.openSection token level
      | none => m.openParagraph.take token
    | .sect sect =>
      match sectionLevel? token with
      | some level =>
        if level ≤ sect.level then m.close (.handBack token) else m.openSection token level
      | none => m.openParagraph.take token
    | .paragraph .. => m.takeInParagraph token
    | .refList opener => m.takeInRefList opener token
    | .list _ _ opener => m.takeInList opener token
    | .descList _ opener => m.takeInDescList opener token
    | .table _ caption opener => m.takeInTable caption opener token
    | .row _ => m.takeInRow token
    | .descTitle _ | .caption .. | .header .. | .hyperlink .. | .link .. =>
      m.takeInline frame.construct token
    | _ => m.openParagraph.take token

/-- Goes on at the top level or in a section once a part of it has ended.  `unexpected` is the
problem of a token that belongs to nothing. -/
def sectionPartEnded (m : Machine) (outcome : Outcome) (unexpected : Text → Problem) : Machine :=
  match outcome with
  | .handBack token =>
    if (sectionLevel? token).isSome then m.take token
    else (m.report token (unexpected token.describe)).read
  | _ => m.read

/-- Goes on in a container that takes any number of paragraphs, up to a token that ends it. -/
def blockParagraphEnded (m : Machine) (outcome : Outcome) (isEnd : Token → Bool) : Machine :=
  match outcome with
  | .newParagraph _ => m.read
  | .handBack token => if isEnd token then m.close .complete else m.close outcome
  | outcome => m.close outcome

/-- Goes on in the innermost construct once one within it has ended. -/
def resume (m : Machine) (outcome : Outcome) : Machine :=
  match m.stack with
  | [] => { m with phase := .finished }
  | frame :: _ =>
    match frame.construct with
    | .root _ =>
      if outcome == .endOfText then { m with phase := .finished }
      else m.sectionPartEnded outcome .unexpectedAtTopLevel
    | .sect sect =>
      if outcome == .endOfText then m.close outcome
      else m.sectionPartEnded outcome (.unexpectedInSection · sect.label)
    | .paragraph .. =>
      match outcome with
      | .complete => m.read
      | .handBack token => m.take token
      | outcome => m.closeParagraph outcome
    | .autoListItem item =>
      match outcome with
      | .newParagraph token =>
        -- an indented paragraph belongs to the item, and so does one that a tag begins
        if item.indent < token.indent || token.kind == .startTag then m.read else m.close outcome
      | outcome => m.close outcome
    | .autoList list next => m.itemEnded list next outcome
    | .simpleList =>
      match outcome with
      | .handBack token =>
        if token.isCommand ["li", "arg"] then (m.push .simpleListItem).read else m.close outcome
      | outcome => m.close outcome
    | .internal => m.blockParagraphEnded outcome (·.isCommand ["endinternal"])
    | .parBlock opener =>
      (if outcome == .endOfText then m.report opener .unterminatedParBlock else m)
        |>.blockParagraphEnded outcome (·.isCommand ["endparblock"])
    | .listItem _ => m.blockParagraphEnded outcome (·.isEndTag ["li"])
    | .descData _ => m.blockParagraphEnded outcome (·.isEndTag ["dd"])
    | .blockQuote _ opener =>
      (if outcome == .endOfText then m.reportUnclosed opener else m)
        |>.blockParagraphEnded outcome (·.isEndTag ["blockquote"])
    | .cell .. =>
      match outcome with
      | .newParagraph _ => m.read
      | .handBack token => if token.isEndTag ["td", "th"] then m.read else m.close outcome
      | outcome => m.close outcome
    | .list _ _ opener | .descList _ opener | .table _ _ opener => m.partEnded opener outcome
    | .row _ => m.cellEnded outcome
    | _ => m.close outcome

def step (m : Machine) : Machine :=
  match m.phase with
  | .read =>
    let (token, m) := m.next
    m.take token
  | .readSolid =>
    let (token, m) := m.next
    if token.isBlank then m.readSolid else m.take token
  | .readWord style => m.continueWord style
  | .take token => m.dispatch token
  | .ended outcome => m.resume outcome
  | .finished => m

/-- Whether no step is left: the text is finished, or the parse was broken off. -/
def isDone (m : Machine) : Bool := m.phase == .finished || m.failure.isSome

/-- Steps until the parse is done, as many as allowed. -/
def run : Nat → Machine → Machine
  | 0, m => m
  | n + 1, m => if m.isDone then m else run n m.step

end DocMarkup.Parser.Machine
