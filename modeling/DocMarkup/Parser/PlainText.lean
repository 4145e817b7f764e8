import DocMarkup.Parser.Machine

/-!
Plain text: titles, captions and the texts of references, read as words, symbols and addresses.
Markup in it is kept as it was written.
-/

namespace DocMarkup.Parser

/-- The nodes of a token in plain text.  White space counts as one space, and not at the start. -/
def plainNodes (atStart : Bool) (token : Token) : List Node :=
  match token.kind with
  | .word => [.leaf (.word token.value)]
  | .whiteSpace | .newParagraph =>
    if atStart then [] else [.leaf (.whiteSpace [CodeUnit.space])]
  | .symbol => [.leaf (.symbol token.value)]
  | .url => [.leaf (.url token.value token.flags.isEmail)]
  | .endOfText => []
  | _ =>
    let written := Text.trim token.text
    if written.isEmpty then [] else [.leaf (.word written)]

/-- The nodes of plain text, last first, those of `before` having been read already. -/
def plainNodesAfter (before : List Node) (tokens : List Token) : List Node :=
  tokens.foldl (fun before token =>
    (plainNodes before.isEmpty token).reverse ++ before) before

/-- The nodes of plain text. -/
def plainText (tokens : List Token) : List Node :=
  (dropTrailingSpace (plainNodesAfter [] tokens)).reverse

namespace Machine

/-- Takes note of the commands in plain text, reporting them if asked to. -/
def notePlain (warn : Bool) (m : Machine) (token : Token) : Machine :=
  let m := if token.isNamedCommand then m.record (.scanned token.value) else m
  if warn && token.kind == .command then m.report token (.commandInPlainText token.value) else m

/-- Reads plain text that stands apart from the comment. -/
def plain (m : Machine) (warn : Bool) (t : Text) : List Node × Machine :=
  let tokens := (Scanner.ofText t).readAll.1
  (plainText tokens, tokens.foldl (notePlain warn) m)

end Machine

end DocMarkup.Parser
