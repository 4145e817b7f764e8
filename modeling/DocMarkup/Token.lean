import DocMarkup.Attribute
import DocMarkup.Number.Whole

/-!
Tokens of a comment.  The stream is flat; blocks are found later.
-/

namespace DocMarkup

inductive TokenKind where
  /-- Nothing scanned since the text was loaded or the scanner was moved back. -/
  | unknown
  | endOfText
  /-- A run of text without white space. -/
  | word
  | whiteSpace
  /-- White space with a blank line. -/
  | newParagraph
  /-- A list marker at the start of a line. -/
  | listItem
  /-- A line that holds only a dot. -/
  | endList
  /-- A name behind a command character. -/
  | command
  /-- An escape or a named entity. -/
  | symbol
  /-- An absolute address or an e-mail address. -/
  | url
  | startTag
  | endTag
  /-- A keyword with text between dollar signs. -/
  | keyword
  deriving DecidableEq, Repr, Inhabited

/-- What is known of a token besides its kind. -/
structure TokenFlags where
  afterLineBreak : Bool := false
  atLineStart : Bool := false
  isEmail : Bool := false
  selfClosing : Bool := false
  /-- The marker of a numbered list. -/
  isNumbered : Bool := false
  deriving DecidableEq, Repr, Inhabited

/-- A piece of the text.  `text` is what was written, or the payload of a keyword; `value` is the
name of a command, tag, symbol or keyword, and the word or address itself. -/
structure Token where
  kind : TokenKind := .unknown
  flags : TokenFlags := {}
  start : Nat := 0
  stop : Nat := 0
  text : Text := []
  value : Text := []
  attributes : Attributes := []
  /-- The column of a list marker, or of the line after a blank line. -/
  indent : Nat := 0
  /-- The number written in a list marker. -/
  number : Option Whole := none
  deriving DecidableEq, Repr, Inhabited

namespace TokenKind

/-- The words for a kind of token in messages. -/
def label : TokenKind → String
  | unknown => "unknown"
  | endOfText => "end of comment"
  | word => "word"
  | whiteSpace => "whitespace"
  | newParagraph => "paragraph break"
  | listItem => "list item"
  | endList => "end of list marker"
  | command => "command"
  | symbol => "symbol"
  | url => "URL"
  | startTag => "HTML start tag"
  | endTag => "HTML end tag"
  | keyword => "RCS tag"

end TokenKind

namespace Token

def describe (token : Token) : Text :=
  match token.kind with
  | .command => units "command \\" ++ token.value
  | .startTag => units "<" ++ token.value ++ units ">"
  | .endTag => units "</" ++ token.value ++ units ">"
  | .word => units "word \"" ++ token.value ++ units "\""
  | kind => units kind.label

/-- A command of one of the given names. -/
def isCommand (token : Token) (names : List String) : Bool :=
  token.kind == .command && names.any (units · == token.value)

def isStartTag (token : Token) (names : List String) : Bool :=
  token.kind == .startTag && names.any (units · == token.value)

def isEndTag (token : Token) (names : List String) : Bool :=
  token.kind == .endTag && names.any (units · == token.value)

/-- White space of either kind. -/
def isBlank (token : Token) : Bool := token.kind == .whiteSpace || token.kind == .newParagraph

/-- Tokens that a styled word can consist of. -/
def isInWord (token : Token) : Bool :=
  token.kind == .word || token.kind == .symbol || token.kind == .url

/-- Tokens that start or end constructs. -/
def isStructural (token : Token) : Bool :=
  token.kind == .command || token.kind == .startTag || token.kind == .endTag ||
    token.kind == .listItem

/-- Whether a command token holds an identifier, and not a formula bracket. -/
def isNamedCommand (token : Token) : Bool :=
  token.kind == .command && token.value.all CodeUnit.isIdentifierChar

end Token

end DocMarkup
