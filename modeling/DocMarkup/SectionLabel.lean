import DocMarkup.Command
import DocMarkup.Scanner.Basic

/-!
The labels that a comment declares, found without parsing it.  A link table can learn of them
before any comment that refers to them is read.
-/

namespace DocMarkup

/-- A label with the command that declares it: level zero for an anchor, the level of the section
otherwise. -/
structure SectionLabel where
  label : Text
  level : Nat
  title : Text
  /-- Offset of the declaring command. -/
  offset : Nat
  deriving DecidableEq, Repr, Inhabited

namespace SectionLabel

/-- The level of a command that declares a label. -/
def level? (command : Text) : Option Nat :=
  if command == units "anchor" then some 0 else Command.sectionLevel? command

/-- What the table of raw blocks answers to names that it was never given.  It is asked by name
only, so these answers count as the ends of blocks too. -/
def inheritedEndings : List (String × String) :=
  [("constructor", "function Object() \x7b [native code] \x7d"),
   ("__proto__", "[object Object]"),
   ("toString", "function toString() \x7b [native code] \x7d"),
   ("toLocaleString", "function toLocaleString() \x7b [native code] \x7d"),
   ("valueOf", "function valueOf() \x7b [native code] \x7d"),
   ("hasOwnProperty", "function hasOwnProperty() \x7b [native code] \x7d"),
   ("isPrototypeOf", "function isPrototypeOf() \x7b [native code] \x7d"),
   ("propertyIsEnumerable", "function propertyIsEnumerable() \x7b [native code] \x7d"),
   ("__defineGetter__", "function __defineGetter__() \x7b [native code] \x7d"),
   ("__defineSetter__", "function __defineSetter__() \x7b [native code] \x7d"),
   ("__lookupGetter__", "function __lookupGetter__() \x7b [native code] \x7d"),
   ("__lookupSetter__", "function __lookupSetter__() \x7b [native code] \x7d")]

/-- The end of the text that is passed over behind a command. -/
def rawEnding? (command : Text) : Option Text :=
  (Command.verbatimEnding? command).or ((Command.lookup inheritedEndings command).map units)

/-- The label declared by the command just scanned, with the scanner behind its arguments. -/
def declared? (s : Scanner) : Option SectionLabel × Scanner :=
  match level? s.last.value with
  | none => (none, s)
  | some level =>
    match s.readArgument with
    | (none, s) => (none, s)
    | (some label, s') =>
      if level == 0 then (some { label, level, title := [], offset := s.last.start }, s')
      else
        let (title, s') := s'.readLine
        (some { label, level, title, offset := s.last.start }, s')

/-- The labels of the next tokens; blocks of raw text are passed over.  Every token but the last
takes at least one unit, so the length of the text bounds their number. -/
def ofTokens : Nat → Scanner → List SectionLabel
  | 0, _ => []
  | n + 1, s =>
    let s := s.scan
    match s.last.kind with
    | .endOfText => []
    | .command =>
      match rawEnding? s.last.value with
      | some ending => ofTokens n (s.readRaw (Command.markers ending)).2
      | none =>
        let (label?, s) := declared? s
        label?.toList ++ ofTokens n s
    | _ => ofTokens n s

/-- The labels that a text declares, in order. -/
def ofText (t : Text) : List SectionLabel := ofTokens (t.length + 1) (Scanner.ofText t)

end SectionLabel

end DocMarkup
