import DocMarkup.Diagnostic
import DocMarkup.Entity.Basic
import DocMarkup.Text.Lines

/-!
Aliases: commands defined by the user.  A definition is `name=value` or, with `n` arguments,
`name{n}=value`; the value refers to the arguments by number.
Expansion works on text, before anything else is read.
-/

namespace DocMarkup

/-- A definition of an alias. -/
structure Alias where
  name : Text
  argumentCount : Whole
  value : Text
  deriving DecidableEq, Repr, Inhabited

namespace Alias

/-- What follows the letter `n` in commands that begin with it. -/
def keptAfterN : List String := ["ote", "ame", "osubgrouping"]

/-- A value with `\n` written as a command for a line break.  Commands that begin with an `n` are
kept. -/
def escapeLineBreaks : Text → Text
  | [] => []
  | u :: rest =>
    match rest with
    | [] => [u]
    | v :: tail =>
      if u == unit '\\' && v == unit 'n' && !keptAfterN.any (fun s => (units s).isPrefixOf tail) then
        units "\\_linebr " ++ escapeLineBreaks tail
      else u :: escapeLineBreaks (v :: tail)

/-- Digits in braces at the start of a text, and what follows them. -/
def countInBraces? : Text → Option (Text × Text)
  | [] => none
  | u :: rest =>
    let digits := rest.takeWhile CodeUnit.isDigit
    match rest.drop digits.length with
    | [] => none
    | v :: after => if u == unit '\x7b' && v == unit '\x7d' then some (digits, after) else none

/-- Reads a definition.  No digits between the braces count as no arguments. -/
def ofDefinition? (definition : Text) : Option Alias :=
  let line := Text.trim definition
  let name := line.takeWhile CodeUnit.isIdentifierChar
  let tail := line.drop name.length
  let (digits, tail) := (countInBraces? tail).getD ([], tail)
  match tail.dropWhile CodeUnit.isHorizontalSpace with
  | [] => none
  | u :: value =>
    if name.head?.any CodeUnit.isIdentifierStart && u == unit '=' then
      some
        { name
          argumentCount := Whole.ofDigits digits
          value := escapeLineBreaks (Text.trim value) }
    else none

/-- The key an alias is found by: its name, with a positive number of arguments in braces. -/
def key (name : Text) (argumentCount : Whole) : Text :=
  if Whole.lt 0 argumentCount then
    name ++ [unit '\x7b'] ++ units argumentCount.decimal ++ [unit '\x7d']
  else name

/-! ### Arguments -/

/-- Arguments from behind an opening brace: the finished ones, and how many units they take with
the closing brace.  `depth` counts inner braces, `current` holds the argument being read, last unit
first. -/
def argumentsFrom (depth : Nat) (current : Text) : Text → Option (List Text × Nat)
  | [] => none
  | u :: rest =>
    let plain (depth : Nat) : Option (List Text × Nat) :=
      (argumentsFrom depth (u :: current) rest).map fun (found, n) => (found, n + 1)
    if u == unit '\\' then
      match rest with
      | [] => plain depth
      | v :: tail =>
        if v == unit ',' || v == unit '\x7b' || v == unit '\x7d' then
          (argumentsFrom depth (v :: current) tail).map fun (found, n) => (found, n + 2)
        else (argumentsFrom depth (u :: current) (v :: tail)).map fun (found, n) => (found, n + 1)
    else if u == unit '\x7b' then plain (depth + 1)
    else if u == unit '\x7d' then
      match depth with
      | 0 => some ([current.reverse], 1)
      | depth + 1 => plain depth
    else if u == unit ',' && depth == 0 then
      (argumentsFrom depth [] rest).map fun (found, n) => (current.reverse :: found, n + 1)
    else plain depth

/-- The arguments in braces at an offset, and the offset behind the closing brace.  A backslash
takes a comma or a brace as it is; commas inside inner braces do not separate. -/
def splitArguments? (t : Text) (opening : Nat) : Option (List Text × Nat) :=
  (argumentsFrom 0 [] (t.drop (opening + 1))).map fun (found, n) => (found, opening + 1 + n)

/-- A value with `\1`, `\2` and so on replaced by the arguments.  Numbers without an argument are
kept. -/
def substitute (value : Text) (arguments : List Text) : Text :=
  match value with
  | [] => []
  | u :: rest =>
    let digits := rest.takeWhile CodeUnit.isDigit
    let index := Whole.natOfDigits digits
    let argument? :=
      if u == unit '\\' && !digits.isEmpty && 0 < index then arguments[index - 1]? else none
    match argument? with
    | some argument => argument ++ substitute (rest.drop digits.length) arguments
    | none => u :: substitute rest arguments
termination_by value.length
decreasing_by
  · simp only [List.length_drop, List.length_cons]; omega
  · simp

end Alias

/-- The aliases in force, by key, and the names they go by. -/
structure AliasTable where
  entries : List (Text × Text)
  names : List Text
  deriving Inhabited

namespace AliasTable

/-- A table of definitions; of two with one key the later counts. -/
def ofList (definitions : List Alias) : AliasTable where
  entries := definitions.foldl (fun entries definition =>
    let key := Alias.key definition.name definition.argumentCount
    (key, definition.value) :: entries.filter (·.1 != key)) []
  names := definitions.map (·.name)

/-- A table of definition lines, with a diagnostic for every line that is none. -/
def ofLines (lines : List Text) (fileName : Text) : AliasTable × List Diagnostic :=
  let read := lines.map fun line => (line, Alias.ofDefinition? line)
  let invalid := read.zipIdx.filterMap fun ((line, alias?), index) =>
    match alias? with
    | some _ => none
    | none =>
      some ((Problem.invalidAlias line).toDiagnostic (some line) fileName (index + 1 : Nat) 0 0)
  (ofList (read.filterMap (·.2)), invalid)

/-- The file name given to settings. -/
def settingsFile : Text := units "<config>"

def size (table : AliasTable) : Nat := table.entries.length

def get? (table : AliasTable) (name : Text) (argumentCount : Whole) : Option Text :=
  (table.entries.find? (·.1 == Alias.key name argumentCount)).map (·.2)

def hasName (table : AliasTable) (name : Text) : Bool := table.names.contains name

def takesArguments (table : AliasTable) (name : Text) : Bool :=
  table.entries.any fun entry => (name ++ [unit '\x7b']).isPrefixOf entry.1

/-- How deep aliases may refer to aliases. -/
def maxDepth : Nat := 20

/-- A problem met in expansion, with the name it is about and the offset it is reported at. -/
structure Trouble where
  problem : Problem
  name : Text
  offset : Nat

/-- The text that a command at the start of `t` stands for. -/
structure Reference where
  name : Text
  /-- Units taken: the command character, the name, and braces if they are its arguments. -/
  length : Nat
  arguments : Option (List Text)
  value : Option Text
  /-- Whether the braces hold a number of arguments no definition has. -/
  wrongCount : Bool

/-- Number of arguments given; none when there are no braces. -/
def Reference.argumentCount (reference : Reference) : Nat :=
  (reference.arguments.map List.length).getD 0

/-- The reference that a command of this name makes, `tail` being the text behind the name.  A plain
alias leaves a brace group behind it alone. -/
def reference (table : AliasTable) (name tail : Text) : Reference :=
  let split :=
    if tail.head? == some (unit '\x7b') && table.hasName name then Alias.splitArguments? tail 0
    else none
  let plain := table.get? name 0
  match split with
  | none =>
    { name, length := name.length + 1, arguments := none, value := plain, wrongCount := false }
  | some (arguments, stop) =>
    let length := name.length + 1 + stop
    match table.get? name (Whole.ofNat arguments.length) with
    | some value =>
      { name, length, arguments := some arguments, value := some value, wrongCount := false }
    | none =>
      -- behind an alias that never takes arguments the braces are text
      if plain.isSome && !table.takesArguments name then
        { name, length := name.length + 1, arguments := none, value := plain, wrongCount := false }
      else { name, length, arguments := some arguments, value := none, wrongCount := true }

/-- Expands a text.  `depth` is how many more aliases may be entered, `active` holds the keys of
those entered, `offset` counts the units before the text, and `origin` is where problems inside an
alias are reported. -/
def expandFrom (table : AliasTable) (depth : Nat) (active : List Text) (origin : Option Nat)
    (offset : Nat) (t : Text) : Text × List Trouble :=
  match t with
  | [] => ([], [])
  | u :: rest =>
    if u != unit '\\' && u != unit '@' then
      let (more, troubles) := expandFrom table depth active origin (offset + 1) rest
      (u :: more, troubles)
    else if rest.head?.any Escape.isSign then
      let (more, troubles) := expandFrom table depth active origin (offset + 2) (rest.drop 1)
      (u :: rest.take 1 ++ more, troubles)
    else if !rest.head?.any CodeUnit.isIdentifierStart then
      let (more, troubles) := expandFrom table depth active origin (offset + 1) rest
      (u :: more, troubles)
    else
      let name := rest.takeWhile CodeUnit.isIdentifierChar
      let found := table.reference name (rest.drop name.length)
      let place := origin.getD offset
      -- what follows the reference is expanded whatever becomes of it
      let (more, later) :=
        expandFrom table depth active origin (offset + max 1 found.length)
          (rest.drop (found.length - 1))
      let written := (u :: rest).take found.length
      let wrong : List Trouble :=
        if found.wrongCount then
          [⟨.aliasArgumentCount name found.argumentCount, name, place⟩]
        else []
      match found.value with
      | none => (written ++ more, wrong ++ later)
      | some value =>
        let key := Alias.key name (Whole.ofNat found.argumentCount)
        if active.contains key then
          (written ++ more, wrong ++ [⟨.recursiveAlias name, name, place⟩] ++ later)
        else
          match depth with
          | 0 => (written ++ more, wrong ++ [⟨.recursiveAlias name, name, place⟩] ++ later)
          | depth + 1 =>
            let substituted :=
              match found.arguments with
              | some arguments => Alias.substitute value arguments
              | none => value
            let (inner, troubles) :=
              expandFrom table depth (key :: active) (some place) 0 substituted
            (inner ++ more, wrong ++ troubles ++ later)
termination_by (depth, t.length)
decreasing_by
  · exact Prod.Lex.right _ (by simp)
  · exact Prod.Lex.right _ (by simp only [List.length_drop, List.length_cons]; omega)
  · exact Prod.Lex.right _ (by simp)
  · exact Prod.Lex.right _ (by simp only [List.length_drop, List.length_cons]; omega)
  · exact Prod.Lex.left _ _ (by omega)

/-- Expands every reference to an alias in a text. -/
def expand (table : AliasTable) (t : Text) (fileName : Text) : Text × List Diagnostic :=
  let (expanded, troubles) := table.expandFrom maxDepth [] none 0 t
  (expanded, troubles.map fun trouble =>
    trouble.problem.toDiagnostic (some trouble.name) fileName
      (Text.lineOf t trouble.offset : Nat) trouble.offset trouble.offset)

end AliasTable

end DocMarkup
