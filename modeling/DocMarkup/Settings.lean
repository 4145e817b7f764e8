import DocMarkup.RawValue
import DocMarkup.Text.Search

/-!
Settings.  Raw values, as a data file holds them, are checked once; what is absent takes its
default and what is not known is dropped.  Every fault is reported with the path of the value, in
the order in which the settings are declared.
-/

namespace DocMarkup

/-- Image formats that diagrams can be drawn in. -/
inductive ImageFormat where
  | png
  | svg
  | jpg
  | gif
  deriving DecidableEq, Repr, Inhabited

def ImageFormat.name : ImageFormat → String
  | .png => "png"
  | .svg => "svg"
  | .jpg => "jpg"
  | .gif => "gif"

/-- Markers of bulleted lists. -/
inductive Bullet where
  | dash
  | star
  | plus
  deriving DecidableEq, Repr, Inhabited

def Bullet.name : Bullet → String
  | .dash => "-"
  | .star => "*"
  | .plus => "+"

structure Settings where
  /-- Definitions of aliases, one a line. -/
  aliases : List Text := []
  autolink : Bool := true
  /-- Whether internal blocks are shown. -/
  internalDocs : Bool := false
  fileExtension : Text := units ".html"
  /-- Whether formulas are left to a script in the page. -/
  mathJax : Bool := false
  imageFormat : ImageFormat := .png
  /-- Whether links to other documentation open a window. -/
  externalInWindow : Bool := false
  /-- Where the documentation behind each tag file lies. -/
  tagFiles : List (Text × Text) := []
  bullets : List Bullet := [.dash, .star, .plus]
  tabSize : Nat := 4
  outputDirectory : Text := units "html"
  deriving DecidableEq, Inhabited

namespace Settings

/-- The shapes of raw values in messages. -/
inductive Shape where
  | null
  | bool
  | number
  | string
  | array
  | object
  deriving DecidableEq, Repr, Inhabited

def Shape.name : Shape → String
  | null => "null"
  | bool => "boolean"
  | number => "number"
  | string => "string"
  | array => "array"
  | object => "object"

def shape : RawValue → Shape
  | .null => .null
  | .bool _ => .bool
  | .number .. => .number
  | .string _ => .string
  | .array _ => .array
  | .object _ => .object

/-- What is wrong with a value. -/
inductive Fault where
  | wrongShape (expected received : Shape)
  /-- Something other than a string where one of the given words is wanted. -/
  | notAWord (options : List String) (received : Shape)
  /-- A string that is none of the given words. -/
  | unknownWord (options : List String) (received : Text)
  | noDot
  | notWhole
  | tooSmall (least : Nat)
  | tooLarge (most : Nat)
  deriving DecidableEq, Repr, Inhabited

/-- The words to choose from. -/
def choice (options : List String) : Text :=
  Text.join (units " | ") (options.map fun s => units ("'" ++ s ++ "'"))

def Fault.message : Fault → Text
  | wrongShape expected received =>
    units ("Expected " ++ expected.name ++ ", received " ++ received.name)
  | notAWord options received =>
    units "Expected " ++ choice options ++ units (", received " ++ received.name)
  | unknownWord options received =>
    units "Invalid enum value. Expected " ++ choice options ++ units ", received '" ++ received ++
      units "'"
  | noDot => units "extension must start with a dot"
  | notWhole => units "Expected integer, received float"
  | tooSmall least => units ("Number must be greater than or equal to " ++ Nat.repr least)
  | tooLarge most => units ("Number must be less than or equal to " ++ Nat.repr most)

/-- A fault and where it is: the names and indices that lead to the value. -/
structure Issue where
  path : List Text
  fault : Fault
  deriving DecidableEq, Repr, Inhabited

/-- The line of an issue. -/
def Issue.message (issue : Issue) : Text :=
  let path := Text.join (units ".") issue.path
  (if path.isEmpty then units "<root>" else path) ++ units ": " ++ issue.fault.message

/-- The text of a failed check, a line for every issue. -/
def failure (issues : List Issue) : Text :=
  units "Invalid configuration:\n" ++ Text.join (units "\n") (issues.map Issue.message)

/-! ### Checks -/

/-- A check of a value at a path: the value read, and what is wrong with it.  The value counts only
when nothing is wrong. -/
abbrev Check (α : Type) := List Text → RawValue → α × List Issue

/-- A value that is not of the shape wanted. -/
def wrong {α : Type} [Inhabited α] (path : List Text) (fault : Fault) : α × List Issue :=
  (default, [{ path, fault }])

def checkBool : Check Bool
  | _, .bool b => (b, [])
  | path, raw => wrong path (.wrongShape .bool (shape raw))

def checkString : Check Text
  | _, .string s => (s, [])
  | path, raw => wrong path (.wrongShape .string (shape raw))

/-- One of some values, each written by its name. -/
def checkWord {α : Type} [Inhabited α] (values : List α) (name : α → String) : Check α
  | path, .string s =>
    match values.find? fun value => units (name value) == s with
    | some value => (value, [])
    | none => wrong path (.unknownWord (values.map name) s)
  | path, raw => wrong path (.notAWord (values.map name) (shape raw))

/-- Every element of a list, at its index. -/
def checkItems {α : Type} (check : Check α) (path : List Text) (index : Nat) :
    List RawValue → List α × List Issue
  | [] => ([], [])
  | raw :: rest =>
    let (value, issues) := check (path ++ [unitsOfNat index]) raw
    let (values, more) := checkItems check path (index + 1) rest
    (value :: values, issues ++ more)

def checkList {α : Type} (check : Check α) : Check (List α)
  | path, .array items => checkItems check path 0 items
  | path, raw => wrong path (.wrongShape .array (shape raw))

/-- Every index is smaller. -/
def indexBound : Nat := Nat.pow 2 32 - 1

/-- The number a name writes, if it is an index written as indices are. -/
def index? (name : Text) : Option Nat :=
  let n := Whole.natOfDigits name
  if name == unitsOfNat n && n < indexBound then some n else none

/-- Entries in the order of a record: names that are indices come first, by their number. -/
def recordOrder (entries : List (Text × RawValue)) : List (Text × RawValue) :=
  let isIndex (entry : Text × RawValue) : Bool := (index? entry.1).isSome
  ((entries.filter isIndex).mergeSort fun a b =>
    (index? a.1).getD 0 ≤ (index? b.1).getD 0) ++ entries.filter fun entry => !isIndex entry

/-- The one name under which a record keeps nothing. -/
def prototypeName : Text := units "__proto__"

/-- A record of strings, entry by entry.  Every entry is checked, also one that is not kept. -/
def checkRecord : Check (List (Text × Text))
  | path, .object entries =>
    let checked := (recordOrder entries).map fun (name, raw) =>
      let (value, issues) := checkString (path ++ [name]) raw
      ((name, value), issues)
    ((checked.map (·.1)).filter (·.1 != prototypeName), checked.flatMap (·.2))
  | path, raw => wrong path (.wrongShape .object (shape raw))

/-- A dot followed by letters and digits. -/
def isExtension : Text → Bool
  | dot :: u :: rest =>
    dot == unit '.' && (u :: rest).all fun v => CodeUnit.isLetter v || CodeUnit.isDigit v
  | _ => false

def checkExtension : Check Text
  | path, .string s => (s, if isExtension s then [] else [{ path, fault := .noDot }])
  | path, raw => wrong path (.wrongShape .string (shape raw))

/-- The least and the most columns between tab stops. -/
def tabSizes : Nat × Nat := (1, 16)

/-- A whole number within bounds; each bound that is missed is an issue of its own. -/
def checkTabSize : Check Nat
  | path, .number n =>
    let faults : List Fault :=
      (if n.isWhole then [] else [.notWhole]) ++
      (if n.lt tabSizes.1 then [.tooSmall tabSizes.1] else []) ++
      (if Number.lt tabSizes.2 n then [.tooLarge tabSizes.2] else [])
    (n.floor.toNat, faults.map fun fault => { path, fault })
  | path, raw => wrong path (.wrongShape .number (shape raw))

/-- A setting by its name: its default when it is absent. -/
def setting {α : Type} (entries : List (Text × RawValue)) (name : String) (absent : α)
    (check : Check α) : α × List Issue :=
  match entries.find? fun entry => entry.1 == units name with
  | none => (absent, [])
  | some (name, raw) => check [name] raw

def ofRaw (raw : RawValue) : Except (List Issue) Settings :=
  match raw with
  | .object entries =>
    let standard : Settings := {}
    let (aliases, i₁) := setting entries "aliases" standard.aliases (checkList checkString)
    let (autolink, i₂) := setting entries "autolinkSupport" standard.autolink checkBool
    let (internalDocs, i₃) := setting entries "internalDocs" standard.internalDocs checkBool
    let (fileExtension, i₄) :=
      setting entries "htmlFileExtension" standard.fileExtension checkExtension
    let (mathJax, i₅) := setting entries "useMathJax" standard.mathJax checkBool
    let (imageFormat, i₆) :=
      setting entries "dotImageFormat" standard.imageFormat
        (checkWord [.png, .svg, .jpg, .gif] ImageFormat.name)
    let (externalInWindow, i₇) :=
      setting entries "externalLinksInWindow" standard.externalInWindow checkBool
    let (tagFiles, i₈) := setting entries "tagFileLocations" standard.tagFiles checkRecord
    let (bullets, i₉) :=
      setting entries "markdownListMarkers" standard.bullets
        (checkList (checkWord [.dash, .star, .plus] Bullet.name))
    let (tabSize, i₁₀) := setting entries "tabSize" standard.tabSize checkTabSize
    let (outputDirectory, i₁₁) :=
      setting entries "outputDirectory" standard.outputDirectory checkString
    let issues := i₁ ++ i₂ ++ i₃ ++ i₄ ++ i₅ ++ i₆ ++ i₇ ++ i₈ ++ i₉ ++ i₁₀ ++ i₁₁
    if issues.isEmpty then
      .ok
        { aliases, autolink, internalDocs, fileExtension, mathJax, imageFormat, externalInWindow,
          tagFiles, bullets, tabSize, outputDirectory }
    else .error issues
  | raw => .error [{ path := [], fault := .wrongShape .object (shape raw) }]

end Settings

end DocMarkup
