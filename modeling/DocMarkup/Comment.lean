import DocMarkup.Number.Basic

/-!
A comment as it is handed to the parser, and the surroundings the parser asks about: symbols,
citations, files and images.
-/

namespace DocMarkup

/-- The documented entity a comment belongs to. -/
structure Scope where
  name : Text
  /-- The file of the output the comment goes to. -/
  outputFile : Option Text := none
  deriving DecidableEq, Repr, Inhabited

/-- One block of comment text. -/
structure Comment where
  text : Text
  fileName : Option Text := none
  /-- The line of the file the text starts on. -/
  startLine : Option Number := none
  scope : Option Scope := none
  isExample : Bool := false
  exampleName : Text := []
  /-- The text stands alone and is not wrapped in paragraphs. -/
  singleLine : Bool := false
  /-- Links are followed from the index page. -/
  linkFromIndex : Bool := false
  /-- Whether entries for the index are kept. -/
  indexWords : Bool := true
  memberAnchor : Text := []
  deriving Inhabited

/-- The file name of comments that come without one. -/
def Comment.anonymous : Text := units "<comment>"

/-- What a reference target turned out to be. -/
structure Target where
  file : Text
  anchor : Text
  /-- The tag file an external target is known from. -/
  ref : Option Text := none
  title : Option Text := none
  tooltip : Option Text := none
  isSection : Bool := false
  isAnchor : Bool := false
  deriving DecidableEq, Repr, Inhabited

/-- A question for the target of a reference. -/
structure LinkRequest where
  target : Text
  scope : Option Scope
  isExample : Bool
  exampleName : Text
  deriving DecidableEq, Repr, Inhabited

/-- What is known around the comments.  Every function answers alike to like questions. -/
structure Surroundings where
  /-- The symbol table; nothing is asked when there is none. -/
  resolve? : Option (LinkRequest → Option Target) := none
  citation? : Text → Option Target := fun _ => none
  fileText? : Text → Option Text := fun _ => none
  /-- The published name of an image in a format; nothing is asked when images are not managed. -/
  findImage? : Option (Text → Text → Option Text) := none

instance : Inhabited Surroundings := ⟨{}⟩

end DocMarkup
