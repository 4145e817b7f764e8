import DocMarkup.Text.LowerCase
import DocMarkup.Text.Search

/-!
Names of files and addresses.
-/

namespace DocMarkup.Path

/-- The way from an output file back to the root of the output: `../` for every folder the file
lies in. -/
def toRoot (outputFile : Option Text) : Text :=
  Text.repeated ((outputFile.getD []).count (unit '/')) (units "../")

/-- The name behind the last slash. -/
def baseName (name : Text) : Text :=
  match Text.lastIndexOf? (unit '/') name with
  | none => name
  | some slash => name.drop (slash + 1)

/-- The extension of a file name in lower case, without its dot. -/
def extension (name : Text) : Text :=
  let base := baseName name
  match Text.lastIndexOf? (unit '.') base with
  | none => []
  | some dot => Text.toLower (base.drop (dot + 1))

/-- The name behind the last slash, up to its first dot. -/
def stem (name : Text) : Text := (baseName name).takeWhile (· != unit '.')

/-- Whether an address begins with a scheme such as `http:` or `mailto:`. -/
def isAbsolute (address : Text) : Bool :=
  match address with
  | [] => false
  | u :: rest =>
    CodeUnit.isLetter u &&
      (rest.dropWhile fun v =>
        CodeUnit.isLetter v || CodeUnit.isDigit v || (units "+.-").elem v).head? == some (unit ':')

/-- An address as seen from a page that lies `toRoot` away from the root. -/
def relativeTo (toRoot address : Text) : Text :=
  if !toRoot.isEmpty && !isAbsolute address && address.head? != some (unit '/') then
    toRoot ++ address
  else address

end DocMarkup.Path
