import DocMarkup.Text.Blank
import DocMarkup.Number.Whole

/-!
Reading a whole number at the start of a text.
-/

namespace DocMarkup.Whole

/-- The number at the start of a text: blanks are skipped, a sign may come first, and the longest
run of decimal digits counts.  What follows the digits is ignored; without a digit there is no
number. -/
def read? (t : Text) : Option Whole :=
  match t.dropWhile CodeUnit.isBlank with
  | [] => none
  | u :: rest =>
    let (negative, body) :=
      if u == unit '-' then (true, rest)
      else if u == unit '+' then (false, rest)
      else (false, u :: rest)
    match body.takeWhile CodeUnit.isDigit with
    | [] => none
    | digits =>
      let magnitude := natOfDigits digits
      some (ofInt (if negative then -(magnitude : Int) else magnitude))

end DocMarkup.Whole
