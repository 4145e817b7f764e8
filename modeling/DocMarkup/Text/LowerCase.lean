import DocMarkup.Text.Units
import DocMarkup.Text.LetterCase

/-!
Lower case of a text.  Every code point is mapped by `LetterCase.lower`, with two exceptions that
look at more than one code point: the dotted capital I becomes a small i with a combining dot, and
a capital sigma takes its final form at the end of a word.
-/

namespace DocMarkup.Text

/-- Whether a letter with case comes first once ignorable signs are passed over. -/
def leadsToLetter (points : List Nat) : Bool :=
  match points.dropWhile (LetterCase.within LetterCase.ignorable) with
  | [] => false
  | point :: _ => LetterCase.within LetterCase.cased point

/-- Lower case of the code points in the second list, those in the first standing before them,
nearest first. -/
def lowerAfter : List Nat → List Nat → List Nat
  | _, [] => []
  | before, point :: rest =>
    let written :=
      if point == 0x130 then [0x69, 0x307]
      else if point == 0x3A3 then
        if leadsToLetter before && !leadsToLetter rest then [0x3C2] else [0x3C3]
      else [LetterCase.lower point]
    written ++ lowerAfter (point :: before) rest

/-- Lower case of a text.  Text in ASCII takes the short way. -/
def toLower (t : Text) : Text :=
  if t.all (· < 0x80) then t.map fun u => if 0x41 ≤ u && u ≤ 0x5A then u + 0x20 else u
  else ofCodePoints (lowerAfter [] (codePoints t))

end DocMarkup.Text
