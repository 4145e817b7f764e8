import DocMarkup.Text.Units

/-!
The wide notion of white space, used where text is trimmed: the control characters from tab to
carriage return, the Unicode space separators, the line and paragraph separators and the byte
order mark.  It contains every unit of the narrow notion, `CodeUnit.isSpace`.
-/

namespace DocMarkup

namespace CodeUnit

/-- White space in the wide sense. -/
def isBlank (u : CodeUnit) : Bool :=
  (0x09 ≤ u && u ≤ 0x0D) || u == 0x20 || u == 0xA0 || u == 0x1680 || (0x2000 ≤ u && u ≤ 0x200A) ||
  u == 0x2028 || u == 0x2029 || u == 0x202F || u == 0x205F || u == 0x3000 || u == 0xFEFF

theorem isBlank_of_isSpace {u : CodeUnit} (h : isSpace u = true) : isBlank u = true := by
  simp only [isSpace, isHorizontalSpace, isLineBreak, space, tab, lineFeed, carriageReturn,
    Bool.or_eq_true, beq_iff_eq] at h
  rcases h with (rfl | rfl) | (rfl | rfl) <;> decide

end CodeUnit

namespace Text

/-- The text without its last units that satisfy `p`. -/
def dropWhileRight (p : CodeUnit → Bool) (t : Text) : Text := (t.reverse.dropWhile p).reverse

/-- The text without blanks at either end. -/
def trim (t : Text) : Text := dropWhileRight CodeUnit.isBlank (t.dropWhile CodeUnit.isBlank)

end Text

end DocMarkup
