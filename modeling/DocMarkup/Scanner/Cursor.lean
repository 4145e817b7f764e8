import DocMarkup.Text.Units

/-!
A place in a text: what lies behind, nearest unit first, and what lies ahead.
-/

namespace DocMarkup

structure Cursor where
  behind : Text
  ahead : Text
  offset : Nat
  /-- The offset counts the units behind. -/
  offset_eq : offset = behind.length := by rfl

namespace Cursor

/-- The start of a text. -/
def ofText (t : Text) : Cursor := { behind := [], ahead := t, offset := 0 }

instance : Inhabited Cursor := ⟨ofText []⟩

/-- The text the cursor stands in. -/
def text (c : Cursor) : Text := c.behind.reverse ++ c.ahead

def atEnd (c : Cursor) : Bool := c.ahead.isEmpty

/-- The unit just behind. -/
def previous? (c : Cursor) : Option CodeUnit := c.behind.head?

/-- The start of the text, or the place behind a line feed. -/
def atLineStart (c : Cursor) : Bool :=
  match c.previous? with
  | none => true
  | some u => u == CodeUnit.lineFeed

/-- `n` units further, or the end if the text is shorter. -/
def advance : Nat → Cursor → Cursor
  | 0, c => c
  | n + 1, c =>
    match c with
    | ⟨_, [], _, _⟩ => c
    | ⟨behind, u :: ahead, offset, h⟩ => advance n ⟨u :: behind, ahead, offset + 1, by simp [h]⟩

/-- Past the units that satisfy `p`. -/
def advanceWhile (p : CodeUnit → Bool) (c : Cursor) : Cursor :=
  c.advance (c.ahead.takeWhile p).length

def advanceToEnd (c : Cursor) : Cursor := c.advance c.ahead.length

/-- `n` units back, or the start if there are fewer behind. -/
def retreat : Nat → Cursor → Cursor
  | 0, c => c
  | n + 1, c =>
    match c with
    | ⟨[], _, _, _⟩ => c
    | ⟨u :: behind, ahead, offset, h⟩ =>
      retreat n ⟨behind, u :: ahead, offset - 1, by simp [h]⟩

/-- To the place with that offset. -/
def moveTo (target : Nat) (c : Cursor) : Cursor :=
  if c.offset ≤ target then c.advance (target - c.offset) else c.retreat (c.offset - target)

theorem ahead_advance (n : Nat) (c : Cursor) : (c.advance n).ahead = c.ahead.drop n := by
  induction n generalizing c with
  | zero => simp [advance]
  | succ n ih =>
    rcases c with ⟨behind, _ | ⟨u, ahead⟩, offset, h⟩
    · simp [advance]
    · simp [advance, ih]

theorem text_advance (n : Nat) (c : Cursor) : (c.advance n).text = c.text := by
  induction n generalizing c with
  | zero => rfl
  | succ n ih =>
    rcases c with ⟨behind, _ | ⟨u, ahead⟩, offset, h⟩
    · rfl
    · simp only [advance]
      rw [ih]
      simp [text]

theorem text_retreat (n : Nat) (c : Cursor) : (c.retreat n).text = c.text := by
  induction n generalizing c with
  | zero => rfl
  | succ n ih =>
    rcases c with ⟨_ | ⟨u, behind⟩, ahead, offset, h⟩
    · rfl
    · simp only [retreat]
      rw [ih]
      simp [text]

end Cursor

end DocMarkup
