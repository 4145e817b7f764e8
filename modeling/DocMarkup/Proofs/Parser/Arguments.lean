import DocMarkup.Proofs.Parser.Standing

/-!
What a step reads.  A token is read by a scan, and a command reads its arguments itself, each from
where the scanner stands.  What every command reads is said here apart from what is made of it; the
scanner moves back for nothing but a size that is none, and an argument in quotes that is none.
-/

namespace DocMarkup.Parser

/-- The ways in which the text of a comment is read. -/
inductive Reader where
  | token
  /-- A token behind spaces and tabs. -/
  | word
  | argument
  | quoted
  | line
  | attached (opening closing : Char)
  | raw (markers : List Text)
  /-- The brace in front of the body of a formula, if it is there. -/
  | brace
  /-- An argument that sets a width or a height. -/
  | size
  deriving DecidableEq, Repr

/-- Whether an argument sets a width or a height. -/
def isSize (argument : Text) : Bool :=
  (Machine.sizeValue? "width" argument).isSome || (Machine.sizeValue? "height" argument).isSome

namespace Reader

/-- The argument that is read, if there is one, and the scanner behind it. -/
def read : Reader → Scanner → Option Text × Scanner
  | token, s => (none, s.scan)
  | word, s => (none, s.skipHorizontalSpace.scan)
  | argument, s => s.readArgument
  | quoted, s => s.readQuoted
  | line, s => (some s.readLine.1, s.readLine.2)
  | attached opening closing, s => s.readAttached [unit opening] [unit closing]
  | raw markers, s => (some (s.readRaw markers).1.text, (s.readRaw markers).2)
  | brace, s =>
    (none, if s.cursor.ahead.head? == some (unit '\x7b') then s.moveTo (s.offset + 1) else s)
  | size, s =>
    if s.readArgument.1.any isSize then s.readArgument
    else (none, s.readArgument.2.moveTo s.offset)

/-- Where what is read begins: spaces and tabs are passed over, and so are comments before a
token. -/
def start : Reader → Scanner → Nat
  | token, s => (Scanner.skipComments s.cursor).offset
  | word, s => (Scanner.skipComments s.skipHorizontalSpace.cursor).offset
  | argument, s | quoted, s | size, s => s.skipHorizontalSpace.offset
  | _, s => s.offset

/-- How far the scanner goes while it reads. -/
def stop : Reader → Scanner → Nat
  | quoted, s => max s.skipHorizontalSpace.offset s.readQuoted.2.offset
  | size, s => s.readArgument.2.offset
  | reader, s => (reader.read s).2.offset

/-- The token that is read, if it is one. -/
def token? : Reader → Scanner → Option Token
  | token, s => some s.scan.token
  | word, s => some s.skipHorizontalSpace.scan.token
  | _, _ => none

end Reader

/-- One piece of the text that was read: where the scanner stood before and after, where the piece
begins and how far the scanner went, and what was read. -/
structure Reading where
  reader : Reader
  before : Nat
  start : Nat
  stop : Nat
  after : Nat
  argument? : Option Text
  token? : Option Token
  deriving DecidableEq, Repr

namespace Reading

/-- What a reader reads where a scanner stands. -/
def of (reader : Reader) (s : Scanner) : Reading where
  reader := reader
  before := s.offset
  start := reader.start s
  stop := reader.stop s
  after := (reader.read s).2.offset
  argument? := (reader.read s).1
  token? := reader.token? s

/-- Whether the scanner stayed behind what was read. -/
def isKept (r : Reading) : Bool := r.stop == r.after

/-- A piece of the text is read forward.  Only a size or an argument in quotes that is none makes
the scanner go back, to where it stood before. -/
structure Proper (r : Reading) : Prop where
  begins : r.before ≤ r.start
  ends : r.start ≤ r.stop
  stands : r.after = r.stop ∨
    r.after = r.before ∧ (r.reader = .size ∨ r.reader = .quoted) ∧ r.argument? = none
  token : ∀ token, r.token? = some token → token.stop = r.stop ∧ r.after = r.stop

end Reading

/-! ### Readers -/

theorem skipHorizontalSpace_le (s : Scanner) : s.offset ≤ s.skipHorizontalSpace.offset :=
  s.advances_skipHorizontalSpace.offset

theorem offset_moveTo_before {s after : Scanner} (htext : after.text = s.text) :
    (after.moveTo s.offset).offset = s.offset := by
  have hle := s.offset_le
  rw [← htext] at hle
  exact Cursor.offset_moveTo hle

theorem skipComments_le_scan (s : Scanner) :
    (Scanner.skipComments s.cursor).offset ≤ s.scan.offset :=
  Cursor.offset_le_advance ..

theorem skipHorizontalSpace_le_readArgument (s : Scanner) :
    s.skipHorizontalSpace.offset ≤ s.readArgument.2.offset := by
  unfold Scanner.readArgument
  dsimp only
  split
  · exact le_rfl
  · exact Cursor.offset_le_advance ..

theorem readQuoted_cases (s : Scanner) :
    s.readQuoted = (none, s) ∨ s.skipHorizontalSpace.offset ≤ s.readQuoted.2.offset := by
  unfold Scanner.readQuoted
  dsimp only
  split
  · exact .inl rfl
  · split
    · exact .inr (Cursor.offset_le_advance ..)
    · exact .inl rfl

namespace Reading.Proper

variable {r : Reading}

/-- A token is kept. -/
theorem ofToken (hbegins : r.before ≤ r.start) (hends : r.start ≤ r.stop)
    (hstands : r.after = r.stop) {token : Token} (htoken : r.token? = some token)
    (hstop : token.stop = r.stop) : r.Proper := by
  refine ⟨hbegins, hends, .inl hstands, fun other hother => ?_⟩
  rw [htoken, Option.some.injEq] at hother
  exact hother ▸ ⟨hstop, hstands⟩

theorem ofArgument (hbegins : r.before ≤ r.start) (hends : r.start ≤ r.stop)
    (hstands : r.after = r.stop ∨
      r.after = r.before ∧ (r.reader = .size ∨ r.reader = .quoted) ∧ r.argument? = none)
    (htoken : r.token? = none) : r.Proper := by
  refine ⟨hbegins, hends, hstands, fun other hother => ?_⟩
  rw [htoken] at hother
  cases hother

end Reading.Proper

theorem read_size (s : Scanner) :
    Reader.size.read s = if s.readArgument.1.any isSize then s.readArgument
      else (none, s.readArgument.2.moveTo s.offset) := rfl

theorem offset_lt_of_head? {s : Scanner} {u : CodeUnit} (h : s.cursor.ahead.head? = some u) :
    s.offset < s.text.length := by
  have hahead := List.length_pos_of_mem (List.mem_of_mem_head? h)
  have hlength : s.offset + s.cursor.ahead.length = s.text.length :=
    s.cursor.offset_add_length_ahead
  omega

theorem le_read_brace (s : Scanner) : s.offset ≤ (Reader.brace.read s).2.offset := by
  unfold Reader.read
  dsimp only
  split
  · next hbrace =>
    have hlt := offset_lt_of_head? (beq_iff_eq.1 hbrace)
    exact (Scanner.advances_moveTo (Nat.le_succ _) hlt).offset
  · exact le_rfl

/-- Every reader reads forward. -/
theorem proper_of (reader : Reader) (s : Scanner) : (Reading.of reader s).Proper := by
  have hskip := skipHorizontalSpace_le s
  cases reader with
  | token =>
      exact .ofToken (Scanner.skipComments_spec s.cursor).2 (skipComments_le_scan s) rfl rfl rfl
  | word =>
      exact .ofToken (hskip.trans (Scanner.skipComments_spec _).2) (skipComments_le_scan _) rfl
        rfl rfl
  | argument => exact .ofArgument hskip (skipHorizontalSpace_le_readArgument s) (.inl rfl) rfl
  | quoted =>
      refine .ofArgument hskip (le_max_left ..) ?_ rfl
      rcases readQuoted_cases s with hnone | hsome
      · have hafter : (Reading.of .quoted s).after = s.offset :=
          congrArg (fun read => read.2.offset) hnone
        exact .inr ⟨hafter, .inr rfl, congrArg Prod.fst hnone⟩
      · exact .inl (max_eq_right hsome).symm
  | line => exact .ofArgument le_rfl s.advances_readLine.offset (.inl rfl) rfl
  | attached opening closing =>
      exact .ofArgument le_rfl (s.advances_readAttached ..).offset (.inl rfl) rfl
  | raw markers => exact .ofArgument le_rfl (s.advances_readRaw markers).offset (.inl rfl) rfl
  | brace =>
      have hstop : Reader.brace.stop s = (Reader.brace.read s).2.offset := by simp [Reader.stop]
      exact .ofArgument le_rfl ((le_read_brace s).trans hstop.ge) (.inl hstop.symm) rfl
  | size =>
      refine .ofArgument hskip (skipHorizontalSpace_le_readArgument s) ?_ rfl
      by_cases hsize : s.readArgument.1.any isSize
      case pos =>
        have hread : Reader.size.read s = s.readArgument := by rw [read_size, if_pos hsize]
        exact .inl (congrArg (fun read => read.2.offset) hread)
      case neg =>
        have hread : Reader.size.read s = (none, s.readArgument.2.moveTo s.offset) := by
          rw [read_size, if_neg hsize]
        have hafter : (Reading.of .size s).after = s.offset :=
          (congrArg (fun read => read.2.offset) hread).trans
            (offset_moveTo_before s.advances_readArgument.text)
        exact .inr ⟨hafter, .inl rfl, congrArg Prod.fst hread⟩

/-! ### What is read in turn -/

/-- What is read one after the other: nothing more, an argument on which depends what is read next,
or arguments as long as there are any and more are wanted. -/
inductive Arguments where
  | done
  | read (reader : Reader) (next : Option Text → Arguments)
  | many (reader : Reader) (more : Text → Bool)

namespace Arguments

def one (reader : Reader) : Arguments := .read reader fun _ => .done

/-- Arguments that are read whether there are any or not. -/
def all : List Reader → Arguments
  | [] => .done
  | reader :: rest => .read reader fun _ => all rest

/-- Arguments of one kind, as many as there are and are wanted. -/
def readMany (reader : Reader) (more : Text → Bool) : Nat → Scanner → List Reading × Scanner
  | 0, s => ([], s)
  | n + 1, s =>
    let (argument?, after) := reader.read s
    if argument?.any more then
      let (readings, last) := readMany reader more n after
      (Reading.of reader s :: readings, last)
    else ([Reading.of reader s], after)

/-- The pieces of the text that are read, and the scanner behind them.  An argument that is there
takes a unit at least, so the units ahead bound the number of arguments. -/
def run : Arguments → Scanner → List Reading × Scanner
  | done, s => ([], s)
  | read reader next, s =>
    let (argument?, after) := reader.read s
    let (readings, last) := (next argument?).run after
    (Reading.of reader s :: readings, last)
  | many reader more, s => readMany reader more (s.cursor.ahead.length + 1) s

end Arguments

/-! ### Chains -/

/-- Pieces that follow each other: the first begins at a place, and the scanner goes from each to
the next. -/
inductive Chain : Nat → List Reading → Nat → Prop
  | nil {place : Nat} : Chain place [] place
  | cons {r : Reading} {rest : List Reading} {last : Nat} (hproper : r.Proper)
      (hrest : Chain r.after rest last) : Chain r.before (r :: rest) last

namespace Chain

variable {first middle last : Nat} {readings more : List Reading}

theorem append (h : Chain first readings middle) (hmore : Chain middle more last) :
    Chain first (readings ++ more) last := by
  induction h with
  | nil => exact hmore
  | cons hproper _ ih => exact .cons hproper (ih hmore)

theorem proper (h : Chain first readings last) : ∀ r ∈ readings, r.Proper := by
  induction h with
  | nil => exact List.forall_mem_nil _
  | cons hproper _ ih => exact List.forall_mem_cons.2 ⟨hproper, ih⟩

theorem eq_of_nil (h : Chain first [] last) : first = last := by
  cases h
  rfl

/-- The last piece leads to the last place. -/
theorem after_last (h : Chain first readings last) {r : Reading}
    (hr : readings.getLast? = some r) : r.after = last := by
  induction h with
  | nil => cases hr
  | @cons head rest last hproper hrest ih =>
      cases rest with
      | nil =>
          cases hr
          exact hrest.eq_of_nil
      | cons next rest =>
          rw [List.getLast?_cons_cons] at hr
          exact ih hr

/-- No piece begins before the first place. -/
theorem first_le (h : Chain first readings last) :
    ∀ r ∈ readings, first ≤ r.before ∧ first ≤ r.start ∧ first ≤ r.after := by
  induction h with
  | nil => exact List.forall_mem_nil _
  | @cons r rest last hproper hrest ih =>
      have hbegins := hproper.begins
      have hends := hproper.ends
      have hle : r.before ≤ r.after := by
        rcases hproper.stands with hafter | ⟨hafter, -⟩ <;> omega
      refine List.forall_mem_cons.2 ⟨⟨le_rfl, hbegins, hle⟩, fun other hother => ?_⟩
      obtain ⟨hbefore, hstart, hafter⟩ := ih other hother
      omega

/-- Pieces that are kept do not overlap, and stand in the order in which they are read. -/
theorem kept_pairwise (h : Chain first readings last) :
    (readings.filter Reading.isKept).Pairwise fun a b => a.stop ≤ b.start := by
  induction h with
  | nil => exact .nil
  | @cons r rest last hproper hrest ih =>
      cases hkept : r.isKept with
      | false => rwa [List.filter_cons_of_neg (by simp [hkept])]
      | true =>
          rw [List.filter_cons_of_pos hkept]
          refine .cons (fun other hother => ?_) ih
          have hstop : r.stop = r.after := beq_iff_eq.1 hkept
          rw [hstop]
          exact (hrest.first_le other (List.mem_filter.1 hother).1).2.1

end Chain

theorem chain_readMany (reader : Reader) (more : Text → Bool) (n : Nat) (s : Scanner) :
    Chain s.offset (Arguments.readMany reader more n s).1
      (Arguments.readMany reader more n s).2.offset := by
  induction n generalizing s with
  | zero => exact .nil
  | succ n ih =>
      rw [Arguments.readMany]
      dsimp only
      split
      · exact .cons (proper_of reader s) (ih _)
      · exact .cons (proper_of reader s) .nil

theorem chain_run (arguments : Arguments) (s : Scanner) :
    Chain s.offset (arguments.run s).1 (arguments.run s).2.offset := by
  induction arguments generalizing s with
  | done => exact .nil
  | read reader next ih => exact .cons (proper_of reader s) (ih _ _)
  | many reader more => exact chain_readMany ..

end DocMarkup.Parser
