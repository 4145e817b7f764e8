import DocMarkup.Proofs.Parser.Arguments

/-!
What the steps of a parse read.  A table says which arguments each command reads; every step leaves
the scanner behind what the table says, and a step that reads nothing leaves it where it stood.
-/

namespace DocMarkup

/-- Where a scanner stands, and the token behind which it does. -/
def Scanner.place (s : Scanner) : Cursor × Token := (s.cursor, s.last)

namespace Parser

/-! ### The arguments of commands -/

namespace Arguments

/-- Names, of which a comma at the end of an argument announces more. -/
def names : Arguments := .many .argument (Text.endsWith (units ","))

/-- A caption in quotes and any number of sizes. -/
def captionAndSizes : Arguments := .read .quoted fun _ => .many .size fun _ => true

/-- What a command reads, by its name and what it does.  Commands that are not listed read
nothing. -/
@[simp] def ofCommand (name : Text) : Command → Arguments
  | .word _ => .one .word
  | .simpleSection type => if type == .user then .one .line else .done
  | .paramSection type =>
    if type == .param then .read (.attached '[' ']') fun _ => names else names
  | .xrefItem => if name == units "xrefitem" then .all [.argument, .quoted, .quoted] else .done
  | .verbatim .code ending => .all [.attached '\x7b' '\x7d', .raw (Command.markers ending)]
  | .verbatim .htmlOnly ending => .all [.attached '[' ']', .raw (Command.markers ending)]
  | .verbatim _ ending => .one (.raw (Command.markers ending))
  | .inclusion .snippet =>
    .read .argument fun file? => if file?.isSome then .one .argument else .done
  | .inclusion _ => .one .argument
  | .includeStep _ | .indexEntry => .one .line
  | .diagramFile _ => .read .argument fun file? => if file?.isSome then captionAndSizes else .done
  | .anchor | .link | .citation | .copy .. => .one .argument
  | .reference _ | .internalReference =>
    .read .argument fun target? => if target?.isSome then .one .quoted else .done
  | .image =>
    .read .argument fun format? =>
      match format? with
      | none => .done
      | some format =>
        .read .argument fun file? =>
          if file?.isSome && (Command.imageType? (Text.toLower format)).isSome then captionAndSizes
          else .done
  | .formula =>
    if name == units "f$" then .one (.raw (Command.markers (units "f$")))
    else if name == units "f[" then .one (.raw (Command.markers (units "f]")))
    else .all [.raw [units "\x7d"], .brace, .raw (Command.markers (units "f\x7d"))]
  | _ => .done

/-- A label, and a title if there is one. -/
def sectionHeading : Arguments :=
  .read .argument fun label? => if label?.isSome then .one .line else .done

end Arguments

namespace Machine

/-- What is read with a command that a paragraph takes.  A command that belongs to a construct
further out goes back there, and nothing is read. -/
def commandReads (m : Machine) (token : Token) : Arguments :=
  let command := Command.ofName token.value
  let isBack :=
    match command with
    | .simpleSection _ | .paramSection _ | .xrefItem => m.insideSection
    | _ => false
  if isBack then .done else .ofCommand token.value command

/-- What is read with a token that inline text takes. -/
def inlineReads (construct : Construct) (token : Token) : Arguments :=
  if endsInline construct token || token.kind != .command then .done
  else
    match Command.ofName token.value with
    | .word _ => .one .word
    | _ => .done

/-- What is read when the innermost construct takes a token. -/
def tokenReads (m : Machine) (token : Token) : Arguments :=
  match m.stack with
  | [] => .done
  | frame :: _ =>
    match frame.construct with
    | .root _ => if (sectionLevel? token).isSome then .sectionHeading else .done
    | .sect sect =>
      if (sectionLevel? token).any (sect.level < ·) then .sectionHeading else .done
    | .paragraph .. => if token.kind == .command then m.commandReads token else .done
    | .refList _ => if token.isCommand ["refitem"] then .all [.argument, .line] else .done
    | .descTitle _ | .caption .. | .header .. | .hyperlink .. | .link .. =>
      inlineReads frame.construct token
    | _ => .done

/-- What a step reads. -/
def reads (m : Machine) : Arguments :=
  match m.phase with
  | .read | .readSolid | .readWord _ => .one .token
  | .take token => m.tokenReads token
  | .ended _ | .finished => .done

/-- The pieces of the text that a step reads. -/
def readings (m : Machine) : List Reading := (m.reads.run m.scanner).1

/-! ### Places behind arguments -/

variable (m : Machine)

@[simp] theorem place_resolve (target : Text) : (m.resolve target).2.place = m.place :=
  place_of_scanner (scanner_resolve ..)

theorem place_next : m.next.2.place = m.scanner.scan.place :=
  congrArg Scanner.place m.scanner_next

@[simp] theorem place_includedText (token : Token) (file block : Text) :
    (m.includedText token file block).2.place = m.place := by
  unfold includedText
  split
  · rfl
  · split
    · rfl
    · split <;> rfl

@[simp] theorem place_publishedName (token : Token) (file format : Text) :
    (m.publishedName token file format).2.place = m.place := by
  unfold publishedName
  split
  · rfl
  · split <;> rfl

@[simp] theorem place_paramName (name : Text) (linkable : Bool) :
    (m.paramName name linkable).2.place = m.place := by
  unfold paramName
  split
  · rfl
  · have hresolve := m.place_resolve name
    generalize m.resolve name = found at hresolve
    obtain ⟨_ | target, m'⟩ := found <;> exact hresolve

@[simp] theorem place_paramNames (linkable : Bool) (written : List Text) :
    (paramNames linkable written m).2.place = m.place := by
  induction written generalizing m with
  | nil => rfl
  | cons name rest ih => exact (ih _).trans (place_paramName ..)

@[simp] theorem place_parameters (type : ParamSectionType) (written : List Text) :
    (parameters type written m).2.place = m.place := by
  induction written generalizing m with
  | nil => rfl
  | cons name rest ih => exact (ih _).trans ((place_paramName ..).trans (place_paramNames ..))

theorem scanner_moveTo {offset : Nat} (h : offset ≤ m.scanner.text.length) :
    (m.moveTo offset).scanner = m.scanner.moveTo offset := by
  unfold moveTo
  rw [Scanner.moveTo?_of_le h]

theorem readArgument_of_atEnd {s : Scanner} (h : s.cursor.ahead = []) :
    s.readArgument = (none, s) := by
  simp [Scanner.readArgument, Scanner.skipHorizontalSpace, Cursor.advanceWhile, h, Cursor.advance]

theorem length_ahead_readArgument {s : Scanner} {argument : Text}
    (h : s.readArgument.1 = some argument) :
    s.readArgument.2.cursor.ahead.length < s.cursor.ahead.length := by
  have hoffset : s.cursor.offset < s.readArgument.2.cursor.offset := Scanner.offset_readArgument h
  have htext : s.readArgument.2.cursor.text = s.cursor.text := s.advances_readArgument.text
  have hbefore := s.cursor.offset_add_length_ahead
  have hafter := s.readArgument.2.cursor.offset_add_length_ahead
  rw [htext] at hafter
  omega

/-- The machine behind what is read. -/
def past (reader : Reader) : Machine := { m with scanner := (reader.read m.scanner).2 }

theorem argument_eq : m.argument = ((Reader.argument.read m.scanner).1, m.past .argument) := rfl

theorem quoted_eq : m.quoted = ((Reader.quoted.read m.scanner).1, m.past .quoted) := rfl

theorem restOfLine_eq : m.restOfLine = (m.scanner.readLine.1, m.past .line) := rfl

theorem attached_eq (opening closing : Char) :
    m.attached opening closing =
      (((Reader.attached opening closing).read m.scanner).1, m.past (.attached opening closing)) :=
  rfl

theorem raw_eq (markers : List Text) :
    m.raw markers = ((m.scanner.readRaw markers).1, m.past (.raw markers)) := rfl

theorem readMany_succ (reader : Reader) (more : Text → Bool) (n : Nat) (s : Scanner) :
    (Arguments.readMany reader more (n + 1) s).2 =
      if (reader.read s).1.any more then (Arguments.readMany reader more n (reader.read s).2).2
      else (reader.read s).2 := by
  rw [Arguments.readMany]
  dsimp only
  split <;> rfl

/-- However many names are allowed, the same are read, as long as the units ahead allow no more. -/
theorem place_names (n k : Nat) (hn : m.scanner.cursor.ahead.length ≤ n)
    (hk : m.scanner.cursor.ahead.length < k) :
    (names n m).2.place =
      (Arguments.readMany .argument (Text.endsWith (units ",")) k m.scanner).2.place := by
  induction n generalizing m k with
  | zero =>
      have hend := readArgument_of_atEnd (List.length_eq_zero_iff.1 (Nat.le_zero.1 hn))
      obtain ⟨k, rfl⟩ := Nat.exists_eq_add_one_of_ne_zero (Nat.ne_zero_of_lt hk)
      rw [readMany_succ, Reader.read, hend]
      rfl
  | succ n ih =>
      obtain ⟨k, rfl⟩ := Nat.exists_eq_add_one_of_ne_zero (Nat.ne_zero_of_lt hk)
      rw [names, argument_eq, readMany_succ]
      cases hread : (Reader.argument.read m.scanner).1 with
      | none => rfl
      | some argument =>
          have hless := length_ahead_readArgument hread
          rw [Option.any_some]
          dsimp only
          split
          · exact ih (m.past .argument) k (Nat.le_of_lt_succ (hless.trans_le hn))
              (hless.trans_le (Nat.le_of_lt_succ hk))
          · rfl

/-- A size is taken up, and reading goes on behind it. -/
theorem sizes_of_isSize {argument : Text}
    (hread : (Reader.argument.read m.scanner).1 = some argument) (hsize : isSize argument) (n : Nat)
    (size : Text × Text) :
    ∃ size', sizes (n + 1) size m = sizes n size' (m.past .argument) := by
  rw [sizes, argument_eq, hread]
  dsimp only
  unfold isSize at hsize
  cases hwidth : sizeValue? "width" argument with
  | some width => exact ⟨_, rfl⟩
  | none =>
      cases hheight : sizeValue? "height" argument with
      | some height => exact ⟨_, rfl⟩
      | none => simp [hwidth, hheight] at hsize

/-- Without a size the scanner goes back. -/
theorem sizes_of_not_isSize (hsize : (Reader.argument.read m.scanner).1.any isSize = false)
    (n : Nat) (size : Text × Text) :
    sizes (n + 1) size m = (size, (m.past .argument).moveTo m.scanner.offset) := by
  rw [sizes, argument_eq]
  cases hread : (Reader.argument.read m.scanner).1 with
  | none => rfl
  | some argument =>
      rw [hread, Option.any_some, isSize, Bool.or_eq_false_iff, Option.isSome_eq_false_iff,
        Option.isSome_eq_false_iff, Option.isNone_iff_eq_none, Option.isNone_iff_eq_none] at hsize
      dsimp only
      rw [hsize.1, hsize.2]

/-- However many sizes are allowed, the same are read. -/
theorem place_sizes (n k : Nat) (size : Text × Text) (hn : m.scanner.cursor.ahead.length < n)
    (hk : m.scanner.cursor.ahead.length < k) :
    (sizes n size m).2.place = (Arguments.readMany .size (fun _ => true) k m.scanner).2.place := by
  induction n generalizing m k size with
  | zero => exact absurd hn (Nat.not_lt_zero _)
  | succ n ih =>
      obtain ⟨k, rfl⟩ := Nat.exists_eq_add_one_of_ne_zero (Nat.ne_zero_of_lt hk)
      rw [readMany_succ, read_size]
      cases hsize : m.scanner.readArgument.1.any isSize with
      | true =>
          obtain ⟨argument, hread, hargument⟩ := (Option.any_eq_true ..).1 hsize
          obtain ⟨size', hsizes⟩ := m.sizes_of_isSize hread hargument n size
          have hless := length_ahead_readArgument hread
          rw [hsizes, if_pos rfl, hread, Option.any_some, if_pos rfl]
          exact ih (m.past .argument) k size' (hless.trans_le (Nat.le_of_lt_succ hn))
            (hless.trans_le (Nat.le_of_lt_succ hk))
      | false =>
          rw [sizes_of_not_isSize m hsize, if_neg nofun]
          refine congrArg Scanner.place (scanner_moveTo _ ?_)
          show m.scanner.offset ≤ m.scanner.readArgument.2.text.length
          rw [m.scanner.advances_readArgument.text]
          exact m.scanner.offset_le

/-! ### Handlers that read -/

/-- Behind what is read in turn. -/
def behind (arguments : Arguments) : Cursor × Token := (arguments.run m.scanner).2.place

theorem behind_done : m.behind .done = m.place := rfl

theorem behind_read (reader : Reader) (next : Option Text → Arguments) :
    m.behind (.read reader next) =
      (m.past reader).behind (next (reader.read m.scanner).1) := rfl

theorem behind_all (reader : Reader) (rest : List Reader) :
    m.behind (.all (reader :: rest)) = (m.past reader).behind (.all rest) := rfl

theorem behind_one (reader : Reader) : m.behind (.one reader) = (m.past reader).place := rfl

variable {m} in
theorem behind_of_scanner {m' : Machine} (h : m'.scanner = m.scanner) (arguments : Arguments) :
    m'.behind arguments = m.behind arguments := by
  rw [behind, behind, h]

theorem place_allNames : (names m.scanner.cursor.ahead.length m).2.place = m.behind .names :=
  place_names _ _ _ le_rfl (Nat.lt_succ_self _)

variable {m} in
theorem place_unless {α : Type} (c : Prop) [Decidable c] (a : α) {made : α × Machine}
    (h : made.2.place = m.place) : (if c then (a, m) else made).2.place = m.place := by
  split
  · rfl
  · exact h

theorem place_captionAndSize : m.captionAndSize.2.2.place = m.behind .captionAndSizes := by
  rw [captionAndSize, quoted_eq, Arguments.captionAndSizes, behind_read]
  exact place_sizes (m.past .quoted) _ _ _ (Nat.lt_succ_self _) (Nat.lt_succ_self _)

theorem place_openSection (token : Token) (level : Nat) :
    (m.openSection token level).place = m.behind .sectionHeading := by
  unfold openSection
  rw [argument_eq, Arguments.sectionHeading, behind_read]
  cases (Reader.argument.read m.scanner).1 <;> rfl

theorem place_sectionTitle (token : Token) (type : SimpleSectionType) :
    (m.sectionTitle type).2.place = m.behind (.ofCommand token.value (.simpleSection type)) := by
  rw [sectionTitle, bne, Arguments.ofCommand]
  cases type == SimpleSectionType.user with
  | false => rfl
  | true =>
      simp only [Bool.not_true, Bool.false_eq_true, if_false, if_true]
      exact place_unless _ _ (place_plain ..)

theorem place_simpleSection (hm : m.insideSection = false) (token : Token)
    (type : SimpleSectionType) :
    (m.simpleSection token type).place =
      m.behind (.ofCommand token.value (.simpleSection type)) := by
  rw [← place_sectionTitle, simpleSection, if_neg (by simp [hm])]
  dsimp only
  split
  · simp
  · rfl

/-- Names are read from where the direction ends. -/
theorem behind_direction (token : Token) (type : ParamSectionType) :
    (m.direction token type).2.behind .names =
      m.behind (.ofCommand token.value (.paramSection type)) := by
  rw [direction, bne, Arguments.ofCommand, attached_eq]
  cases type == ParamSectionType.param with
  | false => rfl
  | true =>
      simp only [Bool.not_true, Bool.false_eq_true, if_false, if_true]
      rw [behind_read]
      cases ((Reader.attached '[' ']').read m.scanner).1 with
      | none => rfl
      | some option =>
          dsimp only
          split <;> rfl

theorem place_paramSection (hm : m.insideSection = false) (token : Token)
    (type : ParamSectionType) :
    (m.paramSection token type).place =
      m.behind (.ofCommand token.value (.paramSection type)) := by
  rw [← behind_direction, paramSection, if_neg (by simp [hm])]
  dsimp only
  generalize (m.direction token type).2 = directed
  have hkept : (if (directed.parametersBefore? type).isSome then
      directed.setChildren directed.children.tail else directed).scanner = directed.scanner := by
    split
    · exact scanner_modifyTop ..
    · rfl
  rw [← behind_of_scanner hkept]
  rw [place_read, place_push, place_setChildren, place_push, place_parameters, ← place_allNames,
    apply_ite place, place_report, ite_self]

theorem place_itemKey (token : Token) :
    (m.itemKey token).2.2.place = m.behind (.ofCommand token.value .xrefItem) := by
  rw [itemKey, bne, Arguments.ofCommand]
  cases token.value == units "xrefitem" with
  | false => rfl
  | true =>
      simp only [Bool.not_true, Bool.false_eq_true, if_false, if_true]
      rw [apply_ite place, place_report, ite_self, argument_eq, quoted_eq, quoted_eq, behind_all,
        behind_all, behind_all]
      dsimp only
      rw [Arguments.all, behind_done]

theorem place_xrefItem (hm : m.insideSection = false) (token : Token) :
    (m.xrefItem token).place = m.behind (.ofCommand token.value .xrefItem) := by
  rw [← place_itemKey, xrefItem, if_neg (by simp [hm])]
  rfl

theorem place_verbatim (token : Token) (type : VerbatimType) (ending : Text) :
    (m.verbatim token type ending).place =
      m.behind (.ofCommand token.value (.verbatim type ending)) := by
  unfold verbatim
  dsimp only
  rw [place_read, place_append, apply_ite place, place_report, ite_self]
  cases type <;> rfl

/-- The brace in front of the body of a formula is passed over. -/
theorem scanner_pastBrace :
    (if m.scanner.cursor.ahead.head? == some (unit '\x7b') then m.moveTo (m.scanner.offset + 1)
      else m).scanner = (m.past .brace).scanner := by
  rw [past, Reader.read]
  dsimp only
  split
  · next hbrace => exact m.scanner_moveTo (offset_lt_of_head? (beq_iff_eq.1 hbrace))
  · rfl

theorem place_formulaText (token : Token) :
    (m.formulaText token).2.2.place = m.behind (.ofCommand token.value .formula) := by
  rw [formulaText, Arguments.ofCommand]
  simp only [raw_eq]
  split
  · rfl
  · split
    · rfl
    · exact behind_of_scanner (scanner_pastBrace (m.past (.raw [units "\x7d"])))
        (.one (.raw (Command.markers (units "f\x7d"))))

theorem place_formula (token : Token) :
    (m.formula token).place = m.behind (.ofCommand token.value .formula) := by
  rw [← place_formulaText, formula]
  dsimp only
  rw [place_read, place_append]
  split <;> rfl

theorem place_inclusion (token : Token) (type : IncludeType) :
    (m.inclusion token type).place = m.behind (.ofCommand token.value (.inclusion type)) := by
  have hhidden (m' : Machine) (text : Text) :
      (if type == .hidden then { m' with included := some { text } } else m').place = m'.place := by
    rw [apply_ite place]
    exact ite_self _
  have hmissing (m' : Machine) (c : Prop) [Decidable c] (file : Text) :
      (if c then m'.report token (.missingBlockName file) else m').place = m'.place := by
    rw [apply_ite place, place_report, ite_self]
  rw [inclusion, argument_eq]
  cases hread : (Reader.argument.read m.scanner).1 with
  | none =>
      cases type with
      | snippet =>
          rw [Arguments.ofCommand, behind_read, hread]
          rfl
      | _ => rfl
  | some file =>
      dsimp only
      rw [place_read, place_append, hhidden, place_includedText, hmissing]
      cases type with
      | snippet =>
          rw [Arguments.ofCommand, behind_read, hread]
          rfl
      | _ => rfl

theorem place_includeStep (token : Token) (operator : IncludeOperator) :
    (m.includeStep token operator).place =
      m.behind (.ofCommand token.value (.includeStep operator)) := by
  unfold includeStep
  dsimp only
  rw [place_read, place_append, place_setChildren]
  split
  · exact (apply_ite place ..).trans (ite_self _)
  · exact (apply_ite place ..).trans (ite_self _)

theorem place_diagramFile (token : Token) (type : DiagramType) :
    (m.diagramFile token type).place = m.behind (.ofCommand token.value (.diagramFile type)) := by
  rw [diagramFile, argument_eq, Arguments.ofCommand, behind_read]
  cases (Reader.argument.read m.scanner).1 with
  | none => rfl
  | some file =>
      rw [Option.isSome_some, if_pos rfl, ← place_captionAndSize]
      dsimp only
      rw [place_read, place_append, place_unless _ _ (place_plain ..)]

theorem place_image (token : Token) :
    (m.image token).place = m.behind (.ofCommand token.value .image) := by
  rw [image, argument_eq, Arguments.ofCommand, behind_read]
  cases (Reader.argument.read m.scanner).1 with
  | none => rfl
  | some format =>
      dsimp only
      rw [Option.isSome_some, if_pos rfl, argument_eq, behind_read]
      cases (Reader.argument.read (m.past .argument).scanner).1 with
      | none => rfl
      | some file =>
          dsimp only
          cases Command.imageType? (Text.toLower format) with
          | none => rfl
          | some type =>
              simp only [Option.isSome_some, Bool.and_self, if_true]
              rw [← place_captionAndSize, place_read, place_append]
              rw [place_unless _ _ (place_plain ..), place_unless _ _ (place_publishedName ..)]

theorem place_reference (token : Token) (isSubPage : Bool) :
    (m.reference token isSubPage).place =
      m.behind (.ofCommand token.value (.reference isSubPage)) := by
  rw [reference, argument_eq, Arguments.ofCommand, behind_read]
  cases (Reader.argument.read m.scanner).1 with
  | none => rfl
  | some target =>
      rw [Option.isSome_some, if_pos rfl, behind_one]
      dsimp only
      rw [quoted_eq]
      dsimp only
      generalize (m.past .argument).past .quoted = past
      have hresolve := past.place_resolve target
      generalize past.resolve target = found at hresolve
      obtain ⟨_ | found, m'⟩ := found
      · simpa using hresolve
      · dsimp only
        rw [place_read, place_append, ← hresolve]
        split
        · exact place_plain ..
        · rfl

theorem place_link (token : Token) :
    (m.link token).place = m.behind (.ofCommand token.value .link) := by
  rw [link, argument_eq, Arguments.ofCommand, behind_one]
  cases (Reader.argument.read m.scanner).1 with
  | none => rfl
  | some target => exact place_resolve ..

theorem place_citation (token : Token) :
    (m.citation token).place = m.behind (.ofCommand token.value .citation) := by
  rw [citation, argument_eq, Arguments.ofCommand, behind_one]
  cases (Reader.argument.read m.scanner).1 with
  | none => rfl
  | some label =>
      dsimp only
      rw [place_read, place_append]
      split <;> rfl

theorem place_internalReference (token : Token) :
    (m.internalReference token).place = m.behind (.ofCommand token.value .internalReference) := by
  rw [internalReference, argument_eq, Arguments.ofCommand, behind_read]
  cases (Reader.argument.read m.scanner).1 with
  | none => rfl
  | some target =>
      dsimp only
      rw [place_read, place_append, place_plain]
      rfl

theorem place_copy (token : Token) (brief details : Bool) :
    (m.copy token brief details).place =
      m.behind (.ofCommand token.value (.copy brief details)) := by
  rw [copy, argument_eq, Arguments.ofCommand, behind_one]
  cases (Reader.argument.read m.scanner).1 with
  | none => rfl
  | some target => exact place_append ..

theorem place_anchor (token : Token) :
    (m.anchor token).place = m.behind (.ofCommand token.value .anchor) := by
  rw [anchor, argument_eq, Arguments.ofCommand, behind_one]
  cases (Reader.argument.read m.scanner).1 with
  | none => rfl
  | some name => exact place_append ..

theorem place_indexEntry (token : Token) :
    m.indexEntry.place = m.behind (.ofCommand token.value .indexEntry) := by
  unfold indexEntry
  dsimp only
  split
  · rfl
  · exact place_append ..

theorem place_styledWord (token : Token) (style : Style) :
    (m.styledWord token style).place = m.behind (.ofCommand token.value (.word style)) := by
  have hnext : ({ m with scanner := m.scanner.skipHorizontalSpace } : Machine).next.2.place =
      (m.past .word).place := place_next _
  rw [Arguments.ofCommand, behind_one, ← hnext, styledWord]
  dsimp only
  split
  · exact (place_addInWord ..).trans (place_changeStyle ..)
  · rfl

theorem place_refItem (token : Token) :
    (m.refItem token).place = m.behind (.all [.argument, .line]) := by
  rw [refItem, argument_eq, behind_all, behind_all]
  cases (Reader.argument.read m.scanner).1 with
  | none => rfl
  | some target =>
      dsimp only
      rw [restOfLine_eq]
      dsimp only
      rw [apply_ite place, place_report, ite_self, place_append, place_plain, place_resolve]
      rfl

/-! ### Steps -/

/-- A command that may belong to a section further out reads only where it does not. -/
theorem place_unlessBack (token : Token) (command : Command) {handled : Machine}
    (hback : m.insideSection → handled = m.closeParagraph (.handBack token))
    (htaken : m.insideSection = false → handled.place = m.behind (.ofCommand token.value command)) :
    handled.place =
      m.behind (if m.insideSection then .done else .ofCommand token.value command) := by
  cases hinside : m.insideSection with
  | true => rw [hback hinside, if_pos rfl, place_closeParagraph, behind_done]
  | false => exact htaken hinside

theorem place_command (token : Token) :
    (m.command token).place = m.behind (m.commandReads token) := by
  have hrecord (arguments : Arguments) :
      (m.record (.entered token.value)).behind arguments = m.behind arguments := rfl
  have hreads : m.commandReads token = (m.record (.entered token.value)).commandReads token := rfl
  rw [hreads, ← hrecord, command]
  generalize m.record (.entered token.value) = m
  unfold commandReads
  dsimp only
  cases Command.ofName token.value with
  | word style => exact place_styledWord ..
  | sect level => exact place_closeParagraph ..
  | simpleSection type =>
      exact m.place_unlessBack token _ (fun h => if_pos h) fun h =>
        m.place_simpleSection h token type
  | paramSection type =>
      exact m.place_unlessBack token _ (fun h => if_pos h) fun h =>
        m.place_paramSection h token type
  | xrefItem =>
      exact m.place_unlessBack token _ (fun h => if_pos h) fun h => m.place_xrefItem h token
  | verbatim type ending => exact place_verbatim ..
  | inclusion type => exact place_inclusion ..
  | includeStep operator => exact place_includeStep ..
  | diagramFile type => exact place_diagramFile ..
  | lineBreak => exact place_append ..
  | sourceBreak => exact place_append ..
  | anchor => exact place_anchor ..
  | indexEntry => exact m.place_indexEntry token
  | listItem =>
      show (m.simpleList token).place = m.place
      unfold simpleList
      split <;> simp
  | internal =>
      show (m.internal token).place = m.place
      unfold internal
      split <;> simp
  | endInternal =>
      dsimp only
      split
      · exact place_closeParagraph ..
      · rfl
  | parBlock => rfl
  | endParBlock =>
      dsimp only
      split
      · exact place_closeParagraph ..
      · rfl
  | refList => rfl
  | reference isSubPage => exact place_reference ..
  | link => exact place_link ..
  | citation => exact place_citation ..
  | internalReference => exact place_internalReference ..
  | copy brief details => exact place_copy ..
  | image => exact place_image ..
  | formula =>
      dsimp only
      rw [if_neg nofun]
      exact place_formula ..
  | ignored => rfl
  | unmatched => rfl
  | unknown => exact place_append ..

theorem place_takeInParagraph (token : Token) :
    (m.takeInParagraph token).place =
      m.behind (if token.kind == .command then m.commandReads token else .done) := by
  unfold takeInParagraph
  cases token.kind with
  | command => exact place_command ..
  | whiteSpace =>
      show _ = m.place
      dsimp only
      split_ifs <;> simp
  | endList =>
      show _ = m.place
      dsimp only
      split_ifs <;> simp
  | endOfText | word | newParagraph | listItem | symbol | url | startTag | endTag | keyword
  | unknown => simp [behind_done]

theorem place_takeInRefList (opener token : Token) :
    (m.takeInRefList opener token).place =
      m.behind (if token.isCommand ["refitem"] then .all [.argument, .line] else .done) := by
  unfold takeInRefList
  split
  · exact place_refItem ..
  · split_ifs <;> simp [behind_done]

theorem place_takeInline (construct : Construct) (token : Token) :
    (m.takeInline construct token).place =
      m.behind (inlineReads construct token) := by
  unfold takeInline inlineReads
  cases endsInline construct token with
  | true => exact place_closeInline ..
  | false =>
    rw [if_neg nofun, Bool.false_or]
    cases token.kind with
    | command =>
        show _ = m.behind (match Command.ofName token.value with
          | .word _ => .one .word
          | _ => .done)
        cases Command.ofName token.value with
        | word style => exact place_styledWord ..
        | lineBreak => exact place_append ..
        | _ => exact place_closeInline ..
    | whiteSpace =>
        show _ = m.place
        dsimp only
        split <;> simp
    | startTag | endTag =>
        show _ = m.place
        dsimp only
        split
        · simp
        · split <;> simp
    | endOfText | word | newParagraph | listItem | endList | symbol | url | keyword | unknown =>
        simp [behind_done]

/-- Taking a token reads what is said of it. -/
theorem place_dispatch (token : Token) :
    (m.dispatch token).place = m.behind (m.tokenReads token) := by
  unfold dispatch tokenReads
  cases hstack : m.stack with
  | nil => rfl
  | cons frame outer =>
      dsimp only
      cases frame.construct <;> dsimp only
      case root =>
        cases sectionLevel? token with
        | some level =>
            refine (place_openSection ..).trans (behind_of_scanner ?_ _)
            split <;> rfl
        | none => exact place_openParagraph ..
      case sect sect =>
        cases sectionLevel? token with
        | some level =>
            dsimp only
            rw [Option.any_some]
            split
            · next hle =>
              rw [decide_eq_false (Nat.not_lt.2 hle)]
              exact place_close ..
            · next hlt =>
              rw [decide_eq_true (Nat.not_le.1 hlt)]
              exact place_openSection ..
        | none => exact place_openParagraph ..
      case paragraph => exact place_takeInParagraph ..
      case refList opener => exact place_takeInRefList ..
      case list => exact place_takeInList ..
      case descList => exact place_takeInDescList ..
      case table => exact place_takeInTable ..
      case row => exact place_takeInRow ..
      case descTitle => exact place_takeInline ..
      case caption => exact place_takeInline ..
      case header => exact place_takeInline ..
      case hyperlink => exact place_takeInline ..
      case link => exact place_takeInline ..
      all_goals exact place_openParagraph ..

theorem place_continueWord (style : Style) :
    (m.continueWord style).place = m.behind (.one .token) := by
  rw [behind_one]
  show _ = m.scanner.scan.place
  rw [← place_next, continueWord]
  dsimp only
  split
  · exact place_addInWord ..
  · exact (place_take ..).trans (place_changeStyle ..)

/-- Every step reads what is said of it. -/
theorem place_step : m.step.place = m.behind m.reads := by
  unfold step reads
  cases m.phase with
  | read => exact place_next _
  | readSolid =>
      rw [behind_one]
      show _ = m.scanner.scan.place
      rw [← place_next]
      dsimp only
      split <;> rfl
  | readWord style => exact place_continueWord ..
  | take token => exact place_dispatch ..
  | ended outcome => exact place_resume ..
  | finished => rfl

end Machine

end Parser

end DocMarkup
