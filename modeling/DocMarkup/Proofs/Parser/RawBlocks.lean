import DocMarkup.Proofs.Parser.RunningText

/-!
Raw blocks.  What stands between the command of a block and the command that ends it is kept as it
is, whatever it looks like.
-/

namespace DocMarkup

/-! ### Scanning -/

namespace Lexeme

theorem match?_eq_none {u : CodeUnit} (h : CodeUnit.isIdentifierStart u) (rest : Text) :
    Escape.match? (u :: rest) = none := by
  have hsigns : Escape.signs.all fun sign => !CodeUnit.isIdentifierStart (unit sign.1) := by decide
  have hcolon : (u == unit ':') = false := by
    refine beq_eq_false_iff_ne.2 ?_
    rintro rfl
    exact absurd h (by decide)
  have hnone : Escape.signs.find? (fun sign => unit sign.1 == u) = none := by
    refine List.find?_eq_none.2 fun sign hsign heq => ?_
    obtain rfl := beq_iff_eq.1 heq
    have hother := List.all_eq_true.1 hsigns sign hsign
    rw [h] at hother
    cases hother
  rw [Escape.match?, hcolon, hnone]
  rfl

/-- The name of a command reaches up to the first unit that is no part of an identifier.  Only an
`f` can begin a command that is none. -/
theorem command?_identifier (sign : CodeUnit) {u : CodeUnit} {name rest : Text}
    (hu : CodeUnit.isIdentifierStart u) (hf : u ≠ unit 'f')
    (hname : ∀ v ∈ name, CodeUnit.isIdentifierChar v)
    (hrest : rest.head?.any CodeUnit.isIdentifierChar = false) :
    command? (sign :: (u :: name) ++ rest) =
      some { kind := .command, length := name.length + 2, value := u :: name } := by
  have hall : ∀ v ∈ u :: name, CodeUnit.isIdentifierChar v := by
    refine List.forall_mem_cons.2 ⟨?_, hname⟩
    rw [CodeUnit.isIdentifierChar, hu, Bool.true_or]
  have hend : rest.takeWhile CodeUnit.isIdentifierChar = [] := by
    cases rest with
    | nil => rfl
    | cons v rest => exact List.takeWhile_cons_of_neg (by simpa using hrest)
  have hwhole : (u :: (name ++ rest)).takeWhile CodeUnit.isIdentifierChar = u :: name := by
    rw [← List.cons_append, List.takeWhile_append_of_pos hall, hend, List.append_nil]
  have hidentifier : identifier? (u :: (name ++ rest)) =
      some { kind := .command, length := name.length + 2, value := u :: name } := by
    simp only [identifier?, hu, if_true, hwhole, List.length_cons]
  have hbracket : (u == unit 'f') = false := beq_eq_false_iff_ne.2 hf
  rw [List.cons_append, List.cons_append]
  generalize name ++ rest = tail at hidentifier ⊢
  simp only [command?, match?_eq_none hu]
  cases tail with
  | nil => exact hidentifier
  | cons bracket after =>
      simp only [hbracket, Bool.false_and, Bool.false_eq_true, if_false]
      exact hidentifier

end Lexeme

namespace Scanner

/-- A marker is found where it stands when there was none before.  Since only its first unit is a
command character, no occurrence can begin in the text before it and end in it. -/
theorem findMarker?_append {ending body : Text} (hending : ∀ u ∈ ending, u ≠ unit '\\')
    (hbody : ∀ marker ∈ Command.markers ending, ¬ marker <:+: body) :
    findMarker? (Command.markers ending) (body ++ unit '\\' :: ending) =
      some (body.length, unit '\\' :: ending) := by
  induction body with
  | nil =>
      have hhere : marksHere (unit '\\' :: ending) (unit '\\' :: ending) = true := by
        simp [marksHere]
      rw [List.nil_append, findMarker?, Command.markers, List.find?_cons, hhere]
      rfl
  | cons u body ih =>
      have hmore := ih fun marker hmarker hinside =>
        hbody marker hmarker (hinside.trans (List.suffix_cons u body).isInfix)
      have hnone : (Command.markers ending).find?
          (marksHere · (u :: (body ++ unit '\\' :: ending))) = none := by
        refine List.find?_eq_none.2 fun marker hmarker hhere => hbody marker hmarker ?_
        have hstarts : marker <+: (u :: body) ++ unit '\\' :: ending :=
          List.isPrefixOf_iff_prefix.1 (Bool.and_eq_true_iff.1 hhere).1
        rcases List.prefix_or_prefix_of_prefix hstarts (List.prefix_append ..) with hin | hover
        · exact hin.isInfix
        · obtain ⟨more, hmore⟩ := hover
          have htail : ending = body ++ more := by
            simp only [Command.markers, List.mem_cons, List.not_mem_nil, or_false] at hmarker
            rcases hmarker with rfl | rfl <;> exact (List.cons.inj hmore).2.symm
          rw [← hmore, List.prefix_append_right_inj] at hstarts
          cases more with
          | nil => exact ⟨[], [], by rw [← hmore, List.append_nil, List.append_nil]; rfl⟩
          | cons v more =>
              obtain ⟨rfl, -⟩ := List.cons_prefix_cons.1 hstarts
              exact absurd rfl (hending (unit '\\') (by rw [htail]; simp))
      rw [List.cons_append, findMarker?, hnone, hmore]
      rfl

end Scanner

/-! ### Blocks -/

namespace Command

/-- What the names of raw blocks have in common: they are read as identifiers, and mean a block. -/
def IsRawName (name : Text) (type : VerbatimType) (ending : Text) : Prop :=
  name.all CodeUnit.isIdentifierChar ∧
    name.head?.any (fun u => CodeUnit.isIdentifierStart u && u != unit 'f') ∧
    ending.all (· != unit '\\') ∧ sectionLevel? name = none ∧
    ofName name = .verbatim type ending

theorem isRawName_of_mem {name ending : String} {type : VerbatimType}
    (h : (name, type, ending) ∈ verbatimBlocks) :
    IsRawName (units name) type (units ending) := by
  have hall : ∀ block ∈ verbatimBlocks, IsRawName (units block.1) block.2.1 (units block.2.2) := by
    unfold IsRawName
    decide +kernel
  exact hall _ h

end Command

/-- A raw block is begun by its command, whatever follows the name. -/
theorem Scanner.lexeme_rawName {s : Scanner} {name ending rest : Text} {type : VerbatimType}
    (hname : Command.IsRawName name type ending) (hahead : s.cursor.ahead = unit '\\' :: name ++ rest)
    (hrest : rest.head?.any CodeUnit.isIdentifierChar = false) :
    s.lexeme s.cursor = { kind := .command, length := name.length + 1, value := name } := by
  obtain ⟨hall, hhead, -⟩ := hname
  cases name with
  | nil => cases hhead
  | cons u name =>
      obtain ⟨hu, hf⟩ := Bool.and_eq_true_iff.1 (Option.any_some ▸ hhead)
      have hcommand := Lexeme.command?_identifier (unit '\\') hu (bne_iff_ne.1 hf)
        (List.forall_mem_cons.1 (List.all_eq_true.1 hall)).2 hrest
      rw [lexeme_eq_next (by rw [hahead]; exact List.cons_ne_nil _ _), hahead]
      exact Lexeme.next_eq_command (.inl rfl) hcommand

namespace Parser

/-- The node of a raw block with the given body. -/
def rawNode (comment : Comment) (type : VerbatimType) (body : Text) : Node :=
  .leaf (.verbatim
    { type
      text := if type == .code || type == .verbatim then Text.trimBlock body else body
      origin :=
        { context := (comment.scope.map Scope.name).getD []
          isExample := comment.isExample
          exampleFile := comment.exampleName }
      isBlock := false
      language := [] })

namespace Machine

variable {m : Machine} {setting : Setting} {name ending body : Text} {type : VerbatimType}

/-- Options follow their command at once, and not behind white space. -/
theorem attached_eq_none {rest : Text} (hahead : m.scanner.cursor.ahead = body ++ rest)
    (hspace : body.head?.any CodeUnit.isBlank) (opening : Char)
    (hopening : CodeUnit.isBlank (unit opening) = false) (closing : Char) :
    m.attached opening closing = (none, m) := by
  have hother : (m.scanner.cursor.ahead.take 1 != [unit opening]) = true := by
    rw [hahead]
    cases body with
    | nil => cases hspace
    | cons u body =>
        refine bne_iff_ne.2 fun heq => ?_
        obtain rfl : u = unit opening := (List.cons.inj heq).1
        rw [List.head?_cons, Option.any_some, hopening] at hspace
        cases hspace
  simp only [attached, Scanner.readAttached, hother, if_true]

/-- A block that white space begins goes on to the command that ends it. -/
theorem verbatim_eq (type : VerbatimType) (token : Token)
    (hahead : m.scanner.cursor.ahead = body ++ unit '\\' :: ending)
    (hspace : body.head?.any CodeUnit.isBlank) (hending : ∀ u ∈ ending, u ≠ unit '\\')
    (hbody : ∀ marker ∈ Command.markers ending, ¬ marker <:+: body) :
    ∃ scanner : Scanner, scanner.cursor.ahead = [] ∧ scanner.insidePre = m.insidePre ∧
      m.verbatim token type ending =
        (({ m with scanner } : Machine).append (rawNode m.setting.comment type body)).read := by
  have hfound := Scanner.findMarker?_append hending hbody
  have htext : m.scanner.cursor.ahead.take body.length = body := by
    rw [hahead, List.take_left' rfl]
  rw [← hahead] at hfound
  refine ⟨{ m.scanner with
    cursor := m.scanner.cursor.advance (body.length + (unit '\\' :: ending).length) }, ?_, rfl, ?_⟩
  · rw [Cursor.ahead_advance, hahead, ← List.length_append, List.drop_length]
  · have hlanguage := attached_eq_none hahead hspace '\x7b' (by decide) '\x7d'
    have hblock := attached_eq_none hahead hspace '[' (by decide) ']'
    simp only [verbatim, hlanguage, hblock, ite_self, raw, Scanner.readRaw, hfound, htext, if_true]
    rfl

/-- In a paragraph a raw block is added as a whole, and the text behind it comes next. -/
theorem Calm.takesRawBlock {paragraphs words : List Node} {id : Nat} {token : Token}
    (h : m.Calm setting [textFrame id words, rootFrame setting paragraphs])
    (hphase : m.phase = .take token) (hkind : token.kind = .command)
    (hname : Command.IsRawName token.value type ending)
    (hahead : m.scanner.cursor.ahead = body ++ unit '\\' :: ending)
    (hspace : body.head?.any CodeUnit.isBlank)
    (hbody : ∀ marker ∈ Command.markers ending, ¬ marker <:+: body) :
    ∃ m', Reaches m m' ∧
      m'.Calm setting
        [textFrame id (rawNode setting.comment type body :: words), rootFrame setting paragraphs] ∧
      m'.phase = .read ∧ m'.scanner.cursor.ahead = [] := by
  obtain ⟨-, -, hending, -, hcommand⟩ := hname
  have hentered : (m.record (.entered token.value)).Calm setting
      [textFrame id words, rootFrame setting paragraphs] := h.record rfl
  obtain ⟨scanner, hend, hpre, hverbatim⟩ :=
    verbatim_eq (m := m.record (.entered token.value)) type token hahead hspace
      (fun u hu => bne_iff_ne.1 (List.all_eq_true.1 hending u hu)) hbody
  have hnode : rawNode (m.record (.entered token.value)).setting.comment type body =
      rawNode setting.comment type body := by
    rw [hentered.setting]
  rw [hnode] at hverbatim
  have hstep := h.reaches_step (by simp [hphase])
  have htakes : m.takeInParagraph token =
      (m.record (.entered token.value)).verbatim token type ending := by
    simp only [Machine.takeInParagraph, hkind, Machine.command, hcommand]
  rw [h.step_eq hphase, htakes, hverbatim] at hstep
  refine ⟨_, hstep, ((hentered.scanner hpre).append _).phase .read, rfl, ?_⟩
  show (Machine.append _ _).scanner.cursor.ahead = []
  rw [scanner_append]
  exact hend

/-- A text that is a raw block has nothing else in it. -/
theorem Calm.readsRawBlock (h : m.Calm setting [rootFrame setting []]) (hphase : m.phase = .read)
    (hname : Command.IsRawName name type ending)
    (hahead : m.scanner.cursor.ahead = unit '\\' :: name ++ (body ++ unit '\\' :: ending))
    (hspace : body.head?.any CodeUnit.isBlank)
    (hbody : ∀ marker ∈ Command.markers ending, ¬ marker <:+: body) :
    ∃ m', Reaches m m' ∧
      m'.Calm setting
        [rootFrame setting [.branch (.paragraph {}) [rawNode setting.comment type body]]] ∧
      m'.phase = .finished := by
  have hrest : (body ++ unit '\\' :: ending).head?.any CodeUnit.isIdentifierChar = false := by
    cases body with
    | nil => cases hspace
    | cons u body => exact CodeUnit.isIdentifierChar_eq_false_of_isBlank hspace
  have hreads := m.scanner.reads (by rw [hahead]; rfl)
  rw [Scanner.lexeme_rawName hname hahead hrest] at hreads
  have hsection : sectionLevel? m.scanner.scan.token = none := by
    unfold sectionLevel?
    split
    · rw [hreads.value]
      exact hname.2.2.2.1
    · rfl
  obtain ⟨m₁, id, hreaches₁, hcalm₁, hphase₁, hscanner⟩ :=
    (Stands.between h).scan hphase hsection
  obtain ⟨m₂, hreaches₂, hcalm₂, hphase₂, hend⟩ := hcalm₁.takesRawBlock hphase₁ hreads.kind
    (by rw [hreads.value]; exact hname)
    (by rw [hscanner, hreads.ahead, hahead]; exact List.drop_left' rfl) hspace hbody
  obtain ⟨m₃, hreaches₃, hcalm₃, hphase₃⟩ :=
    (Stands.within hcalm₂ (List.forall_mem_singleton.2 rfl)).ends hphase₂ hend
  exact ⟨m₃, hreaches₁.trans (hreaches₂.trans hreaches₃), hcalm₃, hphase₃⟩

end Machine

/-- Raw blocks are opaque.  Between the command of a block and the first command that ends it, any
text that white space begins becomes one node that holds this text, and no problem is met in it;
only code and verbatim text lose the blank line they begin with and the indentation they end
with. -/
theorem parse_rawBlock (p : Parser) (comment : Comment) {name ending : String}
    {type : VerbatimType} {body : Text} (hblock : (name, type, ending) ∈ Command.verbatimBlocks)
    (haliases : p.options.aliases = none)
    (htext : comment.text = unit '\\' :: units name ++ body ++ unit '\\' :: units ending)
    (hspace : body.head?.any CodeUnit.isBlank)
    (hbackslash : ¬ unit '\\' :: units ending <:+: body)
    (hat : ¬ unit '@' :: units ending <:+: body) :
    (p.parse comment).1.root =
        .branch (.root comment.singleLine)
          [.branch (.paragraph { isFirst := true, isLast := true })
            [.leaf (.verbatim
              { type
                text := if type = .code ∨ type = .verbatim then Text.trimBlock body else body
                origin :=
                  { context := (comment.scope.map Scope.name).getD []
                    isExample := comment.isExample
                    exampleFile := comment.exampleName }
                isBlock := false
                language := [] })]] ∧
      (p.parse comment).1.diagnostics = [] := by
  have hexpanded : expandAliases p.options comment = (comment.text, []) := by
    rw [expandAliases, haliases]
  have hcalm : (p.after comment 0).Calm _ [Machine.rootFrame _ []] :=
    ⟨rfl, rfl, rfl, rfl, rfl, List.forall_mem_nil _⟩
  have hahead : (p.after comment 0).scanner.cursor.ahead =
      unit '\\' :: units name ++ (body ++ unit '\\' :: units ending) := by
    show (expandAliases p.options comment).1 = _
    rw [hexpanded, htext, List.append_assoc]
  obtain ⟨m, hreaches, hcalm, hphase⟩ := hcalm.readsRawBlock rfl (Command.isRawName_of_mem hblock)
    hahead hspace (List.forall_mem_cons.2 ⟨hbackslash, List.forall_mem_singleton.2 hat⟩)
  obtain ⟨hroot, hdiagnostics⟩ := hcalm.parse hreaches hphase
  refine ⟨hroot.trans ?_, hdiagnostics.trans (congrArg Prod.snd hexpanded)⟩
  have htrimmed : (type == .code || type == .verbatim) =
      decide (type = .code ∨ type = .verbatim) := by
    cases type <;> rfl
  simp only [rawNode, htrimmed, decide_eq_true_eq]
  rfl

/-- Neither tags, a list marker and a blank line nor the ends of other blocks are looked at. -/
theorem parse_rawBlock_of_markup :
    let body := units "\n<b> @endverbatim\n\n- \\endcod\n  "
    (body.head?.any CodeUnit.isBlank ∧ ¬ unit '\\' :: units "endcode" <:+: body ∧
        ¬ unit '@' :: units "endcode" <:+: body) ∧
      (({} : Parser).parse { text := units "\\code" ++ body ++ units "\\endcode" }).1.root =
        .branch (.root false)
          [.branch (.paragraph { isFirst := true, isLast := true })
            [.leaf (.verbatim
              { type := .code
                text := units "<b> @endverbatim\n\n- \\endcod\n"
                origin := { context := [], isExample := false, exampleFile := [] }
                isBlock := false
                language := [] })]] ∧
      (({} : Parser).parse { text := units "\\code" ++ body ++ units "\\endcode" }).1.diagnostics =
        [] := by
  intro body
  have hblock : ("code", VerbatimType.code, "endcode") ∈ Command.verbatimBlocks := by decide
  have hspace : body.head?.any CodeUnit.isBlank := by decide
  have hbackslash : ¬ unit '\\' :: units "endcode" <:+: body := by decide
  have hat : ¬ unit '@' :: units "endcode" <:+: body := by decide
  obtain ⟨hroot, hdiagnostics⟩ := parse_rawBlock {}
    { text := units "\\code" ++ body ++ units "\\endcode" } hblock rfl rfl hspace hbackslash hat
  refine ⟨⟨hspace, hbackslash, hat⟩, hroot.trans ?_, hdiagnostics⟩
  rw [if_pos (.inl rfl)]
  rfl

end Parser

end DocMarkup
