import DocMarkup.Parser.Basic
import DocMarkup.Proofs.Parser.Turn

/-!
Where reports are placed.  Handlers report problems at the token they were given or at the token
that began the innermost construct.  Commands in the two texts of a keyword are reported at their
places in these texts, which are scanned on their own.
-/

namespace DocMarkup

/-- The tokens of the name and of the text of a keyword. -/
def Token.tokensWithin (keyword : Token) : List Token :=
  (Scanner.ofText keyword.value).readAll.1 ++ (Scanner.ofText keyword.text).readAll.1

/-- A report that is placed at one of some tokens, or in the texts of one of them. -/
inductive Diagnostic.Placed (tokens : Token → Prop) (d : Diagnostic) : Prop
  | atToken (token : Token) (htoken : tokens token) (hstart : d.start = token.start)
      (hstop : d.stop = token.stop)
  | inKeyword (keyword command : Token) (hkeyword : tokens keyword)
      (hkind : keyword.kind = .keyword) (hcommand : command ∈ keyword.tokensWithin)
      (hcommandKind : command.kind = .command)
      (hmessage : d.message = (Problem.commandInPlainText command.value).message)
      (hstart : d.start = command.start) (hstop : d.stop = command.stop)

namespace Parser

/-- The token that began a construct, where it is kept. -/
def Construct.opener? : Construct → Option Token
  | .parBlock opener | .refList opener | .list _ _ opener | .descList _ opener
  | .table _ _ opener | .blockQuote _ opener | .header _ opener | .hyperlink _ opener
  | .link _ _ opener => some opener
  | _ => none

/-- The token that goes back to the construct around. -/
def Outcome.token? : Outcome → Option Token
  | .newParagraph token | .handBack token => some token
  | _ => none

/-- The token in hand. -/
def Phase.token? : Phase → Option Token
  | .take token => some token
  | .ended outcome => outcome.token?
  | _ => none

namespace Machine

variable {tokens : Token → Prop} {m m' : Machine}

/-- Every construct was begun by one of some tokens, and every report is placed at one. -/
structure Keeps (tokens : Token → Prop) (m : Machine) : Prop where
  opener : ∀ f ∈ m.stack, ∀ token, f.construct.opener? = some token → tokens token
  placed : ∀ d, .reported d ∈ m.journal → d.Placed tokens

/-- The token in hand is one of them too. -/
structure Traced (tokens : Token → Prop) (m : Machine) : Prop extends Keeps tokens m where
  inHand : ∀ token, m.phase.token? = some token → tokens token

namespace Keeps

theorem congr (h : Keeps tokens m) (hstack : m'.stack = m.stack)
    (hjournal : m'.journal = m.journal) : Keeps tokens m' :=
  ⟨hstack ▸ h.opener, hjournal ▸ h.placed⟩

/-! ### What is done to the machine -/

theorem record (h : Keeps tokens m) {event : Event} (hevent : ∀ d, event ≠ .reported d) :
    Keeps tokens (m.record event) := by
  refine ⟨h.opener, fun d hd => ?_⟩
  rcases List.mem_cons.1 hd with hd | hd
  · exact absurd hd.symm (hevent d)
  · exact h.placed d hd

theorem reported (h : Keeps tokens m) {d : Diagnostic} (hd : d.Placed tokens) :
    Keeps tokens (m.record (.reported d)) := by
  refine ⟨h.opener, fun d' hd' => ?_⟩
  rcases List.mem_cons.1 hd' with hd' | hd'
  · cases hd'
    exact hd
  · exact h.placed d' hd'

theorem report (h : Keeps tokens m) {token : Token} (htoken : tokens token) (problem : Problem) :
    Keeps tokens (m.report token problem) :=
  h.reported (.atToken token htoken rfl rfl)

/-- A report is made or not. -/
theorem reportIf (h : Keeps tokens m) (c : Prop) [Decidable c] {token : Token}
    (htoken : tokens token) (problem : Problem) :
    Keeps tokens (if c then m.report token problem else m) := by
  split
  · exact h.report htoken problem
  · exact h

theorem modifyTop (h : Keeps tokens m) {f : Frame → Frame}
    (hf : ∀ frame ∈ m.stack.head?, ∀ token,
      (f frame).construct.opener? = some token → tokens token) :
    Keeps tokens (m.modifyTop f) := by
  unfold Machine.modifyTop
  split
  · exact h
  · next frame outer hstack =>
    refine ⟨fun g hg => ?_, h.placed⟩
    have hopener := h.opener
    rw [hstack] at hf hopener
    rcases List.mem_cons.1 hg with rfl | hg
    · exact hf frame rfl
    · exact hopener g (List.mem_cons_of_mem _ hg)

/-- The innermost construct is changed, but not the token that began it. -/
theorem modifyTop_same (h : Keeps tokens m) {f : Frame → Frame}
    (hf : ∀ frame : Frame, (f frame).construct.opener? = frame.construct.opener?) :
    Keeps tokens (m.modifyTop f) := by
  refine h.modifyTop fun frame hframe token htoken => ?_
  rw [hf] at htoken
  exact h.opener frame (List.mem_of_mem_head? hframe) token htoken

theorem setChildren (h : Keeps tokens m) (children : List Node) :
    Keeps tokens (m.setChildren children) :=
  h.modifyTop_same fun _ => rfl

theorem append (h : Keeps tokens m) (n : Node) : Keeps tokens (m.append n) :=
  h.modifyTop_same fun _ => rfl

theorem appendAll (h : Keeps tokens m) (nodes : List Node) : Keeps tokens (m.appendAll nodes) := by
  induction nodes generalizing m with
  | nil => exact h
  | cons n rest ih => exact ih (h.append n)

theorem push (h : Keeps tokens m) {c : Construct}
    (hc : ∀ token, c.opener? = some token → tokens token) : Keeps tokens (m.push c) := by
  refine ⟨fun f hf => ?_, h.placed⟩
  rcases List.mem_cons.1 hf with rfl | hf
  · exact hc
  · exact h.opener f hf

/-- A construct without a token of its own is begun. -/
theorem pushPlain (h : Keeps tokens m) {c : Construct} (hc : c.opener? = none) :
    Keeps tokens (m.push c) :=
  h.push fun token htoken => by rw [hc] at htoken; cases htoken

/-- The token that begins a construct is kept with it. -/
theorem pushFor (h : Keeps tokens m) {c : Construct} {token : Token} (hc : c.opener? = some token)
    (htoken : tokens token) : Keeps tokens (m.push c) := by
  refine h.push fun other hother => ?_
  rw [hc, Option.some.injEq] at hother
  exact hother ▸ htoken

theorem pop (h : Keeps tokens m) : Keeps tokens m.pop :=
  ⟨fun f hf => h.opener f (List.mem_of_mem_tail hf), h.placed⟩

theorem attach (h : Keeps tokens m) (f : Frame) : Keeps tokens (m.attach f) := by
  unfold Machine.attach
  split
  · exact h.append _
  · exact h.congr rfl rfl

/-- The constructs around the innermost one. -/
theorem outer (h : Keeps tokens m) {f : Frame} {outer : List Frame}
    (hstack : m.stack = f :: outer) : Keeps tokens { m with stack := outer } := by
  refine ⟨fun g hg => h.opener g ?_, h.placed⟩
  rw [hstack]
  exact List.mem_cons_of_mem f hg

/-- The innermost construct goes on, begun by the same token. -/
theorem replaceTop (h : Keeps tokens m) {f g : Frame} {outer : List Frame}
    (hstack : m.stack = f :: outer) (hopener : g.construct.opener? = f.construct.opener?) :
    Keeps tokens { m with stack := g :: outer } := by
  have houter := (h.outer hstack).opener
  refine ⟨List.forall_mem_cons.2 ⟨fun token htoken => ?_, houter⟩, h.placed⟩
  rw [hopener] at htoken
  exact h.opener f (hstack ▸ List.mem_cons_self) token htoken

/-! ### What comes next -/

theorem read (h : Keeps tokens m) : Traced tokens m.read :=
  ⟨h.congr rfl rfl, by rintro _ ⟨⟩⟩

theorem readSolid (h : Keeps tokens m) : Traced tokens m.readSolid :=
  ⟨h.congr rfl rfl, by rintro _ ⟨⟩⟩

theorem finished (h : Keeps tokens m) : Traced tokens { m with phase := .finished } :=
  ⟨h.congr rfl rfl, by rintro _ ⟨⟩⟩

theorem take (h : Keeps tokens m) {token : Token} (htoken : tokens token) :
    Traced tokens (m.take token) := by
  refine ⟨h.congr rfl rfl, ?_⟩
  rintro _ ⟨⟩
  exact htoken

theorem ended (h : Keeps tokens m) {outcome : Outcome}
    (houtcome : ∀ token, outcome.token? = some token → tokens token) :
    Traced tokens (m.ended outcome) :=
  ⟨h.congr rfl rfl, houtcome⟩

theorem close (h : Keeps tokens m) {outcome : Outcome}
    (houtcome : ∀ token, outcome.token? = some token → tokens token) :
    Traced tokens (m.close outcome) := by
  unfold Machine.close
  split
  · exact h.finished
  · next f outer hstack => exact ((h.outer hstack).attach f).ended houtcome

/-! ### Readers -/

theorem argument (h : Keeps tokens m) : Keeps tokens m.argument.2 := h.congr rfl rfl

theorem quoted (h : Keeps tokens m) : Keeps tokens m.quoted.2 := h.congr rfl rfl

theorem restOfLine (h : Keeps tokens m) : Keeps tokens m.restOfLine.2 := h.congr rfl rfl

theorem attached (h : Keeps tokens m) (opening closing : Char) :
    Keeps tokens (m.attached opening closing).2 := h.congr rfl rfl

theorem raw (h : Keeps tokens m) (markers : List Text) : Keeps tokens (m.raw markers).2 :=
  h.congr rfl rfl

theorem moveTo (h : Keeps tokens m) (offset : Nat) : Keeps tokens (m.moveTo offset) := by
  unfold Machine.moveTo
  split <;> exact h.congr rfl rfl

theorem next (h : Keeps tokens m) : Keeps tokens m.next.2 := by
  unfold Machine.next
  dsimp only
  split
  · refine Keeps.record ?_ (by rintro _ ⟨⟩)
    exact h.congr rfl rfl
  · exact h.congr rfl rfl

theorem resolve (h : Keeps tokens m) (target : Text) : Keeps tokens (m.resolve target).2 := by
  unfold Machine.resolve
  split
  · exact h
  · exact h.record (by rintro _ ⟨⟩)

theorem plain (h : Keeps tokens m) (t : Text) : Keeps tokens (m.plain false t).2 := by
  unfold Machine.plain
  dsimp only
  generalize (Scanner.ofText t).readAll.1 = found
  induction found generalizing m with
  | nil => exact h
  | cons token rest ih =>
      refine ih ?_
      simp only [notePlain, Bool.false_and, Bool.false_eq_true, if_false]
      split
      · exact h.record (by rintro _ ⟨⟩)
      · exact h

/-- Commands in the texts of a keyword are reported there. -/
theorem plainKeyword (h : Keeps tokens m) {keyword : Token} (hkeyword : tokens keyword)
    (hkind : keyword.kind = .keyword) {t : Text}
    (ht : ∀ token ∈ (Scanner.ofText t).readAll.1, token ∈ keyword.tokensWithin) :
    Keeps tokens (m.plain true t).2 := by
  unfold Machine.plain
  dsimp only
  generalize (Scanner.ofText t).readAll.1 = found at ht
  induction found generalizing m with
  | nil => exact h
  | cons token rest ih =>
      obtain ⟨htoken, hrest⟩ := List.forall_mem_cons.1 ht
      refine ih ?_ hrest
      have hnoted : Keeps tokens
          (if token.isNamedCommand then m.record (.scanned token.value) else m) := by
        split
        · exact h.record (by rintro _ ⟨⟩)
        · exact h
      unfold notePlain
      dsimp only [Bool.true_and]
      split
      · next hcommand =>
        exact hnoted.reported
          (.inKeyword keyword token hkeyword hkind htoken (beq_iff_eq.1 hcommand) rfl rfl rfl)
      · exact hnoted

theorem names (n : Nat) (h : Keeps tokens m) : Keeps tokens (names n m).2 := by
  induction n generalizing m with
  | zero => exact h
  | succ n ih =>
      have hread := h.argument
      unfold Machine.names
      generalize m.argument = read at hread
      obtain ⟨_ | argument, m'⟩ := read
      · exact hread
      · dsimp only
        split
        · exact ih hread
        · exact hread

theorem paramName (h : Keeps tokens m) (name : Text) (linkable : Bool) :
    Keeps tokens (m.paramName name linkable).2 := by
  unfold Machine.paramName
  split
  · exact h
  · have hfound := h.resolve name
    generalize m.resolve name = found at hfound
    obtain ⟨_ | target, m'⟩ := found
    · exact hfound
    · exact hfound

theorem paramNames (linkable : Bool) (written : List Text) (h : Keeps tokens m) :
    Keeps tokens (paramNames linkable written m).2 := by
  induction written generalizing m with
  | nil => exact h
  | cons name rest ih => exact ih (h.paramName name linkable)

theorem parameters (type : ParamSectionType) (written : List Text) (h : Keeps tokens m) :
    Keeps tokens (parameters type written m).2 := by
  induction written generalizing m with
  | nil => exact h
  | cons name rest ih =>
      exact ih ((h.paramNames true ((splitTypes name).1.getD [])).paramName (splitTypes name).2
        (type == .exception))

theorem sectionTitle (h : Keeps tokens m) (type : SimpleSectionType) :
    Keeps tokens (m.sectionTitle type).2 := by
  unfold Machine.sectionTitle
  split
  · exact h
  · dsimp only
    split
    · exact h.restOfLine
    · exact h.restOfLine.plain _

theorem formulaText (h : Keeps tokens m) (token : Token) :
    Keeps tokens (m.formulaText token).2.2 := by
  unfold Machine.formulaText
  dsimp only
  split
  · exact h.raw _
  · split
    · exact h.raw _
    · refine Keeps.raw ?_ _
      split
      · exact (h.raw _).moveTo _
      · exact h.raw _

theorem sizes (n : Nat) (size : Text × Text) (h : Keeps tokens m) :
    Keeps tokens (sizes n size m).2 := by
  induction n generalizing m size with
  | zero => exact h
  | succ n ih =>
      have hread := h.argument
      unfold Machine.sizes
      dsimp only
      generalize m.argument = read at hread
      obtain ⟨_ | argument, m'⟩ := read
      · exact hread.moveTo _
      · dsimp only
        split
        · exact ih _ hread
        · exact ih _ hread
        · exact hread.moveTo _

theorem captionAndSize (h : Keeps tokens m) : Keeps tokens m.captionAndSize.2.2 := by
  simp only [Machine.captionAndSize]
  exact h.quoted.sizes _ _

section

variable {token : Token}

theorem direction (h : Keeps tokens m) (htoken : tokens token) (type : ParamSectionType) :
    Keeps tokens (m.direction token type).2 := by
  unfold Machine.direction
  split
  · exact h
  · have hread := h.attached '[' ']'
    generalize m.attached '[' ']' = read at hread
    obtain ⟨_ | option, m'⟩ := read
    · exact hread
    · dsimp only
      split
      · exact hread
      · exact hread.report htoken _

theorem itemKey (h : Keeps tokens m) (htoken : tokens token) :
    Keeps tokens (m.itemKey token).2.2 := by
  unfold Machine.itemKey
  split
  · exact h
  · exact h.argument.quoted.quoted.reportIf _ htoken _

theorem includedText (h : Keeps tokens m) (htoken : tokens token) (file block : Text) :
    Keeps tokens (m.includedText token file block).2 := by
  unfold Machine.includedText
  split
  · exact h.report htoken _
  · split
    · exact h
    · split
      · exact h
      · exact h.report htoken _

theorem publishedName (h : Keeps tokens m) (htoken : tokens token) (file format : Text) :
    Keeps tokens (m.publishedName token file format).2 := by
  unfold Machine.publishedName
  split
  · exact h
  · split
    · exact h
    · exact h.report htoken _

end

end Keeps

end Machine

end Parser

end DocMarkup
