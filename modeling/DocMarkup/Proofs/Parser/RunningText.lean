import Mathlib.Data.List.DropRight
import DocMarkup.Proofs.Parser.Termination
import DocMarkup.Proofs.Scanner.Words

/-!
Running text.  Where no token begins a block or a style, nothing is open but the root and perhaps
one paragraph, and a parse sorts words and white space into paragraphs and does nothing else.
-/

namespace DocMarkup.Parser

/-- Whether an event tells of a problem. -/
def Event.isReport : Event → Bool
  | .reported _ => true
  | _ => false

/-- Paragraphs, last first, with one more that holds the given nodes, last first, without the white
space at its end.  There is none that holds nothing else. -/
def addParagraph (paragraphs words : List Node) : List Node :=
  match dropTrailingSpace words with
  | [] => paragraphs
  | kept => .branch (.paragraph {}) kept.reverse :: paragraphs

theorem addParagraph_cons {n : Node} (h : n.isKind .whiteSpace = false)
    (paragraphs words : List Node) :
    addParagraph paragraphs (n :: words) =
      .branch (.paragraph {}) (n :: words).reverse :: paragraphs := by
  rw [addParagraph, dropTrailingSpace, List.dropWhile_cons_of_neg (by simp [h])]

/-- The node of a token that is part of a word. -/
def wordNode (token : Token) : Node :=
  match token.kind with
  | .word => .leaf (.word token.value)
  | .symbol => .leaf (.symbol token.value)
  | _ => .leaf (.url token.value token.flags.isEmail)

/-- Sorts a token into the paragraphs read before it, last first, and the nodes of the paragraph it
stands in, last first.  White space at the start of a paragraph does not count. -/
def sortToken (read : List Node × List Node) (token : Token) : List Node × List Node :=
  match token.kind with
  | .newParagraph | .endOfText => (addParagraph read.1 read.2, [])
  | .whiteSpace =>
    (read.1, if read.2.isEmpty then [] else .leaf (.whiteSpace token.text) :: read.2)
  | _ => (read.1, wordNode token :: read.2)

/-- A token of running text: white space, or a part of a word that is not linked. -/
def IsRunning (options : Options) (token : Token) : Prop :=
  match token.kind with
  | .whiteSpace | .newParagraph | .endOfText | .symbol | .url => True
  | .word =>
    options.surroundings.resolve? = none ∨
      looksLikeName (Text.dropWhileRight isEndPunctuation token.value) = false
  | _ => False

theorem isSynthetic_wordNode (token : Token) : (wordNode token).isSynthetic = false := by
  unfold wordNode
  split <;> rfl

theorem isKind_wordNode (token : Token) : (wordNode token).isKind .whiteSpace = false := by
  unfold wordNode
  split <;> rfl

/-- Nothing of running text is made in recovery. -/
theorem not_isSynthetic_sortToken {read : List Node × List Node}
    (h : ∀ n ∈ read.2, n.isSynthetic = false) (token : Token) :
    ∀ n ∈ (sortToken read token).2, n.isSynthetic = false := by
  unfold sortToken
  split
  · exact List.forall_mem_nil _
  · exact List.forall_mem_nil _
  · dsimp only
    split
    · exact List.forall_mem_nil _
    · exact List.forall_mem_cons.2 ⟨rfl, h⟩
  · exact List.forall_mem_cons.2 ⟨isSynthetic_wordNode token, h⟩

namespace Machine

variable {m m' m'' : Machine} {setting : Setting} {stack : List Frame}
  {paragraphs words : List Node} {token : Token} {id : Nat}

/-- Some steps lead from one machine to the other. -/
def Reaches (m m' : Machine) : Prop := ∃ n, run n m = m'

theorem Reaches.refl (m : Machine) : Reaches m m := ⟨0, rfl⟩

theorem Reaches.trans (h : Reaches m m') (h' : Reaches m' m'') : Reaches m m'' := by
  obtain ⟨i, rfl⟩ := h
  obtain ⟨j, rfl⟩ := h'
  exact ⟨i + j, run_add i j m⟩

/-! ### Calm machines -/

/-- Nothing is open but the given constructs, no style is to be opened again, and no problem was
met so far. -/
structure Calm (setting : Setting) (stack : List Frame) (m : Machine) : Prop where
  setting : m.setting = setting
  stack : m.stack = stack
  insidePre : m.insidePre = false
  reopening : m.reopening = []
  failure : m.failure = none
  silent : ∀ event ∈ m.journal, event.isReport = false

/-- The root with the nodes read so far, last first. -/
def rootFrame (setting : Setting) (nodes : List Node) : Frame :=
  { construct := .root setting.comment.singleLine, children := nodes }

/-- A paragraph of the root with the nodes read so far, last first. -/
def textFrame (id : Nat) (words : List Node) : Frame :=
  { construct := .paragraph [] [], children := words, id, madeFor := some 0 }

namespace Calm

theorem phase (h : m.Calm setting stack) (phase : Phase) :
    ({ m with phase } : Machine).Calm setting stack :=
  ⟨h.setting, h.stack, h.insidePre, h.reopening, h.failure, h.silent⟩

theorem record (h : m.Calm setting stack) {event : Event} (hevent : event.isReport = false) :
    (m.record event).Calm setting stack :=
  ⟨h.setting, h.stack, h.insidePre, h.reopening, h.failure,
    List.forall_mem_cons.2 ⟨hevent, h.silent⟩⟩

theorem scanner (h : m.Calm setting stack) {scanner : Scanner}
    (hpre : scanner.insidePre = m.insidePre) : ({ m with scanner } : Machine).Calm setting stack :=
  ⟨h.setting, h.stack, hpre.trans h.insidePre, h.reopening, h.failure, h.silent⟩

theorem reaches_step (h : m.Calm setting stack) (hphase : m.phase ≠ .finished) :
    Reaches m m.step := by
  refine ⟨1, ?_⟩
  rw [run, if_neg]
  · rfl
  · simp [isDone, hphase, h.failure]

/-- Whatever the next token is, reading it is no problem. -/
theorem scan (h : m.Calm setting stack) (hphase : m.phase = .read) :
    ∃ m', Reaches m m' ∧ m'.Calm setting stack ∧ m'.phase = .take m.scanner.scan.token ∧
      m'.scanner = m.scanner.scan := by
  have hscanned : ({ m with scanner := m.scanner.scan } : Machine).Calm setting stack :=
    h.scanner rfl
  refine ⟨m.step, h.reaches_step (by simp [hphase]), ?_⟩
  rw [Machine.step, hphase]
  simp only [next]
  split
  · exact ⟨(hscanned.record rfl).phase _, rfl, rfl⟩
  · exact ⟨hscanned.phase _, rfl, rfl⟩

/-- Between paragraphs a token begins one, unless it is a section command. -/
theorem openParagraph (h : m.Calm setting [rootFrame setting paragraphs])
    (hphase : m.phase = .take token) (hsection : sectionLevel? token = none) :
    ∃ m' id, Reaches m m' ∧ m'.Calm setting [textFrame id [], rootFrame setting paragraphs] ∧
      m'.phase = .take token ∧ m'.scanner = m.scanner := by
  have hstep : m.step = m.openParagraph.take token := by
    rw [Machine.step, hphase]
    simp only [dispatch, h.stack, rootFrame, hsection]
  refine ⟨m.step, m.begun, h.reaches_step (by simp [hphase]), ?_⟩
  rw [hstep, Machine.openParagraph, h.reopening, List.foldl_nil]
  refine ⟨⟨h.setting, ?_, h.insidePre, rfl, h.failure, h.silent⟩, rfl, rfl⟩
  simp only [take, push, h.stack]
  rfl

/-- Inside a paragraph a node is added. -/
theorem append {outer : List Frame} (h : m.Calm setting (textFrame id words :: outer)) (n : Node) :
    (m.append n).Calm setting (textFrame id (n :: words) :: outer) := by
  rw [Machine.append, modifyTop, h.stack]
  exact ⟨h.setting, rfl, h.insidePre, h.reopening, h.failure, h.silent⟩

/-- A paragraph that ends goes to the root without the white space at its end. -/
theorem closeParagraph
    (h : m.Calm setting [textFrame id words, rootFrame setting paragraphs])
    (hwords : ∀ n ∈ words, n.isSynthetic = false) (outcome : Outcome) :
    (m.closeParagraph outcome).Calm setting [rootFrame setting (addParagraph paragraphs words)] ∧
      (m.closeParagraph outcome).phase = .ended outcome ∧
      (m.closeParagraph outcome).scanner = m.scanner := by
  have hfinished : finishedChildren words [] false m.scanner.offset = dropTrailingSpace words := by
    simp only [finishedChildren, Bool.false_eq_true, if_false, List.foldl_nil]
    split
    · next hall =>
      refine (List.eq_nil_iff_forall_not_mem.2 fun n hn => ?_).symm
      have hkept := hwords n ((List.dropWhile_sublist _).subset hn)
      rw [List.all_eq_true.1 hall n hn] at hkept
      cases hkept
    · exact List.dropWhile_idempotent _ _
  have hreopening : m.reopening ++ [] = [] := by rw [h.reopening, List.append_nil]
  simp only [Machine.closeParagraph, h.stack, textFrame, Construct.styles, h.insidePre, hfinished,
    List.any_nil, Bool.false_eq_true, if_false, List.reverse_nil, hreopening]
  unfold addParagraph
  cases dropTrailingSpace words with
  | nil => exact ⟨⟨h.setting, rfl, h.insidePre, rfl, h.failure, h.silent⟩, rfl, rfl⟩
  | cons n kept => exact ⟨⟨h.setting, rfl, h.insidePre, rfl, h.failure, h.silent⟩, rfl, rfl⟩

end Calm

/-! ### Running text -/

/-- The machine stands between paragraphs, or in one with the given nodes, last first. -/
inductive Stands (setting : Setting) (m : Machine) : List Node × List Node → Prop
  | between {paragraphs : List Node} (calm : m.Calm setting [rootFrame setting paragraphs]) :
      Stands setting m (paragraphs, [])
  | within {paragraphs words : List Node} {id : Nat}
      (calm : m.Calm setting [textFrame id words, rootFrame setting paragraphs])
      (written : ∀ n ∈ words, n.isSynthetic = false) : Stands setting m (paragraphs, words)

namespace Stands

variable {read : List Node × List Node}

/-- The next token is taken in a paragraph, whether one is open or not. -/
theorem scan (h : m.Stands setting read) (hphase : m.phase = .read)
    (hsection : sectionLevel? m.scanner.scan.token = none) :
    ∃ m' id, Reaches m m' ∧ m'.Calm setting [textFrame id read.2, rootFrame setting read.1] ∧
      m'.phase = .take m.scanner.scan.token ∧ m'.scanner = m.scanner.scan := by
  cases h with
  | between calm =>
      obtain ⟨m₁, hreaches, hcalm, htake, hscanner⟩ := calm.scan hphase
      obtain ⟨m₂, id, hbegins, hopen, hphase', hkept⟩ := hcalm.openParagraph htake hsection
      exact ⟨m₂, id, hreaches.trans hbegins, hopen, hphase', hkept.trans hscanner⟩
  | @within _ _ id calm written =>
      obtain ⟨m₁, hreaches, hcalm, htake, hscanner⟩ := calm.scan hphase
      exact ⟨m₁, id, hreaches, hcalm, htake, hscanner⟩

theorem written (h : m.Stands setting read) : ∀ n ∈ read.2, n.isSynthetic = false := by
  cases h with
  | between => exact List.forall_mem_nil _
  | within calm written => exact written

end Stands

theorem sectionLevel?_of_isRunning {options : Options} (h : IsRunning options token) :
    sectionLevel? token = none := by
  unfold sectionLevel?
  rw [if_neg]
  intro hkind
  rw [IsRunning, beq_iff_eq.1 hkind] at h
  exact h

namespace Calm

/-- A part of a word is added as it is. -/
theorem addInWord_eq (h : m.Calm setting stack) (hrunning : IsRunning setting.options token) :
    m.addInWord token = m.append (wordNode token) := by
  unfold addInWord wordNode
  cases hkind : token.kind with
  | word =>
      rw [IsRunning, hkind] at hrunning
      have hplain : m.plainWord token.value = m.append (.leaf (.word token.value)) := by
        rw [plainWord, h.insidePre]
        rfl
      simp only [addWord]
      split
      · exact hplain
      · next hlinked =>
        rcases hrunning with hnone | hname
        · rw [resolve, h.setting, hnone]
          exact hplain
        · simp [hname] at hlinked
  | _ => rfl

/-- In a paragraph a step hands over the token that is to be taken. -/
theorem step_eq (h : m.Calm setting [textFrame id words, rootFrame setting paragraphs])
    (hphase : m.phase = .take token) : m.step = m.takeInParagraph token := by
  rw [step, hphase]
  simp only [dispatch, h.stack, textFrame]

/-- In a paragraph a token of running text is sorted in. -/
theorem takeInParagraph
    (h : m.Calm setting [textFrame id words, rootFrame setting paragraphs])
    (hwritten : ∀ n ∈ words, n.isSynthetic = false)
    (hrunning : IsRunning setting.options token) (hkind : token.kind ≠ .endOfText) :
    ∃ m', Reaches (m.takeInParagraph token) m' ∧
      m'.Stands setting (sortToken (paragraphs, words) token) ∧ m'.phase = .read ∧
      m'.scanner = m.scanner := by
  have hsorted : ∀ n ∈ (sortToken (paragraphs, words) token).2, n.isSynthetic = false :=
    not_isSynthetic_sortToken hwritten token
  have hword := (h.append (wordNode token)).phase .read
  have hscanner : (m.append (wordNode token)).scanner = m.scanner := scanner_append ..
  rw [← h.addInWord_eq hrunning] at hword hscanner
  have hsynthetic : m.onlySynthetic = words.isEmpty := by
    simp only [onlySynthetic, children, h.stack, textFrame, List.head?_cons, Option.map_some,
      Option.getD_some]
    cases words with
    | nil => rfl
    | cons n words => rw [List.all_cons, hwritten n (List.mem_cons_self ..)]; rfl
  unfold sortToken at hsorted ⊢
  unfold Machine.takeInParagraph
  cases hkind' : token.kind <;> simp only [hkind', IsRunning] at hrunning hsorted ⊢
  case endOfText => exact absurd hkind' hkind
  case word | symbol | url => exact ⟨_, .refl _, .within hword hsorted, rfl, hscanner⟩
  case newParagraph =>
    -- one more step takes the machine from the paragraph that ended back to the root
    obtain ⟨hclosed, hended, hkept⟩ := h.closeParagraph hwritten (.newParagraph token)
    refine ⟨(m.closeParagraph (.newParagraph token)).read, ?_, .between (hclosed.phase _), rfl,
      hkept⟩
    have hresumed := hclosed.reaches_step (by simp [hended])
    have hgoes : (Outcome.newParagraph token == .endOfText) = false := rfl
    rw [step, hended] at hresumed
    simpa only [resume, hclosed.stack, rootFrame, hgoes, Bool.false_eq_true, if_false,
      sectionPartEnded] using hresumed
  case whiteSpace =>
    simp only [h.insidePre, hsynthetic, Bool.false_eq_true, if_false] at hsorted ⊢
    split at hsorted
    · next hnil =>
      rw [if_pos hnil, if_pos hnil]
      rw [List.isEmpty_iff] at hnil
      subst hnil
      exact ⟨_, .refl _, .within (h.phase .read) hwritten, rfl, rfl⟩
    · next hne =>
      rw [if_neg hne, if_neg hne]
      exact ⟨_, .refl _, .within ((h.append _).phase .read) hsorted, rfl, scanner_append ..⟩

/-- At the end of the text the last paragraph ends, and the parse with it. -/
theorem endOfText (h : m.Calm setting [textFrame id words, rootFrame setting paragraphs])
    (hwritten : ∀ n ∈ words, n.isSynthetic = false) (hkind : token.kind = .endOfText) :
    ∃ m', Reaches (m.takeInParagraph token) m' ∧
      m'.Calm setting [rootFrame setting (addParagraph paragraphs words)] ∧
      m'.phase = .finished := by
  obtain ⟨hclosed, hended, -⟩ := h.closeParagraph hwritten .endOfText
  have hresumed := hclosed.reaches_step (by simp [hended])
  have hfinishes : (m.closeParagraph .endOfText).resume .endOfText =
      { m.closeParagraph .endOfText with phase := .finished } := by
    simp only [resume, hclosed.stack, rootFrame, beq_self_eq_true, if_true]
  rw [step, hended] at hresumed
  simp only [hfinishes] at hresumed
  simp only [Machine.takeInParagraph, hkind]
  exact ⟨_, hresumed, hclosed.phase .finished, rfl⟩

end Calm

/-- A machine that stands in running text reads it to its end. -/
theorem Stands.reads {n : Nat} {read : List Node × List Node} (h : m.Stands setting read)
    (hphase : m.phase = .read) (hn : m.scanner.cursor.ahead.length < n)
    (hrunning : ∀ token ∈ (Scanner.readTokens n m.scanner).1, IsRunning setting.options token) :
    ∃ m', Reaches m m' ∧
      m'.Calm setting
        [rootFrame setting (((Scanner.readTokens n m.scanner).1.foldl sortToken read).1)] ∧
      m'.phase = .finished := by
  induction n generalizing m read with
  | zero => exact absurd hn (Nat.not_lt_zero _)
  | succ n ih =>
      have htoken : IsRunning setting.options m.scanner.scan.token := by
        refine hrunning _ ?_
        rw [Scanner.readTokens]
        split <;> exact List.mem_cons_self ..
      obtain ⟨m₁, id, hreaches, hcalm, htake, hscanner⟩ :=
        h.scan hphase (sectionLevel?_of_isRunning htoken)
      have hstep := hcalm.reaches_step (by simp [htake])
      rw [hcalm.step_eq htake] at hstep
      have hstep := hreaches.trans hstep
      by_cases hend : m.scanner.scan.token.kind = .endOfText
      · obtain ⟨m', hmore, hcalm', hphase'⟩ := hcalm.endOfText h.written hend
        refine ⟨m', hstep.trans hmore, ?_, hphase'⟩
        have hlast : m.scanner.scan.last.kind = .endOfText := hend
        rw [Scanner.readTokens]
        simp only [hlast, beq_self_eq_true, if_true, List.foldl_cons, List.foldl_nil]
        rw [sortToken, hend]
        exact hcalm'
      · obtain ⟨m₂, hmore, hstands, hread, hkept⟩ :=
          hcalm.takeInParagraph h.written htoken hend
        have hscan : m₂.scanner = m.scanner.scan := hkept.trans hscanner
        have hother : (m.scanner.scan.last.kind == .endOfText) = false :=
          beq_eq_false_iff_ne.2 hend
        have hshorter := Scanner.length_ahead_scan hend
        rw [Scanner.readTokens] at hrunning ⊢
        simp only [hother, Bool.false_eq_true, if_false] at hrunning ⊢
        obtain ⟨m', hlast, hdone⟩ := ih hstands hread (by rw [hscan]; omega)
          (hscan ▸ (List.forall_mem_cons.1 hrunning).2)
        exact ⟨m', hstep.trans (hmore.trans hlast), hscan ▸ hdone⟩

/-- Behind the last part of a comment its paragraph ends, and the comment with it. -/
theorem Stands.ends {read : List Node × List Node} (h : m.Stands setting read)
    (hphase : m.phase = .read) (hahead : m.scanner.cursor.ahead = []) :
    ∃ m', Reaches m m' ∧ m'.Calm setting [rootFrame setting (addParagraph read.1 read.2)] ∧
      m'.phase = .finished := by
  have hkind := Scanner.kind_scan_of_atEnd hahead
  have htokens := Scanner.readAll_of_endOfText hkind
  obtain ⟨m', hreaches, hcalm, hphase'⟩ := h.reads hphase (Nat.lt_succ_self _) (by
    show ∀ token ∈ m.scanner.readAll.1, _
    rw [htokens, List.forall_mem_singleton, IsRunning, hkind]
    trivial)
  have hread : (m.scanner.readAll.1.foldl sortToken read).1 = addParagraph read.1 read.2 := by
    rw [htokens, List.foldl_cons, List.foldl_nil, sortToken, hkind]
  exact ⟨m', hreaches, hread ▸ hcalm, hphase'⟩

/-- Where a run from the start of a comment has come to its end, the comment has been read. -/
theorem final_eq {p : Parser} {comment : Comment}
    (h : Reaches (p.after comment 0) m) (hphase : m.phase = .finished) : p.final comment = m := by
  obtain ⟨n, rfl⟩ := h
  exact (after_eq_final hphase).symm

/-- What came of a comment that was read without a problem. -/
theorem Calm.parse {p : Parser} {comment : Comment} {nodes : List Node}
    (h : Reaches (p.after comment 0) m) (hphase : m.phase = .finished)
    (hcalm : m.Calm setting [rootFrame setting nodes]) :
    (p.parse comment).1.root =
        .branch (.root setting.comment.singleLine) (markParagraphs nodes.reverse) ∧
      (p.parse comment).1.diagnostics = (expandAliases p.options comment).2 := by
  have hfinal := final_eq h hphase
  constructor
  · rw [parse_root, hfinal, hcalm.stack]
    rfl
  · refine (congrArg ((p.parse comment).1.aliasDiagnostics ++ ·)
      (List.filterMap_eq_nil_iff.2 ?_)).trans (List.append_nil _)
    intro event hevent
    rw [parse_events, hfinal, hcalm.reopening, List.map_nil, List.append_nil] at hevent
    have hother := hcalm.silent event (List.mem_reverse.1 hevent)
    cases event with
    | reported diagnostic => cases hother
    | _ => rfl

end Machine

/-- The tokens of a comment. -/
def tokensOf (options : Options) (comment : Comment) : List Token :=
  (Scanner.ofText (expandAliases options comment).1).readAll.1

/-- A comment of running text is read as its paragraphs, and no problem is met in it. -/
theorem parse_runningText (p : Parser) (comment : Comment)
    (h : ∀ token ∈ tokensOf p.options comment, IsRunning p.options token) :
    (p.parse comment).1.root =
        .branch (.root comment.singleLine)
          (markParagraphs ((tokensOf p.options comment).foldl sortToken ([], [])).1.reverse) ∧
      (p.parse comment).1.diagnostics = (expandAliases p.options comment).2 := by
  have hcalm : (p.after comment 0).Calm _ [Machine.rootFrame _ []] :=
    ⟨rfl, rfl, rfl, rfl, rfl, List.forall_mem_nil _⟩
  obtain ⟨m, hreaches, hcalm, hphase⟩ :=
    (Machine.Stands.between hcalm).reads rfl (Nat.lt_succ_self _) h
  exact hcalm.parse hreaches hphase

end DocMarkup.Parser
