import DocMarkup.Proofs.Parser.StyleAccount
import DocMarkup.Proofs.Scanner.Markers

/-!
Preformatted text.  The scanner is told where white space counts: from where preformatted text is
entered up to where some is left, whatever is open around it.  So the scanner knows of all
preformatted text only as long as none is left inside another.
-/

namespace DocMarkup

namespace Scanner

/-- Where white space counts, no token is found by lines. -/
theorem kind_scan_insidePre {s : Scanner} (h : s.insidePre = true) :
    Lexeme.isOfLines s.scan.token.kind = false := by
  show Lexeme.isOfLines (s.lexeme (skipComments s.cursor)).kind = false
  unfold lexeme
  split
  · rfl
  · rw [h]
    exact Lexeme.next_insidePre_kind ..

end Scanner

namespace Parser

/-! ### Open preformatted text -/

/-- How many of some styles are preformatted. -/
def preformattedOf (styles : List OpenStyle) : Nat := styles.countP (·.isPreformatted)

theorem preformattedOf_append (styles more : List OpenStyle) :
    preformattedOf (styles ++ more) = preformattedOf styles + preformattedOf more :=
  List.countP_append

theorem any_isPreformatted (styles : List OpenStyle) :
    styles.any (·.isPreformatted) = decide (0 < preformattedOf styles) := by
  rw [Bool.eq_iff_iff, decide_eq_true_iff, preformattedOf, List.countP_pos_iff, List.any_eq_true]

namespace Machine

variable {m m' : Machine} {move : StyleMove}

/-- How many of the styles that are open are preformatted. -/
def preformatted (m : Machine) : Nat := preformattedOf (m.styleStack.map Prod.snd)

/-- The same of some paragraphs. -/
def preformattedIn (paragraphs : List OpenParagraph) : Nat :=
  (paragraphs.map fun p => preformattedOf p.styles).sum

@[simp]
theorem preformattedIn_cons (p : OpenParagraph) (rest : List OpenParagraph) :
    preformattedIn (p :: rest) = preformattedOf p.styles + preformattedIn rest := List.sum_cons

theorem preformatted_eq (m : Machine) :
    m.preformatted = preformattedIn m.settled.spans.paragraphs := by
  rw [preformatted, styleStack, ← owners_settled, owners_eq, preformattedOf, List.map_flatMap,
    List.countP_flatMap, preformattedIn, List.map_map]
  congr 1
  refine List.map_congr_left fun p _ => ?_
  simp [preformattedOf, Function.comp_def]

theorem insidePre_settled (m : Machine) : m.settled.insidePre = m.insidePre := by
  unfold settled
  split
  · exact insidePre_changeStyle ..
  · rfl

/-! ### Steps -/

/-- With more preformatted text open, white space begins to count; with less, it no longer
counts. -/
def SetsMode (before after : Nat) (mode mode' : Bool) : Prop :=
  mode' = if before < after then true else if after < before then false else mode

theorem setsMode_same (n : Nat) (mode : Bool) : SetsMode n n mode mode := by simp [SetsMode]

/-- Styles are entered. -/
theorem setsMode_add (n : Nat) (mode : Bool) (styles : List OpenStyle) :
    SetsMode n (preformattedOf styles + n) mode (styles.any (·.isPreformatted) || mode) := by
  rw [any_isPreformatted, SetsMode]
  by_cases hpos : 0 < preformattedOf styles
  · rw [if_pos (by omega), decide_eq_true hpos, Bool.true_or]
  · rw [if_neg (by omega), if_neg (by omega), decide_eq_false hpos, Bool.false_or]

/-- Styles are left. -/
theorem setsMode_sub (n : Nat) (mode : Bool) (styles : List OpenStyle) :
    SetsMode (preformattedOf styles + n) n mode (!styles.any (·.isPreformatted) && mode) := by
  rw [any_isPreformatted, SetsMode]
  by_cases hpos : 0 < preformattedOf styles
  · rw [if_neg (by omega), if_pos (by omega), decide_eq_true hpos, Bool.not_true, Bool.false_and]
  · rw [if_neg (by omega), if_neg (by omega), decide_eq_false hpos, Bool.not_false, Bool.true_and]

/-- What a step does with styles decides whether white space counts behind it. -/
theorem StyleStep.setsMode (h : StyleStep m m' move) :
    SetsMode (preformattedIn m.spans.paragraphs) (preformattedIn m'.settled.spans.paragraphs)
      m.insidePre m'.settled.insidePre := by
  have hmode : ∀ {s : Spans}, m'.settled.spans = s → m'.settled.insidePre = s.insidePre :=
    congrArg Spans.insidePre
  -- a change adds to the open styles, takes from them, or leaves them as they are
  cases h with
  | quiet h =>
      rw [hmode h, h]
      exact setsMode_same ..
  | brackets style hm h =>
      rw [hmode h, h, hm.paragraphs]
      exact setsMode_same ..
  | @enters p rest entered hm h =>
      rw [hmode h, h, hm.paragraphs]
      have hentered : preformattedOf (entered :: p.styles) =
          preformattedOf [entered] + preformattedOf p.styles :=
        preformattedOf_append [entered] p.styles
      have hadd := setsMode_add (preformattedIn (p :: rest)) m.insidePre [entered]
      rw [List.any_cons, List.any_nil, Bool.or_false] at hadd
      simp only [preformattedIn_cons, hentered, OpenParagraph.mark, Nat.add_assoc] at hadd ⊢
      exact hadd
  | @leaves p rest entered styles hm hstyles h =>
      rw [hmode h, h, hm.paragraphs]
      have hentered : preformattedOf p.styles =
          preformattedOf [entered] + preformattedOf styles := by
        rw [hstyles]
        exact preformattedOf_append [entered] styles
      have hsub := setsMode_sub (preformattedOf styles + preformattedIn rest) m.insidePre [entered]
      rw [List.any_cons, List.any_nil, Bool.or_false] at hsub
      simp only [preformattedIn_cons, hentered, OpenParagraph.mark, Nat.add_assoc] at hsub ⊢
      exact hsub
  | opens h =>
      rw [hmode h, h]
      have hreversed : preformattedOf m.reopening.reverse = preformattedOf m.reopening :=
        List.countP_reverse
      have hadd := setsMode_add (preformattedIn m.spans.paragraphs) m.insidePre m.reopening
      simpa only [preformattedIn_cons, hreversed] using hadd
  | closes outcome hkind h₁ h =>
      obtain ⟨p, rest, hwithin⟩ := exists_within hkind
      have hspans := (spans_closeParagraph (hwithin.reads h₁) outcome).1
      rw [← settled_closeParagraph, ← h, h₁.insidePre] at hspans
      rw [hmode hspans, hspans, hwithin.paragraphs]
      exact setsMode_sub ..
  | spills spilled hstack hlink hm hspilled h =>
      rw [hmode h, h, hm]
      exact setsMode_same ..

theorem step_setsMode (hm : m.Ready) :
    SetsMode m.preformatted m.step.preformatted m.insidePre m.step.insidePre := by
  have hstep := (step_styles hm).setsMode
  rwa [← preformatted_eq, ← preformatted_eq, insidePre_settled, insidePre_settled] at hstep

/-- White space that counts becomes a node of its paragraph as it was written. -/
theorem step_whiteSpace {token : Token} (hphase : m.phase = .take token)
    (htoken : token.kind = .whiteSpace) (hkind : m.innermost = .paragraph)
    (hpre : m.insidePre = true) :
    m.step = (m.append (Node.leaf (.whiteSpace token.text)).asPreformatted).read := by
  obtain ⟨p, rest, hwithin⟩ := exists_within hkind
  obtain ⟨f, outer, hstack, hf, -⟩ := within_iff.1 hwithin
  have hparagraph : ∃ attributes styles, f.construct = .paragraph attributes styles := by
    unfold Frame.paragraph? at hf
    split at hf
    · exact ⟨_, _, ‹_›⟩
    · cases hf
  obtain ⟨attributes, styles, hconstruct⟩ := hparagraph
  rw [step, hphase]
  dsimp only
  rw [dispatch, hstack]
  dsimp only
  rw [hconstruct]
  dsimp only
  rw [takeInParagraph, htoken]
  dsimp only
  rw [if_pos hpre]

theorem preformatted_pos (m : Machine) :
    0 < m.preformatted ↔ ∃ entry ∈ m.styleStack, entry.2.style = .preformatted := by
  simp [preformatted, preformattedOf, List.countP_pos_iff, OpenStyle.isPreformatted]

end Machine

/-! ### Comments -/

variable (p : Parser) (comment : Comment)

/-- In the first steps through a comment no preformatted text is left inside another. -/
def LeavesNoneInside (n : Nat) : Prop :=
  ∀ k < n, (p.after comment (k + 1)).preformatted < (p.after comment k).preformatted →
    (p.after comment (k + 1)).preformatted = 0

theorem after_setsMode (n : Nat) :
    Machine.SetsMode (p.after comment n).preformatted (p.after comment (n + 1)).preformatted
      (p.after comment n).insidePre (p.after comment (n + 1)).insidePre := by
  rw [after_succ]
  exact Machine.step_setsMode (after_ready p comment n)

/-- White space counts in preformatted text only. -/
theorem preformatted_of_insidePre (n : Nat) (h : (p.after comment n).insidePre = true) :
    0 < (p.after comment n).preformatted := by
  induction n with
  | zero => cases h
  | succ n ih =>
      have hstep := after_setsMode p comment n
      rw [Machine.SetsMode, h] at hstep
      split at hstep
      · omega
      · split at hstep
        · cases hstep
        · have hbefore := ih hstep.symm
          omega

/-- White space counts in preformatted text, if none is left inside another. -/
theorem insidePre_of_preformatted {n : Nat} (hleaves : p.LeavesNoneInside comment n)
    (h : 0 < (p.after comment n).preformatted) : (p.after comment n).insidePre = true := by
  induction n with
  | zero => cases h
  | succ n ih =>
      have hstep := after_setsMode p comment n
      rw [Machine.SetsMode] at hstep
      rw [hstep]
      split
      · rfl
      · split
        · next hless =>
          rw [hleaves n (Nat.lt_succ_self n) hless] at h
          cases h
        · exact ih (fun k hk => hleaves k (Nat.lt_succ_of_lt hk)) (by omega)

/-- White space counts from where preformatted text is entered up to where some is left.  So it
counts in preformatted text only; and if none was left inside another, it counts in all of it: no
markers of lists are found there and no blank lines, and white space stays as it was written. -/
theorem after_insidePre (p : Parser) (comment : Comment) (n : Nat) :
    let m := p.after comment n
    Machine.SetsMode m.preformatted m.step.preformatted m.insidePre m.step.insidePre ∧
    (m.insidePre = true → ∃ entry ∈ m.styleStack, entry.2.style = .preformatted) ∧
    (p.LeavesNoneInside comment n → (∃ entry ∈ m.styleStack, entry.2.style = .preformatted) →
      m.insidePre = true ∧
      m.next.1.kind ≠ .listItem ∧ m.next.1.kind ≠ .endList ∧ m.next.1.kind ≠ .newParagraph ∧
      ∀ token, m.phase = .take token → token.kind = .whiteSpace → m.innermost = .paragraph →
        m.step = (m.append (Node.leaf (.whiteSpace token.text)).asPreformatted).read) := by
  intro m
  refine ⟨Machine.step_setsMode (after_ready p comment n), fun h => ?_, fun hleaves hopen => ?_⟩
  · exact m.preformatted_pos.1 (preformatted_of_insidePre p comment n h)
  · have hpre : m.insidePre = true :=
      insidePre_of_preformatted p comment hleaves (m.preformatted_pos.2 hopen)
    have hlines : Lexeme.isOfLines m.next.1.kind = false := Scanner.kind_scan_insidePre hpre
    refine ⟨hpre, ?_, ?_, ?_, fun token hphase htoken hkind =>
      Machine.step_whiteSpace hphase htoken hkind hpre⟩
    all_goals
      intro hkind
      rw [hkind] at hlines
      cases hlines

/-- A marker behind a blank line, in preformatted text. -/
def preformattedComment : Comment where
  text := units "<pre>a\n\n- b</pre>"

/-- The blank line before the marker. -/
def gapBeforeMarker : Token where
  kind := .whiteSpace
  start := 6
  stop := 8
  text := units "\n\n"
  value := units "\n\n"

theorem after_insidePre_before_marker :
    let m := ({} : Parser).after preformattedComment 6
    ({} : Parser).LeavesNoneInside preformattedComment 6 ∧
      (∃ entry ∈ m.styleStack, entry.2.style = .preformatted) ∧ m.phase = .take gapBeforeMarker ∧
      m.step = (m.append (Node.leaf (.whiteSpace (units "\n\n"))).asPreformatted).read := by
  intro m
  have hleaves : ({} : Parser).LeavesNoneInside preformattedComment 6 := by
    unfold LeavesNoneInside
    decide +kernel
  have hopen : ∃ entry ∈ m.styleStack, entry.2.style = .preformatted := by decide +kernel
  have hphase : m.phase = .take gapBeforeMarker := by decide +kernel
  have hkind : m.innermost = .paragraph := by decide +kernel
  obtain ⟨-, -, -, -, hspace⟩ := (after_insidePre {} preformattedComment 6).2.2 hleaves hopen
  exact ⟨hleaves, hopen, hphase, hspace gapBeforeMarker hphase rfl hkind⟩

/-- Preformatted text inside preformatted text. -/
def nestedPreformattedComment : Comment where
  text := units "<pre><pre>a</pre> b</pre>"

/-- The white space behind the inner one. -/
def spaceBehindInner : Token where
  kind := .whiteSpace
  start := 17
  stop := 18
  text := units " "
  value := units " "

/-- When the inner one has been left, white space no longer counts in the outer one. -/
theorem after_forgets_outer_preformatted :
    let m := ({} : Parser).after nestedPreformattedComment 10
    m.phase = .take spaceBehindInner ∧
      (∃ entry ∈ m.styleStack, entry.2.style = .preformatted) ∧ m.insidePre = false := by
  decide +kernel

end Parser

end DocMarkup
