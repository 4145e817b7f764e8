import DocMarkup.Proofs.Aliases
import DocMarkup.Proofs.Parser.RunningText

/-!
Plain prose: words of letters, parted by white space into paragraphs.  However the white space is
written, the words of a paragraph stay together, and white space around paragraphs is not seen.
-/

namespace DocMarkup

namespace Prose

/-! ### How prose is written -/

/-- The white space that prose is written with. -/
def isGapUnit (u : CodeUnit) : Bool := CodeUnit.isHorizontalSpace u || u == CodeUnit.lineFeed

def isProseUnit (u : CodeUnit) : Bool := CodeUnit.isLetter u || isGapUnit u

structure IsWord (word : Text) : Prop where
  ne_nil : word ≠ []
  letters : ∀ u ∈ word, CodeUnit.isLetter u

/-- White space, or nothing. -/
def IsMargin (gap : Text) : Prop := ∀ u ∈ gap, isGapUnit u

/-- White space between the words of a paragraph. -/
structure IsGap (gap : Text) : Prop where
  ne_nil : gap ≠ []
  units : IsMargin gap
  count_le : gap.count CodeUnit.lineFeed ≤ 1

/-- White space between paragraphs. -/
structure IsBreak (gap : Text) : Prop where
  units : IsMargin gap
  le_count : 2 ≤ gap.count CodeUnit.lineFeed

/-- The words of a paragraph with white space between them. -/
inductive WritesWords : List Text → Text → Prop
  | single {word : Text} (hword : IsWord word) : WritesWords [word] word
  | cons {word gap t : Text} {words : List Text} (hword : IsWord word) (hgap : IsGap gap)
      (more : WritesWords words t) : WritesWords (word :: words) (word ++ gap ++ t)

/-- Some paragraphs with white space between them. -/
inductive WritesParagraphs : List (List Text) → Text → Prop
  | single {words : List Text} {t : Text} (hwords : WritesWords words t) :
      WritesParagraphs [words] t
  | cons {words : List Text} {paragraphs : List (List Text)} {t gap rest : Text}
      (hwords : WritesWords words t) (hbreak : IsBreak gap)
      (more : WritesParagraphs paragraphs rest) :
      WritesParagraphs (words :: paragraphs) (t ++ gap ++ rest)

/-- Paragraphs with white space around them. -/
inductive Writes : List (List Text) → Text → Prop
  | blank {gap : Text} (hgap : IsMargin gap) : Writes [] gap
  | paragraphs {paragraphs : List (List Text)} {before t after : Text} (hbefore : IsMargin before)
      (hparagraphs : WritesParagraphs paragraphs t) (hafter : IsMargin after) :
      Writes paragraphs (before ++ t ++ after)

/-- A text that is made of letters and white space only. -/
def IsProse (t : Text) : Prop := ∀ u ∈ t, isProseUnit u

variable {t rest word gap : Text} {words : List Text} {paragraphs : List (List Text)}

theorem isProseUnit_of_isLetter {u : CodeUnit} (h : CodeUnit.isLetter u) : isProseUnit u :=
  Bool.or_eq_true_iff.2 (.inl h)

theorem isProseUnit_of_isGapUnit {u : CodeUnit} (h : isGapUnit u) : isProseUnit u :=
  Bool.or_eq_true_iff.2 (.inr h)

theorem IsMargin.isProse (h : IsMargin gap) : IsProse gap := fun u hu =>
  isProseUnit_of_isGapUnit (h u hu)

theorem IsWord.isProse (h : IsWord word) : IsProse word := fun u hu =>
  isProseUnit_of_isLetter (h.letters u hu)

theorem IsProse.append (h : IsProse t) (h' : IsProse rest) : IsProse (t ++ rest) :=
  List.forall_mem_append.2 ⟨h, h'⟩

theorem WritesWords.isProse (h : WritesWords words t) : IsProse t := by
  induction h with
  | single hword => exact hword.isProse
  | cons hword hgap _ ih => exact (hword.isProse.append hgap.units.isProse).append ih

theorem WritesParagraphs.isProse (h : WritesParagraphs paragraphs t) : IsProse t := by
  induction h with
  | single hwords => exact hwords.isProse
  | cons hwords hbreak _ ih => exact (hwords.isProse.append hbreak.units.isProse).append ih

theorem Writes.isProse (h : Writes paragraphs t) : IsProse t := by
  cases h with
  | blank hgap => exact hgap.isProse
  | paragraphs hbefore hparagraphs hafter =>
      exact (hbefore.isProse.append hparagraphs.isProse).append hafter.isProse

/-! ### What prose does not hold -/

/-- Letters are no white space. -/
theorem isSpace_eq_false {u : CodeUnit} (h : CodeUnit.isLetter u) : CodeUnit.isSpace u = false := by
  cases hspace : CodeUnit.isSpace u with
  | false => rfl
  | true =>
      have hname :=
        CodeUnit.isIdentifierChar_eq_false_of_isBlank (CodeUnit.isBlank_of_isSpace hspace)
      rw [CodeUnit.isIdentifierChar, CodeUnit.isIdentifierStart, h] at hname
      cases hname

theorem isSpace_of_isGapUnit {u : CodeUnit} (h : isGapUnit u) : CodeUnit.isSpace u := by
  simp only [isGapUnit, Bool.or_eq_true, beq_iff_eq] at h
  rcases h with h | rfl
  · rw [CodeUnit.isSpace, h, Bool.true_or]
  · rfl

theorem isDigit_eq_false {u : CodeUnit} (h : isProseUnit u) : CodeUnit.isDigit u = false := by
  simp only [isProseUnit, isGapUnit, CodeUnit.isLetter, CodeUnit.isHorizontalSpace, CodeUnit.isDigit,
    CodeUnit.space, CodeUnit.tab, CodeUnit.lineFeed, Bool.or_eq_true, Bool.and_eq_true,
    decide_eq_true_eq, beq_iff_eq, Bool.and_eq_false_iff, decide_eq_false_iff_not,
    UInt16.le_iff_toNat_le, ← UInt16.toNat_inj, UInt16.reduceToNat] at h ⊢
  omega

/-- A unit that is neither a letter nor white space is none of prose. -/
theorem ne_of_isProseUnit {u v : CodeUnit} (h : isProseUnit u) (hv : isProseUnit v = false) :
    u ≠ v := by
  rintro rfl
  rw [h] at hv
  cases hv

/-- Lines of prose begin no list and end none. -/
theorem IsProse.noList (h : IsProse t) :
    Line.listMarker? t = none ∧ Line.endOfList? t = none := by
  have hhead : ∀ u, (t.dropWhile CodeUnit.isHorizontalSpace).head? = some u → isProseUnit u :=
    fun u hu => h u ((List.dropWhile_sublist _).subset (List.mem_of_head? hu))
  constructor
  · refine Line.listMarker?_eq_none ?_
    cases hbody : (t.dropWhile CodeUnit.isHorizontalSpace).head? with
    | none => rfl
    | some u =>
        have hu := hhead u hbody
        simp [Line.startsMarker, isDigit_eq_false hu, ne_of_isProseUnit hu (v := unit '-') (by decide),
          ne_of_isProseUnit hu (v := unit '*') (by decide),
          ne_of_isProseUnit hu (v := unit '+') (by decide)]
  · exact Line.endOfList?_eq_none fun hdot => ne_of_isProseUnit (hhead _ hdot) (by decide) rfl

theorem IsProse.isListLine (h : IsProse t) : Line.isListLine t = false := by
  rw [Line.isListLine, h.noList.1, h.noList.2]
  rfl

/-- No address and no mark stands in prose. -/
theorem IsProse.notFound (h : IsProse t) :
    Lexeme.commentLength? t = none ∧ t.head?.any Lexeme.isMark = false ∧
      Lexeme.address? t = none ∧ Lexeme.mail? t = none := by
  have hhead : ∀ u, t.head? = some u → isProseUnit u := fun u hu => h u (List.mem_of_head? hu)
  refine ⟨?_, ?_, ?_, ?_⟩
  · exact Lexeme.commentLength?_eq_none fun hopen => ne_of_isProseUnit (hhead _ hopen) (by decide) rfl
  · cases hfirst : t.head? with
    | none => rfl
    | some u =>
        have hu := hhead u hfirst
        simp [Lexeme.isMark, ne_of_isProseUnit hu (v := unit '\\') (by decide),
          ne_of_isProseUnit hu (v := unit '@') (by decide),
          ne_of_isProseUnit hu (v := unit '<') (by decide),
          ne_of_isProseUnit hu (v := unit '&') (by decide),
          ne_of_isProseUnit hu (v := unit '$') (by decide)]
  · refine Lexeme.address?_eq_none (fun hinside => ?_) fun hstarts => ?_
    · exact ne_of_isProseUnit (h _ (hinside.subset (List.mem_cons_self ..))) (by decide) rfl
    · have hdot : unit '.' ∈ units "www." := by decide
      exact ne_of_isProseUnit (h _ (hstarts.subset hdot)) (by decide) rfl
  · refine Lexeme.mail?_eq_none fun mailbox _ hstarts => ?_
    have hat := hstarts.subset (List.mem_append_right _ (List.mem_singleton_self (unit '@')))
    exact ne_of_isProseUnit (h _ hat) (by decide) rfl

/-! ### How prose is scanned -/

/-- A word ends before white space. -/
theorem word_eq (hword : IsWord word) (hrest : IsProse rest)
    (hend : rest.head?.any CodeUnit.isLetter = false) :
    Lexeme.word (word ++ rest) = { kind := .word, length := word.length, value := word } := by
  have hother : ∀ u ∈ word, ∀ v, CodeUnit.isLetter v = false → u ≠ v := by
    rintro u hu _ hv rfl
    rw [hword.letters u hu] at hv
    cases hv
  refine Lexeme.word_append (fun u hu => ?_) hword.ne_nil ?_
  · have hu' := hother u hu
    simp [Lexeme.isWordUnit, isSpace_eq_false (hword.letters u hu), hu' (unit '\\') (by decide),
      hu' (unit '@') (by decide), hu' (unit '<') (by decide), hu' (unit '&') (by decide)]
  · cases rest with
    | nil => rfl
    | cons u rest =>
        have hgap : isGapUnit u :=
          (Bool.or_eq_true_iff.1 (hrest u (List.mem_cons_self ..))).resolve_left fun hletter => by
            rw [List.head?_cons, Option.any_some, hletter] at hend
            cases hend
        rw [Lexeme.wordTail, isSpace_of_isGapUnit hgap]
        rfl

/-- White space goes on up to the next word, and no line of it belongs to a list. -/
theorem gap_append (hgap : IsMargin gap) (hrest : IsProse rest)
    (hend : rest.head?.any isGapUnit = false) (lastLine : Text) :
    ∃ last, Lexeme.gap false lastLine (gap ++ rest) =
      { length := gap.length
        lineFeeds := gap.count CodeUnit.lineFeed
        beforeList := false
        lastLine := last } := by
  induction gap generalizing lastLine with
  | nil =>
      cases rest with
      | nil => exact ⟨lastLine, rfl⟩
      | cons u rest =>
          have hletter : CodeUnit.isLetter u :=
            (Bool.or_eq_true_iff.1 (hrest u (List.mem_cons_self ..))).resolve_right fun hgap => by
              rw [List.head?_cons, Option.any_some, hgap] at hend
              cases hend
          refine ⟨lastLine, ?_⟩
          rw [List.nil_append, Lexeme.gap, isSpace_eq_false hletter]
          rfl
  | cons u gap ih =>
      obtain ⟨hu, hmore⟩ := List.forall_mem_cons.1 hgap
      have hline : Line.isListLine (gap ++ rest) = false :=
        ((IsMargin.isProse hmore).append hrest).isListLine
      rw [List.cons_append, Lexeme.gap, isSpace_of_isGapUnit hu, hline]
      by_cases hfeed : u = CodeUnit.lineFeed
      · obtain ⟨last, hlast⟩ := ih hmore (gap ++ rest)
        subst hfeed
        refine ⟨last, ?_⟩
        simp [hlast]
      · obtain ⟨last, hlast⟩ := ih hmore lastLine
        refine ⟨last, ?_⟩
        simp [hlast, hfeed]

end Prose

namespace Scanner

open Prose

variable {s : Scanner} {word gap rest : Text}

theorem reads_proseWord (hword : IsWord word) (hrest : IsProse rest)
    (hend : rest.head?.any CodeUnit.isLetter = false) (hahead : s.cursor.ahead = word ++ rest) :
    s.scan.token.kind = .word ∧ s.scan.token.value = word ∧ s.scan.cursor.ahead = rest := by
  have hprose := hword.isProse.append hrest
  obtain ⟨hmarker, hdot⟩ := hprose.noList
  obtain ⟨hcomment, hmark, haddress, hmail⟩ := hprose.notFound
  have hspace : (word ++ rest).head?.any CodeUnit.isSpace = false := by
    obtain ⟨u, word, rfl⟩ := List.exists_cons_of_ne_nil hword.ne_nil
    exact isSpace_eq_false (hword.letters u (List.mem_cons_self ..))
  have hne : s.cursor.ahead ≠ [] := by
    rw [hahead]
    exact List.append_ne_nil_of_left_ne_nil hword.ne_nil _
  have hreads := s.reads (by rw [hahead]; exact hcomment)
  rw [lexeme_eq_next hne, hahead, Lexeme.next_eq_word hmarker hdot hspace hmark haddress hmail,
    word_eq hword hrest hend] at hreads
  exact ⟨hreads.kind, hreads.value, by rw [hreads.ahead, hahead, List.drop_left' rfl]⟩

theorem reads_proseGap (hpre : s.insidePre = false) (hne : gap ≠ []) (hgap : IsMargin gap)
    (hrest : IsProse rest) (hend : rest.head?.any isGapUnit = false)
    (hahead : s.cursor.ahead = gap ++ rest) :
    s.scan.token.kind =
        (if 2 ≤ gap.count CodeUnit.lineFeed then .newParagraph else .whiteSpace) ∧
      s.scan.token.text = gap ∧ s.scan.cursor.ahead = rest := by
  have hprose := hgap.isProse.append hrest
  obtain ⟨hmarker, hdot⟩ := hprose.noList
  have hspace : (gap ++ rest).head?.any CodeUnit.isSpace := by
    obtain ⟨u, gap, rfl⟩ := List.exists_cons_of_ne_nil hne
    exact isSpace_of_isGapUnit (hgap u (List.mem_cons_self ..))
  have hsome : s.cursor.ahead ≠ [] := by
    rw [hahead]
    exact List.append_ne_nil_of_left_ne_nil hne _
  have hreads := s.reads (by rw [hahead]; exact hprose.notFound.1)
  obtain ⟨last, hlast⟩ := gap_append hgap hrest hend (gap ++ rest)
  have hnext : ∀ insideList atLineStart : Bool,
      Lexeme.next s.insidePre insideList atLineStart (gap ++ rest) =
        Lexeme.whiteSpace false insideList (gap ++ rest) := by
    intro insideList atLineStart
    rw [Lexeme.next, hspace]
    simp [hpre, Lexeme.listItem?, Lexeme.endList?, hmarker, hdot]
  rw [lexeme_eq_next hsome, hahead, hnext, Lexeme.whiteSpace, hlast] at hreads
  simp only [Bool.false_and, Bool.not_false, Bool.and_true, decide_eq_true_eq] at hreads
  refine ⟨?_, ?_, ?_⟩
  · rw [hreads.kind]
    split <;> rfl
  · rw [hreads.text]
    split <;> rw [hahead] <;> exact List.take_left' rfl
  · rw [hreads.ahead, hahead]
    split <;> exact List.drop_left' rfl

end Scanner

namespace Parser

open Prose

variable {options : Options} {s s' : Scanner} {tokens : List Token} {t rest word gap : Text}
  {words : List Text} {paragraphs : List (List Text)} {nodes : List Node}

/-- A word of letters is no name that is linked. -/
theorem looksLikeName_eq_false (hword : IsWord word) :
    looksLikeName (Text.dropWhileRight isEndPunctuation word) = false := by
  have hletters : ∀ u ∈ Text.dropWhileRight isEndPunctuation word, CodeUnit.isLetter u := by
    intro u hu
    refine hword.letters u ?_
    rw [Text.dropWhileRight, List.mem_reverse] at hu
    exact List.mem_reverse.1 ((List.dropWhile_sublist _).subset hu)
  generalize Text.dropWhileRight isEndPunctuation word = name at hletters
  have hother : ∀ v, CodeUnit.isLetter v = false → v ∉ name := by
    intro v hv hmem
    rw [hletters v hmem] at hv
    cases hv
  have hscope : Text.occursIn (units "::") name = false := by
    rw [Text.occursIn, Option.isSome_eq_false_iff, Option.isNone_iff_eq_none]
    cases hfound : Text.indexOf? (units "::") name with
    | none => rfl
    | some i =>
        have hstarts := (Text.of_indexOf?_eq_some hfound).1
        have hcolon : unit ':' ∈ units "::" := by decide
        exact absurd (List.mem_of_mem_drop (hstarts.subset hcolon)) (hother _ (by decide))
  have hcall : Text.endsWith (units "()") name = false := by
    rw [Text.endsWith, ← Bool.not_eq_true, List.isSuffixOf_iff_suffix]
    intro hsuffix
    have hparen : unit '(' ∈ units "()" := by decide
    exact hother _ (by decide) (hsuffix.subset hparen)
  have hhash : (name.head? == some (unit '#')) = false := by
    rw [beq_eq_false_iff_ne]
    exact fun hhead => hother _ (by decide) (List.mem_of_head? hhead)
  rw [looksLikeName, hscope, hcall, hhash]
  rfl

/-- The nodes of the words of a paragraph, with white space between them. -/
inductive HoldsWords : List Text → List Node → Prop
  | single (word : Text) : HoldsWords [word] [.leaf (.word word)]
  | cons (word gap : Text) {words : List Text} {nodes : List Node} (more : HoldsWords words nodes) :
      HoldsWords (word :: words) (.leaf (.word word) :: .leaf (.whiteSpace gap) :: nodes)

/-- A paragraph of the given words. -/
def IsParagraphOf (words : List Text) (n : Node) : Prop :=
  ∃ (paragraph : Paragraph) (nodes : List Node),
    HoldsWords words nodes ∧ n = .branch (.paragraph paragraph) nodes

/-- Running text is read, and sorted from one state to another. -/
structure Sorts (options : Options) (s : Scanner) (read : List Node × List Node) (s' : Scanner)
    (read' : List Node × List Node) (tokens : List Token) : Prop where
  scans : s.Scans tokens s'
  running : ∀ token ∈ tokens, IsRunning options token
  sorted : tokens.foldl sortToken read = read'

namespace Sorts

variable {read read' read'' : List Node × List Node} {s'' : Scanner} {more : List Token}

theorem refl (s : Scanner) (read : List Node × List Node) : Sorts options s read s read [] :=
  ⟨.refl s, List.forall_mem_nil _, rfl⟩

theorem trans (h : Sorts options s read s' read' tokens) (h' : Sorts options s' read' s'' read'' more) :
    Sorts options s read s'' read'' (tokens ++ more) where
  scans := h.scans.trans h'.scans
  running := List.forall_mem_append.2 ⟨h.running, h'.running⟩
  sorted := by rw [List.foldl_append, h.sorted, h'.sorted]

end Sorts

variable (options)

/-- A word is added to the paragraph it stands in. -/
theorem sorts_word (hword : IsWord word) (hrest : IsProse rest)
    (hend : rest.head?.any CodeUnit.isLetter = false) (hahead : s.cursor.ahead = word ++ rest)
    (read : List Node × List Node) :
    Sorts options s read s.scan (read.1, .leaf (.word word) :: read.2) [s.scan.token] ∧
      s.scan.cursor.ahead = rest := by
  obtain ⟨hkind, hvalue, hscan⟩ := Scanner.reads_proseWord hword hrest hend hahead
  refine ⟨⟨.single (by simp [hkind]), List.forall_mem_singleton.2 ?_, ?_⟩, hscan⟩
  · rw [IsRunning, hkind]
    exact .inr (hvalue ▸ looksLikeName_eq_false hword)
  · rw [List.foldl_cons, List.foldl_nil, sortToken, hkind]
    simp [wordNode, hkind, hvalue]

/-- White space parts two paragraphs, or stands in the paragraph it follows. -/
theorem sorts_gap (hpre : s.insidePre = false) (hne : gap ≠ []) (hgap : IsMargin gap)
    (hrest : IsProse rest) (hend : rest.head?.any isGapUnit = false)
    (hahead : s.cursor.ahead = gap ++ rest) (read : List Node × List Node) :
    Sorts options s read s.scan
        (if 2 ≤ gap.count CodeUnit.lineFeed then (addParagraph read.1 read.2, [])
          else (read.1, if read.2.isEmpty then [] else .leaf (.whiteSpace gap) :: read.2))
        [s.scan.token] ∧
      s.scan.cursor.ahead = rest := by
  obtain ⟨hkind, htext, hscan⟩ := Scanner.reads_proseGap hpre hne hgap hrest hend hahead
  refine ⟨?_, hscan⟩
  by_cases hcount : 2 ≤ gap.count CodeUnit.lineFeed
  · rw [if_pos hcount] at hkind ⊢
    refine ⟨.single (by simp [hkind]), List.forall_mem_singleton.2 ?_, ?_⟩
    · rw [IsRunning, hkind]
      trivial
    · rw [List.foldl_cons, List.foldl_nil, sortToken, hkind]
  · rw [if_neg hcount] at hkind ⊢
    refine ⟨.single (by simp [hkind]), List.forall_mem_singleton.2 ?_, ?_⟩
    · rw [IsRunning, hkind]
      trivial
    · rw [List.foldl_cons, List.foldl_nil, sortToken, hkind, ← htext]

theorem addParagraph_space (paragraphs words : List Node) (gap : Text) :
    addParagraph paragraphs (.leaf (.whiteSpace gap) :: words) = addParagraph paragraphs words :=
  rfl

/-- White space around paragraphs is not seen. -/
theorem sorts_margin (hpre : s.insidePre = false) (hgap : IsMargin gap) (hrest : IsProse rest)
    (hend : rest.head?.any isGapUnit = false) (hahead : s.cursor.ahead = gap ++ rest)
    (read : List Node × List Node) :
    ∃ s' tokens read', Sorts options s read s' read' tokens ∧ s'.cursor.ahead = rest ∧
      addParagraph read'.1 read'.2 = addParagraph read.1 read.2 ∧
      (read.2 = [] → read'.2 = []) := by
  by_cases hne : gap = []
  · subst hne
    exact ⟨s, [], read, .refl s read, hahead, rfl, id⟩
  · obtain ⟨hsorts, hscan⟩ := sorts_gap options hpre hne hgap hrest hend hahead read
    refine ⟨_, _, _, hsorts, hscan, ?_, ?_⟩
    · split
      · rfl
      · cases read.2 with
        | nil => rfl
        | cons n words => exact addParagraph_space ..
    · intro hnil
      rw [hnil]
      split <;> rfl

theorem WritesWords.head {words : List Text} {t : Text} (h : WritesWords words t) :
    ∃ u more, t = u :: more ∧ CodeUnit.isLetter u := by
  have hword : ∀ {word}, IsWord word → ∃ u more, word = u :: more ∧ CodeUnit.isLetter u := by
    intro word hword
    obtain ⟨u, more, rfl⟩ := List.exists_cons_of_ne_nil hword.ne_nil
    exact ⟨u, more, rfl, hword.letters u (List.mem_cons_self ..)⟩
  cases h with
  | single hword' => exact hword hword'
  | cons hword' hgap more =>
      obtain ⟨u, tail, rfl, hu⟩ := hword hword'
      exact ⟨u, _, rfl, hu⟩

theorem isGapUnit_eq_false {u : CodeUnit} (h : CodeUnit.isLetter u) : isGapUnit u = false := by
  cases hgap : isGapUnit u with
  | false => rfl
  | true =>
      have hspace := isSpace_eq_false h
      rw [isSpace_of_isGapUnit hgap] at hspace
      cases hspace

theorem isLetter_eq_false {u : CodeUnit} (h : isGapUnit u) : CodeUnit.isLetter u = false := by
  cases hletter : CodeUnit.isLetter u with
  | false => rfl
  | true =>
      rw [isGapUnit_eq_false hletter] at h
      cases h

/-- No letter stands where white space begins. -/
theorem head?_gap (hne : gap ≠ []) (hgap : IsMargin gap) (rest : Text) :
    (gap ++ rest).head?.any CodeUnit.isLetter = false := by
  obtain ⟨u, gap, rfl⟩ := List.exists_cons_of_ne_nil hne
  exact isLetter_eq_false (hgap u (List.mem_cons_self ..))

/-- No white space stands where words begin. -/
theorem head?_words (h : WritesWords words t) (rest : Text) :
    (t ++ rest).head?.any isGapUnit = false := by
  obtain ⟨u, more, rfl, hu⟩ := WritesWords.head h
  exact isGapUnit_eq_false hu

/-- No white space stands where paragraphs begin. -/
theorem head?_paragraphs (h : WritesParagraphs paragraphs t) (rest : Text) :
    (t ++ rest).head?.any isGapUnit = false := by
  cases h with
  | single hwords => exact head?_words hwords rest
  | cons hwords _ _ =>
      rw [List.append_assoc, List.append_assoc]
      exact head?_words hwords _

/-- The words of a paragraph are added to it. -/
theorem sorts_words (h : WritesWords words t) (hpre : s.insidePre = false) (hrest : IsProse rest)
    (hend : rest.head?.any CodeUnit.isLetter = false) (hahead : s.cursor.ahead = t ++ rest)
    (read : List Node × List Node) :
    ∃ s' tokens nodes, Sorts options s read s' (read.1, nodes.reverse ++ read.2) tokens ∧
      s'.cursor.ahead = rest ∧ HoldsWords words nodes := by
  induction h generalizing s read with
  | @single word hword =>
      obtain ⟨hsorts, hscan⟩ := sorts_word options hword hrest hend hahead read
      exact ⟨_, _, [.leaf (.word word)], hsorts, hscan, .single word⟩
  | @cons word gap t words hword hgap more ih =>
      have hprose : IsProse (t ++ rest) := more.isProse.append hrest
      rw [List.append_assoc, List.append_assoc] at hahead
      obtain ⟨hsorts, hscan⟩ := sorts_word options hword
        (hgap.units.isProse.append hprose) (head?_gap hgap.ne_nil hgap.units _) hahead read
      have hpre₁ := hsorts.scans.insidePre.trans hpre
      obtain ⟨hspace, hscan₁⟩ := sorts_gap options hpre₁ hgap.ne_nil hgap.units hprose
        (head?_words more rest) hscan (read.1, .leaf (.word word) :: read.2)
      have hcount : ¬ 2 ≤ gap.count CodeUnit.lineFeed := fun hle =>
        absurd (hle.trans hgap.count_le) (by decide)
      rw [if_neg hcount] at hspace
      obtain ⟨s', tokens, nodes, hmore, hahead', hholds⟩ :=
        ih (hspace.scans.insidePre.trans hpre₁) hscan₁
          (read.1, .leaf (.whiteSpace gap) :: .leaf (.word word) :: read.2)
      have hall := hsorts.trans (hspace.trans hmore)
      exact ⟨s', _, .leaf (.word word) :: .leaf (.whiteSpace gap) :: nodes, by simpa using hall,
        hahead', hholds.cons word gap⟩

/-- The last node of some words is a word. -/
theorem HoldsWords.addParagraph (h : HoldsWords words nodes) (paragraphs : List Node) :
    addParagraph paragraphs nodes.reverse = .branch (.paragraph {}) nodes :: paragraphs := by
  have hlast : ∃ before n, nodes = before ++ [n] ∧ n.isKind .whiteSpace = false := by
    induction h with
    | single word => exact ⟨[], _, rfl, rfl⟩
    | cons word gap _ ih =>
        obtain ⟨before, n, rfl, hn⟩ := ih
        exact ⟨_ :: _ :: before, n, rfl, hn⟩
  obtain ⟨before, n, rfl, hn⟩ := hlast
  rw [List.reverse_append, List.reverse_singleton, List.singleton_append, addParagraph_cons hn]
  simp

/-- Paragraphs are added one after the other. -/
theorem sorts_paragraphs {after : Text} (h : WritesParagraphs paragraphs t)
    (hafter : IsMargin after) (hpre : s.insidePre = false) (hahead : s.cursor.ahead = t ++ after)
    (before : List Node) :
    ∃ s' tokens read nodes, Sorts options s (before, []) s' read tokens ∧ s'.cursor.ahead = [] ∧
      List.Forall₂ IsParagraphOf paragraphs nodes ∧
      addParagraph read.1 read.2 = nodes.reverse ++ before := by
  -- one paragraph and the break behind it at a time; the last one has a margin behind it
  induction h generalizing s before with
  | @single words t hwords =>
      have hend : after.head?.any CodeUnit.isLetter = false := by
        cases after with
        | nil => rfl
        | cons u after => exact isLetter_eq_false (hafter u (List.mem_cons_self ..))
      obtain ⟨s₁, tokens₁, nodes, hsorts, hscan, hholds⟩ :=
        sorts_words options hwords hpre hafter.isProse hend hahead (before, [])
      obtain ⟨s₂, tokens₂, read, hmargin, hscan₂, hadded, -⟩ :=
        sorts_margin options (hsorts.scans.insidePre.trans hpre) hafter
          (List.forall_mem_nil _) rfl (by rw [hscan, List.append_nil])
          (before, nodes.reverse ++ [])
      refine ⟨s₂, _, read, [.branch (.paragraph {}) nodes], hsorts.trans hmargin, hscan₂,
        .cons ⟨{}, nodes, hholds, rfl⟩ .nil, ?_⟩
      rw [hadded, List.append_nil, hholds.addParagraph]
      rfl
  | @cons words paragraphs t gap rest hwords hbreak more ih =>
      have hne : gap ≠ [] := by
        rintro rfl
        exact absurd hbreak.le_count (by decide)
      have hprose : IsProse (rest ++ after) := more.isProse.append hafter.isProse
      rw [List.append_assoc, List.append_assoc] at hahead
      obtain ⟨s₁, tokens₁, nodes, hsorts, hscan, hholds⟩ :=
        sorts_words options hwords hpre (hbreak.units.isProse.append hprose)
          (head?_gap hne hbreak.units _) hahead (before, [])
      have hpre₁ := hsorts.scans.insidePre.trans hpre
      obtain ⟨hspace, hscan₁⟩ := sorts_gap options hpre₁ hne hbreak.units hprose
        (head?_paragraphs more after) hscan (before, nodes.reverse ++ [])
      rw [if_pos hbreak.le_count, List.append_nil, hholds.addParagraph] at hspace
      obtain ⟨s₂, tokens₂, read, later, hmore, hend, hall, hadded⟩ :=
        ih (hspace.scans.insidePre.trans hpre₁) hscan₁ (.branch (.paragraph {}) nodes :: before)
      rw [List.append_nil] at hsorts
      refine ⟨s₂, _, read, .branch (.paragraph {}) nodes :: later,
        hsorts.trans (hspace.trans hmore), hend, .cons ⟨{}, nodes, hholds, rfl⟩ hall, ?_⟩
      rw [hadded, List.reverse_cons, List.append_assoc]
      rfl

/-- A mark on a paragraph leaves its words alone. -/
theorem forall₂_isParagraphOf_markParagraphs (h : List.Forall₂ IsParagraphOf paragraphs nodes) :
    List.Forall₂ IsParagraphOf paragraphs (markParagraphs nodes) := by
  unfold markParagraphs markEnds
  generalize true = first
  induction h generalizing first with
  | nil => exact .nil
  | cons hparagraph _ ih =>
      obtain ⟨paragraph, nodes, hholds, rfl⟩ := hparagraph
      exact .cons ⟨_, nodes, hholds, rfl⟩ (ih false)

/-- Prose is read as its paragraphs up to the end of the comment. -/
theorem sorts_prose (h : Writes paragraphs t) (hpre : s.insidePre = false)
    (hahead : s.cursor.ahead = t) :
    ∃ s' tokens read nodes, Sorts options s ([], []) s' read tokens ∧ s'.cursor.ahead = [] ∧
      List.Forall₂ IsParagraphOf paragraphs nodes ∧ addParagraph read.1 read.2 = nodes.reverse := by
  cases h with
  | @blank gap hgap =>
      obtain ⟨s', tokens, read, hsorts, hend, hadded, -⟩ :=
        sorts_margin options hpre hgap (List.forall_mem_nil _) rfl
          (by rw [hahead, List.append_nil]) ([], [])
      exact ⟨s', tokens, read, [], hsorts, hend, .nil, hadded⟩
  | @paragraphs _ before t after hbefore hparagraphs hafter =>
      rw [List.append_assoc] at hahead
      obtain ⟨s₁, tokens₁, read₁, hmargin, hscan, hadded₁, hnone⟩ :=
        sorts_margin options hpre hbefore
          (hparagraphs.isProse.append hafter.isProse) (head?_paragraphs hparagraphs after) hahead
          ([], [])
      have hread₁ : read₁ = ([], []) := by
        have hwords := hnone rfl
        rw [hwords] at hadded₁
        exact Prod.ext hadded₁ hwords
      rw [hread₁] at hmargin
      obtain ⟨s₂, tokens₂, read, nodes, hsorts, hend, hall, hadded⟩ :=
        sorts_paragraphs options hparagraphs hafter (hmargin.scans.insidePre.trans hpre) hscan []
      exact ⟨s₂, _, read, nodes, hmargin.trans hsorts, hend, hall,
        hadded.trans (List.append_nil _)⟩

/-- Prose is read as its paragraphs, and no problem is met in it. -/
theorem parse_prose (p : Parser) {comment : Comment} (h : Writes paragraphs comment.text) :
    ∃ nodes, (p.parse comment).1.root = .branch (.root comment.singleLine) nodes ∧
      List.Forall₂ IsParagraphOf paragraphs nodes ∧ (p.parse comment).1.diagnostics = [] := by
  have hcommand : ∀ u ∈ comment.text, u ≠ unit '\\' ∧ u ≠ unit '@' := fun u hu =>
    ⟨ne_of_isProseUnit (h.isProse u hu) (by decide), ne_of_isProseUnit (h.isProse u hu) (by decide)⟩
  have hexpanded := expandAliases_of_noCommand p.options hcommand
  obtain ⟨s, tokens, read, nodes, hsorts, hend, hall, hadded⟩ :=
    sorts_prose p.options (s := Scanner.ofText comment.text) h rfl rfl
  have hkind := Scanner.kind_scan_of_atEnd hend
  have htokens : tokensOf p.options comment = tokens ++ [s.scan.token] := by
    rw [tokensOf, hexpanded]
    exact hsorts.scans.readAll hend
  obtain ⟨hroot, hdiagnostics⟩ := parse_runningText p comment (by
    rw [htokens]
    refine List.forall_mem_append.2 ⟨hsorts.running, List.forall_mem_singleton.2 ?_⟩
    rw [IsRunning, hkind]
    trivial)
  have hread : ((tokensOf p.options comment).foldl sortToken ([], [])).1 = nodes.reverse := by
    rw [htokens, List.foldl_append, hsorts.sorted, List.foldl_cons, List.foldl_nil, sortToken,
      hkind]
    exact hadded
  refine ⟨markParagraphs nodes, ?_, forall₂_isParagraphOf_markParagraphs hall,
    hdiagnostics.trans (congrArg Prod.snd hexpanded)⟩
  rw [hroot, hread, List.reverse_reverse]

end Parser

end DocMarkup
