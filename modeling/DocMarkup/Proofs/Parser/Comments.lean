import Mathlib.Data.List.Nodup
import DocMarkup.Proofs.Parser.Counting

/-!
One parser, many comments.  What is read of a comment does not depend on the comments before it,
apart from the numbers of cross-reference items and formulas: those go on from comment to comment,
in the order in which their nodes appear.
-/

namespace DocMarkup.Parser

namespace Machine

variable {m m' : Machine}

/-! ### Runs -/

/-- A step drops no number, so no number ever stands where it may be dropped. -/
theorem run_settled (hm : m.Ready) (hconforms : m.Conforms)
    (hclean : ∀ entry ∈ m.entries, entry.2 = false) (n : Nat) : (run n m).Settled := by
  induction n with
  | zero => exact ⟨hm.stacked, hconforms.sound, hclean⟩
  | succ n ih =>
      obtain ⟨contents, -, hentries⟩ := (step_counts ih).ledger
      rw [← run_succ hm] at hentries
      refine ⟨(run_ready hm _).stacked, (run_conforms hm hconforms _).sound, ?_⟩
      rw [hentries]
      refine List.forall_mem_append.2 ⟨ih.clean, fun entry hentry => ?_⟩
      obtain ⟨content, -, rfl⟩ := List.mem_map.1 hentry
      rfl

/-- The numbers given in a run are in the order of what it has read. -/
theorem run_numbers (hm : m.Ready) (hconforms : m.Conforms)
    (hclean : ∀ entry ∈ m.entries, entry.2 = false) (n : Nat) :
    ∃ contents, Numbers m.numbering contents (run n m).numbering ∧
      (run n m).entries = m.entries ++ contents.map (·, false) := by
  induction n with
  | zero => exact ⟨[], .nil _, (List.append_nil _).symm⟩
  | succ n ih =>
      obtain ⟨contents, hnumbers, hentries⟩ := ih
      obtain ⟨more, hmore, hgiven⟩ := (step_counts (run_settled hm hconforms hclean n)).ledger
      rw [run_succ hm]
      refine ⟨contents ++ more, hnumbers.append hmore, ?_⟩
      rw [hgiven, hentries, List.map_append, List.append_assoc]

/-- Two machines that differ in numbers only do the same. -/
theorem run_unnumber (hm : m.Ready) (hconforms : m.Conforms)
    (hclean : ∀ entry ∈ m.entries, entry.2 = false) (hm' : m'.Ready) (hconforms' : m'.Conforms)
    (hclean' : ∀ entry ∈ m'.entries, entry.2 = false) (h : m.unnumber = m'.unnumber) (n : Nat) :
    (run n m).unnumber = (run n m').unnumber := by
  induction n with
  | zero => exact h
  | succ n ih =>
      have hhere := (step_counts (run_settled hm hconforms hclean n)).unnumber
      have hthere := (step_counts (run_settled hm' hconforms' hclean' n)).unnumber
      rw [run_succ hm, run_succ hm', ← hhere, ← hthere, ih]

end Machine

/-! ### Comments -/

/-- The numbers a parser has given. -/
def numbering (p : Parser) : Numbering := ⟨p.items, p.formulas⟩

theorem entries_start (p : Parser) (setting : Setting) : (p.start setting).entries = [] := rfl

theorem start_clean (p : Parser) (setting : Setting) :
    ∀ entry ∈ (p.start setting).entries, entry.2 = false := by
  rw [entries_start]
  exact List.forall_mem_nil _

theorem numbering_parse (p : Parser) (comment : Comment) :
    (p.parse comment).2.numbering = (p.final comment).numbering := by
  have hitems : (reportOpenStyles (p.final comment)).numbering = (p.final comment).numbering := by
    rw [reportOpenStyles_eq]
    rfl
  exact hitems

/-- The numbers of a comment go on from those before it, in the order of its tree. -/
theorem parse_numbers (p : Parser) (comment : Comment) :
    Numbers p.numbering (p.parse comment).1.root.numbered (p.parse comment).2.numbering := by
  have hready := start_ready p (settingOf p.options comment (expandAliases p.options comment).1)
  obtain ⟨f, hstack, hkind⟩ :=
    (final_ready p comment).stack_of_finished (final_finished p comment)
  obtain ⟨contents, hnumbers, hentries⟩ :=
    Machine.run_numbers hready (start_conforms p _) (start_clean p _) _
  have hsettled : (p.final comment).Settled :=
    Machine.run_settled hready (start_conforms p _) (start_clean p _) _
  obtain ⟨hsound, hclean⟩ := hsettled.frame (f := f) (by rw [hstack]; exact List.mem_singleton_self f)
  have hshown : (p.parse comment).1.root.numbered = contents := by
    have hgiven : f.entries = contents.map (·, false) := by
      have hfinal : (p.final comment).entries = f.entries := by
        rw [Machine.entries, hstack]
        simp
      rw [← hfinal]
      exact hentries
    have hroot := parse_root p comment
    rw [hstack] at hroot
    rw [hroot]
    show f.toNode.numbered = contents
    rw [Frame.numbered_toNode hsound.headed]
    have hboth := hclean.entries_eq.symm.trans hgiven
    simpa [Function.comp_def] using congrArg (List.map Prod.fst) hboth
  rw [hshown, numbering_parse]
  exact hnumbers

/-- Parsers that differ in the numbers they have given read a comment alike. -/
theorem parse_unnumber {p q : Parser} (h : p.options = q.options) (comment : Comment) :
    (p.parse comment).1.root.unnumber = (q.parse comment).1.root.unnumber ∧
      (p.parse comment).1.events = (q.parse comment).1.events ∧
      (p.parse comment).1.aliasDiagnostics = (q.parse comment).1.aliasDiagnostics := by
  have hfinal : (p.final comment).unnumber = (q.final comment).unnumber := by
    unfold final
    rw [h]
    exact Machine.run_unnumber (start_ready p _) (start_conforms p _) (start_clean p _)
      (start_ready q _) (start_conforms q _) (start_clean q _) rfl _
  refine ⟨?_, ?_, by rw [show (p.parse comment).1.aliasDiagnostics =
    (expandAliases p.options comment).2 from rfl, h]; rfl⟩
  · have hroot : ∀ r : Parser, (r.parse comment).1.root.unnumber =
        ((r.final comment).unnumber.stack.getLast?.map Frame.toNode).getD default := by
      intro r
      rw [parse_root, Machine.stack_unnumber]
      obtain ⟨f, hstack, -⟩ :=
        (final_ready r comment).stack_of_finished (final_finished r comment)
      rw [hstack]
      exact (Machine.toNode_unnumber f).symm
    rw [hroot, hroot, hfinal]
  · have hevents : ∀ r : Parser, (r.parse comment).1.events =
        (r.final comment).unnumber.journal.reverse ++
          (r.final comment).unnumber.reopening.map (openStyleReport (r.final comment).unnumber) :=
      fun r => parse_events r comment
    rw [hevents, hevents, hfinal]

/-- What comes of some comments, read one after the other, and the parser after them. -/
def parseAll (p : Parser) : List Comment → List Result × Parser
  | [] => ([], p)
  | comment :: rest =>
    let (result, p) := p.parse comment
    let (results, p) := p.parseAll rest
    (result :: results, p)

/-- The contents with numbers in the trees of some comments, in the order in which they appear. -/
def numberedIn (results : List Result) : List Content := results.flatMap (·.root.numbered)

theorem parseAll_numbers (p : Parser) (comments : List Comment) :
    Numbers p.numbering (numberedIn (p.parseAll comments).1) (p.parseAll comments).2.numbering ∧
      (p.parseAll comments).2.options = p.options := by
  induction comments generalizing p with
  | nil => exact ⟨.nil _, rfl⟩
  | cons comment rest ih =>
      obtain ⟨hrest, hoptions⟩ := ih (p.parse comment).2
      refine ⟨?_, hoptions⟩
      exact (parse_numbers p comment).append hrest

/-- Formulas that are numbered by their places have the same number when they are the same. -/
theorem id_eq_iff_text_eq {formulas : List Text} (hformulas : formulas.Nodup) {f g : Formula}
    (hf : formulas[f.id]? = some f.text) (hg : formulas[g.id]? = some g.text) :
    f.id = g.id ↔ f.text = g.text := by
  obtain ⟨hlt, hfound⟩ := List.getElem?_eq_some_iff.1 hf
  obtain ⟨hlt', hfound'⟩ := List.getElem?_eq_some_iff.1 hg
  rw [← hfound, ← hfound']
  exact (List.Nodup.getElem_inj_iff hformulas).symm

/-- Whatever comments were read before, a comment is read as a new parser would read it, except that
the numbers of its cross-reference items are raised by the number of the items before it, and its
formulas are numbered anew.  Throughout all comments items have the numbers from one on, in the order
in which they appear; formulas have one number exactly when they are the same, and their numbers are
those from zero on, in the order in which they first appear. -/
theorem parse_after_comments (options : Options) (earlier : List Comment) (comment : Comment) :
    let fresh : Parser := { options }
    let (before, parser) := fresh.parseAll earlier
    let (result, parser') := parser.parse comment
    let alone := (fresh.parse comment).1
    let itemsBefore := (numberedIn before).filterMap Content.itemId?
    let shown := numberedIn (before ++ [result])
    let items := shown.filterMap Content.itemId?
    let formulas := shown.filterMap Content.formula?
    result = { alone with root := alone.root.renumber itemsBefore.length parser'.formulas } ∧
      items = List.range' 1 items.length ∧
      (∀ f ∈ formulas, ∀ g ∈ formulas, f.id = g.id ↔ f.text = g.text) ∧
      (formulas.map Formula.id).eraseDups = List.range parser'.formulas.length := by
  intro fresh
  obtain ⟨hbefore, hoptions⟩ := parseAll_numbers fresh earlier
  generalize fresh.parseAll earlier = read at hbefore hoptions
  obtain ⟨before, parser⟩ := read
  have hhere := parse_numbers parser comment
  have halone := parse_numbers fresh comment
  obtain ⟨htree, hevents, haliases⟩ := parse_unnumber hoptions comment
  have hfailure := (parse_failure parser comment).trans (parse_failure fresh comment).symm
  dsimp only at hbefore ⊢
  generalize parser.parse comment = parsed at hhere htree hevents haliases hfailure ⊢
  obtain ⟨result, parser'⟩ := parsed
  dsimp only at hhere htree hevents haliases hfailure ⊢
  -- the comments before this one and this one are numbered as one
  have hall : Numbers fresh.numbering (numberedIn (before ++ [result])) parser'.numbering := by
    rw [numberedIn, List.flatMap_append, List.flatMap_singleton]
    exact hbefore.append hhere
  obtain ⟨hstarts, hnodup, -⟩ := hbefore.formulas List.nodup_nil
  obtain ⟨-, hnodup', hplaces⟩ := hall.formulas List.nodup_nil
  refine ⟨?_, ?_, fun f hf g hg => ?_, ?_⟩
  · obtain ⟨n, hitems, hids⟩ := hbefore.itemIds
    have hcount : parser.items = fresh.numbering.items +
        ((numberedIn before).filterMap Content.itemId?).length := by
      rw [hids, List.length_range']
      exact hitems
    have hcontents := congrArg Node.numbered htree.symm
    rw [Node.numbered_unnumber, Node.numbered_unnumber] at hcontents
    have hnumbered := halone.eq_map_renumber hhere hcontents hcount hnodup
    have hroot := Node.eq_mapContent_of_numbered (fun _ => Content.renumber_eq) htree.symm hnumbered
    cases result
    simp only at hevents haliases hfailure hroot
    rw [hevents, haliases, hfailure, hroot]
    rfl
  · obtain ⟨n, -, hids⟩ := hall.itemIds
    rw [hids, List.length_range']
    rfl
  · exact id_eq_iff_text_eq hnodup' (hplaces f hf).1 (hplaces g hg).1
  · exact hall.formulaIds List.nodup_nil

end DocMarkup.Parser
