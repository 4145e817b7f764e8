import DocMarkup.Proofs.Doc.Linking
import DocMarkup.Proofs.Doc.Marks

/-!
Sections of a document.  Where the sections right below a node never go deeper again and those below
a section lie deeper than it, each section belongs to the last one before it of a smaller level.
-/

namespace DocMarkup

/-- The level of a section. -/
def Content.sectionLevel? : Content → Option Nat
  | .sect s => some s.level
  | _ => none

/-- The nodes that list sections: whole documents and sections. -/
def Kind.holdsSections : Kind → Bool
  | root | sect => true
  | _ => false

namespace Node

/-- The level of a section. -/
def sectionLevel? (n : Node) : Option Nat := n.content.sectionLevel?

/-- The levels of the sections right below a node. -/
def sectionLevels (n : Node) : List Nat := n.children.filterMap sectionLevel?

/-- The sections right below a node do not go deeper again, and below a section they lie deeper than
it. -/
structure IsSectioned (n : Node) : Prop where
  falls : n.sectionLevels.Pairwise (· ≥ ·)
  deeper : ∀ level, n.sectionLevel? = some level → ∀ below ∈ n.sectionLevels, level < below

theorem sectionLevel?_eq_none {n : Node} (h : n.kind ≠ .sect) : n.sectionLevel? = none := by
  unfold sectionLevel? Content.sectionLevel?
  split
  next hcontent => exact absurd (congrArg Content.kind hcontent) h
  next => rfl

theorem exists_section {n : Node} (h : n.kind = .sect) : ∃ s, n.content = .sect s := by
  unfold kind at h
  cases hcontent : n.content <;> rw [hcontent] at h <;> first
    | exact ⟨_, rfl⟩
    | cases h

theorem sectionLevel?_isSome {n : Node} : n.sectionLevel?.isSome ↔ n.kind = .sect := by
  constructor
  · intro h
    by_contra hkind
    rw [sectionLevel?_eq_none hkind] at h
    cases h
  · intro h
    obtain ⟨s, hs⟩ := exists_section h
    rw [sectionLevel?, hs]
    rfl

theorem kind_of_sectionLevel? {n : Node} {level : Nat} (h : n.sectionLevel? = some level) :
    n.kind = .sect :=
  sectionLevel?_isSome.1 (Option.isSome_of_eq_some h)

theorem exists_sectionLevel? {n : Node} (hkind : n.kind.holdsSections) (hroot : n.kind ≠ .root) :
    ∃ level, n.sectionLevel? = some level := by
  refine Option.isSome_iff_exists.1 (sectionLevel?_isSome.2 ?_)
  generalize n.kind = kind at hkind hroot
  cases kind <;> first
    | rfl
    | exact absurd rfl hroot
    | cases hkind

/-- Only documents and sections hold sections, and both only among their children. -/
theorem Conforms.sect {n part : Node} (h : n.Conforms) (hpart : part ∈ n.parts)
    (hkind : part.kind = .sect) : n.kind.holdsSections ∧ part ∈ n.children := by
  have hchild := h.mem_children hpart fun kind => by rw [hkind]; cases kind <;> rfl
  have hlists := h.children part hchild
  rw [hkind] at hlists
  refine ⟨?_, hchild⟩
  generalize n.kind = kind at hlists
  cases kind <;> first
    | rfl
    | cases hlists

theorem Conforms.part_ne_root {n part : Node} (h : n.Conforms) (hpart : part ∈ n.parts) :
    part.kind ≠ .root := by
  intro hkind
  have hchild := h.mem_children hpart fun kind => by rw [hkind]; cases kind <;> rfl
  have hlists := h.children part hchild
  rw [hkind] at hlists
  generalize n.kind = kind at hlists
  cases kind <;> cases hlists

/-- Documents and sections hold nothing but children. -/
theorem Conforms.parts_eq_children {n : Node} (h : n.Conforms) (hkind : n.kind.holdsSections) :
    n.parts = n.children := by
  have htypes : n.types = [] := by
    refine List.eq_nil_iff_forall_not_mem.2 fun type htype => ?_
    rw [(h.types type htype).1] at hkind
    cases hkind
  have hheads : n.heads = [] := by
    refine List.eq_nil_iff_forall_not_mem.2 fun head hhead => ?_
    have hheads := h.heads head hhead
    generalize n.kind = kind at hkind hheads
    cases kind <;> first
      | (cases hkind; done)
      | cases hheads
  rw [parts, htypes, hheads, List.nil_append, List.nil_append]

/-- Nothing but documents and sections has a section anywhere below it. -/
theorem Everywhere.kind_ne_sect {n : Node} (hn : n.Everywhere Conforms)
    (hkind : n.kind.holdsSections = false) : n.Everywhere (·.kind ≠ .sect) := by
  induction n using part_induct with
  | node n ih =>
      refine everywhere_iff.2 ⟨?_, fun part hpart => ih part hpart (hn.part hpart) ?_⟩
      · intro hsect
        rw [hsect] at hkind
        cases hkind
      · have hroot := hn.here.part_ne_root hpart
        have hsect : part.kind ≠ .sect := by
          intro hsect
          exact absurd (hkind.symm.trans (hn.here.sect hpart hsect).1) nofun
        generalize part.kind = kind at hroot hsect
        cases kind <;> first
          | rfl
          | exact absurd rfl hroot
          | exact absurd rfl hsect

theorem sectionLevels_eq_nil {nodes : List Node} (h : ∀ n ∈ nodes, n.kind ≠ .sect) :
    nodes.filterMap sectionLevel? = [] :=
  List.filterMap_eq_nil_iff.2 fun n hn => sectionLevel?_eq_none (h n hn)

/-- Without sections below there is nothing to be seen to. -/
theorem Everywhere.isSectioned {n : Node} (hn : n.Everywhere Conforms)
    (hkind : n.kind.holdsSections = false) : n.Everywhere IsSectioned := by
  intro m hm
  have hnone : m.sectionLevels = [] := by
    refine sectionLevels_eq_nil fun child hchild => hn.kind_ne_sect hkind child ?_
    exact hm.tail (mem_parts.2 (.inr (.inr hchild)))
  exact ⟨by rw [hnone]; exact .nil, by rw [hnone]; exact fun _ _ => nofun⟩

theorem Matches.sectionLevel? {n m : Node} (h : Matches n m) :
    m.sectionLevel? = n.sectionLevel? := by
  rcases h.content with hcontent | hmarked
  · rw [Node.sectionLevel?, hcontent]
    rfl
  · have hkind : n.kind ≠ .sect := by
      intro hsect
      rw [hsect] at hmarked
      cases hmarked
    rw [sectionLevel?_eq_none hkind, sectionLevel?_eq_none (h.kind ▸ hkind)]

theorem Matches.sectionLevels {nodes nodes' : List Node} (h : List.Forall₂ Matches nodes nodes') :
    nodes'.filterMap Node.sectionLevel? = nodes.filterMap Node.sectionLevel? := by
  induction h with
  | nil => rfl
  | cons hn _ ih => rw [List.filterMap_cons, List.filterMap_cons, hn.sectionLevel?, ih]

theorem isSectioned_ignoresMarks : IgnoresMarks IsSectioned := by
  intro n m hmatches _ _ hchildren hn
  have hlevels : m.sectionLevels = n.sectionLevels := Matches.sectionLevels hchildren
  refine ⟨?_, ?_⟩
  · rw [hlevels]
    exact hn.falls
  · rw [hlevels, hmatches.sectionLevel?]
    exact hn.deeper

end Node

namespace LinkedTree

variable {t : LinkedTree} {id : Nat}

/-- The level of the section under a number. -/
def sectionLevel? (t : LinkedTree) (id : Nat) : Option Nat :=
  (t.content? id).bind Content.sectionLevel?

/-- The node that a section of a level in front of a number belongs to: the last section before it
of a smaller level, or the root. -/
def enclosing (t : LinkedTree) (level : Nat) : Nat → Nat
  | 0 => 0
  | id + 1 => if (t.sectionLevel? id).any (· < level) then id else t.enclosing level id

/-! ### Stretches of trees -/

/-- A number among those of some trees belongs to one of them. -/
theorem exists_tree_of_number (above id : Nat) (nodes : List Node) {i : Nat} (hge : id ≤ i)
    (hlt : i < id + (linkAll above id nodes).2.length) :
    ∃ before n after, nodes = before ++ n :: after ∧
      id + (linkAll above id before).2.length ≤ i ∧
      i < id + (linkAll above id before).2.length +
        (link (some above) (id + (linkAll above id before).2.length) n).length := by
  induction nodes generalizing id with
  | nil =>
      rw [linkAll, List.length_nil] at hlt
      omega
  | cons n rest ih =>
      rw [linkAll, List.length_append] at hlt
      by_cases hfirst : i < id + (link (some above) id n).length
      · exact ⟨[], n, rest, rfl, hge, hfirst⟩
      · obtain ⟨before, m, after, rfl, hge, hlt⟩ :=
          ih (id + (link (some above) id n).length) (by omega) (by omega)
        refine ⟨n :: before, m, after, rfl, ?_⟩
        rw [linkAll, List.length_append, ← Nat.add_assoc]
        exact ⟨hge, hlt⟩

/-- Trees linked one behind the other, seen from one of them. -/
theorem Holds.split {above : Nat} {before after : List Node} {n : Node}
    (h : t.Holds id (linkAll above id (before ++ n :: after)).2) :
    t.Holds id (linkAll above id before).2 ∧
      t.Links (some above) (id + (linkAll above id before).2.length) n := by
  rw [linkAll_append] at h
  dsimp only at h
  exact ⟨h.left, h.right.left⟩

/-- Every number of a tree but the first belongs to one of its parts. -/
theorem Links.exists_part {above : Option Nat} {n : Node} (h : t.Links above id n) {i : Nat}
    (hgt : id < i) (hlt : i < id + (link above id n).length) :
    ∃ before part after start, n.parts = before ++ part :: after ∧
      start = id + 1 + (linkAll id (id + 1) before).2.length ∧
      t.Holds (id + 1) (linkAll id (id + 1) before).2 ∧ t.Links (some id) start part ∧
      start ≤ i ∧ i < start + (link (some id) start part).length := by
  obtain ⟨first, hlink, -⟩ := exists_link above id n
  rw [Links, hlink] at h
  rw [hlink, List.length_cons] at hlt
  obtain ⟨before, part, after, hparts, hnumber⟩ :=
    exists_tree_of_number id (id + 1) n.parts hgt (by omega)
  rw [hparts] at h
  obtain ⟨hbefore, hpart⟩ := h.tail.split
  exact ⟨before, part, after, _, hparts, rfl, hbefore, hpart, hnumber⟩

theorem Links.sectionLevel? {above : Option Nat} {n : Node} (h : t.Links above id n) :
    t.sectionLevel? id = n.sectionLevel? := by
  rw [LinkedTree.sectionLevel?, h.content?]
  rfl

/-! ### Levels -/

/-- No section of a tree is of a smaller level than its root may be. -/
theorem Links.le_sectionLevel {n : Node} (hn : n.Everywhere Node.Conforms)
    (hsectioned : n.Everywhere Node.IsSectioned) (hroot : n.kind ≠ .root) {low : Nat}
    (hlow : ∀ level, n.sectionLevel? = some level → low ≤ level) {above : Option Nat}
    (h : t.Links above id n) {i : Nat} (hge : id ≤ i)
    (hlt : i < id + (link above id n).length) {level : Nat}
    (hlevel : t.sectionLevel? i = some level) : low ≤ level := by
  induction n using Node.part_induct generalizing above id low with
  | node n ih =>
      rcases Nat.eq_or_lt_of_le hge with rfl | hgt
      · rw [h.sectionLevel?] at hlevel
        exact hlow level hlevel
      · obtain ⟨before, part, after, start, hparts, -, -, hpart, hge, hlt⟩ :=
          h.exists_part hgt hlt
        have hmem : part ∈ n.parts := by simp [hparts]
        refine ih part hmem (hn.part hmem) (hsectioned.part hmem)
          (hn.here.part_ne_root hmem) ?_ hpart hge hlt
        intro below hbelow
        obtain ⟨hkind, hchild⟩ := hn.here.sect hmem (Node.kind_of_sectionLevel? hbelow)
        obtain ⟨own, hown⟩ := Node.exists_sectionLevel? hkind hroot
        have hdeeper := hsectioned.here.deeper own hown below
          (List.mem_filterMap.2 ⟨part, hchild, hbelow⟩)
        exact Nat.le_of_lt (Nat.lt_of_le_of_lt (hlow own hown) hdeeper)

/-- Between a section and the node it belongs to there is no section of a smaller level. -/
theorem Links.exists_above {n : Node} (hn : n.Everywhere Node.Conforms)
    (hsectioned : n.Everywhere Node.IsSectioned) {above : Option Nat} (h : t.Links above id n)
    {i : Nat} (hgt : id < i) (hlt : i < id + (link above id n).length) {level : Nat}
    (hlevel : t.sectionLevel? i = some level) :
    ∃ parent < i, t.above? i = some parent ∧
      ((∃ around < level, t.sectionLevel? parent = some around) ∨
        parent = id ∧ n.kind = .root) ∧
      ∀ between, parent < between → between < i → ∀ other,
        t.sectionLevel? between = some other → level ≤ other := by
  induction n using Node.part_induct generalizing above id with
  | node n ih =>
      obtain ⟨before, part, after, start, hparts, hstart, hbefore, hpart, hge, hlt⟩ :=
        h.exists_part hgt hlt
      have hmem : part ∈ n.parts := by simp [hparts]
      rcases Nat.eq_or_lt_of_le hge with rfl | hgtPart
      · -- the section stands right below the node
        rw [hpart.sectionLevel?] at hlevel
        obtain ⟨hkind, hchild⟩ := hn.here.sect hmem (Node.kind_of_sectionLevel? hlevel)
        refine ⟨id, hgt, hpart.above?, ?_, ?_⟩
        · by_cases hroot : n.kind = .root
          · exact .inr ⟨rfl, hroot⟩
          · obtain ⟨own, hown⟩ := Node.exists_sectionLevel? hkind hroot
            refine .inl ⟨own, ?_, h.sectionLevel?.trans hown⟩
            exact hsectioned.here.deeper own hown level
              (List.mem_filterMap.2 ⟨part, hchild, hlevel⟩)
        · intro between hafter hbetween other hother
          obtain ⟨earlier, sibling, later, hsiblings, hge, hlt⟩ :=
            exists_tree_of_number id (id + 1) before hafter (hstart ▸ hbetween)
          have hsibling := (hsiblings ▸ hbefore).split.2
          have hsiblingBefore : sibling ∈ before := by simp [hsiblings]
          have hsiblingMem : sibling ∈ n.parts := by simp [hparts, hsiblingBefore]
          refine hsibling.le_sectionLevel (hn.part hsiblingMem) (hsectioned.part hsiblingMem)
            (hn.here.part_ne_root hsiblingMem) ?_ hge hlt hother
          intro first hfirst
          have hfalls := hsectioned.here.falls
          rw [Node.sectionLevels, ← hn.here.parts_eq_children hkind, hparts,
            List.filterMap_append, List.pairwise_append] at hfalls
          exact hfalls.2.2 first (List.mem_filterMap.2 ⟨sibling, hsiblingBefore, hfirst⟩)
            level (List.mem_filterMap.2 ⟨part, List.mem_cons_self, hlevel⟩)
      · obtain ⟨parent, hparent, habove, haround, hbetween⟩ :=
          ih part hmem (hn.part hmem) (hsectioned.part hmem) hpart hgtPart hlt
        refine ⟨parent, hparent, habove, .inl (haround.resolve_right ?_), hbetween⟩
        exact fun hroot => hn.here.part_ne_root hmem hroot.2

/-! ### The section around a section -/

theorem enclosing_eq {level parent id : Nat} (hlt : parent < id)
    (hbetween : ∀ between, parent < between → between < id → ∀ other,
      t.sectionLevel? between = some other → level ≤ other)
    (hparent : (∃ around < level, t.sectionLevel? parent = some around) ∨
      parent = 0 ∧ t.sectionLevel? parent = none) : t.enclosing level id = parent := by
  induction id with
  | zero => exact absurd hlt (Nat.not_lt_zero _)
  | succ id ih =>
      rw [enclosing]
      rcases Nat.eq_or_lt_of_le (Nat.le_of_lt_succ hlt) with rfl | hlt
      · rcases hparent with ⟨around, haround, hlevel⟩ | ⟨rfl, hnone⟩
        · rw [if_pos (by simpa [hlevel] using haround)]
        · rw [if_neg (by simp [hnone]), enclosing]
      · rw [if_neg ?_]
        · exact ih hlt fun between hafter hbefore => hbetween between hafter (by omega)
        · intro hsmaller
          obtain ⟨other, hother, hsmaller⟩ := (Option.any_eq_true _ _).1 hsmaller
          have hge := hbetween id hlt (Nat.lt_succ_self id) other hother
          have hlt : other < level := by simpa using hsmaller
          omega

/-- Every section of a document belongs to the last one before it of a smaller level, or to the
document itself. -/
theorem above?_eq_enclosing {root : Node} (hkind : root.kind = .root)
    (hroot : root.Everywhere Node.Conforms) (hsectioned : root.Everywhere Node.IsSectioned)
    {level : Nat} (hlevel : (ofNode root).sectionLevel? id = some level) :
    (ofNode root).above? id = some ((ofNode root).enclosing level id) ∧
      ∀ around, (ofNode root).sectionLevel? ((ofNode root).enclosing level id) = some around →
        around < level := by
  have hlinks : (ofNode root).Links none 0 root := holds_ofNode root
  have hnone : (ofNode root).sectionLevel? 0 = none := by
    rw [hlinks.sectionLevel?]
    exact Node.sectionLevel?_eq_none (by rw [hkind]; nofun)
  have hlt : id < 0 + (link none 0 root).length := by
    by_contra hge
    have hget : (ofNode root).get? id = none := by
      rw [get?, ofNode, List.getElem?_toArray]
      exact List.getElem?_eq_none (by omega)
    rw [sectionLevel?, content?, hget] at hlevel
    cases hlevel
  have hpos : 0 < id := by
    rcases Nat.eq_zero_or_pos id with rfl | hpos
    · rw [hnone] at hlevel
      cases hlevel
    · exact hpos
  obtain ⟨parent, hparent, habove, haround, hbetween⟩ :=
    hlinks.exists_above hroot hsectioned hpos hlt hlevel
  have haround : (∃ around < level, (ofNode root).sectionLevel? parent = some around) ∨
      parent = 0 ∧ (ofNode root).sectionLevel? parent = none := by
    refine haround.imp_right ?_
    rintro ⟨rfl, -⟩
    exact ⟨rfl, hnone⟩
  rw [enclosing_eq hparent hbetween haround]
  refine ⟨habove, ?_⟩
  rintro around hlevel
  obtain ⟨_, hlt, hsome⟩ | ⟨-, hnone⟩ := haround
  · rwa [Option.some.inj (hlevel.symm.trans hsome)]
  · cases hlevel.symm.trans hnone

end LinkedTree

end DocMarkup
