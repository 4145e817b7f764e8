import DocMarkup.Proofs.Alias.Reading

/-!
The expansion of aliases as a tree.  What is read at once is kept, or it is a reference whose value
is expanded in its place; the text that expansion writes and the troubles it meets are those of the
tree, from left to right.
-/

namespace DocMarkup

namespace AliasTable

/-- The key of the definition that a reference asks for. -/
def Reference.key (found : Reference) : Text :=
  Alias.key found.name (Whole.ofNat found.argumentCount)

/-- The value of a definition with the arguments of a reference in it. -/
def Reference.filled (found : Reference) (value : Text) : Text :=
  match found.arguments with
  | some arguments => Alias.substitute value arguments
  | none => value

/-- What becomes of a piece of text: it is kept, or a value stands in its place. -/
inductive Part where
  | kept (text : Text) (troubles : List Trouble)
  | entered (key : Text) (parts : List Part)

mutual

/-- What is gathered from the pieces that a part keeps. -/
def Part.gather {α : Type} (select : Text → List Trouble → List α) : Part → List α
  | .kept text troubles => select text troubles
  | .entered _ parts => gather select parts

/-- What is gathered from the pieces that parts keep, from left to right. -/
def gather {α : Type} (select : Text → List Trouble → List α) : List Part → List α
  | [] => []
  | part :: rest => part.gather select ++ gather select rest

end

/-- The text that parts write. -/
def textOf (parts : List Part) : Text := gather (fun text _ => text) parts

/-- The troubles that parts meet. -/
def troublesOf (parts : List Part) : List Trouble := gather (fun _ troubles => troubles) parts

/-- The pieces that parts keep. -/
def keptOf (parts : List Part) : List Text := gather (fun text _ => [text]) parts

theorem gather_eq_flatMap {α : Type} (select : Text → List Trouble → List α)
    (parts : List Part) : gather select parts = parts.flatMap (Part.gather select) := by
  induction parts with
  | nil => rfl
  | cons part parts ih => rw [gather, ih, List.flatMap_cons]

/-- The trouble of a reference that no definition has the arguments for. -/
def Reference.wrong (found : Reference) (place : Nat) : List Trouble :=
  if found.wrongCount then
    [⟨.aliasArgumentCount found.name found.argumentCount, found.name, place⟩]
  else []

/-- The trouble of a reference that is not followed any more. -/
def Reference.recursive (found : Reference) (place : Nat) : List Trouble :=
  [⟨.recursiveAlias found.name, found.name, place⟩]

/-- What becomes of a piece of text that is read at once. -/
def part (table : AliasTable) (depth : Nat) (active : List Text) (origin : Option Nat)
    (piece : Nat × Text) : Part :=
  match table.lead piece.2 with
  | .single => .kept piece.2 []
  | .escape => .kept piece.2 []
  | .command found =>
    let place := origin.getD piece.1
    match found.value with
    | none => .kept piece.2 (found.wrong place)
    | some value =>
      if active.contains found.key then .kept piece.2 (found.recursive place)
      else
        match depth with
        | 0 => .kept piece.2 (found.recursive place)
        | depth + 1 =>
          .entered found.key ((table.cuts 0 (found.filled value)).map
            (table.part depth (found.key :: active) (some place)))

/-- What becomes of a text. -/
def parts (table : AliasTable) (depth : Nat) (active : List Text) (origin : Option Nat)
    (offset : Nat) (t : Text) : List Part :=
  (table.cuts offset t).map (table.part depth active origin)

section

variable {table : AliasTable} {depth : Nat} {active : List Text} {origin : Option Nat}
  {piece : Nat × Text} {found : Reference} {value : Text}

/-- What a piece becomes, with the parts of the value that is entered. -/
theorem part_eq (table : AliasTable) (depth : Nat) (active : List Text) (origin : Option Nat)
    (piece : Nat × Text) :
    table.part depth active origin piece =
      match table.lead piece.2 with
      | .single => .kept piece.2 []
      | .escape => .kept piece.2 []
      | .command found =>
        match found.value with
        | none => .kept piece.2 (found.wrong (origin.getD piece.1))
        | some value =>
          if active.contains found.key then
            .kept piece.2 (found.recursive (origin.getD piece.1))
          else
            match depth with
            | 0 => .kept piece.2 (found.recursive (origin.getD piece.1))
            | depth + 1 =>
              .entered found.key (table.parts depth (found.key :: active)
                (some (origin.getD piece.1)) 0 (found.filled value)) := by
  rw [part]
  rfl

theorem part_of_single (h : table.lead piece.2 = .single) :
    table.part depth active origin piece = .kept piece.2 [] := by
  rw [part_eq, h]

theorem part_of_escape (h : table.lead piece.2 = .escape) :
    table.part depth active origin piece = .kept piece.2 [] := by
  rw [part_eq, h]

theorem part_of_noValue (h : table.lead piece.2 = .command found) (hvalue : found.value = none) :
    table.part depth active origin piece = .kept piece.2 (found.wrong (origin.getD piece.1)) := by
  simp only [part_eq, h, hvalue]

theorem part_of_active (h : table.lead piece.2 = .command found)
    (hvalue : found.value = some value) (hactive : active.contains found.key = true) :
    table.part depth active origin piece =
      .kept piece.2 (found.recursive (origin.getD piece.1)) := by
  simp only [part_eq, h, hvalue, hactive, if_true]

theorem part_zero (h : table.lead piece.2 = .command found) (hvalue : found.value = some value) :
    table.part 0 active origin piece =
      .kept piece.2 (found.recursive (origin.getD piece.1)) := by
  simp only [part_eq, h, hvalue, ite_self]

theorem part_succ (h : table.lead piece.2 = .command found) (hvalue : found.value = some value)
    (hactive : ¬active.contains found.key = true) :
    table.part (depth + 1) active origin piece =
      .entered found.key (table.parts depth (found.key :: active)
        (some (origin.getD piece.1)) 0 (found.filled value)) := by
  simp only [part_eq, h, hvalue, hactive]
  rfl

end

/-- A reference with a value has the right number of arguments. -/
theorem reference_wrongCount {table : AliasTable} {name tail value : Text}
    (h : (table.reference name tail).value = some value) :
    (table.reference name tail).wrongCount = false := by
  unfold reference at h ⊢
  grind

@[simp] theorem parts_nil (table : AliasTable) (depth : Nat) (active : List Text)
    (origin : Option Nat) (offset : Nat) : table.parts depth active origin offset [] = [] := by
  rw [parts, cuts, List.map_nil]

theorem parts_of_ne_nil {table : AliasTable} {depth : Nat} {active : List Text}
    {origin : Option Nat} {offset : Nat} {t : Text} (hne : t ≠ []) :
    table.parts depth active origin offset t =
      table.part depth active origin (offset, t.take (table.lead t).length) ::
        table.parts depth active origin (offset + (table.lead t).length)
          (t.drop (table.lead t).length) := by
  obtain ⟨u, rest, rfl⟩ := List.exists_cons_of_ne_nil hne
  rw [parts, cuts, List.map_cons, parts]

theorem named_key (table : AliasTable) (t : Text) :
    (table.named t).key = Alias.key (t.takeWhile CodeUnit.isIdentifierChar)
      (Whole.ofNat (table.named t).argumentCount) := by
  rw [Reference.key]
  congr 1
  exact reference_name ..

theorem named_recursive (table : AliasTable) (t : Text) (place : Nat) :
    (table.named t).recursive place =
      [⟨.recursiveAlias (t.takeWhile CodeUnit.isIdentifierChar),
        t.takeWhile CodeUnit.isIdentifierChar, place⟩] := by
  rw [Reference.recursive, named, reference_name]

/-- The part a text begins with, and what is left, read off what the text begins with. -/
theorem parts_of_lead {table : AliasTable} {depth : Nat} {active : List Text}
    {origin : Option Nat} {offset : Nat} {u : CodeUnit} {rest : Text} {lead : Lead}
    (h : table.lead (u :: rest) = lead) :
    ∃ piece, piece = (u :: rest).take lead.length ∧ table.lead piece = lead ∧
      table.parts depth active origin offset (u :: rest) =
        table.part depth active origin (offset, piece) ::
          table.parts depth active origin (offset + max 1 lead.length)
            (rest.drop (lead.length - 1)) := by
  subst h
  have hpos := table.lead_length_pos (u :: rest)
  refine ⟨_, rfl, table.lead_take (List.cons_ne_nil u rest), ?_⟩
  rw [parts_of_ne_nil (List.cons_ne_nil u rest), Nat.max_eq_right hpos]
  congr 2
  obtain ⟨n, hn⟩ := Nat.exists_eq_add_of_lt hpos
  rw [hn, Nat.zero_add, List.drop_succ_cons, Nat.add_sub_cancel]

/-- Expansion writes the text of the parts and meets their troubles. -/
theorem expandFrom_eq (table : AliasTable) (depth : Nat) (active : List Text)
    (origin : Option Nat) (offset : Nat) (t : Text) :
    table.expandFrom depth active origin offset t =
      (textOf (table.parts depth active origin offset t),
        troublesOf (table.parts depth active origin offset t)) := by
  fun_induction AliasTable.expandFrom table depth active origin offset t
  -- the last four cases are what may become of a reference that has a name
  case case1 =>
    rw [parts_nil]
    rfl
  case case2 hu more troubles hmore ih =>
    obtain ⟨piece, hpiece, hlead, hparts⟩ := parts_of_lead (lead_of_noSign hu)
    rw [hparts, part_of_single hlead, hpiece]
    cases hmore.symm.trans ih
    rfl
  case case3 hu hescape more troubles hmore ih =>
    obtain ⟨piece, hpiece, hlead, hparts⟩ := parts_of_lead (lead_of_escape hu hescape)
    rw [hparts, part_of_escape hlead, hpiece]
    cases hmore.symm.trans ih
    rfl
  case case4 hu hescape hname more troubles hmore ih =>
    obtain ⟨piece, hpiece, hlead, hparts⟩ :=
      parts_of_lead (lead_of_noName hu hescape (by simpa using hname))
    rw [hparts, part_of_single hlead, hpiece]
    cases hmore.symm.trans ih
    rfl
  case case5 hu hescape hname name found place more troubles hmore written wrong hvalue ih =>
    obtain ⟨piece, hpiece, hlead, hparts⟩ :=
      parts_of_lead (lead_of_name hu hescape (by simpa using hname))
    have hwrong : wrong = found.wrong place := by
      unfold wrong Reference.wrong
      rw [reference_name table name]
      rfl
    rw [hparts, part_of_noValue hlead hvalue, hpiece, hwrong]
    cases hmore.symm.trans ih
    rfl
  case case6 hu hescape hname name found place more troubles hmore written wrong value hvalue key
      hactive ih =>
    obtain ⟨piece, hpiece, hlead, hparts⟩ :=
      parts_of_lead (lead_of_name hu hescape (by simpa using hname))
    have hwrong : wrong = [] := if_neg (by simp [found, reference_wrongCount hvalue])
    rw [hparts, part_of_active hlead hvalue ((named_key table _).symm ▸ hactive),
      hpiece, hwrong]
    cases hmore.symm.trans ih
    exact congrArg (fun own => (written ++ _, own ++ _)) (named_recursive table _ place).symm
  case case7 hu hescape hname name found place more troubles written wrong value hvalue key
      hactive hmore ih =>
    obtain ⟨piece, hpiece, hlead, hparts⟩ :=
      parts_of_lead (lead_of_name hu hescape (by simpa using hname))
    have hwrong : wrong = [] := if_neg (by simp [found, reference_wrongCount hvalue])
    rw [hparts, part_zero hlead hvalue, hpiece, hwrong]
    cases hmore.symm.trans ih
    exact congrArg (fun own => (written ++ _, own ++ _)) (named_recursive table _ place).symm
  case case8 hu hescape hname name found place more troubles wrong value hvalue key hactive depth
      substituted inner innerTroubles hinner hmore ih ihinner =>
    obtain ⟨piece, -, hlead, hparts⟩ :=
      parts_of_lead (lead_of_name hu hescape (by simpa using hname))
    have hwrong : wrong = [] := if_neg (by simp [found, reference_wrongCount hvalue])
    have hkey : found.key = key := named_key table _
    rw [hparts, part_succ hlead hvalue (hkey.symm ▸ hactive), hwrong, hkey]
    cases hmore.symm.trans ih
    cases hinner.symm.trans ihinner
    rfl

/-- The parts of a whole text. -/
def tree (table : AliasTable) (t : Text) : List Part := table.parts maxDepth [] none 0 t

theorem expand_eq (table : AliasTable) (t fileName : Text) :
    table.expand t fileName =
      (textOf (table.tree t), (troublesOf (table.tree t)).map fun trouble =>
        trouble.problem.toDiagnostic (some trouble.name) fileName
          (Text.lineOf t trouble.offset : Nat) trouble.offset trouble.offset) := by
  rw [expand, expandFrom_eq, tree]

/-! ### What becomes of a piece -/

/-- All that can become of a piece of text: a reference without a value may have the wrong number
of arguments, one with a value is followed unless its alias is being expanded already or too many
are. -/
inductive Becomes (table : AliasTable) :
    Nat → List Text → Option Nat → Nat × Text → Part → Prop
  | kept {depth : Nat} {active : List Text} {origin : Option Nat} {piece : Nat × Text}
      (h : ∀ found, table.lead piece.2 = .command found →
        found.value = none ∧ found.wrongCount = false) :
      Becomes table depth active origin piece (.kept piece.2 [])
  | wrong {depth : Nat} {active : List Text} {origin : Option Nat} {piece : Nat × Text}
      {found : Reference} (h : table.lead piece.2 = .command found)
      (hvalue : found.value = none) (hwrong : found.wrongCount = true) :
      Becomes table depth active origin piece
        (.kept piece.2 (found.wrong (origin.getD piece.1)))
  | stopped {depth : Nat} {active : List Text} {origin : Option Nat} {piece : Nat × Text}
      {found : Reference} {value : Text} (h : table.lead piece.2 = .command found)
      (hvalue : found.value = some value) (hstop : found.key ∈ active ∨ depth = 0) :
      Becomes table depth active origin piece
        (.kept piece.2 (found.recursive (origin.getD piece.1)))
  | entered {depth : Nat} {active : List Text} {origin : Option Nat} {piece : Nat × Text}
      {found : Reference} {value : Text} (h : table.lead piece.2 = .command found)
      (hvalue : found.value = some value) (hactive : found.key ∉ active) :
      Becomes table (depth + 1) active origin piece
        (.entered found.key (table.parts depth (found.key :: active)
          (some (origin.getD piece.1)) 0 (found.filled value)))

theorem becomes_part (table : AliasTable) (depth : Nat) (active : List Text)
    (origin : Option Nat) (piece : Nat × Text) :
    Becomes table depth active origin piece (table.part depth active origin piece) := by
  cases hlead : table.lead piece.2 with
  | single =>
      rw [part_of_single hlead]
      exact .kept (by simp [hlead])
  | escape =>
      rw [part_of_escape hlead]
      exact .kept (by simp [hlead])
  | command found =>
      cases hvalue : found.value with
      | none =>
          rw [part_of_noValue hlead hvalue]
          cases hwrong : found.wrongCount with
          | false =>
              rw [Reference.wrong, hwrong]
              refine .kept ?_
              rintro other hother
              cases hlead.symm.trans hother
              exact ⟨hvalue, hwrong⟩
          | true => exact .wrong hlead hvalue hwrong
      | some value =>
          by_cases hactive : active.contains found.key = true
          case pos =>
            rw [part_of_active hlead hvalue hactive]
            exact .stopped hlead hvalue (.inl (List.contains_iff_mem.1 hactive))
          case neg =>
            cases depth with
            | zero =>
                rw [part_zero hlead hvalue]
                exact .stopped hlead hvalue (.inr rfl)
            | succ depth =>
                rw [part_succ hlead hvalue hactive]
                exact .entered hlead hvalue (mt List.contains_iff_mem.2 hactive)

/-- A chain of nested expansions, outermost first. -/
inductive Chain : List Part → List Text → Prop
  | nil {parts : List Part} : Chain parts []
  | cons {parts inner : List Part} {key : Text} {keys : List Text}
      (h : .entered key inner ∈ parts) (hinner : Chain inner keys) : Chain parts (key :: keys)

/-- What is entered is the value of a reference to an alias that is not being expanded. -/
theorem exists_of_entered {table : AliasTable} {depth : Nat} {active : List Text}
    {origin : Option Nat} {piece : Nat × Text} {key : Text} {inner : List Part}
    (h : table.part depth active origin piece = .entered key inner) :
    ∃ more place value, depth = more + 1 ∧ key ∉ active ∧
      inner = table.parts more (key :: active) (some place) 0 value := by
  have hbecomes := table.becomes_part depth active origin piece
  rw [h] at hbecomes
  generalize hpart : Part.entered key inner = part at hbecomes
  cases hbecomes with
  | kept => cases hpart
  | wrong => cases hpart
  | stopped => cases hpart
  | entered _ _ hactive =>
      obtain ⟨hkey, hinner⟩ := Part.entered.inj hpart
      rw [hkey, hinner]
      exact ⟨_, _, _, rfl, hactive, rfl⟩

/-- No alias is entered within itself, and aliases are entered `depth` deep at most. -/
theorem chain_parts {table : AliasTable} {depth : Nat} {active : List Text}
    {origin : Option Nat} {offset : Nat} {t : Text} {keys : List Text}
    (h : Chain (table.parts depth active origin offset t) keys) :
    keys.Nodup ∧ (∀ key ∈ keys, key ∉ active) ∧ keys.length ≤ depth := by
  generalize hparts : table.parts depth active origin offset t = parts at h
  induction h generalizing depth active origin offset t with
  | nil => exact ⟨List.nodup_nil, nofun, Nat.zero_le _⟩
  | cons hentered hinner ih =>
      subst hparts
      obtain ⟨piece, -, hpart⟩ := List.mem_map.1 hentered
      obtain ⟨more, place, value, rfl, hactive, rfl⟩ := exists_of_entered hpart
      obtain ⟨hnodup, hfresh, hlength⟩ := ih rfl
      refine ⟨List.nodup_cons.2 ⟨?_, hnodup⟩, ?_, Nat.succ_le_succ hlength⟩
      · exact fun hmem => hfresh _ hmem List.mem_cons_self
      · refine List.forall_mem_cons.2 ⟨hactive, fun other hother hmem => ?_⟩
        exact hfresh other hother (List.mem_cons_of_mem _ hmem)

/-! ### Where troubles are reported -/

/-- A piece meets troubles only if it is a reference to an alias, and they are reported there or at
the reference the text comes from. -/
theorem offset_of_mem_troubles {table : AliasTable} {depth : Nat} {active : List Text}
    {origin : Option Nat} {piece : Nat × Text} {trouble : Trouble}
    (h : trouble ∈ (table.part depth active origin piece).gather fun _ troubles => troubles) :
    trouble.offset = origin.getD piece.1 ∧
      ∃ found, table.lead piece.2 = .command found ∧
        (found.value.isSome ∨ found.wrongCount) := by
  induction depth using Nat.strongRecOn generalizing active origin piece with
  | ind depth ih =>
      have hbecomes := table.becomes_part depth active origin piece
      generalize table.part depth active origin piece = part at h hbecomes
      cases hbecomes with
      | kept => cases h
      | wrong hlead hvalue hwrong =>
          rw [Part.gather, Reference.wrong, if_pos hwrong] at h
          rw [List.mem_singleton.1 h]
          exact ⟨rfl, _, hlead, .inr hwrong⟩
      | stopped hlead hvalue hstop =>
          rw [Part.gather, Reference.recursive] at h
          rw [List.mem_singleton.1 h]
          exact ⟨rfl, _, hlead, .inl (by rw [hvalue, Option.isSome_some])⟩
      | entered hlead hvalue hactive =>
          rw [Part.gather, gather_eq_flatMap, parts] at h
          obtain ⟨inner, hinner, htrouble⟩ := List.mem_flatMap.1 h
          obtain ⟨deeper, -, rfl⟩ := List.mem_map.1 hinner
          -- inside a value everything is reported at the reference to it
          obtain ⟨hoffset, -⟩ := ih _ (Nat.lt_succ_self _) htrouble
          exact ⟨hoffset, _, hlead, .inl (by rw [hvalue, Option.isSome_some])⟩

/-- Troubles of a text that comes from nowhere are reported from left to right. -/
theorem pairwise_troublesOf_parts (table : AliasTable) (depth : Nat) (active : List Text)
    (offset : Nat) (t : Text) :
    (troublesOf (table.parts depth active none offset t)).Pairwise (·.offset ≤ ·.offset) := by
  rw [troublesOf, gather_eq_flatMap, List.pairwise_flatMap, parts]
  constructor
  · intro part hpart
    obtain ⟨piece, -, rfl⟩ := List.mem_map.1 hpart
    refine List.pairwise_iff_forall_sublist.2 fun hsublist => ?_
    have hfirst := offset_of_mem_troubles (hsublist.subset List.mem_cons_self)
    have hsecond :=
      offset_of_mem_troubles (hsublist.subset (List.mem_cons_of_mem _ List.mem_cons_self))
    exact Nat.le_of_eq (hfirst.1.trans hsecond.1.symm)
  · refine List.pairwise_map.2 ((table.pairwise_cuts offset t).imp fun hlt => ?_)
    intro first hfirst second hsecond
    rw [(offset_of_mem_troubles hfirst).1, (offset_of_mem_troubles hsecond).1]
    exact Nat.le_of_lt hlt

end AliasTable

end DocMarkup
