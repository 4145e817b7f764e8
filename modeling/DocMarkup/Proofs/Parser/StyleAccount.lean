import DocMarkup.Proofs.Aliases
import DocMarkup.Proofs.Parser.Conformance
import DocMarkup.Proofs.Parser.StyleTurns

/-!
What becomes of the styles that are entered.  Each belongs to an open paragraph or waits for the
next one until it is left; what still waits at the end of a comment is reported.
-/

namespace DocMarkup.Parser

namespace StyleMove

/-- The style that is entered, if any. -/
def entered : StyleMove → List OpenStyle
  | enters style => [style]
  | _ => []

/-- The style that is left, if any. -/
def left : StyleMove → List OpenStyle
  | leaves style => [style]
  | _ => []

end StyleMove

namespace Machine

variable {m m' : Machine} {move : StyleMove}

/-! ### Owners -/

/-- The open paragraphs by their numbers, the innermost first, with the styles entered in each, the
last first. -/
def owners (m : Machine) : List (Nat × List OpenStyle) :=
  m.stack.filterMap fun f =>
    match f.construct with
    | .paragraph _ styles => some (f.id, styles)
    | _ => none

/-- The styles that are open, the last first, each with the number of the paragraph it was entered
in. -/
def styleStack (m : Machine) : List (Nat × OpenStyle) :=
  m.owners.flatMap fun owner => owner.2.map fun entered => (owner.1, entered)

theorem owners_eq (m : Machine) : m.owners = m.spans.paragraphs.map fun p => (p.id, p.styles) := by
  rw [owners, spans, List.map_filterMap]
  congr 1
  funext f
  unfold Frame.paragraph?
  cases f.construct <;> rfl

theorem owners_settled (m : Machine) : m.settled.owners = m.owners := by
  have howners : ∀ m : Machine, m.owners =
      (m.stack.map fun f => (f.construct, f.id)).filterMap fun frame =>
        match frame.1 with
        | .paragraph _ styles => some (frame.2, styles)
        | _ => none := fun m => by rw [List.filterMap_map]; rfl
  rw [howners, howners, frames_settled]

/-- What a step does with the styles that are held. -/
inductive Carries (m m' : Machine) : StyleMove → Prop
  | stays (howners : m'.owners = m.owners) (hreopening : m'.reopening = m.reopening)
      (hbegun : m.begun ≤ m'.begun) : Carries m m' .stays
  /-- The style becomes the last of the innermost paragraph. -/
  | enters {id : Nat} {styles : List OpenStyle} {rest : List (Nat × List OpenStyle)}
      (entered : OpenStyle) (hm : m.owners = (id, styles) :: rest)
      (howners : m'.owners = (id, entered :: styles) :: rest)
      (hreopening : m'.reopening = m.reopening) (hbegun : m.begun ≤ m'.begun) :
      Carries m m' (.enters entered)
  /-- The style is the last of the innermost paragraph. -/
  | leaves {id : Nat} {styles : List OpenStyle} {rest : List (Nat × List OpenStyle)}
      (entered : OpenStyle) (hm : m.owners = (id, entered :: styles) :: rest)
      (howners : m'.owners = (id, styles) :: rest) (hreopening : m'.reopening = m.reopening)
      (hbegun : m.begun ≤ m'.begun) : Carries m m' (.leaves entered)
  /-- A paragraph with a new number begins with all the styles that waited. -/
  | opens (howners : m'.owners = (m.begun, m.reopening.reverse) :: m.owners)
      (hreopening : m'.reopening = []) (hbegun : m.begun < m'.begun) : Carries m m' .stays
  /-- The innermost paragraph ends, and its styles wait for the next. -/
  | closes {id : Nat} {styles : List OpenStyle} {rest : List (Nat × List OpenStyle)}
      (hm : m.owners = (id, styles) :: rest) (howners : m'.owners = rest)
      (hreopening : m'.reopening = m.reopening ++ styles.reverse) (hbegun : m.begun ≤ m'.begun) :
      Carries m m' .stays

namespace Carries

end Carries

/-! ### Numbers of paragraphs -/

/-- The numbers of the paragraphs that are open. -/
def ownerIds (m : Machine) : List Nat := m.owners.map Prod.fst

/-- Paragraphs that are open have numbers of their own, below those still to come. -/
structure Numbered (m : Machine) : Prop where
  nodup : m.ownerIds.Nodup
  lt_begun : ∀ id ∈ m.ownerIds, id < m.begun

namespace Carries

/-- A step ends the innermost paragraph, begins one, or leaves open those that are. -/
theorem ownerIds_cases (h : Carries m m' move) :
    (∃ id, m.ownerIds = id :: m'.ownerIds) ∨
      m'.ownerIds = m.begun :: m.ownerIds ∧ m.begun < m'.begun ∨ m'.ownerIds = m.ownerIds := by
  unfold ownerIds
  cases h with
  | stays howners => exact .inr (.inr (by rw [howners]))
  | enters entered hm howners => exact .inr (.inr (by rw [hm, howners]; rfl))
  | leaves entered hm howners => exact .inr (.inr (by rw [hm, howners]; rfl))
  | opens howners _ hbegun => exact .inr (.inl ⟨by rw [howners]; rfl, hbegun⟩)
  | closes hm howners => exact .inl ⟨_, by rw [hm, howners]; rfl⟩

theorem begun_le (h : Carries m m' move) : m.begun ≤ m'.begun := by
  cases h with
  | opens _ _ hbegun => exact hbegun.le
  | stays _ _ hbegun | enters _ _ _ _ hbegun | leaves _ _ _ _ hbegun | closes _ _ _ hbegun =>
      exact hbegun

theorem numbered (h : Carries m m' move) (hm : m.Numbered) : m'.Numbered := by
  obtain ⟨hnodup, hlt⟩ := hm
  have hle := h.begun_le
  obtain ⟨id, hids⟩ | ⟨hids, hbegun⟩ | hids := h.ownerIds_cases
  · rw [hids] at hnodup hlt
    exact ⟨(List.nodup_cons.1 hnodup).2, fun id hid =>
      (hlt id (List.mem_cons_of_mem _ hid)).trans_le hle⟩
  · refine ⟨?_, ?_⟩ <;> rw [hids]
    · exact List.nodup_cons.2 ⟨fun hmem => lt_irrefl _ (hlt _ hmem), hnodup⟩
    · exact List.forall_mem_cons.2 ⟨hbegun, fun id hid => (hlt id hid).trans_le hle⟩
  · exact ⟨hids ▸ hnodup, fun id hid => (hlt id (hids ▸ hid)).trans_le hle⟩

end Carries

end Machine

/-! ### Comments -/

variable (p : Parser) (comment : Comment)

end DocMarkup.Parser
