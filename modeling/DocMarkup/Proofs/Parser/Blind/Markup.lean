import DocMarkup.Proofs.Parser.Blind.Block

/-!
The structures that markup tags open neither see numbers nor give any.
-/

namespace DocMarkup.Parser.Machine

variable {m : Machine}

/-! ### Structures -/

theorem listItem_blind (m : Machine) (token : Token) : Blind (listItem · token) m := by
  cases hstack : m.stack with
  | nil =>
      constructor <;> simp only [listItem, stack_unnumber, hstack]
      · rfl
      · rfl
  | cons f outer =>
      obtain ⟨construct, children, id, madeFor⟩ := f
      constructor <;> simp only [listItem, stack_unnumber, hstack, List.map_cons, Frame.unnumber]
      · cases construct with
        | list list next opener =>
            exact congrArg read (push_unnumber { m with
              stack := ⟨.list list _ opener, children, id, madeFor⟩ :: outer } (.listItem _))
        | _ => rfl
      · cases construct with
        | list list next opener =>
            dsimp only
            rw [ledger_read, ledger_push _ rfl, ledger, ledger, entries_cons rfl,
              entries_cons hstack]
            rfl
        | _ => rfl

/-- A structure that ends, with a report or without. -/
theorem Settled.ledger_closes (hm : m.Settled) (hroot : m.innermost ≠ .root) (m' : Machine)
    (hstack : m'.stack = m.stack) (outcome : Outcome) :
    (m'.close outcome).ledger = m'.ledger :=
  (hm.congr hstack).ledger_close (by rwa [innermost, hstack]) outcome

theorem partEnded_blind (hm : m.Settled) (hroot : m.innermost ≠ .root) (opener : Token)
    (outcome : Outcome) : Blind (partEnded · opener outcome) m := by
  constructor
  · cases outcome <;> simp [partEnded, closeAtEnd]
  · cases outcome with
    | endOfText => exact hm.ledger_closes hroot (m.reportUnclosed opener) rfl _
    | _ => rfl

theorem takeInList_blind (hm : m.Settled) (hroot : m.innermost ≠ .root) (opener token : Token) :
    Blind (takeInList · opener token) m := by
  constructor
  · simp only [takeInList, closeAtEnd, closeBefore, (listItem_blind _ _).unnumber, report_unnumber,
      reportUnclosed_unnumber, close_unnumber, readSolid_unnumber, ← apply_ite unnumber]
  · have hclose := hm.ledger_closes hroot
    have hended : ∀ m', (if token.value == opener.value then m
        else m.report token (.mismatchedEnd token.value opener.value)) = m' → m'.stack = m.stack := by
      rintro m' rfl
      split <;> rfl
    simp only [takeInList, closeAtEnd, closeBefore, apply_ite ledger, (listItem_blind _ _).ledger,
      hclose (m.report _ _) rfl, hclose (m.reportUnclosed _) rfl, hclose _ (hended _ rfl),
      ledger_report, ledger_reportUnclosed, ledger_readSolid, ite_self]

theorem takeInDescList_blind (hm : m.Settled) (hroot : m.innermost ≠ .root) (opener token : Token) :
    Blind (takeInDescList · opener token) m := by
  have htitle := push_blind m (c := .descTitle token.attributes) trivial (by rintro ⟨⟩)
  have hdata := push_blind m (c := .descData token.attributes) trivial (by rintro ⟨⟩)
  constructor
  · simp only [takeInDescList, closeAtEnd, closeBefore, htitle.unnumber, hdata.unnumber, read_unnumber,
      report_unnumber, reportUnclosed_unnumber, close_unnumber, readSolid_unnumber,
      ← apply_ite unnumber]
  · have hclose := hm.ledger_closes hroot
    simp only [takeInDescList, closeAtEnd, closeBefore, apply_ite ledger, htitle.ledger, hdata.ledger,
      ledger_read, hclose m rfl, hclose (m.report _ _) rfl, hclose (m.reportUnclosed _) rfl,
      ledger_report, ledger_reportUnclosed, ledger_readSolid, ite_self]

theorem takeInTable_blind (hm : m.Settled) (hroot : m.innermost ≠ .root) (caption : Option Node)
    (opener token : Token) :
    m.unnumber.takeInTable (caption.map Node.unnumber) opener token =
        (m.takeInTable caption opener token).unnumber ∧
      (m.takeInTable caption opener token).ledger = m.ledger := by
  have hcaption : ∀ (m' : Machine) attributes kept, Blind (push · (.caption attributes kept)) m' :=
    fun m' _ _ => push_blind m' trivial (by rintro ⟨⟩)
  have hrow : ∀ (m' : Machine) attributes, Blind (push · (.row attributes)) m' :=
    fun m' _ => push_blind m' trivial (by rintro ⟨⟩)
  constructor
  · simp only [takeInTable, Option.isSome_map, Option.isNone_map, closeAtEnd, closeBefore,
      report_unnumber, ← apply_ite unnumber, (hcaption _ _ _).unnumber,
      (hrow _ _).unnumber, read_unnumber, take_unnumber,
      reportUnclosed_unnumber, close_unnumber, readSolid_unnumber]
  · have hclose := hm.ledger_closes hroot
    simp only [takeInTable, closeAtEnd, closeBefore, apply_ite ledger,
      (hcaption _ _ _).ledger,
      (hrow _ _).ledger, ledger_read, ledger_take, hclose m rfl,
      hclose (m.report _ _) rfl, hclose (m.reportUnclosed _) rfl, ledger_report,
      ledger_reportUnclosed, ledger_readSolid, ite_self]

theorem takeInRow_blind (hm : m.Settled) (hroot : m.innermost ≠ .root) (token : Token) :
    Blind (takeInRow · token) m := by
  have hcell := push_blind m (c := .cell token.attributes (token.value == units "th")) trivial (by rintro ⟨⟩)
  constructor
  · simp only [takeInRow, hcell.unnumber, read_unnumber, report_unnumber, close_unnumber,
      readSolid_unnumber, ← apply_ite unnumber]
  · have hclose := hm.ledger_closes hroot
    simp only [takeInRow, apply_ite ledger, hcell.ledger, ledger_read, hclose m rfl, ledger_report,
      ledger_readSolid, ite_self]

theorem cellEnded_blind (hm : m.Settled) (hroot : m.innermost ≠ .root) (outcome : Outcome) :
    Blind (cellEnded · outcome) m := by
  constructor
  · cases outcome <;> simp [cellEnded]
  · cases outcome with
    | endOfText => exact hm.ledger_closes hroot _ rfl _
    | _ => rfl

/-! ### Tags -/

theorem anchorTag_blind (m : Machine) (token : Token) : Blind (anchorTag · token) m := by
  have hlink : ∀ link : Hyperlink, Blind (push · (.hyperlink link token)) m :=
    fun link => push_blind m trivial (by rintro ⟨⟩)
  constructor <;> simp only [anchorTag, setting_unnumber]
  · split
    · split
      · simp [Content.isNumbered]
      · simp [(hlink _).unnumber]
    · split <;> simp [Content.isNumbered]
  · split
    · split
      · simp [Content.isNumbered]
      · simp [(hlink _).ledger]
    · split <;> simp [Content.isNumbered]

theorem imageTag_blind (m : Machine) (token : Token) : Blind (imageTag · token) m := by
  constructor <;> simp only [imageTag, setting_unnumber] <;> split <;> simp [Content.isNumbered]

theorem paragraphTag_blind (hm : m.Settled) (hkind : m.innermost = .paragraph) (token : Token) :
    Blind (paragraphTag · token) m := by
  constructor
  · simp only [paragraphTag, onlySynthetic_unnumber, closeParagraph_unnumber]
    split
    · refine congrArg read (modifyTop_unnumber_self m ?_)
      rintro ⟨construct, children, id, madeFor⟩
      cases construct <;> rfl
    · rfl
  · simp only [paragraphTag]
    split
    · refine ledger_modifyTop ?_
      rintro ⟨construct, children, id, madeFor⟩ outer -
      cases construct <;> rfl
    · exact hm.ledger_closeParagraph hkind _

theorem startTag_blind (hm : m.Settled) (hkind : m.innermost = .paragraph) (token : Token) :
    Blind (startTag · token) m := by
  constructor
  · simp only [startTag, container?_unnumber, closeParagraph_unnumber]
    split
    · exact (styleStart_blind m token _).unnumber
    · exact congrArg read (push_blind m (c := .header _ token) trivial (by rintro ⟨⟩)).unnumber
    · split
      · exact (paragraphTag_blind hm hkind token).unnumber
      · simp [Content.isNumbered]
      · simp [Content.isNumbered]
      · exact congrArg readSolid (push_blind m (c := .list _ _ token) trivial (by rintro ⟨⟩)).unnumber
      · exact congrArg readSolid (push_blind m (c := .descList _ token) trivial (by rintro ⟨⟩)).unnumber
      · exact congrArg readSolid (push_blind m (c := .table _ none token) rfl (by rintro ⟨⟩)).unnumber
      · exact congrArg read (push_blind m (c := .blockQuote _ token) trivial (by rintro ⟨⟩)).unnumber
      · exact (anchorTag_blind m token).unnumber
      · exact (imageTag_blind m token).unnumber
      · split <;> rfl
      · rfl
  · simp only [startTag]
    split
    · exact (styleStart_blind m token _).ledger
    · exact ledger_push m rfl
    · split
      · exact (paragraphTag_blind hm hkind token).ledger
      · simp [Content.isNumbered]
      · simp [Content.isNumbered]
      · exact ledger_push m rfl
      · exact ledger_push m rfl
      · exact ledger_push m rfl
      · exact ledger_push m rfl
      · exact (anchorTag_blind m token).ledger
      · exact (imageTag_blind m token).ledger
      · split
        · exact hm.ledger_closeParagraph hkind _
        · rfl
      · rfl

theorem endTag_blind (hm : m.Settled) (hkind : m.innermost = .paragraph) (token : Token) :
    Blind (endTag · token) m := by
  constructor
  · simp only [endTag, container?_unnumber, closeParagraph_unnumber]
    split
    · exact (styleEnd_blind hm token _).unnumber
    · split
      · rfl
      · split <;> rfl
  · simp only [endTag]
    split
    · exact (styleEnd_blind hm token _).ledger
    · split
      · rfl
      · split
        · exact hm.ledger_closeParagraph hkind _
        · rfl

end DocMarkup.Parser.Machine
