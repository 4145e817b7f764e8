import DocMarkup.Proofs.Html.Escape
import DocMarkup.Proofs.Text.CodePoints

/-!
Anchors of index words, written and read back.  A byte is written in its anchor as itself or as a
group of a colon and two digits, and the colon is never written as itself, so the bytes of the word
can be read from its anchor.  They are those of the word in UTF-8.
-/

namespace DocMarkup.Html

/-! ### Bytes of a text -/

theorem utf8_toNat (c : Char) : utf8 c.toNat = (String.utf8EncodeChar c).map UInt8.toNat := by
  have hlt : c.toNat < 0x110000 := by
    have hvalid : c.toNat < 0xD800 ∨ 0xDFFF < c.toNat ∧ c.toNat < 0x110000 := c.valid
    omega
  have hbyte : c.val.toNat = c.toNat := rfl
  unfold utf8 String.utf8EncodeChar
  dsimp only
  rw [hbyte]
  split_ifs <;> first
    | omega
    | simp only [List.map_cons, List.map_nil, UInt8.toNat_ofNat', List.cons.injEq, and_true]
      omega

/-- The bytes of a text are those of its string. -/
theorem utf8Bytes_eq (t : Text) :
    utf8Bytes t = (t.toString.toList.flatMap String.utf8EncodeChar).map UInt8.toNat := by
  rw [Text.toString, String.toList_ofList, List.flatMap_map, List.map_flatMap]
  exact List.flatMap_congr fun point _ => utf8_toNat _

/-! ### Reading an anchor -/

/-- A hexadecimal digit without capital letters. -/
def isSmallHexDigit (u : CodeUnit) : Bool := CodeUnit.isDigit u || (0x61 ≤ u && u ≤ 0x66)

/-- The bytes that an anchor writes: a colon and two digits write one byte, any other unit writes
itself. -/
def readBytes : Text → Option (List UInt8)
  | [] => some []
  | u :: rest =>
    if u == unit ':' then
      match rest with
      | high :: low :: rest =>
        if isSmallHexDigit high && isSmallHexDigit low then
          let byte := CodeUnit.digitValue high * 16 + CodeUnit.digitValue low
          (readBytes rest).map (byte.toUInt8 :: ·)
        else none
      | _ => none
    else (readBytes rest).map (u.toUInt8 :: ·)

/-- The word that an anchor is that of: its bytes are read as UTF-8. -/
def readAnchor : Text → Option Text
  | [] => none
  | u :: rest =>
    if u == unit 'a' then
      (readBytes rest).bind fun bytes => (String.fromUTF8? bytes.toByteArray).map units
    else none

/-- What one byte is written as: a letter, a digit, a dot, an underscore or a hyphen, or a colon and
two small hexadecimal digits. -/
inductive IsAnchorGroup : Text → Prop
  | plain {u : CodeUnit} (h : CodeUnit.isLetter u ∨ CodeUnit.isDigit u ∨ u ∈ units "._-") :
      IsAnchorGroup [u]
  | byte {high low : CodeUnit} (hhigh : isSmallHexDigit high) (hlow : isSmallHexDigit low) :
      IsAnchorGroup [unit ':', high, low]

theorem readBytes_plain {u : CodeUnit} (hu : (u == unit ':') = false) (rest : Text) :
    readBytes (u :: rest) = (readBytes rest).map (u.toUInt8 :: ·) := by
  rw [readBytes.eq_def]
  simp [hu]

theorem hexDigit_spec : ∀ n < 16,
    isSmallHexDigit (hexDigit n) ∧ CodeUnit.digitValue (hexDigit n) = n := by decide

theorem isAnchorGroup_anchorByte {byte : Nat} (h : byte < 0x100) :
    IsAnchorGroup (anchorByte byte) := by
  unfold anchorByte
  split
  · next hplain =>
    rw [isAnchorUnit, Bool.or_eq_true, Bool.or_eq_true, or_assoc] at hplain
    exact .plain (hplain.imp_right (.imp_right List.elem_iff.1))
  · exact .byte (hexDigit_spec (byte / 16) (by omega)).1 (hexDigit_spec (byte % 16) (by omega)).1

/-- A byte is read from what it is written as, whatever follows. -/
theorem readBytes_anchorByte (byte : UInt8) (rest : Text) :
    readBytes (anchorByte byte.toNat ++ rest) = (readBytes rest).map (byte :: ·) := by
  have hbyte := byte.toNat_lt
  unfold anchorByte
  split
  · next hplain =>
    have hcolon : (byte.toNat.toUInt16 == unit ':') = false := by
      rw [Bool.eq_false_iff]
      intro hcolon
      rw [beq_iff_eq.1 hcolon] at hplain
      exact absurd hplain (by decide)
    have hunit : byte.toNat.toUInt16.toUInt8 = byte := by
      rw [← UInt8.toNat_inj, UInt16.toNat_toUInt8, Nat.toUInt16, UInt16.toNat_ofNat']
      omega
    rw [List.singleton_append, readBytes_plain hcolon, hunit]
  · obtain ⟨hhigh, hhighValue⟩ := hexDigit_spec (byte.toNat / 16) (by omega)
    obtain ⟨hlow, hlowValue⟩ := hexDigit_spec (byte.toNat % 16) (by omega)
    have hvalue : (byte.toNat / 16 * 16 + byte.toNat % 16).toUInt8 = byte := by
      rw [show byte.toNat / 16 * 16 + byte.toNat % 16 = byte.toNat by omega]
      exact UInt8.ofNat_toNat
    rw [List.cons_append, List.cons_append, List.singleton_append, readBytes,
      if_pos (beq_self_eq_true _)]
    simp only [hhigh, hlow, hhighValue, hlowValue, hvalue, Bool.and_self, if_true]

theorem readBytes_anchorBytes (bytes : List UInt8) :
    readBytes ((bytes.map UInt8.toNat).flatMap anchorByte) = some bytes := by
  induction bytes with
  | nil => rfl
  | cons byte bytes ih =>
      rw [List.map_cons, List.flatMap_cons, readBytes_anchorByte, ih]
      rfl

theorem fromUTF8?_utf8Encode (s : String) :
    String.fromUTF8? (s.toList.flatMap String.utf8EncodeChar).toByteArray = some s := by
  have hbytes : (s.toList.flatMap String.utf8EncodeChar).toByteArray = s.toByteArray :=
    String.utf8Encode_toList
  rw [hbytes, String.fromUTF8?, dif_pos s.isValidUTF8]
  rfl

/-- An anchor is read as the string of its word. -/
theorem readAnchor_eq (word : Text) :
    readAnchor (indexAnchor word) = some (units word.toString) := by
  rw [indexAnchor, readAnchor, if_pos (beq_self_eq_true _), utf8Bytes_eq, readBytes_anchorBytes,
    Option.bind_some, fromUTF8?_utf8Encode]
  rfl

/-! ### Anchors in attributes -/

/-- The units that anchors are made of. -/
def isAnchorSign (u : CodeUnit) : Bool := isAnchorUnit u || isSmallHexDigit u || u == unit ':'

theorem IsAnchorGroup.isAnchorSign {group : Text} (h : IsAnchorGroup group) :
    ∀ u ∈ group, isAnchorSign u := by
  cases h with
  | plain h =>
      refine List.forall_mem_singleton.2 ?_
      rcases h with h | h | h <;> simp [Html.isAnchorSign, isAnchorUnit, h]
  | byte hhigh hlow => simp [Html.isAnchorSign, hhigh, hlow]

/-- An attribute takes the units of anchors as they are. -/
theorem escapeAttribute_eq_self {t : Text} (h : ∀ u ∈ t, isAnchorSign u) :
    escapeAttribute t = t := by
  have hspecial : ∀ entry ∈ attributeTable, isAnchorSign entry.1 = false := by decide
  refine escapeWith_eq_self fun u hu entry hentry heq => ?_
  have hsign := h u hu
  rw [← heq, hspecial entry hentry] at hsign
  cases hsign

/-- The anchor of a word identifies it: the word is read back from its anchor, so two words have two
anchors.  An anchor is an `a` and groups that each stand for a byte, so in an attribute it is
written as it is. -/
theorem indexAnchor_identifies :
    (∀ word : Text, word.IsWellFormed → readAnchor (indexAnchor word) = some word) ∧
      (∀ word other : Text, word.IsWellFormed → other.IsWellFormed →
        indexAnchor word = indexAnchor other → word = other) ∧
      ∀ word : Text,
        (∃ groups : List Text, indexAnchor word = unit 'a' :: groups.flatten ∧
          ∀ group ∈ groups, IsAnchorGroup group) ∧
        escapeAttribute (indexAnchor word) = indexAnchor word := by
  have hread (word : Text) (h : word.IsWellFormed) : readAnchor (indexAnchor word) = some word := by
    rw [readAnchor_eq, Text.units_toString h]
  refine ⟨hread, fun word other hword hother heq => ?_, fun word => ?_⟩
  · have hsame := hread word hword
    rw [heq, hread other hother] at hsame
    exact (Option.some.inj hsame).symm
  · have hgroups : ∀ group ∈ (utf8Bytes word).map anchorByte, IsAnchorGroup group := by
      intro group hgroup
      obtain ⟨byte, hbyte, rfl⟩ := List.mem_map.1 hgroup
      rw [utf8Bytes_eq] at hbyte
      obtain ⟨byte, -, rfl⟩ := List.mem_map.1 hbyte
      exact isAnchorGroup_anchorByte byte.toNat_lt
    have hflatten : indexAnchor word = unit 'a' :: ((utf8Bytes word).map anchorByte).flatten := by
      rw [indexAnchor, List.flatMap_def]
    refine ⟨⟨_, hflatten, hgroups⟩, escapeAttribute_eq_self ?_⟩
    rw [hflatten]
    refine List.forall_mem_cons.2 ⟨by decide, fun u hu => ?_⟩
    obtain ⟨group, hgroup, hu⟩ := List.mem_flatten.1 hu
    exact (hgroups group hgroup).isAnchorSign u hu

/-- Units of one, two and four bytes, and a colon that is not taken for one of a group. -/
theorem indexAnchor_identifies_colon :
    let word := units "é:3a😀"
    word.IsWellFormed ∧ indexAnchor word = units "a:c3:a9:3a3a:f0:9f:98:80" ∧
      readAnchor (units "a:c3:a9:3a3a:f0:9f:98:80") = some word := by
  intro word
  have hword : word.IsWellFormed := by decide
  have hanchor : indexAnchor word = units "a:c3:a9:3a3a:f0:9f:98:80" := by decide
  refine ⟨hword, hanchor, ?_⟩
  rw [← hanchor]
  exact indexAnchor_identifies.1 word hword

end DocMarkup.Html
