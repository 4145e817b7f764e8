import Mathlib.Data.List.Chain
import DocMarkup.Proofs.Alias.Seams

/-!
Aliases whose values mention no command.  All references that expansion meets then come from the
text, and those inside a value from the arguments put into it; so the depth of expansion is the
depth at which references are nested in arguments.
-/

namespace DocMarkup

namespace Alias

/-- A stretch of a value with arguments in it: units of the value, or an argument. -/
inductive Stretch where
  | own (text : Text)
  | argument (text : Text)

def Stretch.text : Stretch → Text
  | own text => text
  | argument text => text

def Stretch.argument? : Stretch → Option Text
  | own _ => none
  | argument text => some text

/-- A unit of a value before stretches. -/
def Stretch.join (u : CodeUnit) : List Stretch → List Stretch
  | .own text :: rest => .own (u :: text) :: rest
  | stretches => .own [u] :: stretches

/-- The stretches that a value consists of when the arguments are put in. -/
def insertion (value : Text) (arguments : List Text) : List Stretch :=
  match value with
  | [] => []
  | u :: rest =>
    let digits := rest.takeWhile CodeUnit.isDigit
    let index := Whole.natOfDigits digits
    let argument? :=
      if u == unit '\\' && !digits.isEmpty && 0 < index then arguments[index - 1]? else none
    match argument? with
    | some argument => .argument argument :: insertion (rest.drop digits.length) arguments
    | none => Stretch.join u (insertion rest arguments)
termination_by value.length
decreasing_by
  · simp only [List.length_drop, List.length_cons]; omega
  · simp

theorem flatMap_text_join (u : CodeUnit) (stretches : List Stretch) :
    (Stretch.join u stretches).flatMap Stretch.text = u :: stretches.flatMap Stretch.text := by
  unfold Stretch.join
  split <;> rfl

theorem flatMap_text_insertion (value : Text) (arguments : List Text) :
    (insertion value arguments).flatMap Stretch.text = substitute value arguments := by
  fun_induction insertion value arguments with
  | case1 =>
      rw [substitute]
      rfl
  | case2 u rest digits index argument? argument hargument ih =>
      rw [List.flatMap_cons, ih]
      conv_rhs => rw [substitute]
      change _ = match argument? with | some _ => _ | none => _
      rw [hargument]
      rfl
  | case3 u rest digits index argument? hargument ih =>
      rw [flatMap_text_join, ih]
      conv_rhs => rw [substitute]
      change _ = match argument? with | some _ => _ | none => _
      rw [hargument]

/-- Units of the value stand in it as they stand in a stretch, the first ones at its start. -/
theorem own_of_mem_insertion (value : Text) (arguments : List Text) :
    (∀ text rest, insertion value arguments = .own text :: rest → text <+: value) ∧
      ∀ text, .own text ∈ insertion value arguments → text <:+: value := by
  fun_induction insertion value arguments with
  | case1 => exact ⟨nofun, nofun⟩
  | case2 u rest digits index argument? argument hargument ih =>
      refine ⟨nofun, fun text htext => ?_⟩
      have hmem := (List.mem_cons.1 htext).resolve_left nofun
      have hsuffix : rest.drop digits.length <:+ u :: rest :=
        (List.drop_suffix _ _).trans (List.suffix_cons u rest)
      exact (ih.2 text hmem).trans hsuffix.isInfix
  | case3 u rest digits index argument? hargument ih =>
      obtain ⟨hfirst, hmem⟩ := ih
      have hrest : rest <:+: u :: rest := (List.suffix_cons u rest).isInfix
      unfold Stretch.join
      split
      case h_1 text stretches hstretches =>
        rw [hstretches] at hmem
        have hstart : u :: text <+: u :: rest :=
          List.cons_prefix_cons.2 ⟨rfl, hfirst text stretches hstretches⟩
        constructor
        · rintro _ _ ⟨⟩
          exact hstart
        · intro other hother
          rcases List.mem_cons.1 hother with hown | hother
          · cases hown
            exact hstart.isInfix
          · exact (hmem other (List.mem_cons_of_mem _ hother)).trans hrest
      case h_2 =>
        have hstart : [u] <+: u :: rest := ⟨rest, rfl⟩
        constructor
        · rintro _ _ ⟨⟩
          exact hstart
        · intro other hother
          rcases List.mem_cons.1 hother with hown | hother
          · cases hown
            exact hstart.isInfix
          · exact (hmem other hother).trans hrest

end Alias

namespace AliasTable

/-! ### Values without commands -/

/-- No command sign has a letter or an underscore behind it. -/
def Silent (t : Text) : Prop :=
  t.IsChain fun sign u => (sign = unit '\\' ∨ sign = unit '@') → ¬u.isIdentifierStart

instance (t : Text) : Decidable (Silent t) := inferInstanceAs (Decidable (List.IsChain _ t))

/-- The reference to a definition that a piece of text is, with the value it stands for. -/
def call? (table : AliasTable) (piece : Text) : Option (Reference × Text) :=
  match table.lead piece with
  | .command found => found.value.map fun value => (found, value)
  | _ => none

theorem lead_ne_command_of_silent {table : AliasTable} {t : Text} (h : Silent t)
    (found : Reference) : table.lead t ≠ .command found := by
  intro hlead
  obtain ⟨sign, name, after, rfl, hsign, hstart, -⟩ := lead_eq_command hlead
  cases name with
  | nil => cases hstart
  | cons u name =>
      rw [List.head?_cons, Option.any_some] at hstart
      exact (List.isChain_cons_cons.1 h).1 hsign hstart

theorem call?_of_silent {table : AliasTable} {t piece : Text} (h : Silent t)
    (hpiece : piece ∈ table.tokens t) : table.call? piece = none := by
  obtain ⟨cut, hcut, rfl⟩ := List.mem_map.1 hpiece
  obtain ⟨before, after, rfl, hne, -, htaken⟩ := exists_append_of_mem_cuts hcut
  have hafter : Silent after := List.IsChain.suffix h (List.suffix_append before after)
  unfold call?
  split
  case h_1 found hlead =>
    rw [htaken, lead_take _ hne] at hlead
    exact absurd hlead (lead_ne_command_of_silent hafter found)
  case h_2 => rfl

/-! ### References nested in arguments -/

/-- The stretches that stand in the place of a reference. -/
def Reference.insertion (found : Reference) (value : Text) : List Alias.Stretch :=
  match found.arguments with
  | some arguments => Alias.insertion value arguments
  | none => [.own value]

theorem Reference.flatMap_text_insertion (found : Reference) (value : Text) :
    (found.insertion value).flatMap Alias.Stretch.text = found.filled value := by
  unfold insertion filled
  cases found.arguments with
  | none => exact List.append_nil value
  | some arguments => exact Alias.flatMap_text_insertion value arguments

theorem Reference.isInfix_of_mem_insertion {found : Reference} {value text : Text}
    (h : .own text ∈ found.insertion value) : text <:+: value := by
  unfold insertion at h
  cases harguments : found.arguments with
  | none =>
      rw [harguments] at h
      cases List.mem_singleton.1 h
      exact List.infix_rfl
  | some arguments =>
      rw [harguments] at h
      exact (Alias.own_of_mem_insertion value arguments).2 text h

/-- References are nested in arguments at most `depth` deep and none in the arguments of a reference
with its key, and nothing is read across the seam of an argument and the value it is put into. -/
def Nests (table : AliasTable) : Nat → List Text → Text → Prop
  | 0, _, t => ∀ piece ∈ table.tokens t, table.call? piece = none
  | depth + 1, active, t => ∀ piece ∈ table.tokens t, ∀ call ∈ table.call? piece,
      call.1.key ∉ active ∧
        table.ReadsApart ((call.1.insertion call.2).map Alias.Stretch.text) ∧
        ∀ argument ∈ (call.1.insertion call.2).filterMap Alias.Stretch.argument?,
          table.Nests depth (call.1.key :: active) argument

instance decidableNests (table : AliasTable) :
    (depth : Nat) → (active : List Text) → (t : Text) → Decidable (table.Nests depth active t)
  | 0, _, t => inferInstanceAs (Decidable (∀ piece ∈ table.tokens t, table.call? piece = none))
  | depth + 1, _, t =>
    have := decidableNests table depth
    inferInstanceAs (Decidable (∀ piece ∈ table.tokens t, ∀ call ∈ table.call? piece, _ ∧ _ ∧ _))

theorem exists_mem_entries_of_value {table : AliasTable} {name tail value : Text}
    (h : (table.reference name tail).value = some value) :
    ∃ entry ∈ table.entries, entry.2 = value := by
  obtain ⟨count, hcount⟩ : ∃ count, table.get? name count = some value := by
    unfold reference at h
    grind
  obtain ⟨entry, hentry, hvalue⟩ := Option.map_eq_some_iff.1 hcount
  exact ⟨entry, List.mem_of_find?_eq_some hentry, hvalue⟩

theorem call?_eq_some {table : AliasTable} {piece value : Text} {found : Reference}
    (hlead : table.lead piece = .command found) (hvalue : found.value = some value) :
    table.call? piece = some (found, value) := by
  rw [call?, hlead]
  simp only [hvalue, Option.map_some]

theorem call?_eq_none {table : AliasTable} {piece : Text}
    (h : ∀ found, table.lead piece = .command found → found.value = none) :
    table.call? piece = none := by
  unfold call?
  split
  case h_1 found hlead => rw [h found hlead, Option.map_none]
  case h_2 => rfl

/-- Nesting is about the pieces of a text, so it passes to texts made of them. -/
theorem Nests.of_tokens {table : AliasTable} {depth : Nat} {active : List Text} {t : Text}
    (h : ∀ piece ∈ table.tokens t, table.call? piece = none ∨
      ∃ s, piece ∈ table.tokens s ∧ table.Nests depth active s) :
    table.Nests depth active t := by
  cases depth with
  | zero =>
      intro piece hpiece
      rcases h piece hpiece with hnone | ⟨s, hs, hnests⟩
      · exact hnone
      · exact hnests piece hs
  | succ depth =>
      intro piece hpiece call hcall
      rcases h piece hpiece with hnone | ⟨s, hs, hnests⟩
      · rw [hnone] at hcall
        cases hcall
      · exact hnests piece hs call hcall

/-- A value with arguments in it nests what the arguments nest. -/
theorem nests_filled {table : AliasTable} {depth : Nat} {active : List Text} {found : Reference}
    {value : Text} (hsilent : Silent value)
    (hapart : table.ReadsApart ((found.insertion value).map Alias.Stretch.text))
    (harguments : ∀ argument ∈ (found.insertion value).filterMap Alias.Stretch.argument?,
      table.Nests depth active argument) :
    table.Nests depth active (found.filled value) := by
  refine Nests.of_tokens fun piece hpiece => ?_
  rw [← found.flatMap_text_insertion, List.flatMap_def, hapart, List.flatMap_map] at hpiece
  obtain ⟨stretch, hstretch, hpiece⟩ := List.mem_flatMap.1 hpiece
  cases stretch with
  | own text =>
      have hown : Silent text :=
        List.IsChain.infix hsilent (Reference.isInfix_of_mem_insertion hstretch)
      exact .inl (call?_of_silent hown hpiece)
  | argument text =>
      exact .inr ⟨text, hpiece, harguments text (List.mem_filterMap.2 ⟨_, hstretch, rfl⟩)⟩

theorem mem_tokens_of_mem_cuts {table : AliasTable} {offset : Nat} {t : Text} {cut : Nat × Text}
    (h : cut ∈ table.cuts offset t) : cut.2 ∈ table.tokens t := by
  rw [← table.map_snd_cuts offset t]
  exact List.mem_map_of_mem h

/-- A reference with a value is followed if it nests. -/
theorem not_stopped_of_nests {table : AliasTable} {depth : Nat} {active : List Text}
    {t piece : Text} {found : Reference} {value : Text} (h : table.Nests depth active t)
    (hpiece : piece ∈ table.tokens t) (hlead : table.lead piece = .command found)
    (hvalue : found.value = some value) : ¬(found.key ∈ active ∨ depth = 0) := by
  have hcall := call?_eq_some hlead hvalue
  cases depth with
  | zero => exact absurd hcall (by simp [h piece hpiece])
  | succ depth => exact fun hstop => (h piece hpiece _ hcall).1 (hstop.resolve_right nofun)

/-- In a text of nested references all of them are followed. -/
theorem follows_of_nests {table : AliasTable} (hsilent : ∀ entry ∈ table.entries, Silent entry.2)
    {depth : Nat} {active : List Text} {t : Text} (h : table.Nests depth active t)
    (origin : Option Nat) (offset : Nat) :
    (∀ trouble ∈ troublesOf (table.parts depth active origin offset t),
        trouble.problem.code ≠ .aliasRecursion) ∧
      ∀ piece ∈ keptOf (table.parts depth active origin offset t), table.call? piece = none := by
  -- a value is expanded with less depth left, and nests as well
  induction depth using Nat.strongRecOn generalizing active origin offset t with
  | ind depth ih =>
      have hparts : ∀ part ∈ table.parts depth active origin offset t,
          (∀ trouble ∈ part.gather fun _ troubles => troubles,
              trouble.problem.code ≠ .aliasRecursion) ∧
            ∀ piece ∈ part.gather fun text _ => [text], table.call? piece = none := by
        intro part hpart
        obtain ⟨cut, hcut, rfl⟩ := List.mem_map.1 hpart
        have htoken := mem_tokens_of_mem_cuts hcut
        have hbecomes := table.becomes_part depth active origin cut
        generalize table.part depth active origin cut = part at hbecomes
        cases hbecomes with
        | kept hinert =>
            refine ⟨List.forall_mem_nil _, fun piece hpiece => ?_⟩
            rw [List.mem_singleton.1 hpiece]
            exact call?_eq_none fun found hlead => (hinert found hlead).1
        | wrong hlead hvalue hwrong =>
            refine ⟨fun trouble htrouble => ?_, fun piece hpiece => ?_⟩
            · rw [Part.gather, Reference.wrong, if_pos hwrong] at htrouble
              rw [List.mem_singleton.1 htrouble]
              rintro ⟨⟩
            · rw [List.mem_singleton.1 hpiece]
              refine call?_eq_none fun other hother => ?_
              cases hlead.symm.trans hother
              exact hvalue
        | stopped hlead hvalue hstop =>
            exact absurd hstop (not_stopped_of_nests h htoken hlead hvalue)
        | entered hlead hvalue hactive =>
            obtain ⟨-, hapart, harguments⟩ := h _ htoken _ (call?_eq_some hlead hvalue)
            obtain ⟨_, _, _, -, -, -, -, -, rfl⟩ := lead_eq_command hlead
            obtain ⟨entry, hentry, rfl⟩ := exists_mem_entries_of_value hvalue
            exact ih _ (Nat.lt_succ_self _)
              (nests_filled (hsilent entry hentry) hapart harguments) _ _
      rw [troublesOf, keptOf, gather_eq_flatMap, gather_eq_flatMap]
      constructor
      · intro trouble htrouble
        obtain ⟨part, hpart, htrouble⟩ := List.mem_flatMap.1 htrouble
        exact (hparts part hpart).1 trouble htrouble
      · intro piece hpiece
        obtain ⟨part, hpart, hpiece⟩ := List.mem_flatMap.1 hpiece
        exact (hparts part hpart).2 piece hpiece

/-- With values that mention no command, all references nested at most twenty deep in arguments,
none within itself, are followed, and none are left to follow. -/
theorem expand_follows (table : AliasTable) (t fileName : Text)
    (hsilent : ∀ entry ∈ table.entries, Silent entry.2) (hnests : table.Nests 20 [] t) :
    (∀ diagnostic ∈ (table.expand t fileName).2, diagnostic.code ≠ .aliasRecursion) ∧
      (table.expand t fileName).1 = (keptOf (table.tree t)).flatten ∧
      (∀ piece ∈ keptOf (table.tree t), table.call? piece = none) ∧
      (table.ReadsApart (stretches (table.tree t)) →
        ∀ piece ∈ table.tokens (table.expand t fileName).1, table.call? piece = none) := by
  obtain ⟨htroubles, hkept⟩ := follows_of_nests hsilent hnests none 0
  rw [expand_eq]
  refine ⟨?_, (flatten_keptOf _).symm, hkept, fun hseams => ?_⟩
  · intro diagnostic hdiagnostic
    obtain ⟨trouble, htrouble, rfl⟩ := List.mem_map.1 hdiagnostic
    exact htroubles trouble htrouble
  · rw [tree, tokens_textOf hseams]
    exact hkept

/-- A reference in the argument of another. -/
theorem expand_follows_argument :
    let table := (ofLines [units "bold\x7b1\x7d=<b>\\1</b>",
      units "pair\x7b2\x7d=(\\1; \\2)"] settingsFile).1
    let t := units "see \\pair\x7b\\bold\x7bx\x7d,y\x7d"
    (∀ entry ∈ table.entries, Silent entry.2) ∧ table.Nests 20 [] t ∧
      (∀ diagnostic ∈ (table.expand t []).2, diagnostic.code ≠ .aliasRecursion) ∧
      (table.expand t []).1 = units "see (<b>x</b>; y)" ∧
      ∀ piece ∈ table.tokens (table.expand t []).1, table.call? piece = none := by
  intro table t
  have hsilent : ∀ entry ∈ table.entries, Silent entry.2 := by decide +kernel
  have hnests : table.Nests 20 [] t := by decide +kernel
  have hseams : table.ReadsApart (stretches (table.tree t)) := by decide +kernel
  obtain ⟨hcodes, htext, -, htokens⟩ := table.expand_follows t [] hsilent hnests
  refine ⟨hsilent, hnests, hcodes, ?_, htokens hseams⟩
  rw [htext]
  decide +kernel

/-- Aliases that hand their argument on, one for each letter. -/
def letterAliases : List Text :=
  (units "abcdefghijklmnopqrstu").map fun u => u :: units "\x7b1\x7d=\\1"

/-- The commands of these names, each the argument of the one before. -/
def nestedCommands (names : Text) : Text :=
  names.foldr (fun u inner => [unit '\\', u, unit '\x7b'] ++ inner ++ [unit '\x7d']) (units "x")

/-- No value mentions a command, and yet expansion stops as at a recursion: twenty-one references
in each other's arguments are too many, a reference in the arguments of its own alias is not told
from one in the value, and neither is one that value and argument make up together.  One that a
value makes up with the text behind it is not followed. -/
theorem expand_stops_at_arguments :
    let letters := (ofLines letterAliases settingsFile).1
    let braces := (ofLines [units "b\x7b1\x7d=\\1\x7bx\x7d"] settingsFile).1
    let signs := (ofLines [units "s\x7b1\x7d=\\", units "a=x"] settingsFile).1
    let report (table : AliasTable) (t : Text) :=
      ((table.expand t []).1, (table.expand t []).2.map (·.code))
    (∀ entry ∈ letters.entries ++ braces.entries ++ signs.entries, Silent entry.2) ∧
      report letters (nestedCommands (units "abcdefghijklmnopqrstu")) =
        (nestedCommands (units "u"), [.aliasRecursion]) ∧
      report letters (nestedCommands (units "bb")) =
        (nestedCommands (units "b"), [.aliasRecursion]) ∧
      report braces (units "\\b\x7b\\b\x7d") = (units "\\b\x7bx\x7d", [.aliasRecursion]) ∧
      report signs (units "\\s\x7b\x7da") = (units "\\a", []) ∧
      report signs (units "\\a") = (units "x", []) := by
  simp only [expand_eq]
  decide +kernel

end AliasTable

end DocMarkup
