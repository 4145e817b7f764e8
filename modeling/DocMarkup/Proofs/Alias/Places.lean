import DocMarkup.Proofs.Alias.Expansion

/-!
Where the troubles of an expansion are reported: at references of the text itself to aliases of the
table, from left to right, also when they are met deep inside a value.
-/

namespace DocMarkup

namespace AliasTable

/-- A command that names an alias stands at this offset: a command sign, and behind it an
identifier that does not go on. -/
def NamesAliasAt (table : AliasTable) (t : Text) (offset : Nat) : Prop :=
  ∃ sign name after, t.drop offset = sign :: (name ++ after) ∧
    (sign = unit '\\' ∨ sign = unit '@') ∧
    name.head?.any CodeUnit.isIdentifierStart ∧ name.all CodeUnit.isIdentifierChar ∧
    ¬after.head?.any CodeUnit.isIdentifierChar ∧ table.hasName name

/-! ### The names of a table -/

/-- Every entry of a table is that of a definition. -/
theorem exists_of_mem_entries {definitions : List Alias} {entry : Text × Text}
    (h : entry ∈ (ofList definitions).entries) :
    ∃ definition ∈ definitions, entry.1 = Alias.key definition.name definition.argumentCount := by
  have hfold : ∀ entries, entry ∈ definitions.foldl (fun entries (definition : Alias) =>
      let key := Alias.key definition.name definition.argumentCount
      (key, definition.value) :: entries.filter (·.1 != key)) entries →
      entry ∈ entries ∨
        ∃ definition ∈ definitions,
          entry.1 = Alias.key definition.name definition.argumentCount := by
    clear h
    induction definitions with
    | nil => exact fun entries h => .inl h
    | cons definition definitions ih =>
        intro entries h
        rcases ih _ h with hmem | ⟨other, hother, hkey⟩
        · dsimp only at hmem
          rcases List.mem_cons.1 hmem with hentry | hmem
          · exact .inr ⟨definition, List.mem_cons_self, by rw [hentry]⟩
          · exact .inl (List.mem_filter.1 hmem).1
        · exact .inr ⟨other, List.mem_cons_of_mem _ hother, hkey⟩
  exact (hfold [] h).resolve_left List.not_mem_nil

theorem key_zero (name : Text) : Alias.key name 0 = name := by
  rw [Alias.key, if_neg (by decide +kernel)]

/-- Identifiers are the names of the plain aliases whose keys they are. -/
theorem name_eq_of_key_eq {definition : Alias} {name : Text}
    (hname : name.all CodeUnit.isIdentifierChar)
    (h : Alias.key definition.name definition.argumentCount = name) :
    definition.name = name := by
  rw [Alias.key] at h
  split at h
  case isFalse => exact h
  case isTrue =>
    have hbrace : unit '\x7b' ∈ name := by
      rw [← h]
      simp
    exact absurd (List.all_eq_true.1 hname _ hbrace) (by decide)

/-- A reference of a table, with or without a fitting definition, is to a name it defines. -/
theorem hasName_of_reference {definitions : List Alias} {name after : Text}
    (hname : name.all CodeUnit.isIdentifierChar)
    (h : ((ofList definitions).reference name after).value.isSome ∨
      ((ofList definitions).reference name after).wrongCount) :
    (ofList definitions).hasName name := by
  cases hbraces : (ofList definitions).braces? name after with
  | some found =>
      rw [braces?] at hbraces
      split at hbraces
      case isTrue hopens => exact (Bool.and_eq_true_iff.1 hopens).2
      case isFalse => cases hbraces
  | none =>
      rw [reference_of_braces_none hbraces] at h
      have hplain : ((ofList definitions).get? name 0).isSome := by simpa using h
      rw [get?, Option.isSome_map] at hplain
      obtain ⟨entry, hentry⟩ := Option.isSome_iff_exists.1 hplain
      obtain ⟨definition, hmem, hkey⟩ := exists_of_mem_entries (List.mem_of_find?_eq_some hentry)
      have hfound : entry.1 = name := by
        rw [← key_zero name]
        simpa using List.find?_some hentry
      rw [hasName, List.contains_iff_mem]
      exact List.mem_map.2 ⟨definition, hmem, name_eq_of_key_eq hname (hkey.symm.trans hfound)⟩

/-- Troubles of a text are reported where it names an alias. -/
theorem namesAliasAt_of_mem_troublesOf {definitions : List Alias} {t : Text} {trouble : Trouble}
    (h : trouble ∈ troublesOf ((ofList definitions).tree t)) :
    (ofList definitions).NamesAliasAt t trouble.offset := by
  rw [troublesOf, gather_eq_flatMap, tree, parts] at h
  obtain ⟨part, hpart, htrouble⟩ := List.mem_flatMap.1 h
  obtain ⟨piece, hpiece, rfl⟩ := List.mem_map.1 hpart
  obtain ⟨hoffset, found, hlead, hfound⟩ := offset_of_mem_troubles htrouble
  obtain ⟨before, after, rfl, hne, hbefore, htaken⟩ := exists_append_of_mem_cuts hpiece
  rw [htaken, lead_take _ hne] at hlead
  obtain ⟨sign, name, behind, rfl, hsign, hstart, hname, hstop, rfl⟩ := lead_eq_command hlead
  refine ⟨sign, name, behind, ?_, hsign, hstart, hname, hstop, hasName_of_reference hname hfound⟩
  rw [hoffset, Option.getD_none, hbefore, Nat.zero_add, List.drop_left]

/-- Expansion enters no alias within itself and at most twenty within each other, and what it
reports, it reports in order at references of the text to aliases. -/
theorem expand_traced (definitions : List Alias) (t fileName : Text) :
    let table := ofList definitions
    table.expand t fileName =
        (textOf (table.tree t), (troublesOf (table.tree t)).map fun trouble =>
          trouble.problem.toDiagnostic (some trouble.name) fileName
            (Text.lineOf t trouble.offset : Nat) trouble.offset trouble.offset) ∧
      (∀ keys, Chain (table.tree t) keys → keys.Nodup ∧ keys.length ≤ 20) ∧
      (∀ diagnostic ∈ (table.expand t fileName).2,
        table.NamesAliasAt t diagnostic.start ∧ diagnostic.stop = diagnostic.start ∧
          diagnostic.line = (1 + (t.take diagnostic.start).count CodeUnit.lineFeed : Nat)) ∧
      (table.expand t fileName).2.Pairwise (·.start ≤ ·.start) := by
  intro table
  have hexpand := table.expand_eq t fileName
  refine ⟨hexpand, fun keys hkeys => ?chain, ?place, ?order⟩
  case chain =>
    obtain ⟨hnodup, -, hlength⟩ := chain_parts hkeys
    exact ⟨hnodup, hlength⟩
  case place =>
    intro diagnostic hdiagnostic
    rw [hexpand] at hdiagnostic
    obtain ⟨trouble, htrouble, rfl⟩ := List.mem_map.1 hdiagnostic
    refine ⟨namesAliasAt_of_mem_troublesOf htrouble, rfl, ?_⟩
    rw [Nat.add_comm]
    rfl
  case order =>
    rw [hexpand]
    exact List.pairwise_map.2 (table.pairwise_troublesOf_parts maxDepth [] 0 t)

end AliasTable

end DocMarkup
