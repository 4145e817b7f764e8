import DocMarkup.Parser.Basic
import DocMarkup.Proofs.Parser.Reading

/-!
The expansion of aliases finds problems of the text only.
-/

namespace DocMarkup

namespace AliasTable

/-- Troubles of the text that is expanded, none of the program. -/
def AreClean (troubles : List Trouble) : Prop :=
  ∀ trouble ∈ troubles, trouble.problem.isFoundReading

theorem AreClean.append {troubles later : List Trouble} (h : AreClean troubles)
    (hlater : AreClean later) : AreClean (troubles ++ later) :=
  List.forall_mem_append.2 ⟨h, hlater⟩

theorem areClean_wrongCount {isWrong : Bool} {name : Text} {count place : Nat} :
    AreClean (if isWrong then [⟨.aliasArgumentCount name count, name, place⟩] else []) := by
  intro trouble htrouble
  cases isWrong with
  | true =>
      rw [List.mem_singleton.1 htrouble]
      rfl
  | false => cases htrouble

theorem areClean_recursive {name : Text} {place : Nat} :
    AreClean [⟨.recursiveAlias name, name, place⟩] := by
  intro trouble htrouble
  rw [List.mem_singleton.1 htrouble]
  rfl

theorem areClean_expandFrom (table : AliasTable) (depth : Nat) (active : List Text)
    (origin : Option Nat) (offset : Nat) (t : Text) :
    AreClean (table.expandFrom depth active origin offset t).2 := by
  fun_induction AliasTable.expandFrom table depth active origin offset t
  case case1 => exact nofun
  case case2 hmore ih | case3 hmore ih | case4 hmore ih => exact congrArg Prod.snd hmore ▸ ih
  case case5 hmore _ _ _ ih =>
    have hlater : AreClean _ := congrArg Prod.snd hmore ▸ ih
    exact areClean_wrongCount.append hlater
  case case6 hmore _ _ _ _ _ _ ih | case7 hmore ih =>
    have hlater : AreClean _ := congrArg Prod.snd hmore ▸ ih
    exact (areClean_wrongCount.append areClean_recursive).append hlater
  case case8 hinner hmore ih ihinner =>
    have hentered : AreClean _ := congrArg Prod.snd hinner ▸ ihinner
    have hlater : AreClean _ := congrArg Prod.snd hmore ▸ ih
    exact (areClean_wrongCount.append hentered).append hlater

/-- Where no command begins nothing is expanded. -/
theorem expandFrom_of_noCommand (table : AliasTable) (depth : Nat) (active : List Text)
    (origin : Option Nat) (offset : Nat) {t : Text}
    (h : ∀ u ∈ t, u ≠ unit '\\' ∧ u ≠ unit '@') :
    table.expandFrom depth active origin offset t = (t, []) := by
  induction t generalizing offset with
  | nil => rw [expandFrom]
  | cons u rest ih =>
      obtain ⟨⟨hbackslash, hat⟩, hrest⟩ := List.forall_mem_cons.1 h
      have hplain : (u != unit '\\' && u != unit '@') = true := by simp [hbackslash, hat]
      rw [expandFrom, if_pos hplain, ih _ hrest]

/-- What is told of an expansion are problems of the text. -/
theorem exists_problem_of_expand (table : AliasTable) (t fileName : Text) :
    ∀ diagnostic ∈ (table.expand t fileName).2,
      ∃ (problem : Problem) (subject : Option Text) (line : Number) (start stop : Nat),
        problem.isFoundReading ∧
          diagnostic = problem.toDiagnostic subject fileName line start stop := by
  have htroubles := table.areClean_expandFrom maxDepth [] none 0 t
  unfold expand
  generalize table.expandFrom maxDepth [] none 0 t = expanded at htroubles ⊢
  intro diagnostic hdiagnostic
  obtain ⟨trouble, htrouble, rfl⟩ := List.mem_map.1 hdiagnostic
  exact ⟨_, _, _, _, _, htroubles trouble htrouble, rfl⟩

end AliasTable

/-- A comment without commands holds no aliases. -/
theorem Parser.expandAliases_of_noCommand (options : Parser.Options) {comment : Comment}
    (h : ∀ u ∈ comment.text, u ≠ unit '\\' ∧ u ≠ unit '@') :
    Parser.expandAliases options comment = (comment.text, []) := by
  unfold expandAliases
  split
  · rfl
  · rw [AliasTable.expand, AliasTable.expandFrom_of_noCommand _ _ _ _ _ h]
    rfl

theorem Parser.exists_problem_of_expandAliases (options : Parser.Options) (comment : Comment) :
    ∀ diagnostic ∈ (Parser.expandAliases options comment).2,
      ∃ (problem : Problem) (subject : Option Text) (fileName : Text) (line : Number)
        (start stop : Nat), problem.isFoundReading ∧
          diagnostic = problem.toDiagnostic subject fileName line start stop := by
  unfold expandAliases
  split
  · exact fun _ hnone => absurd hnone List.not_mem_nil
  · intro diagnostic hdiagnostic
    obtain ⟨problem, subject, line, start, stop, hproblem⟩ :=
      AliasTable.exists_problem_of_expand _ _ _ diagnostic hdiagnostic
    exact ⟨problem, subject, _, line, start, stop, hproblem⟩

theorem Parser.expandAliases_code_ne (options : Parser.Options) (comment : Comment) :
    ∀ diagnostic ∈ (Parser.expandAliases options comment).2,
      diagnostic.code ≠ .invalidSection := by
  intro diagnostic hdiagnostic
  obtain ⟨problem, _, _, _, _, _, hproblem, rfl⟩ :=
    exists_problem_of_expandAliases options comment diagnostic hdiagnostic
  exact Problem.code_ne_invalidSection hproblem

end DocMarkup
