import DocMarkup.Alias

/-!
How a text is read for aliases: it is cut into single units, escapes and commands.  What is read
first depends on no unit behind it, so a text that ends where a command of a longer text ends is
read like the longer one.
-/

namespace DocMarkup

/-- Units of a kind, up to the first that is not, are the same in a longer text unless they go on
there. -/
theorem Text.takeWhile_append_of_length_le {kind : CodeUnit → Bool} {t more : Text}
    (h : ((t ++ more).takeWhile kind).length ≤ t.length) :
    (t ++ more).takeWhile kind = t.takeWhile kind := by
  rw [List.takeWhile_append] at h ⊢
  split at h
  case isFalse hstops => rw [if_neg hstops]
  case isTrue hall =>
    have hnone : more.takeWhile kind = [] := by
      rw [List.length_append] at h
      exact List.eq_nil_of_length_eq_zero (by omega)
    rw [if_pos hall, hnone, List.append_nil]
    exact ((List.takeWhile_prefix kind).eq_of_length hall).symm

namespace Alias

/-- Arguments take their closing brace at least. -/
theorem one_le_of_argumentsFrom {depth : Nat} {current t : Text} {found : List Text} {n : Nat}
    (h : argumentsFrom depth current t = some (found, n)) : 1 ≤ n := by
  fun_induction argumentsFrom depth current t generalizing found n
  case case1 => cases h
  case case6 => cases h; exact Nat.le_refl 1
  all_goals
    obtain ⟨_, _, heq⟩ := Option.map_eq_some_iff.1 h
    cases heq
    exact Nat.le_add_left 1 _

/-- A backslash is never the last unit of arguments. -/
theorem two_le_of_argumentsFrom_backslash {depth : Nat} {current rest : Text} {u : CodeUnit}
    {found : List Text} {n : Nat} (hu : (u == unit '\\') = true)
    (h : argumentsFrom depth current (u :: rest) = some (found, n)) : 2 ≤ n := by
  rw [argumentsFrom.eq_def] at h
  simp only [hu, if_true] at h
  split at h
  case h_1 =>
    simp [argumentsFrom] at h
  case h_2 =>
    split at h
    · obtain ⟨_, _, heq⟩ := Option.map_eq_some_iff.1 h
      cases heq
      exact Nat.le_add_left 2 _
    · obtain ⟨_, hfound, heq⟩ := Option.map_eq_some_iff.1 h
      cases heq
      exact Nat.succ_le_succ (one_le_of_argumentsFrom hfound)

/-- A bound on the units taken, before some more are counted. -/
theorem filter_map_count {count : List Text × Nat → List Text × Nat} {more : Nat}
    (hcount : ∀ arguments, (count arguments).2 = arguments.2 + more) (bound : Nat)
    (found : Option (List Text × Nat)) :
    (found.map count).filter (·.2 ≤ bound + more) = (found.filter (·.2 ≤ bound)).map count := by
  rw [Option.filter_map]
  congr 1
  congr 1
  funext arguments
  simp [hcount]

/-- The arguments of a text are those of any longer text, provided they end in the first one. -/
theorem argumentsFrom_eq_filter (depth : Nat) (current t more : Text) :
    argumentsFrom depth current t =
      (argumentsFrom depth current (t ++ more)).filter (·.2 ≤ t.length) := by
  fun_induction argumentsFrom depth current t
  case case1 depth current =>
    refine (Option.filter_eq_none_iff.2 ?_).symm
    intro arguments harguments
    have := one_le_of_argumentsFrom harguments
    simpa using Nat.pos_iff_ne_zero.1 this
  case case2 depth current u hu plain ih =>
    simp only [plain, argumentsFrom, Option.map_none]
    refine (Option.filter_eq_none_iff.2 ?_).symm
    intro arguments harguments
    have := two_le_of_argumentsFrom_backslash hu harguments
    simp only [List.length_singleton, decide_eq_true_eq]
    omega
  case case3 depth current u hu v tail hv hplain ih =>
    rw [ih, ← filter_map_count (fun _ => rfl)]
    simp [argumentsFrom, hu, hv]
  case case4 depth current u hu v tail hv hplain ih =>
    rw [ih, ← filter_map_count (fun _ => rfl)]
    simp [argumentsFrom, hu, hv]
  case case5 depth current u rest plain hu hopen ih =>
    simp only [plain]
    rw [ih, ← filter_map_count (fun _ => rfl), argumentsFrom.eq_def _ _ (u :: rest ++ more)]
    simp [hu, hopen]
  case case6 current u rest hu hopen hclose ih =>
    rw [argumentsFrom.eq_def _ _ (u :: rest ++ more)]
    simp [hu, hopen, hclose, Option.filter_some]
  case case7 current u rest plain hu hopen hclose depth ih =>
    simp only [plain]
    rw [ih, ← filter_map_count (fun _ => rfl), argumentsFrom.eq_def _ _ (u :: rest ++ more)]
    simp [hu, hopen, hclose]
  case case8 depth current u rest hu hopen hclose hcomma hplain ih =>
    rw [ih, ← filter_map_count (fun _ => rfl), argumentsFrom.eq_def _ _ (u :: rest ++ more)]
    simp [hu, hopen, hclose, hcomma]
  case case9 depth current u rest plain hu hopen hclose hcomma ih =>
    simp only [plain]
    rw [ih, ← filter_map_count (fun _ => rfl), argumentsFrom.eq_def _ _ (u :: rest ++ more)]
    simp [hu, hopen, hclose, hcomma]

/-- The same of the arguments in braces at the start of a text. -/
theorem splitArguments?_eq_filter (t more : Text) :
    splitArguments? t 0 = (splitArguments? (t ++ more) 0).filter (·.2 ≤ t.length) := by
  unfold splitArguments?
  cases t with
  | nil =>
      refine (Option.filter_eq_none_iff.2 ?_).symm
      intro arguments harguments
      obtain ⟨_, _, rfl⟩ := Option.map_eq_some_iff.1 harguments
      simp
  | cons u rest =>
      have hfilter := argumentsFrom_eq_filter 0 [] rest more
      rw [List.length_cons, filter_map_count (fun _ => Nat.add_comm _ _)]
      exact congrArg (Option.map _) hfilter

end Alias

namespace AliasTable

theorem reference_name (table : AliasTable) (name tail : Text) :
    (table.reference name tail).name = name := by
  unfold reference
  grind

/-- The arguments in braces that a command of this name may take. -/
def braces? (table : AliasTable) (name tail : Text) : Option (List Text × Nat) :=
  if tail.head? == some (unit '\x7b') && table.hasName name then Alias.splitArguments? tail 0
  else none

theorem braces?_eq_filter (table : AliasTable) (name tail more : Text) :
    table.braces? name tail =
      (table.braces? name (tail ++ more)).filter (·.2 ≤ tail.length) := by
  have hfilter := Alias.splitArguments?_eq_filter tail more
  unfold braces?
  cases tail with
  | nil =>
      rw [List.nil_append] at hfilter ⊢
      split
      case isTrue hopens => cases (Bool.and_eq_true_iff.1 hopens).1
      case isFalse =>
        split
        · exact hfilter
        · rfl
  | cons u rest =>
      rw [List.cons_append, List.head?_cons, List.head?_cons]
      split
      · exact hfilter
      · rfl

/-- Without arguments in braces a command stands for a plain alias. -/
theorem reference_of_braces_none {table : AliasTable} {name tail : Text}
    (h : table.braces? name tail = none) :
    table.reference name tail = ⟨name, name.length + 1, none, table.get? name 0, false⟩ := by
  unfold reference
  unfold braces? at h
  simp only [h]

/-- With arguments in braces it stands for an alias of their number, or for a plain alias if the
name has no other. -/
theorem reference_of_braces_some {table : AliasTable} {name tail : Text} {arguments : List Text}
    {stop : Nat} (h : table.braces? name tail = some (arguments, stop)) :
    table.reference name tail =
      match table.get? name (Whole.ofNat arguments.length) with
      | some value => ⟨name, name.length + 1 + stop, some arguments, some value, false⟩
      | none =>
        if (table.get? name 0).isSome && !table.takesArguments name then
          ⟨name, name.length + 1, none, table.get? name 0, false⟩
        else ⟨name, name.length + 1 + stop, some arguments, none, true⟩ := by
  unfold reference
  unfold braces? at h
  cases hvalue : table.get? name (Whole.ofNat arguments.length) <;> simp only [h, hvalue]

theorem length_reference_le (table : AliasTable) (name tail : Text) :
    (table.reference name tail).length ≤ name.length + 1 + tail.length := by
  cases hbraces : table.braces? name tail with
  | none =>
      rw [reference_of_braces_none hbraces]
      exact Nat.le_add_right ..
  | some found =>
      obtain ⟨arguments, stop⟩ := found
      have hstop : stop ≤ tail.length := by
        have hfilter := table.braces?_eq_filter name tail []
        rw [hbraces, List.append_nil, hbraces] at hfilter
        simpa using (Option.filter_eq_some_iff.1 hfilter.symm).2
      rw [reference_of_braces_some hbraces]
      grind

theorem lt_length_reference (table : AliasTable) (name tail : Text) :
    name.length < (table.reference name tail).length := by
  unfold reference
  grind

/-- A reference is the same in a longer text, provided it ends in the first one. -/
theorem reference_append (table : AliasTable) (name tail more : Text)
    (h : (table.reference name (tail ++ more)).length ≤ name.length + 1 + tail.length) :
    table.reference name (tail ++ more) = table.reference name tail := by
  have hfilter := table.braces?_eq_filter name tail more
  cases hlong : table.braces? name (tail ++ more) with
  | none =>
      rw [hlong, Option.filter_none] at hfilter
      rw [reference_of_braces_none hlong, reference_of_braces_none hfilter]
  | some found =>
      obtain ⟨arguments, stop⟩ := found
      rw [hlong, Option.filter_some] at hfilter
      by_cases hstop : stop ≤ tail.length
      case pos =>
        rw [if_pos (by simpa using hstop)] at hfilter
        rw [reference_of_braces_some hlong, reference_of_braces_some hfilter]
      case neg =>
        rw [if_neg (by simpa using hstop)] at hfilter
        rw [reference_of_braces_some hlong] at h ⊢
        rw [reference_of_braces_none hfilter]
        -- braces that go on behind the first text are no arguments of this reference
        split at h
        · dsimp only at h; omega
        · split at h
          case isTrue hplain => rw [if_pos hplain]
          case isFalse => dsimp only at h; omega

/-- The reference of a command, read from behind its sign. -/
def named (table : AliasTable) (t : Text) : Reference :=
  let name := t.takeWhile CodeUnit.isIdentifierChar
  table.reference name (t.drop name.length)

theorem lt_length_named (table : AliasTable) (t : Text) :
    (t.takeWhile CodeUnit.isIdentifierChar).length < (table.named t).length :=
  table.lt_length_reference _ _

theorem length_named_le (table : AliasTable) (t : Text) :
    (table.named t).length ≤ t.length + 1 := by
  have hle : (t.takeWhile CodeUnit.isIdentifierChar).length ≤ t.length :=
    (List.takeWhile_prefix _).length_le
  have := table.length_reference_le (t.takeWhile CodeUnit.isIdentifierChar)
    (t.drop (t.takeWhile CodeUnit.isIdentifierChar).length)
  rw [List.length_drop] at this
  exact Nat.le_trans this (by omega)

theorem named_append {table : AliasTable} {t more : Text}
    (h : (table.named (t ++ more)).length ≤ t.length + 1) :
    table.named (t ++ more) = table.named t := by
  have hlt := table.lt_length_named (t ++ more)
  have hname : (t ++ more).takeWhile CodeUnit.isIdentifierChar =
      t.takeWhile CodeUnit.isIdentifierChar :=
    Text.takeWhile_append_of_length_le (by omega)
  have hle : (t.takeWhile CodeUnit.isIdentifierChar).length ≤ t.length :=
    (List.takeWhile_prefix _).length_le
  unfold named at h ⊢
  rw [hname] at h ⊢
  dsimp only at h ⊢
  rw [List.drop_append_of_le_length hle] at h ⊢
  exact reference_append table _ _ more (by rw [List.length_drop]; omega)

/-! ### What a text begins with -/

/-- What a text begins with: a unit that stands for itself, an escaped sign, or a command. -/
inductive Lead where
  | single
  | escape
  | command (found : Reference)

/-- How many units are read at once. -/
def Lead.length : Lead → Nat
  | single => 1
  | escape => 2
  | command found => found.length

/-- Reads the start of a text. -/
def lead (table : AliasTable) : Text → Lead
  | [] => .single
  | u :: rest =>
    if u != unit '\\' && u != unit '@' then .single
    else if rest.head?.any Escape.isSign then .escape
    else if !rest.head?.any CodeUnit.isIdentifierStart then .single
    else .command (table.named rest)

section

variable {table : AliasTable} {u : CodeUnit} {rest : Text}

theorem lead_of_noSign (hu : (u != unit '\\' && u != unit '@') = true) :
    table.lead (u :: rest) = .single := by
  rw [lead, if_pos hu]

theorem lead_of_escape (hu : ¬(u != unit '\\' && u != unit '@') = true)
    (hescape : rest.head?.any Escape.isSign = true) : table.lead (u :: rest) = .escape := by
  rw [lead, if_neg hu, if_pos hescape]

theorem lead_of_noName (hu : ¬(u != unit '\\' && u != unit '@') = true)
    (hescape : ¬rest.head?.any Escape.isSign = true)
    (hname : ¬rest.head?.any CodeUnit.isIdentifierStart = true) :
    table.lead (u :: rest) = .single := by
  rw [lead, if_neg hu, if_neg hescape, if_pos (by simpa using hname)]

theorem lead_of_name (hu : ¬(u != unit '\\' && u != unit '@') = true)
    (hescape : ¬rest.head?.any Escape.isSign = true)
    (hname : rest.head?.any CodeUnit.isIdentifierStart = true) :
    table.lead (u :: rest) = .command (table.named rest) := by
  rw [lead, if_neg hu, if_neg hescape, if_neg (by simpa using hname)]

end

theorem lead_length_pos (table : AliasTable) (t : Text) : 0 < (table.lead t).length := by
  unfold lead
  split
  case h_1 => exact Nat.one_pos
  case h_2 u rest =>
    split
    · exact Nat.one_pos
    · split
      · exact Nat.two_pos
      · split
        · exact Nat.one_pos
        · exact Nat.zero_lt_of_lt (table.lt_length_named rest)

theorem lead_length_le (table : AliasTable) {t : Text} (hne : t ≠ []) :
    (table.lead t).length ≤ t.length := by
  obtain ⟨u, rest, rfl⟩ := List.exists_cons_of_ne_nil hne
  have hone : 1 ≤ (u :: rest).length := Nat.le_add_left 1 _
  unfold lead
  dsimp only
  split
  · exact hone
  · split
    case isTrue hescape =>
      cases rest with
      | nil => cases hescape
      | cons v rest => exact Nat.le_add_left 2 _
    case isFalse =>
      split
      · exact hone
      · exact table.length_named_le rest

theorem takeWhile_isIdentifierChar_ne_nil {t : Text}
    (h : t.head?.any CodeUnit.isIdentifierStart = true) :
    t.takeWhile CodeUnit.isIdentifierChar ≠ [] := by
  cases t with
  | nil => cases h
  | cons u rest =>
      have hu : u.isIdentifierChar = true := by
        rw [List.head?_cons, Option.any_some] at h
        simp [CodeUnit.isIdentifierChar, h]
      rw [List.takeWhile_cons_of_pos hu]
      exact List.cons_ne_nil _ _

/-- A text that holds what is read first of a longer one begins with the same. -/
theorem lead_append {table : AliasTable} {t more : Text} (hne : t ≠ [])
    (h : (table.lead (t ++ more)).length ≤ t.length) :
    table.lead (t ++ more) = table.lead t := by
  obtain ⟨u, rest, rfl⟩ := List.exists_cons_of_ne_nil hne
  rw [List.cons_append] at h ⊢
  by_cases hu : (u != unit '\\' && u != unit '@') = true
  case pos => rw [lead_of_noSign hu, lead_of_noSign hu]
  case neg =>
    cases rest with
    | nil =>
        -- a sign alone takes nothing with it
        rw [List.nil_append] at h ⊢
        have hescape : ¬more.head?.any Escape.isSign = true := by
          intro hescape
          rw [lead_of_escape hu hescape] at h
          exact absurd h (by simp [Lead.length])
        have hname : ¬more.head?.any CodeUnit.isIdentifierStart = true := by
          intro hname
          have hpos := List.length_pos_iff.2 (takeWhile_isIdentifierChar_ne_nil hname)
          have hlt := table.lt_length_named more
          rw [lead_of_name hu hescape hname, List.length_singleton] at h
          exact absurd h (by simp only [Lead.length]; omega)
        rw [lead_of_noName hu hescape hname]
        exact (lead_of_noName hu (by decide) (by decide)).symm
    | cons v rest =>
        by_cases hescape : ((v :: rest) ++ more).head?.any Escape.isSign = true
        case pos => rw [lead_of_escape hu hescape, lead_of_escape hu (by exact hescape)]
        case neg =>
          by_cases hname : ((v :: rest) ++ more).head?.any CodeUnit.isIdentifierStart = true
          case neg =>
            rw [lead_of_noName hu hescape hname, lead_of_noName hu (by exact hescape)
              (by exact hname)]
          case pos =>
            rw [lead_of_name hu hescape hname] at h ⊢
            rw [lead_of_name hu (by exact hescape) (by exact hname), named_append h]

/-- A text that begins an identifier is that identifier and what stands behind it. -/
theorem exists_identifier {t : Text} (h : t.head?.any CodeUnit.isIdentifierStart) :
    ∃ name after, t = name ++ after ∧ t.takeWhile CodeUnit.isIdentifierChar = name ∧
      name.head?.any CodeUnit.isIdentifierStart ∧ name.all CodeUnit.isIdentifierChar ∧
      ¬after.head?.any CodeUnit.isIdentifierChar := by
  refine ⟨t.takeWhile CodeUnit.isIdentifierChar, t.dropWhile CodeUnit.isIdentifierChar,
    List.takeWhile_append_dropWhile.symm, rfl, ?start, List.all_takeWhile, ?stop⟩
  case start =>
    rw [List.head?_takeWhile]
    cases hhead : t.head? with
    | none => simp [hhead] at h
    | some u =>
        rw [hhead] at h
        have hu : u.isIdentifierStart = true := by simpa using h
        simp [Option.filter_some, CodeUnit.isIdentifierChar, hu]
  case stop =>
    have hstop := List.head?_dropWhile_not CodeUnit.isIdentifierChar t
    revert hstop
    cases (t.dropWhile CodeUnit.isIdentifierChar).head? <;> simp

/-- A command is a sign with a name behind it. -/
theorem lead_eq_command {table : AliasTable} {t : Text} {found : Reference}
    (h : table.lead t = .command found) :
    ∃ sign name after, t = sign :: (name ++ after) ∧ (sign = unit '\\' ∨ sign = unit '@') ∧
      name.head?.any CodeUnit.isIdentifierStart ∧ name.all CodeUnit.isIdentifierChar ∧
      ¬after.head?.any CodeUnit.isIdentifierChar ∧ found = table.reference name after := by
  cases t with
  | nil => cases h
  | cons sign rest =>
      rw [lead] at h
      split at h
      case isTrue => cases h
      case isFalse hsign =>
        split at h
        case isTrue => cases h
        case isFalse =>
          split at h
          case isTrue => cases h
          case isFalse hname =>
            obtain ⟨name, after, rfl, htaken, hstart, hall, hstop⟩ :=
              exists_identifier (by simpa using hname)
            refine ⟨sign, name, after, rfl, ?sign, hstart, hall, hstop, ?found⟩
            case sign =>
              by_cases hbackslash : sign = unit '\\'
              · exact .inl hbackslash
              · exact .inr (by simpa [hbackslash] using hsign)
            case found =>
              obtain rfl := Lead.command.inj h
              rw [named, htaken, List.drop_left]

/-! ### Cutting a text -/

/-- A text cut into what is read at once, every piece with its offset. -/
def cuts (table : AliasTable) (offset : Nat) (t : Text) : List (Nat × Text) :=
  match t with
  | [] => []
  | u :: rest =>
    let length := (table.lead (u :: rest)).length
    (offset, (u :: rest).take length) :: table.cuts (offset + length) ((u :: rest).drop length)
termination_by t.length
decreasing_by
  have := table.lead_length_pos (u :: rest)
  simp only [List.length_drop, List.length_cons]
  omega

/-- A text cut into what is read at once. -/
def tokens (table : AliasTable) (t : Text) : List Text := (table.cuts 0 t).map (·.2)

theorem map_snd_cuts (table : AliasTable) (offset : Nat) (t : Text) :
    (table.cuts offset t).map (·.2) = table.tokens t := by
  unfold tokens
  generalize 0 = start
  fun_induction cuts table offset t generalizing start with
  | case1 => rw [cuts]
  | case2 offset u rest length ih =>
      rw [cuts, List.map_cons, List.map_cons, ih]

@[simp] theorem tokens_nil (table : AliasTable) : table.tokens [] = [] := by
  rw [tokens, cuts, List.map_nil]

theorem tokens_of_ne_nil {table : AliasTable} {t : Text} (hne : t ≠ []) :
    table.tokens t =
      t.take (table.lead t).length :: table.tokens (t.drop (table.lead t).length) := by
  obtain ⟨u, rest, rfl⟩ := List.exists_cons_of_ne_nil hne
  rw [tokens, cuts, List.map_cons, map_snd_cuts]

theorem flatten_tokens (table : AliasTable) (t : Text) : (table.tokens t).flatten = t := by
  unfold tokens
  fun_induction cuts table 0 t with
  | case1 => rfl
  | case2 offset u rest length ih =>
      rw [List.map_cons, List.flatten_cons, ih, List.take_append_drop]

/-- A piece is what is read first behind its offset. -/
theorem exists_append_of_mem_cuts {table : AliasTable} {offset : Nat} {t : Text}
    {piece : Nat × Text} (h : piece ∈ table.cuts offset t) :
    ∃ before after, t = before ++ after ∧ after ≠ [] ∧ piece.1 = offset + before.length ∧
      piece.2 = after.take (table.lead after).length := by
  fun_induction cuts table offset t with
  | case1 => cases h
  | case2 offset u rest length ih =>
      cases h with
      | head => exact ⟨[], u :: rest, rfl, List.cons_ne_nil u rest, rfl, rfl⟩
      | tail _ h =>
          obtain ⟨before, after, hafter, hne, hoffset, hpiece⟩ := ih h
          refine ⟨(u :: rest).take length ++ before, after, ?_, hne, ?_, hpiece⟩
          · rw [List.append_assoc, ← hafter, List.take_append_drop]
          · rw [List.length_append, List.length_take_of_le
              (table.lead_length_le (List.cons_ne_nil u rest)), ← Nat.add_assoc]
            exact hoffset

theorem pairwise_cuts (table : AliasTable) (offset : Nat) (t : Text) :
    (table.cuts offset t).Pairwise (·.1 < ·.1) := by
  fun_induction cuts table offset t with
  | case1 => exact List.Pairwise.nil
  | case2 offset u rest length ih =>
      refine List.Pairwise.cons (fun piece hpiece => ?_) ih
      obtain ⟨before, -, -, -, hoffset, -⟩ := exists_append_of_mem_cuts hpiece
      have := table.lead_length_pos (u :: rest)
      dsimp only
      omega

/-- What is read at once begins, taken alone, with the same. -/
theorem lead_take (table : AliasTable) {t : Text} (hne : t ≠ []) :
    table.lead (t.take (table.lead t).length) = table.lead t := by
  have hpos := table.lead_length_pos t
  have htaken : (t.take (table.lead t).length).length = (table.lead t).length :=
    List.length_take_of_le (table.lead_length_le hne)
  refine .symm ?_
  calc table.lead t
      = table.lead (t.take (table.lead t).length ++ t.drop (table.lead t).length) := by
        rw [List.take_append_drop]
    _ = table.lead (t.take (table.lead t).length) := by
        refine lead_append (List.ne_nil_of_length_pos (by omega)) (Nat.le_of_eq ?_)
        rw [List.take_append_drop, htaken]

/-- Some of the first pieces of a text make a text that is cut into the same pieces. -/
theorem tokens_flatten_of_starts {table : AliasTable} {pieces : List Text} {t : Text}
    (h : pieces <+: table.tokens t) : table.tokens pieces.flatten = pieces := by
  induction pieces generalizing t with
  | nil => exact table.tokens_nil
  | cons piece pieces ih =>
      have hne : t ≠ [] := by
        rintro rfl
        rw [tokens_nil] at h
        exact absurd (List.prefix_nil.1 h) (List.cons_ne_nil _ _)
      rw [tokens_of_ne_nil hne] at h
      obtain ⟨rfl, hpieces⟩ := List.cons_prefix_cons.1 h
      have hlength := List.length_take_of_le (table.lead_length_le hne)
      have hpos := table.lead_length_pos t
      -- the rest of the text does not matter for the first piece
      obtain ⟨more, hmore⟩ : pieces.flatten <+: t.drop (table.lead t).length := by
        rw [← table.flatten_tokens (t.drop _)]
        obtain ⟨rest, hrest⟩ := hpieces
        exact ⟨rest.flatten, by rw [← hrest, List.flatten_append]⟩
      have hwhole : t.take (table.lead t).length ++ pieces.flatten ++ more = t := by
        rw [List.append_assoc, hmore, List.take_append_drop]
      have hlead : table.lead t = table.lead (t.take (table.lead t).length ++ pieces.flatten) :=
        calc table.lead t
            = table.lead (t.take (table.lead t).length ++ pieces.flatten ++ more) := by
              rw [hwhole]
          _ = table.lead (t.take (table.lead t).length ++ pieces.flatten) := by
              refine lead_append
                (List.append_ne_nil_of_left_ne_nil (List.ne_nil_of_length_pos (by omega)) _) ?_
              rw [hwhole, List.length_append]
              omega
      rw [List.flatten_cons, tokens_of_ne_nil
        (List.append_ne_nil_of_left_ne_nil (List.ne_nil_of_length_pos (by omega)) _), ← hlead,
        List.take_left' hlength, List.drop_left' hlength, ih hpieces]

end AliasTable

end DocMarkup
