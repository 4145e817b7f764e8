import DocMarkup.Alias

/-!
Arguments in braces, written and read back.  Written, the commas and braces of every argument get a
backslash, and commas stand between the arguments.  Reading finds the arguments again, wherever in
a text they stand and whatever follows, with one exception: a backslash at the end of an argument
would take the comma or the brace behind the argument as it is.
-/

namespace DocMarkup.Alias

/-- The signs that a backslash takes as they are: commas and braces. -/
def isSeparator (u : CodeUnit) : Bool := u == unit ',' || u == unit '\x7b' || u == unit '\x7d'

/-- An argument as it is written: with a backslash before every comma and brace. -/
def escapeArgument (argument : Text) : Text :=
  argument.flatMap fun u => if isSeparator u then [unit '\\', u] else [u]

/-- Arguments as they are written between their braces: with commas between them. -/
def joinArguments (arguments : List Text) : Text :=
  Text.join [unit ','] (arguments.map escapeArgument)

/-- Arguments as they are written, in braces. -/
def writeArguments (arguments : List Text) : Text :=
  unit '\x7b' :: (joinArguments arguments ++ [unit '\x7d'])

variable {depth : Nat} {current rest : Text} {u : CodeUnit}

/-! ### One step of reading -/

theorem argumentsFrom_backslash :
    argumentsFrom depth current (unit '\\' :: rest) =
      match rest with
      | [] => (argumentsFrom depth (unit '\\' :: current) []).map fun (found, n) => (found, n + 1)
      | v :: tail =>
        if isSeparator v then
          (argumentsFrom depth (v :: current) tail).map fun (found, n) => (found, n + 2)
        else
          (argumentsFrom depth (unit '\\' :: current) (v :: tail)).map fun (found, n) =>
            (found, n + 1) := by
  rw [argumentsFrom.eq_def]
  cases rest <;> rfl

theorem argumentsFrom_sign (hu : u ≠ unit '\\') :
    argumentsFrom depth current (u :: rest) =
      if u == unit '\x7b' then
        (argumentsFrom (depth + 1) (u :: current) rest).map fun (found, n) => (found, n + 1)
      else if u == unit '\x7d' then
        match depth with
        | 0 => some ([current.reverse], 1)
        | depth + 1 => (argumentsFrom depth (u :: current) rest).map fun (found, n) => (found, n + 1)
      else if u == unit ',' && depth == 0 then
        (argumentsFrom depth [] rest).map fun (found, n) => (current.reverse :: found, n + 1)
      else (argumentsFrom depth (u :: current) rest).map fun (found, n) => (found, n + 1) := by
  rw [argumentsFrom.eq_def]
  exact if_neg (by simpa using hu)

theorem argumentsFrom_escaped (hu : isSeparator u) :
    argumentsFrom depth current (unit '\\' :: u :: rest) =
      (argumentsFrom depth (u :: current) rest).map fun (found, n) => (found, n + 2) :=
  argumentsFrom_backslash.trans (if_pos hu)

/-- A unit that separates nothing is part of the argument, a backslash too unless it has something
to take as it is. -/
theorem argumentsFrom_own (hu : isSeparator u = false)
    (hrest : u = unit '\\' → rest.head?.any isSeparator = false) :
    argumentsFrom depth current (u :: rest) =
      (argumentsFrom depth (u :: current) rest).map fun (found, n) => (found, n + 1) := by
  by_cases hbackslash : u = unit '\\'
  case neg =>
    obtain ⟨⟨hcomma, hopen⟩, hclose⟩ : ((u == unit ',') = false ∧ (u == unit '\x7b') = false) ∧
        (u == unit '\x7d') = false := by
      simpa [isSeparator] using hu
    simp [argumentsFrom_sign hbackslash, hcomma, hopen, hclose]
  case pos =>
    subst hbackslash
    cases rest with
    | nil => exact argumentsFrom_backslash
    | cons v rest =>
        have hv : isSeparator v = false := hrest rfl
        exact argumentsFrom_backslash.trans (if_neg (Bool.eq_false_iff.1 hv))

theorem argumentsFrom_comma :
    argumentsFrom 0 current (unit ',' :: rest) =
      (argumentsFrom 0 [] rest).map fun (found, n) => (current.reverse :: found, n + 1) := by
  rw [argumentsFrom_sign (by decide)]
  rfl

theorem argumentsFrom_close :
    argumentsFrom 0 current (unit '\x7d' :: rest) = some ([current.reverse], 1) := by
  rw [argumentsFrom_sign (by decide)]
  rfl

/-! ### One argument -/

theorem escapeArgument_cons_of_separator {argument : Text} (hu : isSeparator u) :
    escapeArgument (u :: argument) = unit '\\' :: u :: escapeArgument argument := by
  rw [escapeArgument, List.flatMap_cons, if_pos hu]
  rfl

theorem escapeArgument_cons_of_own {argument : Text} (hu : isSeparator u = false) :
    escapeArgument (u :: argument) = u :: escapeArgument argument := by
  rw [escapeArgument, List.flatMap_cons, hu]
  rfl

/-- A written argument begins with no sign that would separate it. -/
theorem head?_escapeArgument_append {argument more : Text} (hne : argument ≠ []) :
    (escapeArgument argument ++ more).head?.any isSeparator = false := by
  obtain ⟨u, argument, rfl⟩ := List.exists_cons_of_ne_nil hne
  cases hu : isSeparator u with
  | true =>
      rw [escapeArgument_cons_of_separator hu]
      rfl
  | false =>
      rw [escapeArgument_cons_of_own hu]
      exact hu

/-- A written argument is read as it was, up to a sign that its last unit does not take. -/
theorem argumentsFrom_escapeArgument {argument : Text}
    (h : argument.getLast? = some (unit '\\') → isSeparator u = false) :
    argumentsFrom depth current (escapeArgument argument ++ u :: rest) =
      (argumentsFrom depth (argument.reverse ++ current) (u :: rest)).map fun (found, n) =>
        (found, n + (escapeArgument argument).length) := by
  induction argument generalizing current with
  | nil => simp [escapeArgument]
  | cons v argument ih =>
      have hlater : argument.getLast? = some (unit '\\') → isSeparator u = false := by
        intro hlast
        exact h (by rw [List.getLast?_cons, hlast]; rfl)
      cases hv : isSeparator v with
      | true =>
          rw [escapeArgument_cons_of_separator hv, List.cons_append, List.cons_append,
            argumentsFrom_escaped hv, ih hlater, Option.map_map, List.reverse_cons,
            List.append_assoc]
          rfl
      | false =>
          have hnext : v = unit '\\' →
              (escapeArgument argument ++ u :: rest).head?.any isSeparator = false := by
            rintro rfl
            cases argument with
            | nil => exact h rfl
            | cons w argument => exact head?_escapeArgument_append (List.cons_ne_nil w argument)
          rw [escapeArgument_cons_of_own hv, List.cons_append, argumentsFrom_own hv hnext,
            ih hlater, Option.map_map, List.reverse_cons, List.append_assoc]
          rfl

/-- What has been read of an argument is how the argument begins. -/
theorem prefix_of_argumentsFrom {t : Text} {found : List Text} {n : Nat}
    (h : argumentsFrom depth current t = some (found, n)) :
    ∃ argument others, found = argument :: others ∧ current.reverse <+: argument := by
  fun_induction argumentsFrom depth current t generalizing found n
  case case1 => cases h
  case case6 =>
    cases h
    exact ⟨_, [], rfl, List.prefix_rfl⟩
  case case8 =>
    obtain ⟨⟨others, _⟩, -, heq⟩ := Option.map_eq_some_iff.1 h
    cases heq
    exact ⟨_, others, rfl, List.prefix_rfl⟩
  all_goals
    rename_i ih
    obtain ⟨⟨_, _⟩, hread, heq⟩ := Option.map_eq_some_iff.1 h
    cases heq
    obtain ⟨argument, others, hfound, hprefix⟩ : ∃ argument others, found = argument :: others ∧
        (_ :: _ : Text).reverse <+: argument := by
      first
      | exact ih hread
      | exact ih _ hread
    rw [List.reverse_cons] at hprefix
    exact ⟨argument, others, hfound, (List.prefix_append _ _).trans hprefix⟩

/-- A backslash at the end of an argument takes the sign behind the argument as it is. -/
theorem prefix_of_argumentsFrom_backslash {argument : Text} (hu : isSeparator u)
    {found : List Text} {n : Nat}
    (h : argumentsFrom 0 [] (escapeArgument (argument ++ [unit '\\']) ++ u :: rest) =
      some (found, n)) :
    ∃ first others, found = first :: others ∧ argument ++ [u] <+: first := by
  have hwritten : escapeArgument (argument ++ [unit '\\']) ++ u :: rest =
      escapeArgument argument ++ unit '\\' :: u :: rest := by
    rw [escapeArgument, List.flatMap_append, List.append_assoc]
    rfl
  rw [hwritten, argumentsFrom_escapeArgument (fun _ => by decide), argumentsFrom_escaped hu,
    Option.map_map, Option.map_eq_some_iff] at h
  obtain ⟨⟨read, m⟩, hread, heq⟩ := h
  cases heq
  simpa using prefix_of_argumentsFrom hread

/-- So an argument that is read back whole does not end in a backslash. -/
theorem getLast?_ne_of_argumentsFrom {argument : Text} {others : List Text} {n : Nat}
    (hu : isSeparator u)
    (h : argumentsFrom 0 [] (escapeArgument argument ++ u :: rest) =
      some (argument :: others, n)) :
    argument.getLast? ≠ some (unit '\\') := by
  intro hlast
  obtain ⟨start, rfl⟩ := List.getLast?_eq_some_iff.1 hlast
  obtain ⟨first, later, heq, hprefix⟩ := prefix_of_argumentsFrom_backslash hu h
  obtain ⟨rfl, -⟩ := List.cons.inj heq
  have hsame : start ++ [u] = start ++ [unit '\\'] := hprefix.eq_of_length (by simp)
  obtain rfl : u = unit '\\' := by simpa using hsame
  exact absurd hu (by decide)

/-! ### All arguments -/

theorem joinArguments_cons_cons (argument next : Text) (arguments : List Text) :
    joinArguments (argument :: next :: arguments) =
      escapeArgument argument ++ unit ',' :: joinArguments (next :: arguments) := by
  simp [joinArguments, Text.join]

theorem joinArguments_singleton (argument : Text) :
    joinArguments [argument] = escapeArgument argument := by
  simp [joinArguments, Text.join]

/-- Arguments are read back, up to the brace that closes them. -/
theorem argumentsFrom_joinArguments {arguments : List Text} (hne : arguments ≠ [])
    (h : ∀ argument ∈ arguments, argument.getLast? ≠ some (unit '\\')) :
    argumentsFrom 0 [] (joinArguments arguments ++ unit '\x7d' :: rest) =
      some (arguments, (joinArguments arguments).length + 1) := by
  induction arguments with
  | nil => exact absurd rfl hne
  | cons argument arguments ih =>
      obtain ⟨hargument, hlater⟩ := List.forall_mem_cons.1 h
      cases arguments with
      | nil =>
          rw [joinArguments_singleton, argumentsFrom_escapeArgument (absurd · hargument),
            argumentsFrom_close, Option.map_some, List.append_nil, List.reverse_reverse,
            Nat.add_comm]
      | cons next arguments =>
          rw [joinArguments_cons_cons, List.append_assoc, List.cons_append,
            argumentsFrom_escapeArgument (absurd · hargument), argumentsFrom_comma,
            ih (List.cons_ne_nil next arguments) hlater, Option.map_some, Option.map_some,
            List.append_nil, List.reverse_reverse, List.length_append, List.length_cons]
          refine congrArg some (Prod.ext rfl ?_)
          show _ + 1 + 1 + _ = _ + (_ + 1) + 1
          omega

/-- Behind an argument stands a comma, or the brace that closes the arguments. -/
theorem exists_separator (argument : Text) (arguments : List Text) (rest : Text) :
    ∃ u more, isSeparator u ∧ joinArguments (argument :: arguments) ++ unit '\x7d' :: rest =
      escapeArgument argument ++ u :: more := by
  cases arguments with
  | nil =>
      refine ⟨unit '\x7d', rest, by decide, ?_⟩
      rw [joinArguments_singleton]
  | cons next arguments =>
      refine ⟨unit ',', joinArguments (next :: arguments) ++ unit '\x7d' :: rest,
        by decide, ?_⟩
      rw [joinArguments_cons_cons, List.append_assoc, List.cons_append]

/-- Arguments that are read back all end in something other than a backslash. -/
theorem getLast?_ne_of_joinArguments {arguments : List Text} {n : Nat}
    (h : argumentsFrom 0 [] (joinArguments arguments ++ unit '\x7d' :: rest) =
      some (arguments, n)) :
    ∀ argument ∈ arguments, argument.getLast? ≠ some (unit '\\') := by
  induction arguments generalizing n with
  | nil => exact nofun
  | cons argument arguments ih =>
      have hargument : argument.getLast? ≠ some (unit '\\') := by
        obtain ⟨u, more, hu, hwritten⟩ := exists_separator argument arguments rest
        exact getLast?_ne_of_argumentsFrom hu (hwritten ▸ h)
      refine List.forall_mem_cons.2 ⟨hargument, ?_⟩
      cases arguments with
      | nil => exact nofun
      | cons next arguments =>
          rw [joinArguments_cons_cons, List.append_assoc, List.cons_append,
            argumentsFrom_escapeArgument (absurd · hargument), argumentsFrom_comma,
            Option.map_map, Option.map_eq_some_iff] at h
          obtain ⟨⟨read, m⟩, hread, heq⟩ := h
          obtain rfl : read = next :: arguments := (List.cons.inj (Prod.mk.inj heq).1).2
          exact ih hread

/-- Arguments that are written anywhere in a text are read back from there, up to the place behind
their closing brace, exactly if there are any and none of them ends in a backslash. -/
theorem splitArguments?_writeArguments (before after : Text) (arguments : List Text) :
    splitArguments? (before ++ writeArguments arguments ++ after) before.length =
        some (arguments, (before ++ writeArguments arguments).length) ↔
      arguments ≠ [] ∧ ∀ argument ∈ arguments, argument.getLast? ≠ some (unit '\\') := by
  have hread : splitArguments? (before ++ writeArguments arguments ++ after) before.length =
      (argumentsFrom 0 [] (joinArguments arguments ++ unit '\x7d' :: after)).map
        fun (found, n) => (found, before.length + 1 + n) := by
    have hdrop : (before ++ writeArguments arguments ++ after).drop (before.length + 1) =
        joinArguments arguments ++ unit '\x7d' :: after := by
      rw [List.append_assoc, ← List.drop_drop, List.drop_left, writeArguments]
      simp
    rw [splitArguments?, hdrop]
  have hlength : (before ++ writeArguments arguments).length =
      before.length + 1 + ((joinArguments arguments).length + 1) := by
    simp [writeArguments]
    omega
  rw [hread, hlength]
  constructor
  · intro h
    obtain ⟨⟨found, n⟩, hfound, heq⟩ := Option.map_eq_some_iff.1 h
    obtain rfl : found = arguments := (Prod.mk.inj heq).1
    refine ⟨?_, getLast?_ne_of_joinArguments hfound⟩
    rintro rfl
    cases argumentsFrom_close.symm.trans hfound
  · rintro ⟨hne, hlast⟩
    rw [argumentsFrom_joinArguments hne hlast, Option.map_some]

/-- Two arguments are read as one where the first ends in a backslash. -/
example :
    splitArguments? (writeArguments [units "a\\", units "b"]) 0 = some ([units "a,b"], 6) := by
  decide +kernel

end DocMarkup.Alias
