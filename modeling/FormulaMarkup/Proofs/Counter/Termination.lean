import FormulaMarkup.Proofs.Counter.Agreement

/-!
# FormulaMarkup — reading comes to an end

Whatever the configuration and the input are and however many atoms are open, every routine of the
reader comes to an end, and an expression comes to an end where it should.

Nothing is counted here to see it.  Each routine has been shown to agree with a reader that ends by
its definition, so its bounded loops never fail; and what it leaves is an end of its input because
this is so for that reader.

* **`Call.reads`** — what every routine does to the state, under all configurations at once.
* **`Call.ends`** — every routine comes to an end, in every state.
* **`Call.lockstep`** — under two configurations it does the same to the state.
* **`reading_ends`** — where expressions, tables and whole sources end.
-/

namespace FormulaMarkup.Counter

open Source Text Formula

/-! ## Every routine

A routine that is called by its name forgets its value, so that all of them have one type.  What
remains is what they do to the state, and in this the configuration does not occur. -/

/-- A routine whose value is forgotten agrees with the reading whose value is forgotten.  This is
what makes routines with answers of different types comparable. -/
theorem Reads.discard {α : Type} {depth : Nat} {m : Routine α} {s : List Char} {r : Reading α}
    (h : Reads depth m s r) : Reads depth (discard m) s (r.map fun _ => ()) :=
  h.map

/-- `attempt` leaves an end of the input, or all of it where no atom starts. -/
theorem attempt_suffix (a : AtomReader) (s : List Char) : (attempt a s).rest <:+ s := by
  unfold attempt
  split
  · next r h => exact (a.consumes h).1
  · exact List.suffix_refl s

/-- **What a routine does to the state is the same under every configuration.**  It consumes the
front of its input, and what it leaves and reports is a reading in which the configuration does not
occur.  One case for each name in `Call`: the agreement of the routine with its reader, after which
laying out is forgotten together with the value. -/
theorem Call.reads (call : Call) (depth : Nat) (s : List Char) :
    ∃ r, (∀ config, Reads depth (call.run config) s r) ∧ r.rest <:+ s := by
  -- the atoms of the level that the counter has reached, under all configurations at once
  let a := atomReader (maxNesting - depth)
  have hatom : ∀ config s, Reads depth (atom? (inside config)) s (laidAttempt config a s) :=
    fun config => reads_inside config depth
  cases call with
  | expression stops =>
    -- loops and what they consist of
    exact ⟨(readExpression a stops s).map fun _ => (),
      fun config => (reads_expression (hatom config) stops s).discard,
      readExpression_suffix a stops s⟩
  | item =>
    exact ⟨(readItem a s).map fun _ => (), fun config => (reads_item (hatom config) s).discard,
      readItem_suffix a s⟩
  | stray =>
    exact ⟨(readStray a s).map fun _ => (), fun config => (reads_stray (hatom config) s).discard,
      readStray_suffix a s⟩
  | scripted base =>
    exact ⟨(readScripts a .none s).map fun _ => (),
      fun config => (reads_scripted_laid (hatom config) base s).discard,
      readScripts_suffix a .none s⟩
  | argument =>
    exact ⟨(readArgument a s).map fun _ => (),
      fun config => (reads_argument (hatom config) s).discard, readArgument_suffix a s⟩
  | atom =>
    exact ⟨(attempt a s).map fun _ => (), fun config => (hatom config s).discard,
      attempt_suffix a s⟩
  | group =>
    -- constructs, each with the routine that reads it
    exact ⟨(readBraced a s).map fun _ => (), fun config => (reads_group (hatom config) s).discard,
      readBraced_suffix a s⟩
  | fraction style =>
    exact ⟨(readCommandBody a (.fraction style) s).map fun _ => (),
      fun config => (reads_fraction (hatom config) style s).discard,
      readCommandBody_suffix a (.fraction style) s⟩
  | radical =>
    exact ⟨(readRadical a s).map fun _ => (),
      fun config => (reads_radical (hatom config) s).discard, readRadical_suffix a s⟩
  | fenced =>
    exact ⟨(readFenced a s).map fun _ => (), fun config => (reads_fenced (hatom config) s).discard,
      readFenced_suffix a s⟩
  | environment =>
    exact ⟨(readEnvironment a s).map fun _ => (),
      fun config => (reads_environment (hatom config) s).discard, readEnvironment_suffix a s⟩
  | matrix table =>
    exact ⟨(readMatrix a table s).map fun _ => (),
      fun config => (reads_matrix (hatom config) table s).discard, readRows_suffix a _ _ s⟩
  | command meaning =>
    exact ⟨(readCommandBody a meaning s).map fun _ => (),
      fun config => (reads_command (hatom config) meaning s).discard,
      readCommandBody_suffix a meaning s⟩
  | verbatim kind =>
    exact ⟨(readCommandBody a (.verbatim kind) s).map fun _ => (),
      fun config => (reads_command (hatom config) (.verbatim kind) s).discard, readGroup_suffix s⟩
  | delimiter =>
    -- tokens, which read no atom and so do not depend on the level
    exact ⟨⟨(), (readDelimiter s).2, []⟩, fun _ => Reads.discard (.plain _),
      readDelimiter_suffix s⟩
  | number =>
    exact ⟨(readNumber s).map fun _ => (), fun config => (reads_number config s).discard,
      readNumber_suffix s⟩
  | identifier =>
    exact ⟨(readIdentifier s).map fun _ => (), fun config => (reads_identifier config s).discard,
      List.dropWhile_suffix _⟩

/-- **Every routine comes to an end, in every state.**  It moves forward only and leaves the counter
as it was, which has not passed the limit on the way unless it had before. -/
theorem Call.ends (config : Config) (call : Call) (st : State) :
    ∃ st', call.run config st = some ((), st') ∧ st'.rest <:+ st.rest ∧ st'.depth = st.depth ∧
      st'.deepest ≤ max st.deepest maxNesting := by
  obtain ⟨r, hreads, hsuffix⟩ := call.reads st.depth st.rest
  obtain ⟨deepest, hle, hrun⟩ := hreads config st rfl rfl
  exact ⟨_, hrun, hsuffix, rfl, hle⟩

/-- **Two runs of a routine stay in step.** Started in one state under two configurations, a routine
comes to an end under both; the input that is left, the number of open atoms and everything that has
been reported are the same. -/
theorem Call.lockstep (config config' : Config) (call : Call) (st : State) :
    ∃ st₁ st₂, call.run config st = some ((), st₁) ∧ call.run config' st = some ((), st₂) ∧
      st₁.rest = st₂.rest ∧ st₁.depth = st₂.depth ∧ st₁.log = st₂.log := by
  obtain ⟨r, hreads, _⟩ := call.reads st.depth st.rest
  obtain ⟨_, _, hrun⟩ := hreads config st rfl rfl
  obtain ⟨_, _, hrun'⟩ := hreads config' st rfl rfl
  exact ⟨_, _, hrun, hrun', rfl, rfl, rfl⟩

/-! ## Expressions, tables and sources

Two routines are looked at with their values: the one that reads up to a stop and the one that reads
rows.  A whole source is the first one without a stop, and so it has no other end than its own. -/

/-- An `expression` reads what `readExpression` reads, laid out, and leaves the counter. -/
theorem expression_runs (config : Config) (stops : List Stop) (st : State) :
    ∃ deepest ≤ max st.deepest maxNesting,
      expression config (inside config) stops st =
        let r := readExpression (atomReader (maxNesting - st.depth)) stops st.rest
        some (layOut config r.value, ⟨r.rest, st.depth, deepest, st.log ++ r.log⟩) :=
  reads_expression (reads_inside config st.depth) stops st.rest st rfl rfl

/-- A `matrix` reads what `readMatrix` reads, laid out, and leaves the counter. -/
theorem matrix_runs (config : Config) (environment : Environment) (st : State) :
    ∃ deepest ≤ max st.deepest maxNesting,
      matrix config (inside config) environment st =
        let r := readMatrix (atomReader (maxNesting - st.depth)) environment st.rest
        some (layOut config r.value, ⟨r.rest, st.depth, deepest, st.log ++ r.log⟩) :=
  reads_matrix (reads_inside config st.depth) environment st.rest st rfl rfl

/-- **Reading comes to an end on every input, and never in the wrong place.** Under every
configuration and in every state, an `expression` is read up to the end of the input or up to one of
its stops, whichever these are (the end of an environment is a stop together with its name), and a
`matrix` is read.  Neither moves backwards, and both read what `readExpression` and `readMatrix`
read without a counter, laid out.  A whole source is read to its end, and the result is that of
`parse`. -/
theorem reading_ends (config : Config) (stops : List Stop) (environment : Environment) (st : State)
    (source : List Char) :
    (∃ layout st', expression config (inside config) stops st = some (layout, st') ∧
      layout = layOut config
        (readExpression (atomReader (maxNesting - st.depth)) stops st.rest).value ∧
      st'.rest <:+ st.rest ∧
      (st'.rest = [] ∨ ∃ stop ∈ stops, stop.StandsAt st'.rest)) ∧
    (∃ layout st', matrix config (inside config) environment st = some (layout, st') ∧
      layout = layOut config
        (readMatrix (atomReader (maxNesting - st.depth)) environment st.rest).value ∧
      st'.rest <:+ st.rest) ∧
    (∃ layout st', expression config (inside config) [] (.start source) = some (layout, st') ∧
      st'.rest = [] ∧ parse config source = ⟨layout, [], st'.log⟩) := by
  -- each of the three runs ends in a state that is known but for the deepest place of the counter
  obtain ⟨deepest, _, hexpression⟩ := expression_runs config stops st
  obtain ⟨deepest', _, hmatrix⟩ := matrix_runs config environment st
  obtain ⟨deepest'', _, hsource⟩ := expression_runs config [] (.start source)
  refine ⟨⟨_, _, hexpression, rfl, readExpression_suffix _ _ _, readExpression_end _ _ _⟩,
    ⟨_, _, hmatrix, rfl, readRows_suffix _ _ _ _⟩, ⟨_, _, hsource, rest_read source, ?_⟩⟩
  show (Formula.read source).map (layOut config) = _
  rw [Reading.map, rest_read]
  rfl

end FormulaMarkup.Counter
