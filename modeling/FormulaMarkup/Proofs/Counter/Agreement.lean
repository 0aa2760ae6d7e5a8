import FormulaMarkup.Convert
import FormulaMarkup.Proofs.Counter.Reader
import FormulaMarkup.Proofs.Formula.Ends
import FormulaMarkup.Proofs.Node

/-!
# FormulaMarkup — neither the counter nor the configuration changes what is read

The reader that works step by step reads what the reader of formulas reads and `layOut` lays out
afterwards: the number of levels that are left is what the counter lacks to the limit, and asking
the configuration at the places where spaces and scripts are read comes to the same as asking it
once the whole formula is there.  So the configuration has no influence on what is consumed, on what
is looked ahead at, on the nesting or on what is reported.

Each routine gets one lemma, `Reads depth routine s r`, which says all there is to know of a run: it
comes to an end, with the answer, the remainder and the diagnostics of `r`, the counter is back
where it was, and it has not gone past the limit.  The lemma about a routine is put together from
those about the routines it calls, with `Reads.bind` and its relatives.

* **`Reads`** — that a routine comes to an end with a given reading, and leaves the counter as it
  was and never above the limit.
* **`Reads.bind`** — one routine after another.
* **`laid`** — a reading of a formula, with the formula laid out.
* **`attach_laidScripts`** — the place of scripts, looked for early or late.
* **`reads_atom?`** — an atom is what the reader of atoms reads, laid out.
* **`reads_expression`** and its neighbours — one routine for each construct.
* **`run_eq_parse`** — a whole source.
-/

namespace FormulaMarkup.Counter

open Source Text Formula

variable {α β : Type} {depth : Nat} {s : List Char}

/-! ## Runs

`Reads` is stated for all states with the same input and the same counter, whatever their logs and
their greatest counters are.  That is what makes one routine after another compose. -/

/-- Started on the input `s` with `depth` open atoms, the routine comes to an end with the reading
`r`.  The counter is then what it was, and it has not passed the limit unless it had before. -/
def Reads (depth : Nat) (m : Routine α) (s : List Char) (r : Reading α) : Prop :=
  ∀ st : State, st.rest = s → st.depth = depth →
    ∃ deepest ≤ max st.deepest maxNesting,
      m st = some (r.value, ⟨r.rest, depth, deepest, st.log ++ r.log⟩)

namespace Reads

theorem congr {m : Routine α} {r r' : Reading α} (h : Reads depth m s r) (heq : r = r') :
    Reads depth m s r' :=
  heq ▸ h

/-- An answer without a step.  The input, the counter and the log stay as they are. -/
theorem pure (v : α) : Reads depth (Pure.pure v) s ⟨v, s, []⟩ := by
  rintro st rfl rfl
  refine ⟨st.deepest, Nat.le_max_left _ _, ?_⟩
  show some (v, st) = _
  rw [List.append_nil]

/-- A `plain` reading opens no atom, so that neither `depth` nor `deepest` is touched. -/
theorem plain (f : List Char → Reading α) : Reads depth (plain f) s (f s) := by
  rintro st rfl rfl
  exact ⟨st.deepest, Nat.le_max_left _ _, rfl⟩

/-- **One routine after another.** If `m` reads `r`, and `k` reads `r'` from where `r` stops and
with the answer of `r`, then `m >>= k` reads `r'` with the log of `r` in front (`Reading.after`).
The counter is what it was in between, because `Reads` says that every routine restores it. -/
theorem bind {m : Routine α} {k : α → Routine β} {r : Reading α} {r' : Reading β}
    (hm : Reads depth m s r) (hk : Reads depth (k r.value) r.rest r') :
    Reads depth (m >>= k) s (r'.after r.log) := by
  intro st hrest hdepth
  obtain ⟨deepest, hle, hrun⟩ := hm st hrest hdepth
  obtain ⟨deepest', hle', hrun'⟩ := hk ⟨r.rest, depth, deepest, st.log ++ r.log⟩ rfl rfl
  -- the two bounds on the greatest counter are put together, and so are the two logs
  refine ⟨deepest', ?_, ?_⟩
  · show deepest' ≤ max st.deepest maxNesting
    have : deepest' ≤ max deepest maxNesting := hle'
    omega
  · show (m st).bind (fun p => k p.1 p.2) = _
    rw [hrun]
    show k r.value ⟨r.rest, depth, deepest, st.log ++ r.log⟩ = _
    rw [hrun', List.append_assoc]
    rfl

/-- A `token` is read, and nothing is guessed: the routine goes on with what `f` finds at the front
of the input and with what `f` leaves. -/
theorem token {f : List Char → α × List Char} {k : α → Routine β} {r : Reading β}
    (h : Reads depth (k (f s).1) (f s).2 r) : Reads depth (token f >>= k) s r :=
  (bind (plain fun s => ⟨(f s).1, (f s).2, []⟩) h).congr rfl

/-- Something is reported, and `k` goes on in the same place.  The report comes first in the log. -/
theorem note {diagnostic : Diagnostic} {k : Unit → Routine β} {r : Reading β}
    (h : Reads depth (k ()) s r) : Reads depth (note diagnostic >>= k) s (r.after [diagnostic]) :=
  bind (plain fun s => ⟨(), s, [diagnostic]⟩) h

theorem input {k : List Char → Routine β} {r : Reading β} (h : Reads depth (k s) s r) :
    Reads depth (input >>= k) s r :=
  token h

theorem skipBlanks {k : Unit → Routine β} {r : Reading β}
    (h : Reads depth (k ()) (skipBlank s) r) : Reads depth (skipBlanks >>= k) s r :=
  token h

/-- The routine goes on at `t`, which is where a case on the input has found the rest of it. -/
theorem moveTo {t : List Char} {k : Unit → Routine β} {r : Reading β}
    (h : Reads depth (k ()) t r) : Reads depth (moveTo t >>= k) s r :=
  token h

/-- A `token` at the end of a routine: the answer is made of it by `g`. -/
theorem token_pure (f : List Char → α × List Char) (g : α → β) :
    Reads depth (Counter.token f >>= fun v => Pure.pure (g v)) s ⟨g (f s).1, (f s).2, []⟩ :=
  token (pure _)

theorem note_pure (diagnostic : Diagnostic) (v : β) :
    Reads depth (Counter.note diagnostic >>= fun _ => Pure.pure v) s ⟨v, s, [diagnostic]⟩ :=
  (note (pure v)).congr rfl

/-- The answer of a routine is changed by `f` at the end.  This is how `laid` comes in: the routine
builds a `Layout` where the reader builds a formula. -/
theorem map {m : Routine α} {f : α → β} {r : Reading α} (h : Reads depth m s r) :
    Reads depth (m >>= fun v => Pure.pure (f v)) s (r.map f) :=
  (h.bind (.pure (f r.value))).congr (by simp [Reading.after, Reading.map])

/-- A choice between two routines reads the choice between their readings, if it depends on the same
condition. -/
theorem ite {p : Prop} [Decidable p] {m m' : Routine α} {r r' : Reading α}
    (h : p → Reads depth m s r) (h' : ¬p → Reads depth m' s r') :
    Reads depth (if p then m else m') s (if p then r else r') := by
  by_cases hp : p
  · rw [if_pos hp, if_pos hp]
    exact h hp
  · rw [if_neg hp, if_neg hp]
    exact h' hp

/-- The same for a choice whose readings are both laid out or both wrapped, as in `reads_stray`. -/
theorem ite_map {p : Prop} [Decidable p] {m m' : Routine β} {f : α → β} {r r' : Reading α}
    (h : p → Reads depth m s (r.map f)) (h' : ¬p → Reads depth m' s (r'.map f)) :
    Reads depth (if p then m else m') s ((if p then r else r').map f) :=
  (ite h h').congr (apply_ite (Reading.map f) p r r').symm

end Reads

/-! ## One atom further down

Each routine reads what its counterpart among the readers reads, with the formula laid out, if the
same holds of the atoms inside.  The lemmas follow the routines one by one, and only those on
`attach` and on `command` have to look at the configuration: everywhere else laying out passes
through a node to its parts by computation. -/

/-- A reading of a formula, with the formula laid out by `layOut`. -/
def laid (config : Config) (r : Reading Formula) : Reading Layout := r.map (layOut config)

@[simp] theorem laid_mk (config : Config) (f : Formula) (s : List Char) (log : List Diagnostic) :
    laid config ⟨f, s, log⟩ = ⟨layOut config f, s, log⟩ := rfl

@[simp] theorem value_laid (config : Config) (r : Reading Formula) :
    (laid config r).value = layOut config r.value := rfl

@[simp] theorem rest_laid (config : Config) (r : Reading Formula) :
    (laid config r).rest = r.rest := rfl

@[simp] theorem log_laid (config : Config) (r : Reading Formula) :
    (laid config r).log = r.log := rfl

/-- What the reader of atoms reads, if an atom starts at all.  Otherwise nothing is consumed, as it
is with the routine `atom?`. -/
def attempt (a : AtomReader) (s : List Char) : Reading (Option Formula) :=
  match a.read s with
  | some r => r.map some
  | none => ⟨none, s, []⟩

/-- What `attempt` reads, laid out. -/
def laidAttempt (config : Config) (a : AtomReader) (s : List Char) : Reading (Option Layout) :=
  (attempt a s).map (Option.map (layOut config))

theorem laidAttempt_of_none (config : Config) {a : AtomReader} {s : List Char}
    (h : a.read s = none) : laidAttempt config a s = ⟨none, s, []⟩ := by
  rw [laidAttempt, attempt, h]
  rfl

theorem laidAttempt_of_some (config : Config) {a : AtomReader} {s : List Char}
    {r : Reading Formula} (h : a.read s = some r) :
    laidAttempt config a s = (laid config r).map some := by
  rw [laidAttempt, attempt, h]
  rfl

/-- Scripts that have been found, laid out.  The routine keeps them as a pair, the reader as
`Scripts`. -/
def laidScripts (config : Config) (scripts : Scripts) : Option Layout × Option Layout :=
  (scripts.sub.map (layOut config), scripts.sup.map (layOut config))

/-- **The place of scripts is the one that `layOut` gives them.** `attach` looks at the base when it
has been laid out already, while `layOut` looks at it before; a base is a large operator after
laying out just if it was one before (`isLargeOperator_relabel`). -/
theorem attach_laidScripts (config : Config) (scripts : Scripts) (base : Formula) :
    attach config (layOut config base) (laidScripts config scripts)
      = layOut config (scripts.attach base) := by
  have hlarge : (layOut config base).isLargeOperator = base.isLargeOperator :=
    Node.isLargeOperator_relabel _ _ base
  obtain ⟨sub, sup⟩ := scripts
  cases sub <;> cases sup
  case none.none => rfl
  all_goals
    show Node.scripted _ _ _ (if (layOut config base).isLargeOperator && _ then _ else _) = _
    rw [hlarge]
    rfl

/-- Laying out does not change whether an expression has a row of its own: `ofItems` makes a row of
any number of items but one. -/
theorem layOut_ofItems (config : Config) (items : List Formula) :
    layOut config (.ofItems items) = .ofItems (items.map (layOut config)) := by
  rw [layOut, Node.relabel_ofItems, Node.relabelAll_eq_map]
  rfl

theorem layOut_radical (config : Config) (body index : Formula) :
    layOut config (.radical body (some index))
      = .radical (layOut config body) (some (layOut config index)) := rfl

theorem layOut_fenced (config : Config) (opening closing : String) (body : Formula) :
    layOut config (.fenced opening closing body) = .fenced opening closing (layOut config body) :=
  rfl

/-- `layOut` lays a table out cell by cell, and leaves its glyphs as they are. -/
theorem layOut_matrix (config : Config) (rows : List (List Formula)) (opening closing : String) :
    layOut config (.matrix rows opening closing)
      = .matrix (rows.map (List.map (layOut config))) opening closing := by
  show Node.matrix (Node.relabelRows _ _ rows) opening closing = _
  rw [Node.relabelRows_eq_map]
  rfl

section Texts

/-! ### Texts, numbers and identifiers

No atom is opened in these, and they have nothing to lay out. -/

/-- The `remainder` of the input becomes a text and is reported, as `readVerbatim` does it. -/
theorem reads_remainder (config : Config) (s : List Char) :
    Reads depth remainder s (laid config (readVerbatim s)) :=
  .token (.note_pure _ _)

/-- `number` takes two runs of digits if there is a period behind the first one, also if the second
run is empty, as `readNumber` does. -/
theorem reads_number (config : Config) (s : List Char) :
    Reads depth number s (laid config (readNumber s)) := by
  refine .token (.input ?_)
  by_cases hperiod : ∃ t, s.dropWhile Char.isDigit = '.' :: t
  · obtain ⟨t, ht⟩ := hperiod
    rw [readNumber_of_period ht, ht]
    exact .moveTo (.token_pure _ _)
  · rw [readNumber_of_not_period fun t ht => hperiod ⟨t, ht⟩]
    split
    · next t ht => exact absurd ⟨t, ht⟩ hperiod
    · exact .pure _

theorem reads_identifier (config : Config) (s : List Char) :
    Reads depth identifier s (laid config (readIdentifier s)) :=
  .token_pure _ _

end Texts

section Inner

variable {config : Config} {inner : Routine Layout} {a : AtomReader}
  (hatom : ∀ s, Reads depth (atom? inner) s (laidAttempt config a s))
include hatom

/-- An `argument` is the atom behind the blanks, or the empty row if none starts there, in which
case the blanks are consumed all the same. -/
theorem reads_argument (s : List Char) :
    Reads depth (argument inner) s (laid config (readArgument a s)) := by
  refine .skipBlanks ((hatom (skipBlank s)).map.congr ?_)
  unfold laidAttempt attempt readArgument
  cases a.read (skipBlank s) <;> rfl

/-- **The scripts that follow are collected one by one.** Each turn of the loop consumes a marker,
so that it takes fewer turns than there are characters, and `scriptsLoop` does not fail for lack of
them.  Induction on the turns, for any scripts that have been found and any input. -/
theorem reads_scriptsLoop (turns : Nat) (found : Scripts) (s : List Char)
    (hturns : s.length < turns) :
    Reads depth (scriptsLoop inner turns (laidScripts config found).1 (laidScripts config found).2)
      s ((readScripts a found s).map (laidScripts config)) := by
  induction turns generalizing found s with
  | zero => omega
  | succ turns ih =>
    refine .skipBlanks (.input ?_)
    have hblank := (skipBlank_suffix s).length_le
    cases hs : skipBlank s with
    | nil =>
      rw [readScripts_of_nil a found hs]
      exact .pure _
    | cons c t =>
      cases hc : ScriptKind.ofMarker? c with
      | none =>
        rw [readScripts_of_other a found hs hc]
        simp only [hc]
        exact .pure _
      | some kind =>
        cases hfound : (found.get kind).isSome with
        | true =>
          rw [readScripts_of_found a hs hc hfound]
          -- a script of this kind is there, so the marker is left in the input
          simp only [hc]
          obtain ⟨_ | sub, _ | sup⟩ := found <;> cases kind <;>
            first | exact absurd hfound Bool.false_ne_true | exact .pure _
        | false =>
          rw [readScripts_of_marker a hs hc hfound]
          have hshort : (readArgument a t).rest.length < turns := by
            have harg := (readArgument_suffix a t).length_le
            simp only [hs, List.length_cons] at hblank
            omega
          have hnext := ih (found.set kind (readArgument a t).value) _ hshort
          simp only [hc]
          obtain ⟨_ | sub, _ | sup⟩ := found <;> cases kind <;>
            first
            | exact absurd hfound.symm Bool.false_ne_true
            | exact .moveTo (((reads_argument hatom t).bind hnext).congr rfl)

/-- A base that has been laid out already, with its scripts: `attach` is asked for their place. -/
theorem reads_scripted_laid (base : Layout) (s : List Char) :
    Reads depth (scripted config inner base) s
      ((readScripts a .none s).map fun scripts =>
        attach config base (laidScripts config scripts)) :=
  .input (reads_scriptsLoop hatom _ .none s (Nat.lt_succ_self _)).map

/-- **A base and its scripts, with the place that `layOut` gives them.** The routine looks at the
configuration here, through `attach`; `attach_laidScripts` says that it need not. -/
theorem reads_scripted (base : Formula) (s : List Char) :
    Reads depth (scripted config inner (layOut config base)) s
      (laid config (readScripted a base s)) := by
  refine (reads_scripted_laid hatom (layOut config base) s).congr ?_
  simp only [attach_laidScripts]
  rfl

/-- What starts no atom: a marker, whose script hangs on an empty row, a separator, which is shown
as an operator, `\\`, which breaks the line, a stray `\end`, which is reported, or anything else,
which is dropped.  Only a marker leads to an atom. -/
theorem reads_stray (s : List Char) : Reads depth (stray config inner) s
      ((readStray a s).map (Option.map (layOut config))) := by
  refine .input ?_
  cases s with
  | nil => exact .pure none
  | cons c t =>
    cases hc : ScriptKind.ofMarker? c with
    | some kind =>
      -- a marker is not consumed here but by the loop over the scripts
      rw [readStray_of_marker a hc]
      simp only [hc]
      exact (reads_scripted hatom .emptyRow (c :: t)).map
    | none =>
      rw [readStray_of_not_marker a hc]
      simp only [hc]
      -- the choices of `readStray` in their order
      refine .ite_map (fun _ => .token_pure _ _) fun _ => .ite_map (fun _ => ?_) fun _ =>
        .token_pure _ _
      refine .ite_map (fun _ => .token_pure _ _) fun _ => .ite_map (fun _ => ?_) fun _ =>
        .token_pure _ _
      exact .token (.token (.note_pure _ _))

/-- An `item` is an atom with its scripts, or a `stray` if no atom starts.  It has no node in the
second case, if what is stray is dropped. -/
theorem reads_item (s : List Char) :
    Reads depth (item config inner) s ((readItem a s).map (Option.map (layOut config))) := by
  have h := hatom s
  unfold readItem item
  cases hread : a.read s with
  | none =>
    rw [laidAttempt_of_none config hread] at h
    exact (h.bind (reads_stray hatom s)).congr rfl
  | some r =>
    rw [laidAttempt_of_some config hread] at h
    exact (h.bind (reads_scripted hatom r.value r.rest).map).congr rfl

/-- **Items are collected up to a stop.** Each turn of the loop consumes a character at least
(`readItem_consumes`), so that there are turns enough.  Induction on the turns; the routine adds
items at the end of a list, the reader puts them in front of what comes later. -/
theorem reads_itemsLoop (stops : List Stop) (turns : Nat) (items : List Layout) (s : List Char)
    (hturns : s.length < turns) :
    Reads depth (itemsLoop config inner stops turns items) s
      ((readItems a stops s).map fun next => items ++ next.map (layOut config)) := by
  induction turns generalizing items s with
  | zero => omega
  | succ turns ih =>
    refine .skipBlanks (.input ?_)
    have hblank := (skipBlank_suffix s).length_le
    cases hs : skipBlank s with
    | nil =>
      rw [readItems_of_nil a stops hs]
      exact (Reads.pure items).congr (by simp [Reading.map])
    | cons c t =>
      cases hstop : Stop.anyAt stops (c :: t) with
      | true =>
        rw [readItems_of_stop a hs hstop]
        simp only [Bool.or_true, if_true]
        exact (Reads.pure items).congr (by simp [Reading.map])
      | false =>
        rw [readItems_of_item a hs hstop]
        simp only [List.isEmpty_cons, Bool.or_self, Bool.false_eq_true, if_false]
        -- an item consumes something, and the rest of the loop has a turn less for it
        have hitem := (readItem_consumes a c t).2
        simp only [hs, List.length_cons] at hblank hitem
        have hrest := ih (items ++ ((readItem a (c :: t)).value.map (layOut config)).toList)
          (readItem a (c :: t)).rest (by omega)
        refine ((reads_item hatom (c :: t)).bind hrest).congr ?_
        simp [Reading.map, Reading.after, Option.toList_map]

/-- Items up to a stop, laid out one by one and then put together by `ofItems`. -/
theorem reads_expression (stops : List Stop) (s : List Char) :
    Reads depth (expression config inner stops) s (laid config (readExpression a stops s)) := by
  refine .input ((reads_itemsLoop hatom stops _ [] s (Nat.lt_succ_self _)).map.congr ?_)
  simp only [readExpression, Reading.map, laid, List.nil_append, layOut_ofItems]

/-! ### Tables

The loop over the cells has the cells of the current row and the finished rows in its state, while
`readRows` puts each cell in front of what comes later.  `finish` goes from the one to the other. -/

section Cells

omit hatom

/-- At the end of the input `finish` takes the row in progress only if it has a cell. -/
theorem finish_nil (rows : List (List Layout)) (row : List Layout) :
    finish (rows, row) = rows ++ if row.isEmpty then [] else [row] := by
  cases row <;> simp [finish]

theorem finish_cell (rows : List (List Layout)) (row : List Layout) (cell : Layout) :
    finish (rows, row ++ [cell]) = rows ++ [row ++ [cell]] :=
  if_neg (by simp)

theorem reads_cellEnd_column (t : List Char) :
    Reads depth cellEnd ('&' :: t) ⟨.column, t, []⟩ :=
  .input (.token_pure _ _)

theorem reads_cellEnd_row (t : List Char) :
    Reads depth cellEnd ('\\' :: '\\' :: t) ⟨.row, t, []⟩ :=
  .input (.token_pure _ _)

/-- An `\end` ends the table.  The name behind it is not looked at: a cell goes on past all ends but
the one in its `cellStops`. -/
theorem reads_cellEnd_table {s : List Char} (h : atCommand "end".toList s = true) :
    Reads depth cellEnd s ⟨.table, skipEnvironmentEnd s, []⟩ := by
  refine .input ?_
  split
  · cases h
  · simp [atCommand] at h
  · rw [if_pos h, skipEnvironmentEnd, if_pos h]
    exact .token (.token_pure _ _)

theorem reads_cellEnd_nothing : Reads depth cellEnd [] ⟨.nothing, [], []⟩ :=
  .input (.pure _)

end Cells

/-- A turn of `rowsLoop` is a cell, what ends there, and what the loop does then.  The three cases
in which a token is consumed and the one in which none is differ in `ending` only. -/
theorem reads_turn {environment : List Char} {turns : Nat} {rows : List (List Layout)}
    {row : List Formula} {s : List Char} (hs : s ≠ []) {ending : Reading CellEnd}
    {r : Reading Rows}
    (hending : Reads depth cellEnd (readExpression a (cellStops environment) s).rest ending)
    (hafter : Reads depth (afterCell (rowsLoop config inner environment turns) rows
      ((row ++ [(readExpression a (cellStops environment) s).value]).map (layOut config))
      ending.value) ending.rest r) :
    Reads depth (rowsLoop config inner environment (turns + 1) rows (row.map (layOut config))) s
      ((r.after ending.log).after (readExpression a (cellStops environment) s).log) := by
  refine .input ?_
  simp only [List.isEmpty_eq_false_iff.mpr hs, Bool.false_eq_true, if_false]
  rw [List.map_append] at hafter
  exact (reads_expression hatom (cellStops environment) s).bind (hending.bind hafter)

/-- **The loop over the cells comes to an end.** A turn in which no token is consumed is the last
one, because a cell ends only at a token that the loop consumes or at the end of the input
(`rest_of_cell`).  Induction on the turns; the reading `r` of the loop is a pair of finished rows
and a row in progress, of which `finish` makes the rows of `readRows`. -/
theorem reads_rowsLoop (environment : List Char) (turns : Nat) (rows : List (List Layout))
    (row : List Formula) (s : List Char) (hturns : s.length < turns) :
    ∃ r, Reads depth (rowsLoop config inner environment turns rows (row.map (layOut config))) s r ∧
      r.map finish = (readRows a environment row s).map fun next =>
        rows ++ next.map (List.map (layOut config)) := by
  induction turns generalizing rows row s with
  | zero => omega
  | succ turns ih =>
    by_cases hs : s = []
    · subst hs
      refine ⟨⟨(rows, row.map (layOut config)), [], []⟩, .input (.pure _), ?_⟩
      rw [readRows, Reading.map, finish_nil]
      cases row <;> rfl
    · have hpos : 0 < s.length := List.length_pos_iff.mpr hs
      have hlength := (readExpression_suffix a (cellStops environment) s).length_le
      rcases rest_of_cell a s environment with hend | ⟨t, hend⟩ | ⟨t, hend⟩ | hend
      · -- the input is at its end, and so is the loop after one more turn
        have hending : Reads depth cellEnd (readExpression a (cellStops environment) s).rest
            ⟨.nothing, [], []⟩ := by
          rw [hend]
          exact reads_cellEnd_nothing
        obtain ⟨r, hr, heq⟩ := ih rows (row ++ [(readExpression a (cellStops environment) s).value])
          [] (by rw [List.length_nil]; omega)
        refine ⟨_, reads_turn hatom hs hending hr, ?_⟩
        rw [readRows_of_end a environment row hs (by simp [hend]) (by simp [hend]), hend]
        rw [readRows] at heq
        refine (congrArg (Reading.after _) heq).trans ?_
        simp [Reading.after, Reading.map, skipEnvironmentEnd, atCommand]
      · -- a separator: the loop goes on in the same row
        have hending : Reads depth cellEnd (readExpression a (cellStops environment) s).rest
            ⟨.column, t, []⟩ := by
          rw [hend]
          exact reads_cellEnd_column t
        obtain ⟨r, hr, heq⟩ := ih rows (row ++ [(readExpression a (cellStops environment) s).value])
          t (by rw [hend, List.length_cons] at hlength; omega)
        refine ⟨_, reads_turn hatom hs hending hr, ?_⟩
        rw [readRows_of_column a environment row hs hend]
        exact congrArg (Reading.after _) heq
      · have hending : Reads depth cellEnd (readExpression a (cellStops environment) s).rest
            ⟨.row, t, []⟩ := by
          rw [hend]
          exact reads_cellEnd_row t
        -- the row that is finished has been laid out with its last cell
        let finished := row ++ [(readExpression a (cellStops environment) s).value]
        obtain ⟨r, hr, heq⟩ := ih (rows ++ [finished.map (layOut config)]) [] t
          (by rw [hend, List.length_cons, List.length_cons] at hlength; omega)
        refine ⟨_, reads_turn hatom hs hending hr, ?_⟩
        rw [readRows_of_row a environment row hs hend]
        refine (congrArg (Reading.after _) heq).trans ?_
        simp [Reading.after, Reading.map, finished]
      · -- an end: the loop is over
        refine ⟨_, reads_turn hatom hs (reads_cellEnd_table hend) (.pure _), ?_⟩
        obtain ⟨t, ht, _⟩ := atCommand_iff.mp hend
        rw [readRows_of_end a environment row hs (by simp [ht]) (by simp [ht])]
        simp [Reading.after, Reading.map, finish_cell]

/-- A `matrix` is what `readMatrix` reads, whether its environment is closed or not. -/
theorem reads_matrix (environment : Environment) (s : List Char) :
    Reads depth (matrix config inner environment) s
      (laid config (readMatrix a environment s)) := by
  obtain ⟨r, hrun, hr⟩ := reads_rowsLoop hatom environment.name.toList (s.length + 1) [] [] s
    (Nat.lt_succ_self _)
  refine .input (hrun.map.congr ?_)
  show (r.map finish).map (fun rows => Node.matrix rows environment.opening environment.closing) = _
  rw [hr]
  simp only [readMatrix, laid, Reading.map, List.nil_append, ← layOut_matrix]

/-! ### Constructs

What is left are the constructs that hand the reading on to the routines above. -/

/-- A `group` is what stands in it, and the brace behind it is consumed if it is there. -/
theorem reads_group (s : List Char) :
    Reads depth (group config inner) s (laid config (readBraced a s)) := by
  refine ((reads_expression hatom [.groupEnd] s).bind (.token_pure _ _)).congr ?_
  -- what the expression leaves is a brace or nothing
  rcases rest_of_groupEnd a s with h | ⟨t, h⟩ <;> simp [readBraced, Reading.after, h]

/-- A `radical` with an index in brackets in front of its body, or without.  The index is an
expression with a stop of its own, behind which one character is dropped, whatever it is. -/
theorem reads_radical (s : List Char) :
    Reads depth (radical config inner) s (laid config (readRadical a s)) := by
  refine .skipBlanks (.input ?_)
  by_cases hbracket : ∃ t, skipBlank s = '[' :: t
  · obtain ⟨t, ht⟩ := hbracket
    rw [readRadical_of_bracket a ht, ht]
    refine .moveTo (((reads_expression hatom [.bracketEnd] t).bind (.token
      (reads_argument hatom _).map)).congr ?_)
    -- the index ends at a bracket or at the end of the input, and consuming a bracket fits both
    rcases rest_of_bracketEnd a t with h | ⟨u, h⟩ <;>
      simp [Reading.after, Reading.map, layOut_radical, h]
  · rw [readRadical_of_not_bracket a fun t ht => hbracket ⟨t, ht⟩]
    split
    · next t ht => exact absurd ⟨t, ht⟩ hbracket
    · exact (reads_argument hatom _).map

omit hatom in
/-- The glyph behind `\right`, or none.  The end of the input is the only other place where the body
of a fence can end. -/
theorem reads_closingFence (s : List Char) :
    Reads depth closingFence s
      (if atCommand "right".toList s = true then
        ⟨(readDelimiter (readCommand s).2).1, (readDelimiter (readCommand s).2).2, []⟩
      else ⟨"", s, []⟩) :=
  .input (.ite (fun _ => .token (.plain _)) fun _ => .pure _)

/-- A `fenced` body has the glyph that stands behind `\left`, and one behind `\right` if the fence
is closed. -/
theorem reads_fenced (s : List Char) :
    Reads depth (fenced config inner) s (laid config (readFenced a s)) := by
  refine .token (((reads_expression hatom [.right] _).bind (reads_closingFence _).map).congr ?_)
  unfold readFenced
  rw [rest_laid]
  dsimp only
  split <;> simp [Reading.after, Reading.map, layOut_fenced]

/-- An `environment` without a name is an empty row, one with a known name a `matrix`, and one with
an unknown name is reported and read as the expression that stands in it. -/
theorem reads_environment (s : List Char) :
    Reads depth (environment config inner) s (laid config (readEnvironment a s)) := by
  refine .token ?_
  unfold readEnvironment
  refine .ite_map (fun _ => .pure _) fun _ => ?_
  -- a known name is that of a table; an unknown one is reported before its body is read
  cases Environment.ofName? (String.ofList (readGroup s).1) with
  | some table => exact .token (reads_matrix hatom table _)
  | none =>
    refine (Reads.note ((reads_expression hatom _ _).bind (.token_pure _ _))).congr ?_
    simp [Reading.after, Reading.map]

theorem reads_fraction (style : FractionStyle) (s : List Char) :
    Reads depth (fraction inner style) s
      (laid config (readCommandBody a (.fraction style) s)) := by
  refine ((reads_argument hatom s).bind (reads_argument hatom _).map).congr ?_
  rfl

/-- **What a command reads behind its name**, by cases on what it stands for.  The routine looks at
the configuration here for the width of a space, which is the one that `layOut` gives to the name of
the space later. -/
theorem reads_command (meaning : Command) (s : List Char) :
    Reads depth (command config inner meaning) s
      (laid config (readCommandBody a meaning s)) := by
  cases meaning with
  | nothing => exact .pure _
  | fraction style => exact reads_fraction hatom style s
  | radical => exact reads_radical hatom s
  | fence => exact reads_fenced hatom s
  | environment => exact reads_environment hatom s
  | verbatim kind => exact .token_pure _ _
  | phantom => exact (reads_argument hatom s).map
  | space name => exact .pure _
  | styled variant => exact (reads_argument hatom s).map
  | accent glyph position => exact (reads_argument hatom s).map
  | leaf node => exact .pure _
  | unknown name => exact .note_pure _ _

/-- An atom that has been opened, by its first character: a brace, a backslash, a digit, a letter,
or anything else, which is an operator. -/
theorem reads_body (s : List Char) :
    Reads depth (body config inner) s (laid config (readAtomBody a s)) := by
  refine .input ?_
  cases s with
  | nil => exact .pure _
  | cons c t =>
    refine .ite_map (fun _ => .moveTo ?_) fun _ => .ite_map (fun _ => .token ?_) fun _ =>
      .ite_map (fun _ => reads_number config _) fun _ => .ite_map (fun _ => ?_) fun _ =>
      .moveTo (.pure _)
    · exact reads_group hatom t
    · exact reads_command hatom _ _
    · exact reads_identifier config _

end Inner

/-! ## All levels

The number of levels that are left to the reader of atoms and the number of atoms that are open add
up to the limit.  Opening an atom moves one from the first number to the second, and the induction
is on the first. -/

/-- Past the limit nothing is opened: `nested` takes the `remainder` instead, like a reader of atoms
without levels. -/
theorem reads_nested_limit (config : Config) (inner : Routine Layout) (hdepth : maxNesting ≤ depth)
    (s : List Char) : Reads depth (nested inner) s (laid config (readVerbatim s)) := by
  rintro st rfl rfl
  show ∃ deepest ≤ _, (ite _ _ _ : Routine Layout) st = _
  rw [if_pos hdepth]
  exact reads_remainder config st.rest st rfl rfl

/-- **The counter is restored.** Opening an atom adds one to `depth`, which stays within
`maxNesting`, and closing the atom takes one away, since `inner` leaves what it has found. -/
theorem reads_nested {inner : Routine Layout} {r : Reading Layout} (hdepth : depth < maxNesting)
    (h : Reads (depth + 1) inner s r) : Reads depth (nested inner) s r := by
  rintro st rfl rfl
  obtain ⟨deepest, hle, hrun⟩ := h st.enter rfl rfl
  refine ⟨deepest, ?_, ?_⟩
  · have hle' : deepest ≤ max (max st.deepest (st.depth + 1)) maxNesting := hle
    omega
  · show (ite _ _ _ : Routine Layout) st = _
    rw [if_neg (Nat.not_le_of_lt hdepth)]
    show (inner st.enter).bind _ = _
    rw [hrun]
    rfl

/-- An atom is read if one starts; what has been shown of `nested` applies then. -/
theorem reads_atom?_of_nested {config : Config} {inner : Routine Layout} {a : AtomReader}
    {read : List Char → Reading Formula}
    (ha : ∀ s, a.read s = if startsAtom s then some (read s) else none)
    (hnested : ∀ s, Reads depth (nested inner) s (laid config (read s))) (s : List Char) :
    Reads depth (atom? inner) s (laidAttempt config a s) := by
  have hattempt : laidAttempt config a s =
      if startsAtom s = true then (laid config (read s)).map some else ⟨none, s, []⟩ := by
    rw [laidAttempt, attempt, ha]
    cases startsAtom s <;> rfl
  rw [hattempt]
  exact .input (.ite (fun _ => (hnested s).map) fun _ => .pure none)

/-- **An atom is read as without a counter**, with the levels that the counter lacks to the limit,
and laid out.  Induction on these levels; where none is left nothing is opened, so the recursion of
`content` does not run out before the limit is reached. -/
theorem reads_atom? (config : Config) {levels : Nat} (hdepth : maxNesting - depth = levels)
    {bound : Nat} (hbound : levels ≤ bound) (s : List Char) :
    Reads depth (atom? (content config bound)) s
      (laidAttempt config (atomReader levels) s) := by
  induction levels generalizing depth bound s with
  | zero =>
    have hlimit : maxNesting ≤ depth := by omega
    exact reads_atom?_of_nested (fun _ => rfl) (reads_nested_limit config _ hlimit) s
  | succ levels ih =>
    obtain ⟨bound, rfl⟩ : ∃ b, bound = b + 1 := ⟨bound - 1, by omega⟩
    have hinner : ∀ s, Reads (depth + 1) (atom? (content config bound)) s
        (laidAttempt config (atomReader levels) s) :=
      fun s => ih (by omega) (by omega) s
    refine reads_atom?_of_nested (fun _ => rfl) (fun s => ?_) s
    exact reads_nested (by omega) (reads_body hinner s)

/-- What is read `inside` an atom, in any state.  `content` has as many levels as the limit, which
are never used up. -/
theorem reads_inside (config : Config) (depth : Nat) (s : List Char) :
    Reads depth (atom? (inside config)) s
      (laidAttempt config (atomReader (maxNesting - depth)) s) :=
  reads_atom? config rfl (Nat.sub_le _ _) s

/-! ## Whole sources

The outermost expression is read with no atom open, so the counter lacks the whole limit. -/

/-- **The two readers agree on every source.** Reading step by step, with the configuration at hand,
comes to an end and has the layout, the remainder and the diagnostics of `parse`, which lays the
formula out when it is there. -/
theorem run_eq_parse (config : Config) (source : List Char) :
    run config source = some (parse config source) := by
  obtain ⟨deepest, _, hrun⟩ :=
    reads_expression (reads_inside config 0) [] source (.start source) rfl rfl
  rw [run, hrun]
  rfl

end FormulaMarkup.Counter
