import FormulaMarkup.Proofs.Isolation.Delimiters

/-!
# FormulaMarkup — two inputs read side by side

Some changes of a source go unnoticed, because the reader takes the same steps before and after.
This module says what two inputs must have in common for that, as laws of a relation between what is
left of the one and what is left of the other, and goes through the reader once for all of them.
At the end of the first input the second one may have blanks and closing braces left.

Nothing here knows what has been changed.  A change is a relation with the laws of `Parallel`, which
are about characters and tokens only, and then `Parallel.value_parse` gives the same tree for a
whole source.  The condition on both sides is the limit on nesting: an atom at the limit is taken
with all that is left of the input, so that no change goes unnoticed there.

* **`Parallel`** — the laws.
* **`Sim`** — that two readings agree, as long as the first one does not reach the limit on nesting.
* **`sim_readItems`** and its neighbours — each routine, if the atoms are read side by side.
* **`Parallel.value_parse`** — a whole source, by induction on the levels.
* **`Lacking`** — what a source must not have for either of the changes.
-/

namespace FormulaMarkup.Invariance

open Source Text Formula
open Isolation (WithinLimit Closing closing_nil closing_brace)

/-! ## The laws

The relation is asymmetric: the first input is the one that is known to be harmless, and the second
one may go on behind its end. -/

/-- Two inputs are read in the same steps if this holds of all that is left of them at any time.
The first of them does not ask for anything that is taken as it is: `plain` excludes `\begin`,
`\text` and `\operatorname`, and `fence` allows `\left` only if nothing but blanks can stand behind
the end. -/
structure Parallel (R : List Char → List Char → Prop) : Prop where
  nil : R [] []
  skip : ∀ {s s'}, R s s' → R (skipBlank s) (skipBlank s')
  next : ∀ {c t s'}, R (c :: t) s' → isBlank c = false → ∃ t', s' = c :: t' ∧ R t t'
  gap : ∀ {b t d u}, R (b :: t) (d :: u) → isBlank b = true → isBlank d = true
  /-- Behind the end of the first input there are blanks and closing braces at most. -/
  spent : ∀ {x}, R [] x → skipBlank x = [] ∨ ∃ u, skipBlank x = '}' :: u ∧ R [] u
  command : ∀ {t s'}, R ('\\' :: t) s' → ∃ c u u', t = c :: u ∧ s' = '\\' :: c :: u' ∧ R u u'
  plain : ∀ {t s'}, R ('\\' :: t) s' → ∀ name ∈ ["begin", "text", "operatorname"],
    (readCommand ('\\' :: t)).1 ≠ name.toList
  /-- A fence would take a closing brace for its glyph. -/
  fence : ∀ {t s'}, R ('\\' :: t) s' → (readCommand ('\\' :: t)).1 = "left".toList →
    ∀ {x}, R [] x → skipBlank x = []
  strayEnd : ∀ {t t'}, R ('\\' :: t) ('\\' :: t') → (readCommand ('\\' :: t)).1 = "end".toList →
    R (readGroup (readCommand ('\\' :: t)).2).2 (readGroup (readCommand ('\\' :: t')).2).2

namespace Parallel

variable {R : List Char → List Char → Prop} (hR : Parallel R) {s s' t t' u x : List Char}
  {c d : Char}
include hR

/-! ## Tokens

The laws say what single characters have in common.  From them follows the same for whatever the
reader takes in one go: a run of letters or digits, the name of a command, a glyph. -/

/-- Behind the end of the first input the second one begins with a blank or a closing brace, which
is `spent` looked at without skipping blanks. -/
theorem head_spent (h : R [] (d :: u)) : isBlank d = true ∨ d = '}' := by
  cases hd : isBlank d with
  | true => exact .inl rfl
  | false =>
    have hspent := hR.spent h
    rw [skipBlank_cons hd] at hspent
    rcases hspent with hnil | ⟨v, hclose, _⟩
    · cases hnil
    · exact .inr (List.cons.inj hclose).1

/-- What the second input begins with, the first one does, unless it is a blank or a closing brace:
these may stand behind the end of the first input.  So `next` can be used from both sides. -/
theorem back (h : R s (c :: t')) (hblank : isBlank c = false) (hclose : c ≠ '}') :
    ∃ t, s = c :: t ∧ R t t' := by
  cases s with
  | nil =>
    -- the first input is at its end, and then the second one begins with what is excluded
    rcases hR.head_spent h with hb | rfl
    · rw [hblank] at hb
      cases hb
    · exact absurd rfl hclose
  | cons b t =>
    cases hb : isBlank b with
    | true =>
      -- a blank in the first input would go with a blank in the second one
      have hc := hR.gap h hb
      rw [hblank] at hc
      cases hc
    | false =>
      obtain ⟨u, heq, hu⟩ := hR.next h hb
      obtain ⟨rfl, rfl⟩ := List.cons.inj heq
      exact ⟨t, rfl, hu⟩

/-- A run of characters that satisfy `p` is the same in both inputs, and what is left behind it is
related again.  Induction on the first input; `back` says that the run does not go on in the second
one. -/
theorem run {p : Char → Bool} (hblank : ∀ c, p c = true → isBlank c = false)
    (hclose : p '}' = false) (h : R s s') :
    s'.takeWhile p = s.takeWhile p ∧ R (s.dropWhile p) (s'.dropWhile p) := by
  -- where the run ends in the first input, it does in the second one
  have hend {s s' : List Char} (h : R s s') (hs : ∀ c t, s = c :: t → p c = false) :
      s'.takeWhile p = [] ∧ s'.dropWhile p = s' := by
    have hnone : ∀ c ∈ [], p c = true := fun c hc => absurd hc List.not_mem_nil
    refine takeWhile_run hnone fun c t' hs' => ?_
    subst hs'
    by_contra hc
    have hc : p c = true := by simpa using hc
    have hne : c ≠ '}' := by
      rintro rfl
      rw [hclose] at hc
      cases hc
    obtain ⟨t, rfl, _⟩ := hR.back h (hblank c hc) hne
    rw [hs c t rfl] at hc
    cases hc
  induction s generalizing s' with
  | nil =>
    obtain ⟨htake, hdrop⟩ := hend h (by rintro c t ⟨⟩)
    rw [htake, hdrop]
    exact ⟨rfl, h⟩
  | cons c t ih =>
    cases hc : p c with
    | false =>
      have hhead : ∀ d u, c :: t = d :: u → p d = false := by
        rintro d u ⟨⟩
        exact hc
      obtain ⟨htake, hdrop⟩ := hend h hhead
      have hne : ¬ p c = true := by simp [hc]
      rw [htake, hdrop, List.takeWhile_cons_of_neg hne, List.dropWhile_cons_of_neg hne]
      exact ⟨rfl, h⟩
    | true =>
      obtain ⟨t', rfl, ht⟩ := hR.next h (hblank c hc)
      obtain ⟨htake, hdrop⟩ := ih ht
      rw [List.takeWhile_cons_of_pos hc, List.takeWhile_cons_of_pos hc, htake,
        List.dropWhile_cons_of_pos hc, List.dropWhile_cons_of_pos hc]
      exact ⟨rfl, hdrop⟩

theorem letters (h : R s s') : s'.takeWhile Char.isAlpha = s.takeWhile Char.isAlpha ∧
    R (s.dropWhile Char.isAlpha) (s'.dropWhile Char.isAlpha) :=
  hR.run (fun _ hc => isBlank_eq_false_of_isAlpha hc) (by decide) h

theorem digits (h : R s s') : s'.takeWhile Char.isDigit = s.takeWhile Char.isDigit ∧
    R (s.dropWhile Char.isDigit) (s'.dropWhile Char.isDigit) :=
  hR.run (fun _ hc => isBlank_eq_false_of_isDigit hc) (by decide) h

/-- `readCommand` gives the same name, be it a run of letters or the single character behind the
backslash, and what is left behind the name is related. -/
theorem readCommand (h : R ('\\' :: t) ('\\' :: t')) :
    (readCommand ('\\' :: t')).1 = (readCommand ('\\' :: t)).1 ∧
      R (readCommand ('\\' :: t)).2 (readCommand ('\\' :: t')).2 := by
  obtain ⟨c, u, u', rfl, heq, hu⟩ := hR.command h
  obtain rfl := (List.cons.inj heq).2
  cases hc : c.isAlpha with
  | true =>
    obtain ⟨htake, hdrop⟩ := hR.letters hu
    rw [readCommand_run hc, readCommand_run hc, htake]
    exact ⟨rfl, hdrop⟩
  | false =>
    rw [readCommand_single hc, readCommand_single hc]
    exact ⟨rfl, hu⟩

/-- A command that is looked for stands in both inputs or in neither, because `atCommand` compares
the name with what `readCommand` reads (`atCommand_eq_readCommand`). -/
theorem atCommand (h : R s s') {name : List Char} (hne : name ≠ [])
    (hname : ∀ c ∈ name, c.isAlpha = true) : atCommand name s' = atCommand name s := by
  have hno {s : List Char} (hs : ∀ t, s ≠ '\\' :: t) : Source.atCommand name s = false := by
    cases s with
    | nil => rfl
    | cons c t => exact atCommand_eq_false (fun hc => hs t (by rw [hc])) t
  by_cases hs : ∃ t, s = '\\' :: t
  · obtain ⟨t, rfl⟩ := hs
    obtain ⟨t', rfl, _⟩ := hR.next h (by decide)
    rw [atCommand_eq_readCommand hne hname, atCommand_eq_readCommand hne hname,
      (hR.readCommand h).1]
  · have hs' : ∀ t', s' ≠ '\\' :: t' := by
      rintro t' rfl
      obtain ⟨t, rfl, _⟩ := hR.back h (by decide) (by decide)
      exact hs ⟨t, rfl⟩
    rw [hno hs', hno fun t ht => hs ⟨t, ht⟩]

/-- Behind a backslash the next character is the same. -/
theorem head_slash (h : R ('\\' :: t) ('\\' :: t')) : t'.head? = t.head? := by
  obtain ⟨c, u, u', rfl, heq, _⟩ := hR.command h
  rw [(List.cons.inj heq).2]
  rfl

/-- `startsAtom` looks at the first character and, behind a backslash, at the name of the command,
which both inputs have in common. -/
theorem startsAtom (h : R (c :: t) (c :: t')) : startsAtom (c :: t') = startsAtom (c :: t) := by
  refine startsAtom_congr (fun hc => ?_) (hR.atCommand h (by decide) (by decide))
    (hR.atCommand h (by decide) (by decide))
  subst hc
  exact hR.head_slash h

/-- The same `stops` are found.  The ends of environments are not among them, because they are found
with their names in braces, and these may be spaced in another way. -/
theorem anyAt (h : R (c :: t) (c :: t')) {stops : List Stop}
    (hstops : ∀ name, .environmentEnd name ∉ stops) :
    Stop.anyAt stops (c :: t') = Stop.anyAt stops (c :: t) := by
  refine Stop.anyAt_congr fun stop hstop => ?_
  cases stop with
  | groupEnd | bracketEnd | column => rfl
  | right => exact hR.atCommand h (by decide) (by decide)
  | environmentEnd name => exact absurd hstop (hstops name)
  | row =>
    rw [Stop.isAt_row_cons, Stop.isAt_row_cons]
    by_cases hc : c = '\\'
    · subst hc
      rw [hR.head_slash h]
    · rw [beq_eq_false_iff_ne.mpr (Ne.symm hc), Bool.false_and, Bool.false_and]

/-- If the first input is at its end, what is left of the second one begins neither an atom nor a
script (`Closing`), so that no routine finds anything there. -/
theorem skip_nil (h : R s s') (hs : skipBlank s = []) :
    R [] (skipBlank s') ∧ Closing (skipBlank s') := by
  have hskip := hR.skip h
  rw [hs] at hskip
  refine ⟨hskip, ?_⟩
  have hspent := hR.spent hskip
  rw [skipBlank_skipBlank] at hspent
  rcases hspent with hnil | ⟨u, hclose, _⟩
  · rw [hnil]
    exact closing_nil
  · rw [hclose]
    exact closing_brace u

/-- Otherwise both inputs begin with the same character. -/
theorem skip_cons (h : R s s') (hs : skipBlank s = c :: t) :
    ∃ t', skipBlank s' = c :: t' ∧ R (c :: t) (c :: t') ∧ R t t' := by
  have hskip := hR.skip h
  rw [hs] at hskip
  obtain ⟨t', hs', ht⟩ := hR.next hskip (not_isBlank_of_skipBlank_eq_cons hs)
  rw [hs'] at hskip
  exact ⟨t', hs', hskip, ht⟩

/-- A character `c` that closes something is dropped in both, or in the second one alone if the
first one is at its end; then it is a brace, and what is left behind it is related to the end. -/
theorem drop_one (h : R s s') (hblank : isBlank c = false) (hs : s = [] ∨ ∃ t, s = c :: t)
    (hs' : s' = [] ∨ ∃ t', s' = c :: t') : R (s.drop 1) (s'.drop 1) := by
  rcases hs with rfl | ⟨t, rfl⟩
  · rcases hs' with rfl | ⟨t', rfl⟩
    · exact hR.nil
    · have hspent := hR.spent h
      rw [skipBlank_cons hblank] at hspent
      rcases hspent with hnil | ⟨u, hclose, hu⟩
      · cases hnil
      · obtain ⟨_, rfl⟩ := List.cons.inj hclose
        exact hu
  · obtain ⟨t', rfl, ht⟩ := hR.next h hblank
    exact ht

/-- `readDelimiter` gives the same glyph, if there are only blanks behind the end.  Otherwise a
brace behind the end would be taken for the glyph that the first input lacks. -/
theorem readDelimiter (h : R s s') (hspent : ∀ {x}, R [] x → skipBlank x = []) :
    (readDelimiter s').1 = (readDelimiter s).1 ∧ R (readDelimiter s).2 (readDelimiter s').2 := by
  rw [← readDelimiter_skipBlank s, ← readDelimiter_skipBlank s']
  cases hs : skipBlank s with
  | nil =>
    have hnil := hspent (hR.skip_nil h hs).1
    rw [skipBlank_skipBlank] at hnil
    rw [hnil]
    exact ⟨rfl, hR.nil⟩
  | cons c t =>
    have hblank := not_isBlank_of_skipBlank_eq_cons hs
    obtain ⟨t', hs', hboth, ht⟩ := hR.skip_cons h hs
    rw [hs']
    -- a command is compared by its name, any other character is the glyph itself
    by_cases hslash : c = '\\'
    · subst hslash
      obtain ⟨hname, hrest⟩ := hR.readCommand hboth
      rw [readDelimiter_slash, readDelimiter_slash, hname]
      cases namedDelimiter? (String.ofList (Source.readCommand ('\\' :: t)).1) with
      | none => exact ⟨rfl, ht⟩
      | some glyph => exact ⟨rfl, hrest⟩
    · rw [readDelimiter_of_ne hblank hslash, readDelimiter_of_ne hblank hslash]
      exact ⟨rfl, ht⟩

end Parallel

/-! ## Readings

A reading is a value, what is left, and a log.  The log is not compared: it is only asked for the
warning that an atom has been given up at the limit. -/

section Sim

variable {α β : Type} {R : List Char → List Char → Prop}

/-- The second reading has the value of the first one and leaves what goes with what that leaves,
unless the first one reaches the limit (`WithinLimit`). -/
def Sim (R : List Char → List Char → Prop) (r r' : Reading α) : Prop :=
  WithinLimit r.log → r'.value = r.value ∧ R r.rest r'.rest

variable {r r' : Reading α}

/-- Readings with the same value agree, if what they leave does. -/
theorem Sim.of_eq (hvalue : r'.value = r.value) (hrest : R r.rest r'.rest) : Sim R r r' :=
  fun _ => ⟨hvalue, hrest⟩

/-- Readings that agree still do if the same is made of their values. -/
theorem Sim.map (h : Sim R r r') (f : α → β) : Sim R (r.map f) (r'.map f) := by
  intro hlimit
  obtain ⟨hvalue, hrest⟩ := h hlimit
  exact ⟨congrArg f hvalue, hrest⟩

/-- Readings `q` and `q'` that go on after readings that agree.  The limit must not be reached in
either part, so that the first part may be taken for granted in the second one. -/
theorem Sim.after {q q' : Reading β} (h : Sim R r r')
    (hq : r'.value = r.value → R r.rest r'.rest → Sim R q q') :
    Sim R (q.after r.log) (q'.after r'.log) := by
  intro hlimit
  obtain ⟨hbefore, hafter⟩ := hlimit.of_append
  obtain ⟨hvalue, hrest⟩ := h hbefore
  exact hq hvalue hrest hafter

end Sim

/-- The reader `a` of atoms reads them side by side, and reads none where none starts.  This is what
the induction on the levels hands on to each routine. -/
structure Steady (R : List Char → List Char → Prop) (a : AtomReader) : Prop where
  atoms : ∀ {c t t'}, R (c :: t) (c :: t') → R t t' →
    Option.Rel (Sim R) (a.read (c :: t)) (a.read (c :: t'))
  strays : ∀ {s}, Formula.startsAtom s = false → a.read s = none

/-! ## What consists of atoms

None of these routines reads a character that the laws do not speak of: they drop blanks, look at
one character, and leave the rest to the reader of atoms. -/

section Reader

variable {R : List Char → List Char → Prop} (hR : Parallel R) {a : AtomReader} (ha : Steady R a)
  {s s' : List Char}
include hR ha

/-- An argument is read side by side.  Where the first input is at its end none is found in either:
what is left of the second one cannot start an atom (`skip_nil`). -/
theorem sim_readArgument (h : R s s') : Sim R (readArgument a s) (readArgument a s') := by
  unfold readArgument
  cases hs : skipBlank s with
  | nil =>
    obtain ⟨hrest, hclosing⟩ := hR.skip_nil h hs
    rw [ha.strays rfl, ha.strays hclosing.starts]
    exact .of_eq rfl hrest
  | cons c t =>
    obtain ⟨t', hs', hboth, ht⟩ := hR.skip_cons h hs
    have hatom := ha.atoms hboth ht
    rw [hs']
    -- an atom starts in both, or in neither and nothing is consumed
    generalize a.read (c :: t) = read at hatom
    generalize a.read (c :: t') = read' at hatom
    cases hatom with
    | some hatom => exact hatom
    | none => exact .of_eq rfl hboth

/-- A run of scripts is read side by side, by induction on the run in the first input.  The cases
are those of `readScripts`: the end, no marker, a marker of a kind that has been `found`, and a new
one. -/
theorem sim_readScripts {found : Scripts} (h : R s s') :
    Sim R (readScripts a found s) (readScripts a found s') := by
  revert s'
  fun_induction readScripts a found s with
  | case1 found s hnil =>
    intro s' h
    obtain ⟨hrest, hclosing⟩ := hR.skip_nil h hnil
    rw [readScripts_of_not_marker a found hclosing.marker]
    exact .of_eq rfl hrest
  | case2 found s c t hcons hc =>
    -- no marker: both inputs are left in front of the character
    intro s' h
    obtain ⟨t', hs', hboth, _⟩ := hR.skip_cons h hcons
    rw [readScripts_of_other a found hs' hc]
    exact .of_eq rfl hboth
  | case3 found s c t hcons kind hc hfound =>
    -- a second marker of one kind ends both runs
    intro s' h
    obtain ⟨t', hs', hboth, _⟩ := hR.skip_cons h hcons
    rw [readScripts_of_found a hs' hc hfound]
    exact .of_eq rfl hboth
  | case4 found s c t hcons kind hc hfound script =>
    rename_i ih
    intro s' h
    obtain ⟨t', hs', _, ht⟩ := hR.skip_cons h hcons
    rw [readScripts_of_marker a hs' hc (Bool.eq_false_iff.mpr hfound)]
    refine (sim_readArgument hR ha ht).after fun hvalue hrest => ?_
    rw [hvalue]
    exact ih hrest

theorem sim_readScripted (base : Formula) (h : R s s') :
    Sim R (readScripted a base s) (readScripted a base s') :=
  (sim_readScripts hR ha h).map _

/-- What starts no atom is dropped side by side, be it a marker, a separator, a stray end or a
command.  The law `strayEnd` is needed here and nowhere else. -/
theorem sim_readStray {c : Char} {t t' : List Char} (h : R (c :: t) (c :: t')) (ht : R t t') :
    Sim R (readStray a (c :: t)) (readStray a (c :: t')) := by
  cases hc : ScriptKind.ofMarker? c with
  | some kind =>
    rw [readStray_of_marker a hc, readStray_of_marker a hc]
    exact (sim_readScripted hR ha .emptyRow h).map some
  | none =>
    rw [readStray_of_not_marker a hc, readStray_of_not_marker a hc,
      hR.atCommand h (by decide) (by decide)]
    -- a separator, a command, or a character that is dropped
    by_cases hcolumn : c = '&'
    · rw [if_pos hcolumn, if_pos hcolumn]
      exact .of_eq rfl ht
    rw [if_neg hcolumn, if_neg hcolumn]
    by_cases hslash : c = '\\'
    · rw [if_pos hslash, if_pos hslash]
      subst hslash
      rw [hR.head_slash h]
      split
      · -- two backslashes break the line in both
        obtain ⟨d, u, u', rfl, heq, hu⟩ := hR.command h
        obtain rfl := (List.cons.inj heq).2
        exact .of_eq rfl hu
      · split
        · next hend =>
          rw [atCommand_eq_readCommand (by decide) (by decide), beq_iff_eq] at hend
          exact .of_eq rfl (hR.strayEnd h hend)
        · exact .of_eq rfl (hR.readCommand h).2
    · rw [if_neg hslash, if_neg hslash]
      exact .of_eq rfl ht

/-- `readItem` reads one item side by side, whichever kind it is of. -/
theorem sim_readItem {c : Char} {t t' : List Char} (h : R (c :: t) (c :: t')) (ht : R t t') :
    Sim R (readItem a (c :: t)) (readItem a (c :: t')) := by
  have hatom := ha.atoms h ht
  unfold readItem
  generalize a.read (c :: t) = read at hatom
  generalize a.read (c :: t') = read' at hatom
  cases hatom with
  | some hatom =>
    refine hatom.after fun hvalue hrest => ?_
    rw [hvalue]
    exact (sim_readScripted hR ha _ hrest).map some
  | none => exact sim_readStray hR ha h ht

/-- Behind the end of the first input `readItems` finds nothing: what may stand there are blanks,
which are skipped, and closing braces, which are stops or strays.  Induction on the length of what
is left of the second input. -/
theorem readItems_spent (stops : List Stop) {x : List Char} (h : R [] x) :
    (readItems a stops x).value = [] ∧ R [] (readItems a stops x).rest := by
  induction hn : x.length using Nat.strong_induction_on generalizing x with
  | _ n ih =>
    rcases hR.spent h with hnil | ⟨u, hclose, hu⟩
    · rw [readItems_of_nil a stops hnil]
      exact ⟨rfl, hR.nil⟩
    cases hstop : Stop.anyAt stops ('}' :: u) with
    | true =>
      rw [readItems_of_stop a hclose hstop, ← hclose]
      exact ⟨rfl, hR.skip h⟩
    | false =>
      -- no atom starts with the brace, which is dropped as a stray
      have hitem : readItem a ('}' :: u) = ⟨none, u, []⟩ := by
        rw [readItem, ha.strays rfl]
        rfl
      have hlt : u.length < n := by
        have hle := (skipBlank_suffix x).length_le
        rw [hclose, List.length_cons] at hle
        omega
      rw [readItems_of_item a hclose hstop, hitem]
      exact ih u.length hlt hu rfl

/-- **Items are read side by side**, by induction on the items of the first input.  When that is
used up, the second one is by `readItems_spent`, and if a stop ends the first one it ends the second
one (`anyAt`). -/
theorem sim_readItems {stops : List Stop} (hstops : ∀ name, .environmentEnd name ∉ stops)
    (h : R s s') : Sim R (readItems a stops s) (readItems a stops s') := by
  revert s'
  fun_induction readItems a stops s with
  | case1 s hnil =>
    intro s' h
    -- the first input is at its end
    have hspent := hR.skip h
    rw [hnil] at hspent
    obtain ⟨hvalue, hrest⟩ := readItems_spent hR ha stops hspent
    rw [readItems_skipBlank] at hvalue hrest
    exact .of_eq hvalue hrest
  | case2 s c t hcons hstop =>
    intro s' h
    obtain ⟨t', hs', hboth, _⟩ := hR.skip_cons h hcons
    rw [readItems_of_stop a hs' ((hR.anyAt hboth hstops).trans hstop)]
    exact .of_eq rfl hboth
  | case3 s c t hcons hstop item =>
    rename_i ih
    intro s' h
    obtain ⟨t', hs', hboth, ht⟩ := hR.skip_cons h hcons
    rw [readItems_of_item a hs' ((hR.anyAt hboth hstops).trans (Bool.eq_false_iff.mpr hstop))]
    refine (sim_readItem hR ha hboth ht).after fun hvalue hrest => ?_
    rw [hvalue]
    exact (ih hrest).map _

/-- An expression is read side by side, up to any `stops` but the end of an environment. -/
theorem sim_readExpression {stops : List Stop} (hstops : ∀ name, .environmentEnd name ∉ stops)
    (h : R s s') : Sim R (readExpression a stops s) (readExpression a stops s') :=
  (sim_readItems hR ha hstops h).map _

/-! ## Atoms

The atoms of the next level are taken for granted.  Environments, texts and names of operators are
left out, because the laws exclude them, and fences because they ask for blanks alone behind the
end. -/

/-- A group is read side by side.  One that is not closed in the first input may be closed in the
second one, and then the brace behind the end is dropped there (`drop_one`). -/
theorem sim_readBraced (h : R s s') : Sim R (readBraced a s) (readBraced a s') := by
  intro hlimit
  obtain ⟨hvalue, hrest⟩ := sim_readExpression hR ha (by simp) h hlimit
  exact ⟨hvalue, hR.drop_one hrest (by decide) (rest_of_groupEnd a s) (rest_of_groupEnd a s')⟩

/-- The body of a radical is read side by side with its index.  Both inputs have the bracket or
neither (`back`), and the bracket that closes the index is dropped like the brace of a group. -/
theorem sim_readRadical (h : R s s') : Sim R (readRadical a s) (readRadical a s') := by
  by_cases hbracket : ∃ t, skipBlank s = '[' :: t
  · obtain ⟨t, hs⟩ := hbracket
    obtain ⟨t', hs', _, ht⟩ := hR.skip_cons h hs
    rw [readRadical_of_bracket a hs, readRadical_of_bracket a hs']
    refine (sim_readExpression hR ha (by simp) ht).after fun hvalue hrest => ?_
    rw [hvalue]
    exact (sim_readArgument hR ha (hR.drop_one hrest (by decide) (rest_of_bracketEnd a t)
      (rest_of_bracketEnd a t'))).map _
  · have hno : ∀ t, skipBlank s ≠ '[' :: t := fun t ht => hbracket ⟨t, ht⟩
    -- a bracket in the second input would stand in the first one
    have hno' : ∀ t', skipBlank s' ≠ '[' :: t' := by
      intro t' ht'
      have hskip := hR.skip h
      rw [ht'] at hskip
      obtain ⟨t, hs, _⟩ := hR.back hskip (by decide) (by decide)
      exact hno t hs
    rw [readRadical_of_not_bracket a hno, readRadical_of_not_bracket a hno']
    exact (sim_readArgument hR ha (hR.skip h)).map _

/-- A fence is read side by side, if there are only blanks behind the end.  Whether it is closed is
a matter of `\right` being next, which `atCommand` settles. -/
theorem sim_readFenced (h : R s s') (hspent : ∀ {x}, R [] x → skipBlank x = []) :
    Sim R (readFenced a s) (readFenced a s') := by
  obtain ⟨hopening, hbody⟩ := hR.readDelimiter h hspent
  intro hlimit
  have hstops : ∀ name, .environmentEnd name ∉ [Stop.right] := by simp
  obtain ⟨hvalue, hrest⟩ := sim_readExpression hR ha hstops hbody hlimit
  -- `\right` is next in both or in neither
  have hat : atCommand "right".toList (readExpression a [.right] (readDelimiter s').2).rest =
      atCommand "right".toList (readExpression a [.right] (readDelimiter s).2).rest :=
    hR.atCommand hrest (by decide) (by decide)
  simp only [readFenced, hopening, hvalue, hat]
  split
  · next hright =>
    obtain ⟨u, hu, _⟩ := atCommand_iff.mp hright
    rw [hu] at hrest
    obtain ⟨u', hu', _⟩ := hR.next hrest (by decide)
    rw [hu'] at hrest
    rw [hu, hu']
    obtain ⟨hclosing, hleft⟩ := hR.readDelimiter (hR.readCommand hrest).2 hspent
    rw [hclosing]
    exact ⟨rfl, hleft⟩
  · exact ⟨rfl, hrest⟩

omit ha in
/-- `readNumber` reads a number side by side: a run of digits, and another one if a period follows
in both. -/
theorem sim_readNumber (h : R s s') : Sim R (readNumber s) (readNumber s') := by
  obtain ⟨htake, hdrop⟩ := hR.digits h
  by_cases hperiod : ∃ t, s.dropWhile Char.isDigit = '.' :: t
  · obtain ⟨t, hs⟩ := hperiod
    rw [hs] at hdrop
    obtain ⟨t', hs', ht⟩ := hR.next hdrop (by decide)
    obtain ⟨htake', hdrop'⟩ := hR.digits ht
    rw [readNumber_of_period hs, readNumber_of_period hs', htake, htake']
    exact .of_eq rfl hdrop'
  · have hno : ∀ t, s.dropWhile Char.isDigit ≠ '.' :: t := fun t ht => hperiod ⟨t, ht⟩
    -- a period in the second input would stand in the first one
    have hno' : ∀ t', s'.dropWhile Char.isDigit ≠ '.' :: t' := by
      intro t' ht'
      rw [ht'] at hdrop
      obtain ⟨t, hs, _⟩ := hR.back hdrop (by decide) (by decide)
      exact hno t hs
    rw [readNumber_of_not_period hno, readNumber_of_not_period hno', htake]
    exact .of_eq rfl hdrop

/-- What a command reads behind its `name`, by cases on the kind of command.  The kinds that take a
text as it is are excluded by `hplain`, and a fence asks for what `fence` gives. -/
theorem sim_readCommandBody {name : String}
    (hplain : ∀ other ∈ ["begin", "text", "operatorname"], name ≠ other)
    (hfence : name = "left" → ∀ {x}, R [] x → skipBlank x = []) (h : R s s') :
    Sim R (readCommandBody a (.ofName name) s) (readCommandBody a (.ofName name) s') := by
  have harg {s s' : List Char} (h : R s s') : Sim R (readArgument a s) (readArgument a s') :=
    sim_readArgument hR ha h
  cases hcommand : Command.ofName name with
  | nothing => exact .of_eq rfl h
  | fraction style =>
    rw [readCommandBody_fraction, readCommandBody_fraction]
    refine (harg h).after fun hvalue hrest => ?_
    rw [hvalue]
    exact (harg hrest).map _
  | radical => exact sim_readRadical hR ha h
  | fence =>
    have hword := mem_words_of_delimits hcommand rfl
    simp [Command.words] at hword
    exact sim_readFenced hR ha h (hfence hword)
  | environment =>
    have hword := mem_words_of_delimits hcommand rfl
    simp [Command.words] at hword
    exact absurd hword (hplain "begin" (by decide))
  | verbatim kind =>
    -- a text or the name of an operator is excluded by its command
    have hword := mem_words_of_delimits hcommand rfl
    simp [Command.words] at hword
    rcases hword with ⟨htext, _⟩ | ⟨hname, _⟩
    · exact absurd htext (hplain "text" (by decide))
    · exact absurd hname (hplain "operatorname" (by decide))
  | phantom => exact (harg h).map _
  | space name => exact .of_eq rfl h
  | styled variant => exact (harg h).map _
  | accent glyph position => exact (harg h).map _
  | leaf node => exact .of_eq rfl h
  | unknown name => exact .of_eq rfl h

/-- `readAtomBody` reads an atom side by side, whatever character it starts with.  Both inputs start
with the same one (`skip_cons`), so they are in the same case. -/
theorem sim_readAtomBody {c : Char} {t t' : List Char} (h : R (c :: t) (c :: t')) (ht : R t t') :
    Sim R (readAtomBody a (c :: t)) (readAtomBody a (c :: t')) := by
  simp only [readAtomBody]
  split
  · exact sim_readBraced hR ha ht
  split
  · next hslash =>
    subst hslash
    obtain ⟨hname, hrest⟩ := hR.readCommand h
    rw [hname]
    -- the laws speak of names as lists, commands are looked up by strings
    refine sim_readCommandBody hR ha (fun other hother heq => ?_) (fun heq => ?_) hrest
    · exact hR.plain h other hother (by rw [← heq, String.toList_ofList])
    · exact hR.fence h (by rw [← heq, String.toList_ofList])
  split
  · exact sim_readNumber hR h
  split
  · obtain ⟨htake, hdrop⟩ := hR.letters h
    refine .of_eq ?_ hdrop
    rw [readIdentifier, readIdentifier, htake]
  · exact .of_eq rfl ht

end Reader

/-! ## Sources

The levels are what the induction is on: with none left an atom is given up, and then the first
reading is at the limit. -/

section Sources

variable {R : List Char → List Char → Prop} (hR : Parallel R)
include hR

/-- **Atoms are read side by side, however many levels are left.**  Induction on the levels: where
none is left the first reading is at the limit. -/
theorem steady_atomReader (levels : Nat) : Steady R (atomReader levels) := by
  induction levels with
  | zero =>
    refine ⟨fun {c t t'} h _ => ?_, read_of_not_startsAtom 0⟩
    have hboth := hR.startsAtom h
    cases hs : startsAtom (c :: t) with
    | false =>
      rw [read_of_not_startsAtom 0 hs, read_of_not_startsAtom 0 (hboth.trans hs)]
      exact .none
    | true =>
      -- without a level the rest is taken as it is, which is the limit
      have hread {s : List Char} (h : startsAtom s = true) :
          (atomReader 0).read s = some (readVerbatim s) :=
        if_pos h
      rw [hread hs, hread (hboth.trans hs)]
      exact .some fun hlimit => absurd List.mem_cons_self (hlimit _)
  | succ levels ih =>
    refine ⟨fun {c t t'} h ht => ?_, read_of_not_startsAtom (levels + 1)⟩
    have hboth := hR.startsAtom h
    cases hs : startsAtom (c :: t) with
    | false =>
      rw [read_of_not_startsAtom _ hs, read_of_not_startsAtom _ (hboth.trans hs)]
      exact .none
    | true =>
      rw [read_atomReader_succ levels hs, read_atomReader_succ levels (hboth.trans hs)]
      exact .some (sim_readAtomBody hR ih h ht)

/-- **Two sources that are read side by side are parsed as the same tree**, if the first one does
not reach the limit on nesting.  A source has as many levels as `maxNesting` says, and no stops. -/
theorem Parallel.value_parse {source source' : List Char} (h : R source source') (config : Config)
    (hlimit : WithinLimit (parse config source).log) :
    (parse config source').value = (parse config source).value := by
  have hstops : ∀ name, .environmentEnd name ∉ ([] : List Stop) := by simp
  obtain ⟨hvalue, _⟩ :=
    sim_readExpression hR (steady_atomReader hR maxNesting) hstops h hlimit
  exact congrArg (layOut config) hvalue

end Sources

/-! ## What must not be in a source

A change can be noticed in a text that is taken as it is, and so the commands for such texts must
not be in the source.  Prefixes of them count as well, because the name of a command is compared as
it is read. -/

/-- A text that is not cut off behind a backslash and has none of the commands in `names`, nor one
that begins like one of them.  A change behind a backslash at the end would change the command
there. -/
structure Lacking (names : List String) (s : List Char) : Prop where
  complete : ¬ ['\\'] <:+ s
  lacks : ∀ name ∈ names, ¬ '\\' :: name.toList <:+: s

namespace Lacking

variable {names : List String} {s t : List Char}

theorem lacking_iff :
    Lacking names s ↔ ¬ ['\\'] <:+ s ∧ ∀ name ∈ names, ¬ '\\' :: name.toList <:+: s :=
  ⟨fun h => ⟨h.complete, h.lacks⟩, fun ⟨hcomplete, hlacks⟩ => ⟨hcomplete, hlacks⟩⟩

instance (names : List String) (s : List Char) : Decidable (Lacking names s) :=
  decidable_of_iff' _ lacking_iff

theorem nil : Lacking names [] where
  complete hend := absurd (List.suffix_nil.mp hend) (List.cons_ne_nil _ _)
  lacks _ _ hin := absurd (List.infix_nil.mp hin) (List.cons_ne_nil _ _)

theorem of_suffix (h : Lacking names t) (hs : s <:+ t) : Lacking names s where
  complete hend := h.complete (hend.trans hs)
  lacks name hname hin := h.lacks name hname (hin.trans hs.isInfix)

/-- There is a character behind a backslash, because the text is not cut off there. -/
theorem of_slash (h : Lacking names ('\\' :: t)) : ∃ c u, t = c :: u := by
  cases t with
  | nil => exact absurd (List.suffix_refl _) h.complete
  | cons c u => exact ⟨c, u, rfl⟩

/-- The name of a command is a part of the text, and so it is none of those that are lacking.  This
is how `Lacking` gives the laws `plain`, `fence` and `strayEnd`. -/
theorem name_ne (h : Lacking names ('\\' :: t)) {name : String} (hname : name ∈ names) :
    (readCommand ('\\' :: t)).1 ≠ name.toList := by
  intro heq
  refine h.lacks name hname (List.IsPrefix.isInfix ⟨(readCommand ('\\' :: t)).2, ?_⟩)
  rw [← heq]
  exact readCommand_append_rest t

end Lacking

end FormulaMarkup.Invariance
