import FormulaMarkup.Proofs.Invariance.Parallel

/-!
# FormulaMarkup — closing braces at the end

Whatever is open at the end of the input is closed there, so that closing braces behind it make no
difference, be they too few or too many: wherever a source breaks off, a brace is treated like the
end of the input or dropped.

The first input is a suffix of the source and the second one is the same suffix with braces behind
it.  The number of braces goes down on the way, since groups are closed with them, and so it is not
a part of the relation.

* **`Braced`** — what is left of a source, with and without braces behind it.
* **`groupText_braces`** — a text that is taken as it is, for the name behind a stray end.
* **`parallel_braced`** — both are read side by side.
* **`closers_harmless`** — a whole source.
-/

namespace FormulaMarkup.Invariance

open Source Text Formula
open Isolation (WithinLimit Closing closing_nil closing_brace)

/-- The constructs whose text, name or glyph would take in a brace behind the end. -/
def openNames : List String := ["left", "begin", "text", "operatorname"]

/-- A number of closing braces. -/
def braces (m : Nat) : List Char := List.replicate m '}'

/-- The second input is the first one with closing braces behind it, and the first one has none of
the constructs in `openNames`, which would take them in. -/
structure Braced (s s' : List Char) : Prop where
  lacking : Lacking openNames s
  behind : ∃ m, s' = s ++ braces m

/-- Closing braces begin neither an atom nor a script, so they are `Closing`. -/
theorem closing_braces (m : Nat) : Closing (braces m) := by
  cases m with
  | zero => exact closing_nil
  | succ m => exact closing_brace (braces m)

/-! ## Texts that are taken as they are

One such text is read in any source: the name behind a stray end, which is dropped with it.  What is
left behind it must still be related. -/

/-- The `m` braces behind a text close the groups that are open at its end, and those that are left
over stay in the input.  Induction on the text, for any `depth` of groups that are open in front of
it. -/
theorem groupText_braces (depth m : Nat) (t : List Char) :
    ∃ m', (groupText depth (t ++ braces m)).2 = (groupText depth t).2 ++ braces m' := by
  induction t generalizing depth with
  | nil =>
    -- nothing is left but braces: each of them closes a group, the first surplus one ends the text
    show ∃ m', (groupText depth (braces m)).2 = braces m'
    induction m generalizing depth with
    | zero => exact ⟨0, rfl⟩
    | succ m ih =>
      cases depth with
      | zero => exact ⟨m, rfl⟩
      | succ depth => exact ih depth
  | cons c t ih =>
    rw [List.cons_append, groupText.eq_def depth (c :: t), groupText.eq_def depth (c :: (t ++ _))]
    by_cases hopen : c = '{'
    · simp only [hopen, if_true]
      exact ih (depth + 1)
    by_cases hclose : c = '}'
    · subst hclose
      cases depth with
      | zero => exact ⟨m, rfl⟩
      | succ depth => exact ih depth
    · simp only [hopen, hclose, if_false]
      exact ih depth

/-- A group with its opening brace takes in braces behind the end if it is not closed before.  The
opening brace may also be missing; then all the braces are left. -/
theorem readGroup_braces (m : Nat) (s : List Char) :
    ∃ m', (readGroup (s ++ braces m)).2 = (readGroup s).2 ++ braces m' := by
  rw [← readGroup_skipBlank s, ← readGroup_skipBlank (s ++ _), (closing_braces m).skipBlank_append]
  cases hs : skipBlank s with
  | nil =>
    refine ⟨m, ?_⟩
    -- at the end of the text the first surplus brace opens no group
    cases m with
    | zero => rfl
    | succ m =>
      have hread : readGroup (braces (m + 1)) = ([], braces (m + 1)) :=
        readGroup_of_ne (by decide) (by decide) _
      rw [List.nil_append, hread]
      rfl
  | cons c t =>
    by_cases hopen : c = '{'
    · subst hopen
      exact groupText_braces 0 m t
    · have hblank := not_isBlank_of_skipBlank_eq_cons hs
      rw [List.cons_append, readGroup_of_ne hblank hopen, readGroup_of_ne hblank hopen]
      exact ⟨m, rfl⟩

/-! ## Side by side

What is left to show are the laws of `Parallel` for `Braced`. -/

/-- **A source is read in the same steps with braces behind it.** Each step leaves a suffix of the
first input, and the same suffix with braces behind it of the second one.  Only `spent` and
`strayEnd` look at the braces. -/
theorem parallel_braced : Parallel Braced where
  nil := ⟨.nil, 0, rfl⟩
  skip := by
    rintro s _ ⟨hs, m, rfl⟩
    exact ⟨hs.of_suffix (skipBlank_suffix s), m, (closing_braces m).skipBlank_append s⟩
  next := by
    rintro c t _ ⟨hs, m, rfl⟩ _
    exact ⟨t ++ braces m, rfl, hs.of_suffix (List.suffix_cons c t), m, rfl⟩
  gap := by
    rintro b t d u ⟨_, m, heq⟩ hb
    rw [(List.cons.inj heq).1]
    exact hb
  spent := by
    rintro _ ⟨hs, m, rfl⟩
    cases m with
    | zero => exact .inl rfl
    | succ m => exact .inr ⟨braces m, rfl, hs, m, rfl⟩
  command := by
    rintro t _ ⟨hs, m, rfl⟩
    -- behind the backslash there is a character, which is no brace behind the end
    obtain ⟨c, u, rfl⟩ := hs.of_slash
    have hu : u <:+ '\\' :: c :: u := (List.suffix_cons c u).trans (List.suffix_cons _ _)
    exact ⟨c, u, u ++ braces m, rfl, rfl, hs.of_suffix hu, m, rfl⟩
  plain := by
    rintro t _ ⟨hs, _⟩ name hname
    exact hs.name_ne (List.mem_cons_of_mem _ hname)
  fence := by
    rintro t _ ⟨hs, _⟩ hleft
    exact absurd hleft (hs.name_ne List.mem_cons_self)
  strayEnd := by
    rintro t t' ⟨hs, m, heq⟩ _
    obtain ⟨c, u, rfl⟩ := hs.of_slash
    obtain rfl : t' = c :: u ++ braces m := (List.cons.inj heq).2
    -- the name behind the stray end may be open, and takes in some of the braces
    rw [(closing_braces m).readCommand_append (List.cons_ne_nil c u)]
    have hsuffix := (readGroup_suffix (readCommand ('\\' :: c :: u)).2).trans (readCommand_suffix _)
    exact ⟨hs.of_suffix hsuffix, readGroup_braces m _⟩

/-- **What is open at the end is closed there, and surplus closing braces are harmless.**  A source
without fences, environments and texts that are taken as they are, which is not cut off behind a
backslash and does not reach the limit on nesting, is parsed as the same tree with any number of
closing braces behind it. -/
theorem closers_harmless (config : Config) {source : List Char}
    (hlacking : Lacking ["left", "begin", "text", "operatorname"] source)
    (hlimit : WithinLimit (parse config source).log) (m : Nat) :
    (parse config (source ++ List.replicate m '}')).value = (parse config source).value :=
  parallel_braced.value_parse ⟨hlacking, m, rfl⟩ config hlimit

/-- A source that breaks off in a script, a group, an index and the name behind a stray end. -/
def brokenSource : List Char := "\\frac\x7ba_\x7b\\sqrt[x^\\end\x7bn ".toList

/-- A source in which four constructs are open at the end, with seven braces behind it. -/
theorem closers_harmless_broken :
    Lacking ["left", "begin", "text", "operatorname"] brokenSource ∧
    WithinLimit (parse .standard brokenSource).log ∧
    (parse .standard (brokenSource ++ List.replicate 7 '}')).value =
      (parse .standard brokenSource).value := by
  have hlacking : Lacking ["left", "begin", "text", "operatorname"] brokenSource := by
    decide +kernel
  have hlimit : WithinLimit (parse .standard brokenSource).log := by decide +kernel
  exact ⟨hlacking, hlimit, closers_harmless .standard hlacking hlimit 7⟩

end FormulaMarkup.Invariance
