import FormulaMarkup.Proofs.Formula.Ends
import FormulaMarkup.Proofs.Isolation.Lockstep
import FormulaMarkup.Proofs.Limit.Verbatim

/-!
# FormulaMarkup — what a routine does not look at

The fallback past the limit takes the rest `u` of the input as it is.  That nothing else has become
of `u` is said by exchange: with any other text `v` in its place the tree and the log would be the
same but for the text itself.  What a routine leaves to others is exchanged in the same way, so that
both cases are one notion, **`Local`**, and routines of this kind can be put together.

Looking ahead, a routine goes no further than to the end of a name.  That is why `v` must begin with
the same character and the same run of letters as `u`, and why an atom must begin with both.

* **`Fits`** — what can be put in the place of a text, and **`Variant`**, two inputs that differ by
  such an exchange at their end.
* **`Local`** — that a routine does not look at what it leaves or takes as it is.
* **`Local.bind`** — one routine after another; `Local.congr`, `Local.behind` and `Local.skipBlank`
  are the other ways to come from one routine to the next.
* **`local_readGroup`**, **`local_readDelimiter`** — the tokens are local.
* **`withStopAhead`** — a routine together with the test for a stop in front of it, which is needed
  where the stop is the end of an environment.
-/

namespace FormulaMarkup.Limit

open Source Text Formula
open Isolation (WithinLimit)

/-! ## Another text in a place

A text is exchanged only where an atom begins with it, since nothing but an atom is ever taken as it
is.  The lemmas on `Variant` say that every test of the reader that goes no further than a name has
the same answer on both inputs. -/

/-- The text `v` can stand in the place of `u`: an atom begins with either of them, and they have
the first character and the first run of letters in common. -/
structure Fits (u v : List Char) : Prop where
  head : v.head? = u.head?
  letters : v.takeWhile Char.isAlpha = u.takeWhile Char.isAlpha
  replaced : startsAtom u = true
  starts : startsAtom v = true

theorem Fits.refl {u : List Char} (h : startsAtom u = true) : Fits u u := ⟨rfl, rfl, h, h⟩

/-- One input is the other one with something that fits in the place of its end.  The case `same` is
the one in which the exchange has already been passed, or has not been made. -/
inductive Variant : List Char → List Char → Prop where
  | same (s : List Char) : Variant s s
  | put (p : List Char) {u v : List Char} (h : Fits u v) : Variant (p ++ u) (p ++ v)

namespace Variant

variable {s s' t t' : List Char}

/-- Variants begin with the same character, wherever the exchange begins. -/
theorem head (h : Variant s s') : s'.head? = s.head? := by
  cases h with
  | same => rfl
  | put p h => rw [List.head?_append, List.head?_append, h.head]

/-- Variants begin with the same run of letters.  The run may go over the place of the exchange,
which is why `Fits` speaks of letters at all. -/
theorem letters (h : Variant s s') :
    s'.takeWhile Char.isAlpha = s.takeWhile Char.isAlpha := by
  cases h with
  | same => rfl
  | put p h => rw [List.takeWhile_append, List.takeWhile_append, h.letters]

/-- A variant of a text that is not empty is not empty either and has the same first character.
This is how the routines below come to the same case of their definitions. -/
theorem exists_cons {c : Char} (h : Variant (c :: t) s') : ∃ t', s' = c :: t' := by
  have hhead := h.head
  rw [List.head?_cons] at hhead
  exact List.head?_eq_some_iff.mp hhead

/-- The name of the command behind a backslash is the same in all variants: it is one character, or
the first run of letters. -/
theorem name (h : Variant t t') : (readCommand ('\\' :: t')).1 = (readCommand ('\\' :: t)).1 := by
  have hletters := h.letters
  have hhead := h.head
  -- an empty name and a single character are read without a look at the letters
  cases t with
  | nil =>
    obtain rfl : t' = [] := List.head?_eq_none_iff.mp hhead
    rfl
  | cons c t =>
    obtain ⟨t', rfl⟩ := h.exists_cons
    cases hc : c.isAlpha with
    | false => rw [readCommand_single hc, readCommand_single hc]
    | true =>
      rw [List.takeWhile_cons_of_pos hc, List.takeWhile_cons_of_pos hc] at hletters
      rw [readCommand_run hc, readCommand_run hc]
      exact hletters

/-- Behind a backslash the same names are found, because looking for a command is reading a command
and comparing names (`atCommand_eq_readCommand`). -/
theorem atCommand_slash (h : Variant t t') {name : List Char} (hne : name ≠ [])
    (hname : ∀ c ∈ name, c.isAlpha = true) :
    Source.atCommand name ('\\' :: t') = Source.atCommand name ('\\' :: t) := by
  rw [atCommand_eq_readCommand hne hname, atCommand_eq_readCommand hne hname, h.name]

/-- The two commands that are no atoms, `right` and `end`, are found in all variants or in none.
With neither of them an atom begins, so the exchange cannot bring one forth or remove one. -/
theorem atCommand (h : Variant s s') {name : String} (hname : name ∈ ["right", "end"]) :
    atCommand name.toList s' = atCommand name.toList s := by
  have hletters : name.toList ≠ [] ∧ ∀ c ∈ name.toList, c.isAlpha = true := by
    simp only [List.mem_cons, List.not_mem_nil, or_false] at hname
    rcases hname with rfl | rfl <;> decide
  -- with neither of the two an atom begins
  have hstarts {t : List Char} (ht : startsAtom t = true) :
      Source.atCommand name.toList t = false := by
    cases t with
    | nil => rfl
    | cons c t =>
      by_cases hc : c = '\\'
      · subst hc
        simp only [startsAtom, Bool.not_eq_true', Bool.or_eq_false_iff, beq_self_eq_true,
          Bool.true_and] at ht
        simp only [List.mem_cons, List.not_mem_nil, or_false] at hname
        rcases hname with rfl | rfl
        · exact ht.2.1.2
        · exact ht.2.2
      · exact atCommand_eq_false hc t
  cases h with
  | same => rfl
  | put p h =>
    cases p with
    | nil => exact (hstarts h.starts).trans (hstarts h.replaced).symm
    | cons c p =>
      by_cases hc : c = '\\'
      · subst hc
        exact (Variant.put p h).atCommand_slash hletters.1 hletters.2
      · rw [List.cons_append, List.cons_append, atCommand_eq_false hc, atCommand_eq_false hc]

/-- `startsAtom` has the same answer on all variants. -/
theorem startsAtom (h : Variant s s') : startsAtom s' = startsAtom s := by
  have hright : Source.atCommand "right".toList s' = Source.atCommand "right".toList s :=
    h.atCommand (by decide)
  have hend : Source.atCommand "end".toList s' = Source.atCommand "end".toList s :=
    h.atCommand (by decide)
  cases h with
  | same => rfl
  | put p h =>
    cases p with
    | nil => exact h.starts.trans h.replaced.symm
    | cons c p =>
      exact startsAtom_congr (fun _ => (Variant.put p h).head) hright hend

/-- The same stops are found in all variants, except for the end of an environment, whose name in
braces may reach beyond the place of the exchange.  `local_end_withStopAhead` is about that one. -/
theorem isAt (h : Variant s s') {stop : Stop} (hstop : ∀ name, stop ≠ .environmentEnd name) :
    stop.isAt s' = stop.isAt s := by
  cases stop with
  | groupEnd | bracketEnd | column =>
    -- one character decides
    show (s'.head? == _) = (s.head? == _)
    rw [h.head]
  | right => exact h.atCommand (by decide)
  | environmentEnd name => exact absurd rfl (hstop name)
  | row =>
    -- a double backslash is no atom
    have hrow {t : List Char} (ht : Formula.startsAtom t = true) : Stop.isAt t .row = false := by
      rw [Bool.eq_false_iff, ne_eq, Stop.isAt_iff]
      rintro ⟨⟩
      cases ht
    cases h with
    | same => rfl
    | put p h =>
      cases p with
      | nil => exact (hrow h.starts).trans (hrow h.replaced).symm
      | cons c p =>
        rw [List.cons_append, List.cons_append, Stop.isAt_row_cons, Stop.isAt_row_cons,
          (Variant.put p h).head]

end Variant

/-! ## Routines

A routine answers with a value, what it leaves and what it logs.  `Local` has one field for each of
the two ways in which a text at the end can remain unseen: it is left, or it is taken verbatim.  The
predicate `arounds` says in which places of the value the verbatim text can stand. -/

section Local

variable {α β : Type}

/-- **Whatever is put in the place of `u` at the end of `s`, the routine answers as `answer` says**,
where `answer` is told what has been put there. -/
def Yields (routine : List Char → Reading α) (s u : List Char) (answer : List Char → Reading α) :
    Prop :=
  ∃ p, s = p ++ u ∧ ∀ v, Fits u v → routine (p ++ v) = answer v

/-- The rest of the input, taken as it is. -/
def verbatim (v : List Char) : Formula := .text (String.ofList v) .words

/-- What the routine answers when it takes `v` as it is, within a value around it. -/
def taken (around : Formula → α) (log : List Diagnostic) (v : List Char) : Reading α :=
  ⟨around (verbatim v), [], log ++ [.tooDeep (String.ofList v).utf8ByteSize]⟩

/-- **The routine does not look at what it leaves or takes as it is.**  In the first case it would
leave another text in the same place, and in the second one it would take it, with the same value
around it, which is one of those in `arounds`. -/
structure Local (arounds : (Formula → α) → Prop) (routine : List Char → Reading α)
    (s : List Char) : Prop where
  leaves : ∀ {w u}, (routine s).rest = w ++ u → startsAtom u = true →
    Yields routine s u fun v => ⟨(routine s).value, w ++ v, (routine s).log⟩
  takes : WithinLimit (routine s).log ∨ ∃ u around log, startsAtom u = true ∧ arounds around ∧
    WithinLimit log ∧ Yields routine s u (taken around log)

variable {arounds : (Formula → α) → Prop} {arounds' : (Formula → β) → Prop}
  {routine routine' : List Char → Reading α} {s s' : List Char}

theorem withinLimit_nil : WithinLimit [] := fun _ hn => absurd hn List.not_mem_nil

theorem withinLimit_append {log log' : List Diagnostic} (h : WithinLimit log)
    (h' : WithinLimit log') : WithinLimit (log ++ log') :=
  fun n hn => (List.mem_append.mp hn).elim (h n) (h' n)

/-- A text in which an atom starts (`startsAtom`) is not empty, so it is not what is left at the end
of the input. -/
theorem ne_nil_of_startsAtom {p u : List Char} (h : startsAtom u = true) : [] ≠ p ++ u := by
  intro hnil
  obtain ⟨_, rfl⟩ := List.append_eq_nil_iff.mp hnil.symm
  cases h

/-- At the end of the input there is nothing to look at: a routine that leaves nothing there and
does not warn is `Local`. -/
theorem Local.nil (hrest : (routine []).rest = []) (hlog : WithinLimit (routine []).log) :
    Local arounds routine [] where
  leaves hleft hu := absurd (hrest.symm.trans hleft) (ne_nil_of_startsAtom hu)
  takes := .inl hlog

/-- A routine that leaves its whole input is `Local`, since it does not look at anything. -/
theorem Local.leave (value : α) {log : List Diagnostic} (hlog : WithinLimit log) (s : List Char) :
    Local arounds (fun s => ⟨value, s, log⟩) s where
  leaves {w _} hleft _ := ⟨w, hleft, fun _ _ => rfl⟩
  takes := .inl hlog

/-- A routine that does the same as a `Local` one on every `Variant` of the input is `Local`.  This
is the way from a definition with a case distinction to the case at hand. -/
theorem Local.congr (h : Local arounds routine' s)
    (heq : ∀ s', Variant s s' → routine s' = routine' s') : Local arounds routine s := by
  have hs := heq s (.same s)
  have hyields {u answer} (hy : Yields routine' s u answer) : Yields routine s u answer := by
    obtain ⟨p, rfl, hp⟩ := hy
    exact ⟨p, rfl, fun v hv => (heq _ (.put p hv)).trans (hp v hv)⟩
  refine ⟨fun {w u} hleft hu => ?_, ?_⟩
  · rw [hs] at hleft ⊢
    exact hyields (h.leaves hleft hu)
  · rw [hs]
    exact h.takes.imp_right fun ⟨u, around, log, hu, haround, hlog, hy⟩ =>
      ⟨u, around, log, hu, haround, hlog, hyields hy⟩

/-- A routine that goes over one character and then does what a `Local` one does is `Local`: every
variant of its input is this character with a variant of the rest behind it. -/
theorem Local.behind {c : Char} {t : List Char} (h : Local arounds routine' t)
    (heq : ∀ t', routine (c :: t') = routine' t') : Local arounds routine (c :: t) := by
  have hyields {u answer} (hy : Yields routine' t u answer) :
      Yields routine (c :: t) u answer := by
    obtain ⟨p, rfl, hp⟩ := hy
    exact ⟨c :: p, rfl, fun v hv => (heq _).trans (hp v hv)⟩
  refine ⟨fun {w u} hleft hu => ?_, ?_⟩
  · rw [heq] at hleft ⊢
    exact hyields (h.leaves hleft hu)
  · rw [heq]
    exact h.takes.imp_right fun ⟨u, around, log, hu, haround, hlog, hy⟩ =>
      ⟨u, around, log, hu, haround, hlog, hyields hy⟩

/-- What is put in the place of an end is not swallowed by the blanks before it: no atom begins with
a blank, and `v` begins with the same character as `u`. -/
theorem skipBlank_put {s w u : List Char} (h : skipBlank s = w ++ u) (hu : startsAtom u = true) :
    ∃ p, s = p ++ u ∧ ∀ v, Fits u v → skipBlank (p ++ v) = w ++ v := by
  obtain ⟨hgap, hs⟩ := leading_blanks s
  refine ⟨s.takeWhile isBlank ++ w, by rw [List.append_assoc, ← h, hs], fun v hv => ?_⟩
  rw [List.append_assoc, skipBlank_append hgap]
  -- the first character of what is left is the same, and no blank
  cases hrest : w ++ u with
  | nil => exact absurd hrest.symm (ne_nil_of_startsAtom hu)
  | cons c t =>
    have hvariant : Variant (c :: t) (w ++ v) := hrest ▸ .put w hv
    obtain ⟨t', ht'⟩ := hvariant.exists_cons
    rw [ht']
    exact skipBlank_cons (not_isBlank_of_skipBlank_eq_cons (h.trans hrest)) t'

/-- A routine that skips blanks first is local if it is local behind the blanks.  By
`skipBlank_put`, what is put in the place of an end does not disappear among the blanks. -/
theorem Local.skipBlank (h : Local arounds routine (skipBlank s))
    (heq : ∀ s, routine (skipBlank s) = routine s) : Local arounds routine s := by
  -- the same text can be exchanged before the blanks are skipped and after
  have hyields {u answer} (hu : startsAtom u = true)
      (hy : Yields routine (Text.skipBlank s) u answer) : Yields routine s u answer := by
    obtain ⟨w, hw, hanswer⟩ := hy
    obtain ⟨p, hs, hp⟩ := skipBlank_put hw hu
    refine ⟨p, hs, fun v hv => ?_⟩
    rw [← heq, hp v hv]
    exact hanswer v hv
  refine ⟨fun {w u} hleft hu => ?_, ?_⟩
  · rw [← heq] at hleft ⊢
    exact hyields hu (h.leaves hleft hu)
  · rw [← heq]
    exact h.takes.imp_right fun ⟨u, around, log, hu, haround, hlog, hy⟩ =>
      ⟨u, around, log, hu, haround, hlog, hyields hu hy⟩

/-- **One routine after another.** If the first one leaves the text, the second one decides what
becomes of it.  If the first one takes it as it is, the second one finds nothing, and by `haround`
it puts what it was given, with the text somewhere in it, into its own value without a word. -/
theorem Local.bind (next : α → List Char → Reading β) (h : Local arounds routine s)
    (hnext : Local arounds' (next (routine s).value) (routine s).rest)
    (haround : ∀ around, arounds around → ∃ around', arounds' around' ∧
      ∀ node, next (around node) [] = ⟨around' node, [], []⟩) :
    Local arounds'
      (fun s => (next (routine s).value (routine s).rest).after (routine s).log) s := by
  -- what the second routine answers at the end of what the first one leaves
  have hyields {u answer} (hu : startsAtom u = true)
      (hy : Yields (next (routine s).value) (routine s).rest u answer) :
      Yields (fun s => (next (routine s).value (routine s).rest).after (routine s).log) s u
        fun v => (answer v).after (routine s).log := by
    obtain ⟨w, hw, hanswer⟩ := hy
    obtain ⟨p, hs, hp⟩ := h.leaves hw hu
    refine ⟨p, hs, fun v hv => ?_⟩
    simp only [hp v hv, hanswer v hv]
  refine ⟨fun {w u} hleft hu => hyields hu (hnext.leaves hleft hu), ?_⟩
  -- either of the two may take the rest as it is, the first one only if the second finds nothing
  rcases h.takes with hlog | ⟨u, around, log, hu, hin, hlog, p, hs, hp⟩
  · refine hnext.takes.imp (withinLimit_append hlog) ?_
    rintro ⟨u, around, log, hu, hin, hlog', hy⟩
    refine ⟨u, around, (routine s).log ++ log, hu, hin, withinLimit_append hlog hlog', ?_⟩
    have hanswer : taken around ((routine s).log ++ log)
        = fun v => (taken around log v).after (routine s).log := by
      funext v
      rw [taken, List.append_assoc]
      rfl
    rw [hanswer]
    exact hyields hu hy
  · -- the second routine is asked at the end of the input, with the text inside the first value
    obtain ⟨around', hin', heq⟩ := haround around hin
    refine .inr ⟨u, around', log, hu, hin', hlog, p, hs, fun v hv => ?_⟩
    simp only [hp v hv, taken, heq, Reading.after, List.append_nil]

/-- What is made of the value of a `Local` routine is `Local`, if the places of the text are mapped
too. -/
theorem Local.map (h : Local arounds routine s) (f : α → β)
    (haround : ∀ around, arounds around → arounds' fun node => f (around node)) :
    Local arounds' (fun s => (routine s).map f) s := by
  have hnext : Local arounds' (fun rest => ⟨f (routine s).value, rest, []⟩) (routine s).rest :=
    .leave (f (routine s).value) withinLimit_nil (routine s).rest
  refine (Local.bind (fun value rest => ⟨f value, rest, []⟩) h hnext fun around hin =>
    ⟨fun node => f (around node), haround around hin, fun _ => rfl⟩).congr fun s' _ => ?_
  simp only [Reading.map, Reading.after, List.append_nil]

end Local

/-! ## Tokens

Characters, names, groups and delimiters are read without logging anything and without taking
anything verbatim, so their places are `Nowhere`. -/

section Tokens

variable {β γ : Type}

/-- Nothing is taken as it is. -/
def Nowhere (_ : Formula → β) : Prop := False

/-- What is made of a token has no place for a verbatim text either. -/
theorem Local.mapToken {routine : List Char → Reading β} {s : List Char}
    (h : Local Nowhere routine s) (f : β → γ) : Local Nowhere (fun s => (routine s).map f) s :=
  h.map f fun _ => id

/-- A token is read without a guess. -/
def token (read : List Char → β × List Char) (s : List Char) : Reading β :=
  ⟨(read s).1, (read s).2, []⟩

/-- A token is `Local` if no other character can be added to it by an exchange behind it. -/
theorem local_token {read : List Char → β × List Char} {s : List Char}
    (h : ∀ {w u}, (read s).2 = w ++ u → startsAtom u = true →
      ∃ p, s = p ++ u ∧ ∀ v, Fits u v → read (p ++ v) = ((read s).1, w ++ v)) :
    Local Nowhere (token read) s where
  leaves {w u} hleft hu := by
    obtain ⟨p, hs, hp⟩ := h hleft hu
    refine ⟨p, hs, fun v hv => ?_⟩
    rw [token, hp v hv]
    rfl
  -- a token is never the whole rest of the input
  takes := .inl withinLimit_nil

/-- A run of characters of one kind is local: the character that ends the run is the first one of
what is left, or the run reaches up to the exchange and `Fits` keeps the first character. -/
theorem local_run (p : Char → Bool) (s : List Char) :
    Local Nowhere (token fun s => (s.takeWhile p, s.dropWhile p)) s := by
  refine local_token fun {w u} hleft hu => ?_
  have hs : s.takeWhile p ++ s.dropWhile p = s := List.takeWhile_append_dropWhile
  have hrun : ∀ c ∈ s.takeWhile p, p c = true := fun c hc => List.mem_takeWhile_imp hc
  have hleft : s.dropWhile p = w ++ u := hleft
  refine ⟨s.takeWhile p ++ w, by rw [List.append_assoc, ← hleft, hs], fun v hv => ?_⟩
  -- the character behind the run is the same, so the run does not go on
  have hend : ∀ c t, w ++ v = c :: t → p c = false := by
    intro c t ht
    have hhead : (s.dropWhile p).head? = some c := by
      rw [hleft, ← (Variant.put w hv).head, ht]
      rfl
    have hne : s.dropWhile p ≠ [] := by
      intro hnil
      rw [hnil] at hhead
      cases hhead
    have hnot := List.head_dropWhile_not p hne
    rwa [(List.head_eq_iff_head?_eq_some hne).mpr hhead] at hnot
  obtain ⟨htake, hdrop⟩ := takeWhile_run hrun hend
  rw [List.append_assoc, htake, hdrop]

/-- The name of a command is local, read from behind the backslash.  It is a run of letters, which
`local_run` is about, or a single character. -/
theorem local_readCommand (t : List Char) :
    Local Nowhere (token fun t => readCommand ('\\' :: t)) t := by
  cases t with
  | nil => exact .nil rfl withinLimit_nil
  | cons c t =>
    cases hc : c.isAlpha with
    | true =>
      have hread (t : List Char) : token (fun t => readCommand ('\\' :: t)) (c :: t)
          = (token (fun t => (t.takeWhile Char.isAlpha, t.dropWhile Char.isAlpha)) t).map
            (c :: ·) := by
        rw [token, readCommand_run hc]
        rfl
      exact ((local_run Char.isAlpha t).mapToken (c :: ·)).behind hread
    | false =>
      have hread (t : List Char) :
          token (fun t => readCommand ('\\' :: t)) (c :: t) = ⟨[c], t, []⟩ := by
        rw [token, readCommand_single hc]
      exact (Local.leave [c] withinLimit_nil t).behind hread

/-- `groupText` is `Local`.  Induction on the input, for all depths of braces, with a case for each
brace and one for any other character. -/
theorem local_groupText (depth : Nat) (s : List Char) :
    Local Nowhere (token (groupText depth)) s := by
  induction s generalizing depth with
  | nil => exact .nil rfl withinLimit_nil
  | cons c t ih =>
    -- all characters but the closing brace of the group belong to its text
    have hinner (depth depth' : Nat) (heq : ∀ t, groupText depth (c :: t)
        = (c :: (groupText depth' t).1, (groupText depth' t).2)) :
        Local Nowhere (token (groupText depth)) (c :: t) := by
      refine ((ih depth').mapToken (c :: ·)).behind fun t' => ?_
      rw [token, heq]
      rfl
    by_cases hopen : c = '{'
    · subst hopen
      exact hinner depth (depth + 1) fun t => by rw [groupText.eq_def]; rfl
    · by_cases hclose : c = '}'
      · subst hclose
        cases depth with
        | succ depth => exact hinner (depth + 1) depth fun t => by rw [groupText.eq_def]; rfl
        | zero =>
          have hend (t : List Char) : token (groupText 0) ('}' :: t) = ⟨[], t, []⟩ := by
            rw [token, groupText.eq_def]
            rfl
          exact (Local.leave [] withinLimit_nil t).behind hend
      · refine hinner depth depth fun t => ?_
        rw [groupText.eq_def]
        simp only [hopen, hclose, if_false]

/-- `readGroup` is `Local`; where there is no brace nothing is read. -/
theorem local_readGroup (s : List Char) : Local Nowhere (token readGroup) s := by
  refine Local.skipBlank ?_ fun s => by rw [token, token, readGroup_skipBlank]
  cases hs : skipBlank s with
  | nil => exact .nil rfl withinLimit_nil
  | cons c t =>
    have hblank := not_isBlank_of_skipBlank_eq_cons hs
    by_cases hopen : c = '{'
    · subst hopen
      exact (local_groupText 0 t).behind fun _ => rfl
    · refine (Local.leave [] withinLimit_nil (c :: t)).congr fun s' hs' => ?_
      obtain ⟨t', rfl⟩ := hs'.exists_cons
      rw [token, readGroup_of_ne hblank hopen]

/-- **The glyph of a fence is `Local`**, because the name of a command is looked at as a whole. -/
theorem local_readDelimiter (s : List Char) : Local Nowhere (token readDelimiter) s := by
  refine Local.skipBlank ?_ fun s => by rw [token, token, readDelimiter_skipBlank]
  cases hs : skipBlank s with
  | nil => exact .nil rfl withinLimit_nil
  | cons c t =>
    have hblank := not_isBlank_of_skipBlank_eq_cons hs
    by_cases hslash : c = '\\'
    · subst hslash
      suffices h : Local Nowhere (fun t => token readDelimiter ('\\' :: t)) t by
        exact h.behind fun _ => rfl
      -- a name that is no delimiter is left, and only the backslash is taken
      cases hglyph : namedDelimiter? (String.ofList (readCommand ('\\' :: t)).1) with
      | none =>
        refine (Local.leave "\\" withinLimit_nil t).congr fun t' ht' => ?_
        rw [token, readDelimiter_slash, ht'.name, hglyph]
        rfl
      | some glyph =>
        refine ((local_readCommand t).mapToken fun _ => glyph).congr fun t' ht' => ?_
        rw [token, readDelimiter_slash, ht'.name, hglyph]
        rfl
    · refine (Local.leave (literalDelimiter (String.singleton c)) withinLimit_nil t).behind
        fun t' => ?_
      rw [token, readDelimiter_of_ne hblank hslash]

/-- A token that is read behind a command is local, as the end of an environment and the glyph of a
closing fence are. -/
theorem local_afterCommand {read : List Char → β × List Char}
    (h : ∀ s, Local Nowhere (token read) s) (t : List Char) :
    Local Nowhere (token fun t => read (readCommand ('\\' :: t)).2) t :=
  .bind (fun _ rest => token read rest) (local_readCommand t) (h _) fun _ => False.elim

end Tokens

/-! ## Looking for a stop

Items go on until there is a stop, and whether there is one is asked in front of each item.  For the
end of an environment this test reads the name in braces, further than `Variant` reaches.  The name
is then consumed by whatever answers the test, so test and answer are local only together. -/

section StopAhead

variable {α β : Type} {stops : List Stop} {s s' : List Char}

/-- A routine together with whether there is a stop in front of it. -/
def withStopAhead (stops : List Stop) (routine : List Char → Reading α) (s : List Char) :
    Reading (α × Bool) :=
  (routine s).map (·, Stop.anyAt stops s)

/-- The value around the verbatim text, paired with the answer to the test. -/
def PairedWith (found : Bool) (arounds : (Formula → α) → Prop) (around : Formula → α × Bool) :
    Prop :=
  ∃ inner, arounds inner ∧ around = fun node => (inner node, found)

variable {arounds : (Formula → α) → Prop} {arounds' : (Formula → β) → Prop}
  {routine routine' : List Char → Reading α}

/-- `Stop.anyAt` has the same answer on all variants, unless the end of an environment comes up that
is waited for. -/
theorem Variant.anyAt (h : Variant s s')
    (hend : Source.atCommand "end".toList s = false ∨ ∀ name, .environmentEnd name ∉ stops) :
    Stop.anyAt stops s' = Stop.anyAt stops s := by
  refine Stop.anyAt_congr fun stop hstop => ?_
  cases hend with
  | inr hnone => exact h.isAt fun name heq => hnone name (heq ▸ hstop)
  | inl hend =>
    cases stop with
    | environmentEnd name =>
      have hend' : Source.atCommand "end".toList s' = false := (h.atCommand (by decide)).trans hend
      rw [Stop.isAt, Stop.isAt, Stop.atEnvironmentEnd, Stop.atEnvironmentEnd, hend, hend']
      rfl
    | _ => exact h.isAt fun name heq => by cases heq

/-- A `Local` routine stays so together with the test, unless the end of an environment comes up. -/
theorem Local.withStopAhead (h : Local arounds routine s)
    (hend : Source.atCommand "end".toList s = false ∨ ∀ name, .environmentEnd name ∉ stops) :
    Local (PairedWith (Stop.anyAt stops s) arounds) (withStopAhead stops routine) s := by
  refine (h.map (·, Stop.anyAt stops s) fun around hin => ⟨around, hin, rfl⟩).congr
    fun s' hs' => ?_
  rw [Limit.withStopAhead, hs'.anyAt hend]

/-- A routine that is chosen by the test is `Local` if the test together with the chosen routine is.
The answer to the test is read off the pair, so that the choice is the same on all variants. -/
theorem Local.of_withStopAhead {found : Bool}
    (h : Local (PairedWith found arounds) (Limit.withStopAhead stops routine') s)
    (hs : Stop.anyAt stops s = found)
    (heq : ∀ s', Variant s s' → Stop.anyAt stops s' = found → routine s' = routine' s') :
    Local arounds routine s := by
  have hroutine := heq s (.same s) hs
  refine ⟨fun {w u} hleft hu => ?_, ?_⟩
  · rw [hroutine] at hleft ⊢
    obtain ⟨p, rfl, hp⟩ := h.leaves hleft hu
    refine ⟨p, rfl, fun v hv => ?_⟩
    -- the pair is equal, hence both its parts are
    have hanswer : Limit.withStopAhead stops routine' (p ++ v)
        = ⟨((routine' (p ++ u)).value, Stop.anyAt stops (p ++ u)), w ++ v,
          (routine' (p ++ u)).log⟩ := hp v hv
    simp only [Limit.withStopAhead, Reading.map, Reading.mk.injEq, Prod.mk.injEq] at hanswer
    obtain ⟨⟨hvalue, hfound⟩, hrest, hlog⟩ := hanswer
    show routine (p ++ v) = ⟨_, w ++ v, _⟩
    rw [heq _ (.put p hv) (hfound.trans hs), ← hvalue, ← hrest, ← hlog]
  · rw [hroutine]
    refine h.takes.imp_right ?_
    rintro ⟨u, _, log, hu, ⟨inner, hin, rfl⟩, hlog, p, rfl, hp⟩
    refine ⟨u, inner, log, hu, hin, hlog, p, rfl, fun v hv => ?_⟩
    have hanswer := hp v hv
    simp only [Limit.withStopAhead, Reading.map, taken, Reading.mk.injEq, Prod.mk.injEq] at hanswer
    obtain ⟨⟨hvalue, hfound⟩, hrest, hlog⟩ := hanswer
    rw [heq _ (.put p hv) hfound, taken, ← hvalue, ← hrest, ← hlog]

/-- One routine after another, with the test in front of the first one.  This is `Local.bind`, with
the answer to the test handed on beside the value. -/
theorem Local.bind_withStopAhead {found : Bool} (next : α → List Char → Reading β)
    (h : Local (PairedWith found arounds) (Limit.withStopAhead stops routine) s)
    (hs : Stop.anyAt stops s = found)
    (hnext : Local arounds' (next (routine s).value) (routine s).rest)
    (haround : ∀ around, arounds around → ∃ around', arounds' around' ∧
      ∀ node, next (around node) [] = ⟨around' node, [], []⟩) :
    Local (PairedWith found arounds') (Limit.withStopAhead stops fun s =>
      (next (routine s).value (routine s).rest).after (routine s).log) s := by
  have hboth : Local (PairedWith found arounds') (fun rest =>
      (next (routine s).value rest).map (·, Stop.anyAt stops s)) (routine s).rest :=
    hnext.map (·, Stop.anyAt stops s) fun around hin => ⟨around, hin, by rw [hs]⟩
  refine Local.bind (fun (value : α × Bool) rest => (next value.1 rest).map (·, value.2)) h hboth ?_
  rintro _ ⟨around, hin, rfl⟩
  obtain ⟨around', hin', heq⟩ := haround around hin
  refine ⟨fun node => (around' node, found), ⟨around', hin', rfl⟩, fun node => ?_⟩
  rw [heq]
  rfl

/-- Whether a name is that of an environment whose end is waited for. -/
def endsOne (stops : List Stop) (name : List Char) : Bool :=
  stops.any (· == .environmentEnd name)

/-- In front of the end of an environment `Stop.anyAt` asks for the name only, because no other stop
begins with this command. -/
theorem anyAt_of_end {t : List Char} (h : atCommand "end".toList ('\\' :: t) = true) :
    Stop.anyAt stops ('\\' :: t) = endsOne stops (readGroup (readCommand ('\\' :: t)).2).1 := by
  refine List.any_congr rfl fun stop => ?_
  obtain ⟨u, hu, _⟩ := atCommand_iff.mp h
  obtain rfl := (List.cons.inj hu).2
  cases stop with
  | environmentEnd name =>
    rw [Stop.isAt, Stop.atEnvironmentEnd, h, Bool.true_and]
    rw [Bool.eq_iff_iff, beq_iff_eq, beq_iff_eq, Stop.environmentEnd.injEq]
    exact eq_comm
  | _ => rfl

/-- **The end of an environment is `Local` together with the test for it**, because
`skipEnvironmentEnd`, which answers the test, consumes the name on which the answer rests. -/
theorem local_end_withStopAhead (stops : List Stop) (value : α) (log : List Char → List Diagnostic)
    (hlog : ∀ name, WithinLimit (log name)) {s : List Char}
    (hend : atCommand "end".toList s = true) (found : Bool) :
    Local (PairedWith found arounds) (Limit.withStopAhead stops fun s =>
      ⟨value, skipEnvironmentEnd s, log (readGroup (readCommand s).2).1⟩) s := by
  obtain ⟨t, rfl, ht⟩ := atCommand_iff.mp hend
  suffices h : Local (PairedWith found arounds) (fun t => Limit.withStopAhead stops (fun s =>
      ⟨value, skipEnvironmentEnd s, log (readGroup (readCommand s).2).1⟩) ('\\' :: t))
      ("end".toList ++ t) by
    exact h.behind fun _ => rfl
  -- the name is read once and tells both the answer to the test and the entry of the log
  have hname := local_afterCommand local_readGroup ("end".toList ++ t)
  refine (hname.bind (fun name rest => ⟨(value, endsOne stops name), rest, log name⟩)
    (.leave _ (hlog _) _) fun _ => False.elim).congr fun t' ht' => ?_
  have hend' : atCommand "end".toList ('\\' :: t') = true :=
    (ht'.atCommand_slash (by decide) (by decide)).trans hend
  simp only [Limit.withStopAhead, skipEnvironmentEnd, if_pos hend', anyAt_of_end hend', token]
  rfl

end StopAhead

end FormulaMarkup.Limit
