import FormulaMarkup.Proofs.Invariance.Parallel

/-!
# FormulaMarkup — blanks separate tokens

Blanks separate tokens and carry no meaning of their own, so that a source is known by its words:
how long the gaps between them are, which blanks they consist of, and whether there are blanks at
either end makes no difference, even if the source is malformed.

Where one word ends and the next begins does matter, since a number or the name of a command ends
there.  So the relation between what is left before and after the change keeps the first word apart
from the others, and drops to the words alone only where blanks are skipped.

* **`words`** — what stands between the blanks of a text; `words_gap` and `words_blanks` say what
  can be changed between the words and at the ends.
* **`Respaced`** — what is left of a source, before and after such a change.
* **`parallel_respaced`** — both are read side by side.
* **`blanks_separate`** — a whole source.
-/

namespace FormulaMarkup.Invariance

open Source Text Formula
open Isolation (WithinLimit)

/-! ## Words

A text is split at its blanks, and what is empty between two of them is left out.  `words_split`
takes the word at the front apart from the others. -/

/-- The words of a text, which are what stands between its blanks. -/
def words (s : List Char) : List (List Char) := (s.splitOnP isBlank).filter (· ≠ [])

/-- A blank in front of a text adds nothing to its `words`. -/
theorem words_cons_blank {b : Char} (hb : isBlank b = true) (t : List Char) :
    words (b :: t) = words t := by
  have hsplit := List.splitOnP_append_cons [] t hb
  rw [List.nil_append] at hsplit
  rw [words, hsplit, List.filter_append]
  rfl

/-- **Blanks at the front add no word**, however many there are. -/
theorem words_blanks {gap : List Char} (hgap : ∀ c ∈ gap, isBlank c = true) (t : List Char) :
    words (gap ++ t) = words t := by
  induction gap with
  | nil => rfl
  | cons b gap ih =>
    have hb : isBlank b = true := hgap b List.mem_cons_self
    rw [List.cons_append, words_cons_blank hb]
    exact ih fun c hc => hgap c (List.mem_cons_of_mem b hc)

/-- **Any gap separates words in the same way**, whichever blanks it consists of, as long as it has
one. -/
theorem words_gap {b : Char} {gap : List Char} (hb : isBlank b = true)
    (hgap : ∀ c ∈ gap, isBlank c = true) (s t : List Char) :
    words (s ++ b :: (gap ++ t)) = words s ++ words t := by
  rw [words, List.splitOnP_append_cons _ _ hb, List.filter_append, ← words, ← words,
    words_blanks hgap]

theorem words_skipBlank (s : List Char) : words (skipBlank s) = words s := by
  obtain ⟨hgap, hs⟩ := leading_blanks s
  rw [← words_blanks hgap, hs]

/-- The word that a text begins with, empty if it begins with a blank. -/
def firstWord (s : List Char) : List Char := s.takeWhile (!isBlank ·)

/-- What stands behind the first word. -/
def behindWord (s : List Char) : List Char := s.dropWhile (!isBlank ·)

/-- The words of a text are its `firstWord`, unless that is empty, and those of what stands
`behindWord`.  What stands behind the first word is empty or begins with a blank, where `splitOnP`
cuts. -/
theorem words_split (s : List Char) :
    words s = [firstWord s].filter (· ≠ []) ++ words (behindWord s) := by
  have hword : ∀ c ∈ firstWord s, isBlank c = false := by
    intro c hc
    have hnot := List.mem_takeWhile_imp hc
    rwa [Bool.not_eq_true'] at hnot
  have hsingle : words (firstWord s) = [firstWord s].filter (· ≠ []) := by
    rw [words, List.splitOnP_eq_singleton hword]
  have hs : firstWord s ++ behindWord s = s := List.takeWhile_append_dropWhile
  rw [← hsingle]
  -- behind the first word there is nothing or a blank, where the text is split
  cases hbehind : behindWord s with
  | nil =>
    rw [hbehind, List.append_nil] at hs
    rw [hs]
    exact (List.append_nil _).symm
  | cons b t =>
    have hdrop : s.dropWhile (!isBlank ·) = b :: t := hbehind
    have hb : isBlank b = true := by
      have hne : s.dropWhile (!isBlank ·) ≠ [] := by simp [hdrop]
      simpa [hdrop] using List.head_dropWhile_not (!isBlank ·) hne
    have hgap : words (firstWord s ++ b :: ([] ++ t)) = words (firstWord s) ++ words t :=
      words_gap hb (fun c hc => absurd hc List.not_mem_nil) (firstWord s) t
    rw [words_cons_blank hb, ← hgap, List.nil_append, ← hbehind, hs]

theorem firstWord_cons {c : Char} (hc : isBlank c = false) (t : List Char) :
    firstWord (c :: t) = c :: firstWord t :=
  List.takeWhile_cons_of_pos (by rw [hc]; rfl)

theorem firstWord_blank {b : Char} (hb : isBlank b = true) (t : List Char) :
    firstWord (b :: t) = [] :=
  List.takeWhile_cons_of_neg (by simp [hb])

/-- A character that is no blank does not change what stands behind the first word. -/
theorem behindWord_cons {c : Char} (hc : isBlank c = false) (t : List Char) :
    behindWord (c :: t) = behindWord t :=
  List.dropWhile_cons_of_pos (by rw [hc]; rfl)

theorem words_cons {c : Char} (hc : isBlank c = false) (t : List Char) :
    words (c :: t) = (c :: firstWord t) :: words (behindWord t) := by
  rw [words_split, firstWord_cons hc, behindWord_cons hc]
  rfl

/-! ## Side by side

The laws of `Parallel` are shown for `Respaced`.  Only blanks can be left behind the end here, and
so a fence is allowed, unlike with closing braces. -/

/-- The commands whose texts and names are taken as they are, blanks included. -/
def verbatimNames : List String := ["text", "operatorname", "begin", "end"]

/-- A text in which blanks only separate tokens.  It takes no text as it is, and no command is a
single blank (`unescaped`), since a blank behind a backslash names a command. -/
structure Separated (s : List Char) : Prop extends Lacking verbatimNames s where
  unescaped : ∀ b, isBlank b = true → ¬ ['\\', b] <:+: s

theorem Separated.of_suffix {s t : List Char} (h : Separated t) (hs : s <:+ t) : Separated s where
  toLacking := h.toLacking.of_suffix hs
  unescaped b hb hin := h.unescaped b hb (hin.trans hs.isInfix)

/-- Two texts begin with the same word, if any, and have the same words behind it.  The word at the
front is kept apart, because the reader may stand inside it. -/
structure SameWords (s s' : List Char) : Prop where
  first : firstWord s' = firstWord s
  others : words (behindWord s') = words (behindWord s)

namespace SameWords

variable {s s' t t' : List Char} {c : Char}

/-- Texts with the `SameWords` relation have the same `words`. -/
theorem words_eq (h : SameWords s s') : words s' = words s := by
  rw [words_split, words_split s, h.first, h.others]

/-- Texts with the same words begin with the same word behind their blanks.  That is where the
reader goes from one word to the next, and it is the law `skip` of `parallel_respaced`. -/
theorem of_words (h : words s' = words s) : SameWords (skipBlank s) (skipBlank s') := by
  rw [← words_skipBlank s, ← words_skipBlank s'] at h
  cases hs : skipBlank s with
  | nil =>
    cases hs' : skipBlank s' with
    | nil => exact ⟨rfl, rfl⟩
    | cons c' t' =>
      -- one of the texts would have a word and the other one none
      rw [hs, hs', words_cons (not_isBlank_of_skipBlank_eq_cons hs')] at h
      cases h
  | cons c t =>
    have hc := not_isBlank_of_skipBlank_eq_cons hs
    cases hs' : skipBlank s' with
    | nil =>
      rw [hs, hs', words_cons hc] at h
      cases h
    | cons c' t' =>
      -- both have words, so their first words and the others are equal
      have hc' := not_isBlank_of_skipBlank_eq_cons hs'
      rw [hs, hs', words_cons hc, words_cons hc'] at h
      obtain ⟨hfirst, hothers⟩ := List.cons.inj h
      exact ⟨by rw [firstWord_cons hc, firstWord_cons hc', hfirst],
        by rw [behindWord_cons hc, behindWord_cons hc', hothers]⟩

/-- A character that is no blank is at the front of both, and behind it the word goes on in both:
the law `next`. -/
theorem next (h : SameWords (c :: t) s') (hc : isBlank c = false) :
    ∃ t', s' = c :: t' ∧ SameWords t t' := by
  have hfirst := h.first
  have hothers := h.others
  rw [firstWord_cons hc] at hfirst
  rw [behindWord_cons hc] at hothers
  cases s' with
  | nil => cases hfirst
  | cons d t' =>
    cases hd : isBlank d with
    | true =>
      -- a blank would end the first word before it has begun
      rw [firstWord_blank hd] at hfirst
      cases hfirst
    | false =>
      rw [firstWord_cons hd] at hfirst
      rw [behindWord_cons hd] at hothers
      obtain ⟨rfl, hrest⟩ := List.cons.inj hfirst
      exact ⟨t', rfl, hrest, hothers⟩

/-- Behind the end of the first text there are only blanks, so that the laws `spent` and `fence`
hold without braces. -/
theorem skipBlank_eq_nil (h : SameWords [] s') : skipBlank s' = [] := by
  have hwords := h.words_eq
  rw [← words_skipBlank] at hwords
  cases hs : skipBlank s' with
  | nil => rfl
  | cons c t =>
    rw [hs, words_cons (not_isBlank_of_skipBlank_eq_cons hs)] at hwords
    cases hwords

end SameWords

/-- What is left of a source in which blanks only separate tokens, before and after its blanks have
been changed. -/
structure Respaced (s s' : List Char) : Prop where
  separated : Separated s
  same : SameWords s s'

/-- **A source is read in the same steps with other blanks** (`Respaced`).  Skipping blanks is where
the gaps may differ; everything else happens inside a word, which is the same. -/
theorem parallel_respaced : Parallel Respaced where
  nil := ⟨⟨.nil, fun b _ hin => absurd (List.infix_nil.mp hin) (List.cons_ne_nil _ _)⟩, rfl, rfl⟩
  skip := by
    rintro s s' ⟨hs, hsame⟩
    exact ⟨hs.of_suffix (skipBlank_suffix s), .of_words hsame.words_eq⟩
  next := by
    rintro c t s' ⟨hs, hsame⟩ hc
    obtain ⟨t', rfl, ht⟩ := hsame.next hc
    exact ⟨t', rfl, hs.of_suffix (List.suffix_cons c t), ht⟩
  gap := by
    rintro b t d u ⟨_, hsame⟩ hb
    have hfirst := hsame.first
    rw [firstWord_blank hb] at hfirst
    cases hd : isBlank d with
    | true => rfl
    | false =>
      rw [firstWord_cons hd] at hfirst
      cases hfirst
  spent := by
    rintro x ⟨_, hsame⟩
    exact .inl hsame.skipBlank_eq_nil
  command := by
    rintro t s' ⟨hs, hsame⟩
    obtain ⟨c, u, rfl⟩ := hs.of_slash
    -- the name of the command begins in the same word as its backslash
    have hc : isBlank c = false := by
      rw [Bool.eq_false_iff]
      exact fun hc => hs.unescaped c hc (List.IsPrefix.isInfix ⟨u, rfl⟩)
    obtain ⟨t', rfl, ht⟩ := hsame.next (by decide)
    obtain ⟨u', rfl, hu⟩ := ht.next hc
    have hsuffix : u <:+ '\\' :: c :: u := (List.suffix_cons c u).trans (List.suffix_cons _ _)
    exact ⟨c, u, u', rfl, rfl, hs.of_suffix hsuffix, hu⟩
  plain := by
    rintro t s' ⟨hs, _⟩ name hname
    refine hs.name_ne ?_
    simp only [List.mem_cons, List.not_mem_nil, or_false] at hname
    rcases hname with rfl | rfl | rfl <;> decide
  fence := by
    rintro t s' _ _ x ⟨_, hsame⟩
    exact hsame.skipBlank_eq_nil
  strayEnd := by
    rintro t t' ⟨hs, _⟩ hend
    exact absurd hend (hs.name_ne (by decide))

/-- Blanks at the front of a source do not matter. -/
theorem parse_skipBlank (config : Config) (source : List Char) :
    parse config (skipBlank source) = parse config source := by
  rw [parse, parse, Formula.read, Formula.read, readExpression, readExpression,
    readItems_skipBlank]

/-- **Blanks only separate tokens.**  A source that takes no text as it is, in which no blank comes
right behind a backslash, which is not cut off behind a backslash and does not reach the limit on
nesting, is parsed as the same tree as any other source with the same words, that is, with other
blanks between them and at the ends. -/
theorem blanks_separate (config : Config) {source source' : List Char}
    (hlacking : Lacking ["text", "operatorname", "begin", "end"] source)
    (hunescaped : ∀ b, isBlank b = true → ¬ ['\\', b] <:+: source)
    (hlimit : WithinLimit (parse config source).log) (hwords : words source' = words source) :
    (parse config source').value = (parse config source).value := by
  have hseparated : Separated source := ⟨hlacking, hunescaped⟩
  have hrespaced : Respaced (skipBlank source) (skipBlank source') :=
    ⟨hseparated.of_suffix (skipBlank_suffix source), .of_words hwords⟩
  rw [← parse_skipBlank config source] at hlimit
  rw [← parse_skipBlank config source, ← parse_skipBlank config source']
  exact parallel_respaced.value_parse hrespaced config hlimit

/-- A malformed source: an index and a fence are open at its end, the last script has no argument,
and there are a stray `\\right` and a surplus brace. -/
def crampedSource : List Char := "\\sqrt [n\\right ^ 2 \x7d \\left ( 3 . \\foo _".toList

/-- The same source with other blanks between its words and at its ends, some of them outside
ASCII. -/
def airySource : List Char :=
  "\u3000\\sqrt\t\t[n\\right\n^\u00a02   \x7d \\left\t(\u20283\n.\n\\foo \t _ \n".toList

/-- A malformed source before and after its blanks have been changed. -/
theorem blanks_separate_malformed :
    Lacking ["text", "operatorname", "begin", "end"] crampedSource ∧
    (∀ b, isBlank b = true → ¬ ['\\', b] <:+: crampedSource) ∧
    WithinLimit (parse .standard crampedSource).log ∧
    words airySource = words crampedSource ∧
    (parse .standard airySource).value = (parse .standard crampedSource).value := by
  have hlacking : Lacking ["text", "operatorname", "begin", "end"] crampedSource := by
    decide +kernel
  -- the blanks of the text itself are enough, since a blank in a part of it is one of them
  have hmem : ∀ b ∈ crampedSource, isBlank b = true → ¬ ['\\', b] <:+: crampedSource := by
    decide +kernel
  have hunescaped : ∀ b, isBlank b = true → ¬ ['\\', b] <:+: crampedSource := fun b hb hin =>
    hmem b (hin.subset (by simp)) hb hin
  have hlimit : WithinLimit (parse .standard crampedSource).log := by decide +kernel
  have hwords : words airySource = words crampedSource := by decide +kernel
  exact ⟨hlacking, hunescaped, hlimit, hwords,
    blanks_separate .standard hlacking hunescaped hlimit hwords⟩

end FormulaMarkup.Invariance
