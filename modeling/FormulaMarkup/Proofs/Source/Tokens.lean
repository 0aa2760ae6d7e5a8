import Mathlib.Data.List.Infix
import Mathlib.Data.List.TakeWhile
import FormulaMarkup.Proofs.Text.Characters
import FormulaMarkup.Source.Scan

/-!
# FormulaMarkup — how far a token reaches

A command reaches up to the first character that is no letter, and a group up to the brace that
closes it.  This module says so for a token that is followed by anything else, which is what is
needed to read a source piece by piece.

* **`readCommand_letters`**, **`readCommand_single`** — a command name followed by something that is
  not part of it.
* **`atCommand_eq_readCommand`** — looking for a command is reading a command and comparing names.
* **`Balanced`** — a text whose braces match.
* **`groupText_balanced`** — a group is read exactly, whatever follows it.
-/

namespace FormulaMarkup.Source

open Text

/-! ## Blanks

Blanks are skipped before almost everything, so most statements about a token speak of the input
without the blanks at its front. -/

/-- `skipBlank` takes blanks at the front, whatever stands behind them. -/
theorem skipBlank_append {gap : List Char} (h : ∀ c ∈ gap, isBlank c = true) (s : List Char) :
    skipBlank (gap ++ s) = skipBlank s :=
  List.dropWhile_append_of_pos h

/-- `skipBlank` takes nothing where the input begins with something else. -/
theorem skipBlank_cons {c : Char} (h : isBlank c = false) (s : List Char) :
    skipBlank (c :: s) = c :: s :=
  List.dropWhile_cons_of_neg (by simp [h])

/-- An input is the blanks at its front and what `skipBlank` leaves. -/
theorem leading_blanks (s : List Char) :
    (∀ c ∈ s.takeWhile isBlank, isBlank c = true) ∧ s.takeWhile isBlank ++ skipBlank s = s :=
  ⟨fun _ hc => List.mem_takeWhile_imp hc, List.takeWhile_append_dropWhile⟩

/-- Skipping blanks twice is skipping them once. -/
theorem skipBlank_skipBlank (s : List Char) : skipBlank (skipBlank s) = skipBlank s := by
  cases h : skipBlank s with
  | nil => rfl
  | cons c t => exact skipBlank_cons (not_isBlank_of_skipBlank_eq_cons h) t

/-! ## Commands

A name is a run of letters, or a single character of another kind.  A routine that waits for a
command asks for it with `atCommand`, one that comes to a command reads its name with `readCommand`,
and `atCommand_eq_readCommand` says that both see the same name. -/

/-- A run of characters of one kind ends where another kind begins.  The names of commands, numbers
and words are such runs, so what follows them decides how far they reach. -/
theorem takeWhile_run {p : Char → Bool} {run s : List Char} (hrun : ∀ c ∈ run, p c = true)
    (hs : ∀ c t, s = c :: t → p c = false) :
    (run ++ s).takeWhile p = run ∧ (run ++ s).dropWhile p = s := by
  rw [List.takeWhile_append_of_pos hrun, List.dropWhile_append_of_pos hrun]
  cases s with
  | nil => simp
  | cons c s =>
    have hc : p c = false := hs c s rfl
    simp [hc]

/-- The run at the front of a text ends within the text if what follows the text does not go on with
it.  The rest of the text and what follows are left together. -/
theorem takeWhile_append {p : Char → Bool} {x : List Char} (hx : ∀ c t, x = c :: t → p c = false)
    (s : List Char) :
    (s ++ x).takeWhile p = s.takeWhile p ∧ (s ++ x).dropWhile p = s.dropWhile p ++ x := by
  have hrun : ∀ c ∈ s.takeWhile p, p c = true := fun c hc => List.mem_takeWhile_imp hc
  have hsplit : s.takeWhile p ++ (s.dropWhile p ++ x) = s ++ x := by
    rw [← List.append_assoc, List.takeWhile_append_dropWhile]
  rw [← hsplit]
  refine takeWhile_run hrun fun c t h => ?_
  -- the next character is one of the text or, if nothing is left of it, one of what follows
  cases hdrop : s.dropWhile p with
  | nil =>
    rw [hdrop, List.nil_append] at h
    exact hx c t h
  | cons d u =>
    rw [hdrop, List.cons_append] at h
    obtain ⟨rfl, _⟩ := List.cons.inj h
    have hne : s.dropWhile p ≠ [] := by simp [hdrop]
    simpa [hdrop] using List.head_dropWhile_not p hne

/-- `readCommand` takes a run of letters as the name of a command, if what follows it does not start
with a letter, and leaves what follows it. -/
theorem readCommand_letters {name s : List Char} (hne : name ≠ [])
    (hname : ∀ c ∈ name, c.isAlpha = true) (hs : startsWithLetter s = false) :
    readCommand ('\\' :: (name ++ s)) = (name, s) := by
  obtain ⟨c, name, rfl⟩ := List.exists_cons_of_ne_nil hne
  have hc : c.isAlpha = true := hname c (by simp)
  have hend : ∀ d t, s = d :: t → d.isAlpha = false := by
    rintro d t rfl
    exact hs
  have htail : ∀ d ∈ name, d.isAlpha = true := fun d hd => hname d (List.mem_cons_of_mem c hd)
  have hrun := takeWhile_run htail hend
  simp only [List.cons_append, readCommand, hc, if_true, hrun.1, hrun.2]

theorem readCommand_single {c : Char} (hc : c.isAlpha = false) (s : List Char) :
    readCommand ('\\' :: c :: s) = ([c], s) := by
  simp [readCommand, hc]

theorem readCommand_run {c : Char} (hc : c.isAlpha = true) (s : List Char) :
    readCommand ('\\' :: c :: s) = (c :: s.takeWhile Char.isAlpha, s.dropWhile Char.isAlpha) := by
  simp only [readCommand, hc, if_true]

/-- `readCommand` takes the backslash and the name that it gives, and nothing else. -/
theorem readCommand_append_rest (t : List Char) :
    '\\' :: ((readCommand ('\\' :: t)).1 ++ (readCommand ('\\' :: t)).2) = '\\' :: t := by
  cases t with
  | nil => rfl
  | cons c u =>
    cases hc : c.isAlpha with
    | true => rw [readCommand_run hc, List.cons_append, List.takeWhile_append_dropWhile]
    | false => rw [readCommand_single hc]; rfl

/-- A run of letters is in front if and only if it is the whole run of letters in front.  Induction
on the name, for all inputs. -/
theorem isPrefixOf_and_not_startsWithLetter {name : List Char}
    (hname : ∀ c ∈ name, c.isAlpha = true) (s : List Char) :
    (name.isPrefixOf s && !startsWithLetter (s.drop name.length))
      = (s.takeWhile Char.isAlpha == name) := by
  induction name generalizing s with
  | nil =>
    cases s with
    | nil => rfl
    | cons c s => cases hc : c.isAlpha <;> simp [startsWithLetter, hc]
  | cons n name ih =>
    have hn : n.isAlpha = true := hname n (by simp)
    have htail := ih fun c hc => hname c (by simp [hc])
    cases s with
    | nil => rfl
    | cons c s =>
      -- the input goes on with the name, with another letter, or with no letter at all
      by_cases hcn : n = c
      · subst hcn
        simpa [hn, List.isPrefixOf] using htail s
      · have hnc : (n == c) = false := by simpa using hcn
        have hcn' : (c == n) = false := by simpa using Ne.symm hcn
        cases hc : c.isAlpha <;> simp [List.isPrefixOf, hc, hnc, hcn']

/-- **Looking for a command is reading a command and comparing names**, for any name of letters.
The prefix test of `atCommand` with a look at the next character comes to the same as taking the
whole run. -/
theorem atCommand_eq_readCommand {name : List Char} (hne : name ≠ [])
    (hname : ∀ c ∈ name, c.isAlpha = true) (s : List Char) :
    atCommand name ('\\' :: s) = ((readCommand ('\\' :: s)).1 == name) := by
  rw [atCommand, isPrefixOf_and_not_startsWithLetter hname]
  cases s with
  | nil => rfl
  | cons c s =>
    cases hc : c.isAlpha with
    -- the name is a run of letters on both sides
    | true => simp [readCommand, hc]
    | false =>
      -- the name is one character, which is no letter and so not `name`
      obtain ⟨n, rest, rfl⟩ := List.exists_cons_of_ne_nil hne
      have hcn : c ≠ n := by
        rintro rfl
        simp [hname c (by simp)] at hc
      simp [readCommand, hc, hcn]

/-- Where there is no backslash there is no command. -/
theorem atCommand_eq_false {name : List Char} {c : Char} (hc : c ≠ '\\') (s : List Char) :
    atCommand name (c :: s) = false := by
  unfold atCommand
  split
  · next h => exact absurd (List.cons.inj h).1 hc
  · rfl

/-- **A command stands in front** if its backslash and its name do and no letter makes the name
longer (`startsWithLetter`). -/
theorem atCommand_iff {name s : List Char} :
    atCommand name s = true ↔ ∃ t, s = '\\' :: (name ++ t) ∧ startsWithLetter t = false := by
  constructor
  · intro h
    unfold atCommand at h
    split at h
    · next s =>
      simp only [Bool.and_eq_true, Bool.not_eq_true', List.isPrefixOf_iff_prefix] at h
      obtain ⟨⟨t, rfl⟩, hend⟩ := h
      rw [List.drop_left] at hend
      exact ⟨t, rfl, hend⟩
    · cases h
  · rintro ⟨t, rfl, hend⟩
    simp [atCommand, hend]

/-! ## Groups

A group is read as a text with all the groups inside it, up to the brace that closes it.  Which
brace this is depends on the text alone: it is the one in front of which the braces match. -/

theorem readGroup_skipBlank (s : List Char) : readGroup (skipBlank s) = readGroup s := by
  rw [readGroup, skipBlank_skipBlank, readGroup]

theorem readGroup_of_brace {s u : List Char} (h : skipBlank s = '{' :: u) :
    readGroup s = groupText 0 u := by
  rw [readGroup, h]
  rfl

/-- Where no brace follows, `readGroup` takes nothing but the blanks. -/
theorem readGroup_of_no_brace {s : List Char} (h : ∀ u, skipBlank s ≠ '{' :: u) :
    readGroup s = ([], skipBlank s) := by
  unfold readGroup
  split
  · next u hu => exact absurd hu (h u)
  · rfl

/-- Where something else comes first, `readGroup` finds no group and leaves all of it. -/
theorem readGroup_of_ne {c : Char} (hblank : isBlank c = false) (hopen : c ≠ '{') (t : List Char) :
    readGroup (c :: t) = ([], c :: t) := by
  have hskip : skipBlank (c :: t) = c :: t := skipBlank_cons hblank t
  rw [readGroup_of_no_brace (fun u hu => hopen (List.cons.inj (hskip.symm.trans hu)).1), hskip]

/-- A text whose braces match: in no part at its front are there more closing braces than opening
ones, and in all of it there are equally many. -/
def Balanced (t : List Char) : Prop :=
  (∀ p, p <+: t → p.count '}' ≤ p.count '{') ∧ t.count '{' = t.count '}'

instance (t : List Char) : Decidable (Balanced t) :=
  decidable_of_iff ((∀ p ∈ t.inits, p.count '}' ≤ p.count '{') ∧ t.count '{' = t.count '}')
    (by simp only [Balanced, List.mem_inits])

/-- A text in which, after `depth` opening braces, the braces match. -/
def BalancedFrom (depth : Nat) (t : List Char) : Prop :=
  (∀ p, p <+: t → p.count '}' ≤ depth + p.count '{') ∧ depth + t.count '{' = t.count '}'

theorem balancedFrom_zero {t : List Char} : BalancedFrom 0 t ↔ Balanced t := by
  simp only [BalancedFrom, Balanced, Nat.zero_add]

/-- A brace is counted in the first character and in those behind it. -/
theorem count_front (b c : Char) (p : List Char) : (c :: p).count b = [c].count b + p.count b := by
  rw [← List.count_append, List.singleton_append]

/-- What is true of the front parts of a text is true of those that start with its first character,
with the depth that this character leaves. -/
theorem BalancedFrom.tail {depth depth' : Nat} {c : Char} {t : List Char}
    (h : BalancedFrom depth (c :: t))
    (hc : depth + [c].count '{' = depth' + [c].count '}') : BalancedFrom depth' t := by
  constructor
  · intro p hp
    have hle := h.1 (c :: p) (List.cons_prefix_cons.mpr ⟨rfl, hp⟩)
    rw [count_front '}', count_front '{'] at hle
    omega
  · have heq := h.2
    rw [count_front '{', count_front '}'] at heq
    omega

/-- A group that is balanced inside `depth` open groups is read up to the brace that closes all of
them.  Induction on the text, the depth following its braces. -/
theorem groupText_balancedFrom {depth : Nat} {t : List Char} (h : BalancedFrom depth t)
    (r : List Char) : groupText depth (t ++ '}' :: r) = (t, r) := by
  induction t generalizing depth with
  | nil =>
    have hd : depth = 0 := by simpa using h.2
    subst hd
    simp [groupText]
  | cons c t ih =>
    rw [List.cons_append, groupText.eq_def]
    by_cases hopen : c = '{'
    · subst hopen
      -- one more group is open inside
      have ht : BalancedFrom (depth + 1) t := h.tail (by simp)
      simp [ih ht]
    · by_cases hclose : c = '}'
      · subst hclose
        -- a group is closed, so one was open
        have hpos : 1 ≤ depth := by
          simpa using h.1 ['}'] (List.cons_prefix_cons.mpr ⟨rfl, List.nil_prefix⟩)
        obtain ⟨depth, rfl⟩ : ∃ d, depth = d + 1 := ⟨depth - 1, by omega⟩
        have ht : BalancedFrom depth t := h.tail (by simp)
        simp [ih ht]
      · -- any other character leaves the depth as it is
        have ht : BalancedFrom depth t := h.tail (by simp [hopen, hclose])
        simp [hopen, hclose, ih ht]

/-- **A group is read exactly**, whatever follows the brace that closes it.  The text is the one
between the braces and `r` is left. -/
theorem groupText_balanced {t : List Char} (h : Balanced t) (r : List Char) :
    groupText 0 (t ++ '}' :: r) = (t, r) :=
  groupText_balancedFrom (balancedFrom_zero.mpr h) r

/-- Blanks before a group do not matter. -/
theorem readGroup_balanced {gap t : List Char} (hgap : ∀ c ∈ gap, isBlank c = true)
    (h : Balanced t) (r : List Char) :
    readGroup (gap ++ '{' :: (t ++ '}' :: r)) = (t, r) := by
  have hskip : skipBlank (gap ++ '{' :: (t ++ '}' :: r)) = '{' :: (t ++ '}' :: r) := by
    rw [skipBlank_append hgap, skipBlank_cons (by decide)]
  rw [readGroup_of_brace hskip]
  exact groupText_balanced h r

end FormulaMarkup.Source
