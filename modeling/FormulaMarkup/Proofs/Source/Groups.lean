import FormulaMarkup.Proofs.Source.ByteCursor

/-!
# FormulaMarkup — how a group ends

A group that is read as a text ends at the brace that closes it, and the text in between is one
whose braces match.  Without such a brace the group takes everything that is left.

* **`groupText_cases`** — a group is closed, or goes on to the end of the input.
* **`readGroup_closed`** — a group with something in it and something behind it is closed.
* **`Balanced.eq_of_append`** — only one text stands in front of the brace that closes it.
* **`GroupRead`** — what a group is read as, by a scan, a cursor and a number of bytes.
* **`groupRead_missing`**, **`groupRead_closed`**, **`groupRead_unclosed`** — on any input.
-/

namespace FormulaMarkup.Source

open Text

/-- A character in front of a text changes the depth that the text starts from: by one if it is a
brace, and not at all otherwise.  This is `BalancedFrom.tail` the other way round. -/
theorem BalancedFrom.cons {depth depth' : Nat} {c : Char} {t : List Char}
    (h : BalancedFrom depth' t) (hc : depth + [c].count '{' = depth' + [c].count '}') :
    BalancedFrom depth (c :: t) := by
  constructor
  · intro p hp
    cases p with
    | nil => simp
    | cons d p =>
      obtain ⟨rfl, hfront⟩ := List.cons_prefix_cons.mp hp
      have hle := h.1 p hfront
      rw [count_front '}', count_front '{']
      omega
  · have heq := h.2
    rw [count_front '{', count_front '}']
    omega

/-- What a group is, from `depth` open groups on: the text up to a brace that closes all of them, or
everything that is left. -/
def GroupEnds (depth : Nat) (s : List Char) : Prop :=
  (∃ t r, s = t ++ '}' :: r ∧ BalancedFrom depth t ∧ groupText depth s = (t, r)) ∨
    groupText depth s = (s, [])

/-- One more character in the group.  If it is a brace, the depth behind it is another one. -/
theorem GroupEnds.cons {depth depth' : Nat} {c : Char} {s : List Char} (h : GroupEnds depth' s)
    (hc : depth + [c].count '{' = depth' + [c].count '}')
    (hread : groupText depth (c :: s) = (c :: (groupText depth' s).1, (groupText depth' s).2)) :
    GroupEnds depth (c :: s) := by
  rcases h with ⟨t, r, hs, ht, hinner⟩ | hinner
  · exact .inl ⟨c :: t, r, congrArg (c :: ·) hs, ht.cons hc, by rw [hread, hinner]⟩
  · exact .inr (by rw [hread, hinner])

/-- **A group is closed by a brace, with matching braces before it, or goes on to the end**
(`GroupEnds`).  Induction on the input, the depth following its braces. -/
theorem groupText_cases (depth : Nat) (s : List Char) : GroupEnds depth s := by
  induction s generalizing depth with
  | nil => exact .inr rfl
  | cons c s ih =>
    -- the three kinds of characters open a group, close one, or do neither
    by_cases hopen : c = '{'
    · subst hopen
      exact (ih (depth + 1)).cons (by simp) rfl
    by_cases hclose : c = '}'
    · subst hclose
      cases depth with
      | zero => exact .inl ⟨[], s, rfl, balancedFrom_zero.mpr (by decide), rfl⟩
      | succ depth => exact (ih depth).cons (by simp) rfl
    · refine (ih depth).cons (by simp [hopen, hclose]) ?_
      rw [groupText.eq_def]
      simp only [hopen, hclose, if_false]

/-- A group of which `groupText` leaves something over is closed: its text has matching braces, and
the input is the text, the closing brace and what is left. -/
theorem groupText_closed {s : List Char} (h : (groupText 0 s).2 ≠ []) :
    Balanced (groupText 0 s).1 ∧ s = (groupText 0 s).1 ++ '}' :: (groupText 0 s).2 := by
  rcases groupText_cases 0 s with ⟨t, r, hs, ht, hread⟩ | hread
  · rw [hread]
    exact ⟨balancedFrom_zero.mp ht, hs⟩
  · exact absurd (congrArg Prod.snd hread) h

/-- **A group with something in it and something behind it** stands in the input as it is: blanks, a
brace, the text with matching braces, and a brace.  So what `readGroup` gives tells what it has
consumed. -/
theorem readGroup_closed {s : List Char} (htext : (readGroup s).1 ≠ [])
    (hrest : (readGroup s).2 ≠ []) :
    Balanced (readGroup s).1 ∧ ∃ gap, (∀ c ∈ gap, isBlank c = true) ∧
      s = gap ++ '{' :: ((readGroup s).1 ++ '}' :: (readGroup s).2) := by
  obtain ⟨hblank, hgap⟩ := leading_blanks s
  unfold readGroup at htext hrest ⊢
  split at htext
  next t hskip =>
    rw [hskip] at hgap hrest
    obtain ⟨hbalanced, ht⟩ := groupText_closed hrest
    refine ⟨hbalanced, s.takeWhile isBlank, hblank, ?_⟩
    show s = _ ++ '{' :: ((groupText 0 t).1 ++ '}' :: (groupText 0 t).2)
    rw [← ht, hgap]
  -- without a brace there would be no text
  next => exact absurd rfl htext

/-- `groupText` takes everything that is left exactly if no brace closes the group, that is, if the
input is not a text with matching braces and a brace behind it. -/
theorem groupText_unclosed_iff {s : List Char} :
    groupText 0 s = (s, []) ↔ ∀ t r, Balanced t → s ≠ t ++ '}' :: r := by
  constructor
  · rintro hall t r ht hs
    have hread := groupText_balanced ht r
    rw [← hs, hall] at hread
    obtain ⟨rfl, rfl⟩ := Prod.mk.inj hread
    -- the brace would be part of the text in front of it
    simp at hs
  · intro h
    rcases groupText_cases 0 s with ⟨t, r, hs, ht, -⟩ | hall
    · exact absurd hs (h t r (balancedFrom_zero.mp ht))
    · exact hall

/-- **The text of a group is the only one** that is `Balanced` in front of the brace that closes it:
whatever other one there is, reading the group finds both. -/
theorem Balanced.eq_of_append {t t' r r' : List Char} (ht : Balanced t) (ht' : Balanced t')
    (h : t ++ '}' :: r = t' ++ '}' :: r') : t = t' := by
  have hread := groupText_balanced ht r
  rw [h, groupText_balanced ht' r'] at hread
  exact (congrArg Prod.fst hread).symm

/-! ## Anywhere in a source

A group is read in three ways in this development: as a scan of what is left, as an operation of a
cursor, and as a routine on a number of bytes.  `GroupRead` says that all three find the same text
and stop at the same place, and one lemma for each of the three cases follows from the scan. -/

namespace Cursor

/-- The cursor that has consumed `front` and has `rest` left. -/
def behind (front rest : List Char) : Cursor := ⟨front.reverse, rest⟩

theorem behind_moveTo (front t r : List Char) :
    (behind front (t ++ r)).moveTo r = behind (front ++ t) r := by
  rw [behind, moveTo_append, behind, List.reverse_append]

end Cursor

/-- The number of bytes for such a cursor is the length of what it has consumed. -/
theorem ByteCursor.State.at_behind (front rest : List Char) (fallbacks : Nat) :
    State.at (.behind front rest) fallbacks = ⟨front ++ rest, byteLength front, fallbacks⟩ := by
  rw [State.at, Cursor.consumed, Cursor.input, Cursor.behind, List.reverse_reverse]

/-- Behind `front`, where `input` is left, the text of a group is `text`; reading it consumes
exactly `consumed` and leaves `left`.  A scan of the input says so, an operation of a cursor, and a
routine on a number of bytes, for which no text has to stand for another. -/
structure GroupRead (front input text consumed left : List Char) : Prop where
  scan : readGroup input = (text, left)
  cursor : (Cursor.behind front input).readGroup = (text, .behind (front ++ consumed) left)
  bytes : ∀ fallbacks, ByteCursor.readGroup ⟨front ++ input, byteLength front, fallbacks⟩
    = some (text, ⟨front ++ input, byteLength (front ++ consumed), fallbacks⟩)

section GroupRead

variable (front : List Char) {input : List Char}

/-- What `readGroup` finds in a text is found by a cursor and by a number of bytes, which follow the
scan. -/
theorem GroupRead.of_scan {text consumed left : List Char} (hinput : consumed ++ left = input)
    (hscan : readGroup input = (text, left)) : GroupRead front input text consumed left := by
  subst hinput
  have hcursor : (Cursor.behind front (consumed ++ left)).readGroup
      = (text, .behind (front ++ consumed) left) := by
    show ((readGroup (consumed ++ left)).1,
      (Cursor.behind front (consumed ++ left)).moveTo (readGroup (consumed ++ left)).2) = _
    rw [hscan, Cursor.behind_moveTo]
  refine ⟨hscan, hcursor, fun fallbacks => ?_⟩
  have hbytes := ByteCursor.follows_readGroup (.behind front (consumed ++ left)) fallbacks
  rw [hcursor, ByteCursor.State.at_behind, ByteCursor.State.at_behind, List.append_assoc] at hbytes
  exact hbytes

/-- Where no brace comes behind the blanks, the text is empty and only the blanks are consumed. -/
theorem groupRead_missing (h : ∀ u, skipBlank input ≠ '{' :: u) :
    GroupRead front input [] (input.takeWhile isBlank) (skipBlank input) :=
  .of_scan front (leading_blanks input).2 (readGroup_of_no_brace h)

/-- A group that is closed is consumed with its braces, and its text is the one between them. -/
theorem groupRead_closed {t r : List Char} (ht : Balanced t)
    (hopen : skipBlank input = '{' :: (t ++ '}' :: r)) :
    GroupRead front input t (input.takeWhile isBlank ++ '{' :: (t ++ ['}'])) r := by
  refine .of_scan front ?_ ?_
  · calc input.takeWhile isBlank ++ '{' :: (t ++ ['}']) ++ r
        = input.takeWhile isBlank ++ '{' :: (t ++ '}' :: r) := by simp
      _ = input := by rw [← hopen, (leading_blanks input).2]
  · rw [readGroup_of_brace hopen]
    exact groupText_balanced ht r

/-- A group that is not closed is consumed with the whole input, and everything behind its brace is
its text. -/
theorem groupRead_unclosed {u : List Char} (hopen : skipBlank input = '{' :: u)
    (h : ∀ t r, Balanced t → u ≠ t ++ '}' :: r) : GroupRead front input u input [] := by
  refine .of_scan front (List.append_nil input) ?_
  rw [readGroup_of_brace hopen]
  exact groupText_unclosed_iff.mpr h

end GroupRead

end FormulaMarkup.Source
