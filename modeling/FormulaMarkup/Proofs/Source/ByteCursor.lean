import FormulaMarkup.Proofs.Source.Tokens
import FormulaMarkup.Proofs.Text.Bytes
import FormulaMarkup.Source.Cursor

/-!
# FormulaMarkup — a cursor that counts bytes

The place of a cursor can be kept as a number of bytes.  What is left has then to be cut out of the
source for every look at it, and where a text cannot be cut out, the empty text stands for it.  If
the number were ever off the places between characters, input would be lost without a sign; this
module shows that it never is, operation by operation.

The routines below do nothing but read and set a number and cut texts out of the source.  Their
loops have a bound on the number of turns and fail beyond it, so that a routine which returns has
ended by itself.

* **`State`** — the place, and how often the empty text has stood for another.
* **`Routine`** — what goes from one state to another; a loop that takes more turns than there are
  characters fails.
* **`Follows`** — a routine does to the number of bytes what an operation does to a cursor.
* **`follows_groupLoop`** — the loop that reads a group, which counts braces on its way.
* **`follows_readGroup`** and its neighbours — one routine for each operation.
-/

namespace FormulaMarkup.Source

open Text

/-! ## Moves of a cursor

A cursor moves by giving up a part of what it has left.  Moves can be made one after another or at
once, which is needed because the routines pass over a character or a text at a time. -/

namespace Cursor

/-- The part of the source that has been consumed. -/
def consumed (c : Cursor) : List Char := c.before.reverse

/-- What has been consumed and what is left are the source. -/
theorem consumed_append_rest (c : Cursor) : c.consumed ++ c.rest = c.input := rfl

/-- Moving over a text puts its characters in front of the cursor, the last one first. -/
theorem moveTo_append (before t r : List Char) :
    (Cursor.mk before (t ++ r)).moveTo r = ⟨t.reverse ++ before, r⟩ := by
  simp [moveTo]

theorem moveTo_rest (c : Cursor) : c.moveTo c.rest = c := moveTo_append c.before [] c.rest

/-- The first character may be passed over before the others. -/
theorem moveTo_cons (before : List Char) (x : Char) {s r : List Char} (h : r <:+ s) :
    (Cursor.mk before (x :: s)).moveTo r = (Cursor.mk (x :: before) s).moveTo r := by
  obtain ⟨t, rfl⟩ := h
  rw [← List.cons_append, moveTo_append, moveTo_append, List.reverse_cons, List.append_assoc]
  rfl

/-- A move may be made in two parts, which is how loops are followed. -/
theorem moveTo_moveTo {c : Cursor} {s r : List Char} (hs : s <:+ c.rest) (hr : r <:+ s) :
    (c.moveTo s).moveTo r = c.moveTo r := by
  obtain ⟨before, rest⟩ := c
  obtain ⟨t, rfl⟩ := hs
  obtain ⟨u, rfl⟩ := hr
  have hall := moveTo_append before (t ++ u) r
  rw [List.append_assoc, List.reverse_append, List.append_assoc] at hall
  rw [moveTo_append, moveTo_append, hall]

/-- What is passed over is consumed. -/
theorem consumed_moveTo {c : Cursor} {t r : List Char} (h : c.rest = t ++ r) :
    (c.moveTo r).consumed = c.consumed ++ t := by
  obtain ⟨before, rest⟩ := c
  subst h
  simp [moveTo_append, consumed]

end Cursor

namespace ByteCursor

/-! ## Routines

Each operation of the cursor as it works on a number of bytes, in terms of `position`, `advance` and
the texts that are cut out.  Nothing in them knows what a character is but the look at the first one
of what is left. -/

/-- A source and a place in it, which is a number of bytes.  It also counts how often the empty text
has stood for a text that is not there. -/
structure State where
  source : List Char
  /-- The number of bytes in front of the cursor. -/
  position : Nat
  /-- How often the empty text has stood for a text that could not be cut out. -/
  fallbacks : Nat

/-- What goes from one `State` to another and gives an answer, or fails. -/
abbrev Routine (α : Type) := StateT State Option α

/-- The place. -/
def position : Routine Nat := fun st => some (st.position, st)

/-- Sets the place. -/
def moveTo (place : Nat) : Routine Unit := fun st => some ((), { st with position := place })

/-- Sets the place some bytes further on. -/
def advance (bytes : Nat) : Routine Unit := fun st =>
  some ((), { st with position := st.position + bytes })

/-- One turn for each character of the source, and one more. -/
def turns : Routine Nat := fun st => some (st.source.length + 1, st)

/-- The text that is cut out of the source, or else the empty text, which the state counts. -/
def cutOut (text? : List Char → Option (List Char)) : Routine (List Char) := fun st =>
  match text? st.source with
  | some t => some (t, st)
  | none => some ([], { st with fallbacks := st.fallbacks + 1 })

/-- The text between two places. -/
def between (start stop : Nat) : Routine (List Char) := cutOut (textBetween? · start stop)

/-- The text from a place on. -/
def fromPlace (start : Nat) : Routine (List Char) := cutOut (textFrom? · start)

/-- What is left of the source from the place on. -/
def rest : Routine (List Char) := do
  let place ← position
  fromPlace place

/-- Whether the place is the end of the source, or behind it. -/
def isAtEnd : Routine Bool := fun st => some (decide (byteLength st.source ≤ st.position), st)

/-- The next character, if there is one. -/
def peek? : Routine (Option Char) := do
  let s ← rest
  return s.head?

/-- The next character, which is passed over by the bytes that it has (`byteLength`). -/
def next : Routine (Option Char) := do
  match ← peek? with
  | none => return none
  | some x =>
    advance x.utf8Size
    return some x

/-- The next character as the text between the places before and behind it. -/
def nextText : Routine (List Char) := do
  let start ← position
  let _ ← next
  let stop ← position
  between start stop

/-- Whether what is left starts with a text. -/
def startsWith (text : List Char) : Routine Bool := do
  let s ← rest
  return text.isPrefixOf s

/-- Passes over a character if it is the next one. -/
def eat (x : Char) : Routine Bool := do
  let first ← peek?
  if first = some x then
    advance x.utf8Size
    return true
  else return false

/-- Passes over a text if what is left starts with it. -/
def eatText (text : List Char) : Routine Bool := do
  if ← startsWith text then
    advance (byteLength text)
    return true
  else return false

/-- Whether a command with this name is next. -/
def atCommand (name : List Char) : Routine Bool := do
  let s ← rest
  return Source.atCommand name s

/-- Passes over characters of a kind, in at most as many turns as given.  It fails if these are not
enough. -/
def skipWhile (p : Char → Bool) : Nat → Routine Unit
  | 0 => failure
  | turns + 1 => do
    match ← peek? with
    | none => return ()
    | some x =>
      if p x then
        let _ ← next
        skipWhile p turns
      else return ()

/-- Passes over all characters of a kind that come next. -/
def skipRun (p : Char → Bool) : Routine Unit := do
  let n ← turns
  skipWhile p n

/-- Passes over blanks. -/
def skipBlank : Routine Unit := skipRun isBlank

/-- The text of the characters of a kind that come next. -/
def readRun (p : Char → Bool) : Routine (List Char) := do
  let start ← position
  let _ ← skipRun p
  let stop ← position
  between start stop

/-- Passes over a backslash and the name behind it, which is a run of letters or one character. -/
def readCommand : Routine (List Char) := do
  if ← eat '\\' then
    let first ← peek?
    if first.any Char.isAlpha then readRun Char.isAlpha
    else nextText
  else return []

/-- Reads up to the brace that closes a group which begins at `start`, `depth` groups being open. -/
def groupLoop (start : Nat) : Nat → Nat → Routine (List Char)
  | 0, _ => failure
  | turns + 1, depth => do
    match ← next with
    | none => fromPlace start
    | some x =>
      if x = '{' then groupLoop start turns (depth + 1)
      else if x = '}' then
        if depth - 1 = 0 then
          let stop ← position
          -- the closing brace is one byte long
          between start (stop - 1)
        else groupLoop start turns (depth - 1)
      else groupLoop start turns depth

/-- The text of a group in braces, blanks before it being passed over in any case. -/
def readGroup : Routine (List Char) := do
  skipBlank
  if ← eat '{' then
    let start ← position
    let n ← turns
    groupLoop start n 1
  else return []

/-- All that is left, the place being set to the end. -/
def takeRest : Routine (List Char) := do
  let s ← rest
  fun st => some (s, { st with position := byteLength st.source })

/-! ## Routines and operations

`Follows` is proved for each routine from that of the routines it is made of, by `Follows.bind`.
The only inductions are those on the turns of `skipWhile` and on what is left in `groupLoop`. -/

/-- The state that counts the bytes in front of a cursor. -/
def State.at (c : Cursor) (fallbacks : Nat) : State := ⟨c.input, byteLength c.consumed, fallbacks⟩

/-- Started at a `Cursor`, the routine gives this answer and ends at that cursor, in the same
source.  No text had to stand for another. -/
def Follows {α : Type} (m : Routine α) (c : Cursor) (answer : α) (c' : Cursor) : Prop :=
  ∀ fallbacks, m (.at c fallbacks) = some (answer, .at c' fallbacks)

namespace Follows

variable {α β : Type} {c c' c'' : Cursor}

theorem pure (v : α) (c : Cursor) : Follows (Pure.pure v) c v c := fun _ => rfl

/-- **One routine after another.** The second one starts where the first one has ended. -/
theorem bind {m : Routine α} {k : α → Routine β} {v : α} {w : β} (hm : Follows m c v c')
    (hk : Follows (k v) c' w c'') : Follows (m >>= k) c w c'' := by
  intro fallbacks
  show (m (.at c fallbacks)).bind (fun p => k p.1 p.2) = _
  rw [hm fallbacks]
  exact hk fallbacks

theorem congr {m : Routine α} {v v' : α} (h : Follows m c v c') (hv : v = v') (hc : c' = c'') :
    Follows m c v' c'' :=
  hv ▸ hc ▸ h

end Follows

section Operations

variable (c : Cursor)

theorem follows_position : Follows position c (byteLength c.consumed) c := fun _ => rfl

theorem follows_turns : Follows turns c (c.input.length + 1) c := fun _ => rfl

/-- `fromPlace` finds the text from an earlier place on, since the place lies between two
characters. -/
theorem follows_fromPlace {x y : List Char} (h : c.input = x ++ y) :
    Follows (fromPlace (byteLength x)) c y c := by
  intro fallbacks
  have hcut : textFrom? (State.at c fallbacks).source (byteLength x) = some y := by
    show textFrom? c.input _ = _
    rw [h, textFrom?_append]
  rw [fromPlace, cutOut, hcut]

/-- `between` finds the text between two places that have been passed. -/
theorem follows_between {x y z : List Char} (h : c.input = x ++ y ++ z) :
    Follows (between (byteLength x) (byteLength (x ++ y))) c y c := by
  intro fallbacks
  have hcut : textBetween? (State.at c fallbacks).source (byteLength x) (byteLength (x ++ y))
      = some y := by
    show textBetween? c.input _ _ = _
    rw [h, textBetween?_append]
  rw [between, cutOut, hcut]

/-- `rest` is what the cursor has left. -/
theorem follows_rest : Follows rest c c.rest c :=
  (follows_position c).bind (follows_fromPlace c rfl)

/-- `isAtEnd` holds exactly if the cursor has nothing left, since every character has bytes. -/
theorem follows_isAtEnd : Follows isAtEnd c c.isAtEnd c := by
  intro fallbacks
  show some (decide (byteLength c.input ≤ byteLength c.consumed), _) = _
  -- only the empty text has no bytes
  have hend : byteLength c.input ≤ byteLength c.consumed ↔ c.rest = [] := by
    rw [← c.consumed_append_rest, byteLength_append, ← byteLength_eq_zero_iff]
    omega
  have hempty : decide (byteLength c.input ≤ byteLength c.consumed) = c.isAtEnd := by
    rw [Cursor.isAtEnd, Bool.eq_iff_iff, decide_eq_true_iff, hend, List.isEmpty_iff]
  rw [hempty]

theorem follows_peek? : Follows peek? c c.peek? c :=
  (follows_rest c).bind (.pure _ c)

/-- `advance` by the number of bytes of a text passes over it, which is the move behind it. -/
theorem follows_advance {t r : List Char} (h : c.rest = t ++ r) :
    Follows (advance (byteLength t)) c () (c.moveTo r) := by
  intro fallbacks
  have hsuffix : r <:+ c.rest := h ▸ List.suffix_append t r
  show some ((), State.mk c.input (byteLength c.consumed + byteLength t) fallbacks)
    = some ((), State.mk (c.moveTo r).input (byteLength (c.moveTo r).consumed) fallbacks)
  rw [Cursor.input_moveTo hsuffix, Cursor.consumed_moveTo h, byteLength_append]

/-- `next` follows the cursor, because the place moves by the bytes of the character that is
taken. -/
theorem follows_next : Follows next c c.next.1 c.next.2 := by
  refine (follows_peek? c).bind ?_
  obtain ⟨before, rest⟩ := c
  cases rest with
  | nil => exact .pure none _
  | cons x s =>
    have hadvance := follows_advance ⟨before, x :: s⟩ (t := [x]) (r := s) rfl
    rw [byteLength_cons, byteLength_nil, Nat.add_zero] at hadvance
    exact hadvance.bind (.pure (some x) _)

/-- What a routine passes over is the text `between` the places before and behind it. -/
theorem follows_passed {α : Type} {m : Routine α} {v : α} {t r : List Char} (h : c.rest = t ++ r)
    (hm : Follows m c v (c.moveTo r)) :
    Follows (do
      let start ← position
      let _ ← m
      let stop ← position
      between start stop) c t (c.moveTo r) := by
  have hconsumed := Cursor.consumed_moveTo h
  have hinput : (c.moveTo r).input = c.consumed ++ t ++ r := by
    rw [← Cursor.consumed_append_rest, hconsumed]
    rfl
  refine (follows_position c).bind (hm.bind ((follows_position _).bind ?_))
  rw [hconsumed]
  exact follows_between _ hinput

/-- `nextText` follows the cursor. -/
theorem follows_nextText : Follows nextText c c.nextText.1 c.nextText.2 := by
  have hnext : c.next.2 = c.moveTo (c.rest.drop 1) := by
    obtain ⟨before, rest⟩ := c
    cases rest with
    | nil => exact (Cursor.moveTo_rest _).symm
    | cons x s => rfl
  have hsplit : c.rest = c.rest.take 1 ++ c.rest.drop 1 := (List.take_append_drop 1 c.rest).symm
  exact follows_passed c hsplit ((follows_next c).congr rfl hnext)

theorem follows_startsWith (text : List Char) :
    Follows (startsWith text) c (c.startsWith text) c :=
  (follows_rest c).bind (.pure _ c)

theorem follows_atCommand (name : List Char) : Follows (atCommand name) c (c.atCommand name) c :=
  (follows_rest c).bind (.pure _ c)

/-- `eatText` follows the cursor, whether the text is there or not.  If it is, the place moves by
its bytes (`follows_advance`). -/
theorem follows_eatText (text : List Char) :
    Follows (eatText text) c (c.eatText text).1 (c.eatText text).2 := by
  refine (follows_startsWith c text).bind ?_
  cases hstarts : c.startsWith text with
  | true =>
    obtain ⟨r, hr⟩ := List.isPrefixOf_iff_prefix.mp hstarts
    have hdrop : c.rest.drop text.length = r := by rw [← hr, List.drop_left]
    rw [Cursor.eatText, if_pos hstarts, hdrop]
    exact (follows_advance c hr.symm).bind (.pure true _)
  | false =>
    have hne : ¬c.startsWith text = true := by simp [hstarts]
    rw [Cursor.eatText, if_neg hne]
    exact .pure false c

/-- `eat` follows the cursor.  It looks at the next character where the cursor looks for a text of
one character. -/
theorem follows_eat (x : Char) : Follows (eat x) c (c.eat x).1 (c.eat x).2 := by
  refine (follows_peek? c).bind ?_
  have hstarts : c.startsWith [x] = true ↔ c.peek? = some x := by
    rw [Cursor.startsWith, List.isPrefixOf_iff_prefix, Cursor.peek?, List.head?_eq_some_iff]
    exact ⟨fun ⟨r, hr⟩ => ⟨r, hr.symm⟩, fun ⟨r, hr⟩ => ⟨r, hr.symm⟩⟩
  -- both sides agree on whether the character is there
  by_cases hpeek : c.peek? = some x
  · obtain ⟨r, hr⟩ := List.head?_eq_some_iff.mp hpeek
    have hadvance := follows_advance c (t := [x]) hr
    rw [byteLength_cons, byteLength_nil, Nat.add_zero] at hadvance
    have hdrop : c.rest.drop 1 = r := by rw [hr]; rfl
    rw [if_pos hpeek, Cursor.eat, Cursor.eatText, if_pos (hstarts.mpr hpeek)]
    show Follows _ c true (c.moveTo (c.rest.drop 1))
    rw [hdrop]
    exact hadvance.bind (.pure true _)
  · rw [if_neg hpeek, Cursor.eat, Cursor.eatText, if_neg (mt hstarts.mp hpeek)]
    exact .pure false c

/-- **The loop `skipWhile` ends behind the characters of the kind.** Each turn passes over one
character, so there are not more turns than characters.  Induction on the turns. -/
theorem follows_skipWhile (p : Char → Bool) {turns : Nat} (hturns : c.rest.length < turns) :
    Follows (skipWhile p turns) c () (c.moveTo (c.rest.dropWhile p)) := by
  induction turns generalizing c with
  -- without a turn nothing could be left
  | zero => omega
  | succ turns ih =>
    refine (follows_peek? c).bind ?_
    obtain ⟨before, rest⟩ := c
    cases rest with
    | nil => exact (Follows.pure () _).congr rfl (Cursor.moveTo_rest _).symm
    | cons x s =>
      show Follows (if p x = true then _ else _) _ _ _
      cases hx : p x with
      | true =>
        have hnext : (Cursor.mk before (x :: s)).moveTo s = ⟨x :: before, s⟩ :=
          Cursor.moveTo_append before [x] s
        have hrest := ih ⟨x :: before, s⟩ (Nat.lt_of_succ_lt_succ hturns)
        rw [List.dropWhile_cons_of_pos hx, Cursor.moveTo_cons before x (List.dropWhile_suffix p)]
        exact ((follows_next ⟨before, x :: s⟩).congr rfl hnext).bind hrest
      | false =>
        rw [List.dropWhile_cons_of_neg (by simp [hx])]
        exact (Follows.pure () _).congr rfl (Cursor.moveTo_rest _).symm

/-- What is left has fewer characters than there are `turns`. -/
theorem length_rest_lt : c.rest.length < c.input.length + 1 := by
  rw [← c.consumed_append_rest, List.length_append]
  omega

theorem follows_skipRun (p : Char → Bool) :
    Follows (skipRun p) c () (c.moveTo (c.rest.dropWhile p)) :=
  (follows_turns c).bind (follows_skipWhile c p (length_rest_lt c))

theorem follows_skipBlank : Follows skipBlank c () c.skipBlank := follows_skipRun c isBlank

theorem follows_readRun (p : Char → Bool) :
    Follows (readRun p) c (c.rest.takeWhile p) (c.moveTo (c.rest.dropWhile p)) :=
  follows_passed c List.takeWhile_append_dropWhile.symm (follows_skipRun c p)

/-- A character that is next is passed over. -/
theorem follows_eat_self (before : List Char) (x : Char) (s : List Char) :
    Follows (eat x) ⟨before, x :: s⟩ true ⟨x :: before, s⟩ := by
  have heat : (Cursor.mk before (x :: s)).eat x = (true, ⟨x :: before, s⟩) := by
    simp [Cursor.eat, Cursor.eatText, Cursor.startsWith, List.isPrefixOf, Cursor.moveTo]
  have h := follows_eat ⟨before, x :: s⟩ x
  rw [heat] at h
  exact h

/-- Where another character is next, or none, nothing is passed over. -/
theorem follows_eat_of_ne {x : Char} (h : ∀ t, c.rest ≠ x :: t) : Follows (eat x) c false c := by
  have hstarts : ¬c.startsWith [x] = true := by
    rw [Cursor.startsWith, List.isPrefixOf_iff_prefix]
    rintro ⟨t, ht⟩
    exact h t ht.symm
  have heat := follows_eat c x
  rw [Cursor.eat, Cursor.eatText, if_neg hstarts] at heat
  exact heat

/-- `readCommand` follows the cursor, with and without a backslash.  Behind it there is a run of
letters, another character, or nothing. -/
theorem follows_readCommand : Follows readCommand c c.readCommand.1 c.readCommand.2 := by
  obtain ⟨before, rest⟩ := c
  by_cases hslash : ∃ t, rest = '\\' :: t
  · obtain ⟨t, rfl⟩ := hslash
    refine (follows_eat_self before '\\' t).bind (Follows.bind (follows_peek? _) ?_)
    show Follows (if t.head?.any Char.isAlpha = true then _ else _) _
      (Source.readCommand ('\\' :: t)).1
      ((Cursor.mk before ('\\' :: t)).moveTo (Source.readCommand ('\\' :: t)).2)
    -- the name is a run of letters, a single character, or nothing at the end
    cases t with
    | nil => exact follows_nextText ⟨'\\' :: before, []⟩
    | cons x u =>
      cases hx : x.isAlpha with
      | true =>
        have hrun := follows_readRun ⟨'\\' :: before, x :: u⟩ Char.isAlpha
        have hsuffix : u.dropWhile Char.isAlpha <:+ x :: u :=
          (List.dropWhile_suffix _).trans (List.suffix_cons x u)
        rw [List.takeWhile_cons_of_pos hx, List.dropWhile_cons_of_pos hx] at hrun
        rw [readCommand_run hx, Cursor.moveTo_cons before '\\' hsuffix]
        simpa only [List.head?_cons, Option.any_some, hx, if_true] using hrun
      | false =>
        have htext : Follows nextText ⟨'\\' :: before, x :: u⟩ [x]
            ((Cursor.mk ('\\' :: before) (x :: u)).moveTo u) := follows_nextText _
        rw [readCommand_single hx, Cursor.moveTo_cons before '\\' (List.suffix_cons x u)]
        simpa only [List.head?_cons, Option.any_some, hx, Bool.false_eq_true, if_false] using htext
  · -- without a backslash nothing is read
    have hnone : Source.readCommand rest = ([], rest) := by
      unfold Source.readCommand
      split
      · exact absurd ⟨_, rfl⟩ hslash
      · exact absurd ⟨_, rfl⟩ hslash
      · rfl
    have hcursor : (Cursor.mk before rest).readCommand = ([], ⟨before, rest⟩) := by
      rw [Cursor.readCommand, hnone]
      exact congrArg _ (Cursor.moveTo_rest _)
    rw [hcursor]
    exact (follows_eat_of_ne _ fun t ht => hslash ⟨t, ht⟩).bind (.pure [] _)

/-- The brace that closes a group is not part of its text. -/
theorem follows_upToBrace {start : Nat} {front read : List Char} (hstart : start = byteLength front)
    (hread : c.consumed = front ++ (read ++ ['}'])) :
    Follows (do
      let stop ← position
      between start (stop - 1)) c read c := by
  have hinput : c.input = front ++ read ++ '}' :: c.rest := by
    rw [← c.consumed_append_rest, hread]
    simp
  have hstop : byteLength c.consumed - 1 = byteLength (front ++ read) := by
    have hbrace : '}'.utf8Size = 1 := by decide
    rw [hread, ← List.append_assoc, byteLength_append (front ++ read), byteLength_cons, hbrace,
      byteLength_nil]
    omega
  have htext := follows_between c hinput
  rw [← hstop, ← hstart] at htext
  exact (follows_position c).bind htext

/-- **The loop reads a group up to its end.** Since the group has begun, `read` has been passed
over.  Induction on what is left: each turn passes over one character, and the depth follows its
braces. -/
theorem follows_groupLoop {start : Nat} {front read : List Char} {turns depth : Nat}
    (hstart : start = byteLength front) (hread : c.consumed = front ++ read)
    (hturns : c.rest.length < turns) :
    Follows (groupLoop start turns (depth + 1)) c (read ++ (groupText depth c.rest).1)
      (c.moveTo (groupText depth c.rest).2) := by
  obtain ⟨before, rest⟩ := c
  induction rest generalizing before read turns depth with
  | nil =>
    -- at the end of the source the text goes from the start of the group to the end
    obtain ⟨turns, rfl⟩ : ∃ n, turns = n + 1 := ⟨turns - 1, by simp at hturns; omega⟩
    have hinput : (Cursor.mk before []).input = front ++ read := by
      rw [← Cursor.consumed_append_rest, hread]
      exact List.append_nil _
    have hall := follows_fromPlace (Cursor.mk before []) hinput
    rw [← hstart] at hall
    refine (follows_next _).bind (hall.congr ?_ (Cursor.moveTo_rest _).symm)
    simp [groupText]
  | cons x s ih =>
    obtain ⟨turns, rfl⟩ : ∃ n, turns = n + 1 := ⟨turns - 1, by simp at hturns; omega⟩
    have hturns' : s.length < turns := Nat.lt_of_succ_lt_succ hturns
    have hread' : (Cursor.mk (x :: before) s).consumed = front ++ (read ++ [x]) := by
      rw [← List.append_assoc, ← hread]
      simp [Cursor.consumed]
    have hnext : Follows next ⟨before, x :: s⟩ (some x) ⟨x :: before, s⟩ :=
      (follows_next ⟨before, x :: s⟩).congr rfl (Cursor.moveTo_append before [x] s)
    -- behind any character that does not close the group, the loop goes on
    have hgoes : ∀ depth, Follows (groupLoop start turns (depth + 1)) ⟨x :: before, s⟩
        (read ++ x :: (groupText depth s).1)
        ((Cursor.mk before (x :: s)).moveTo (groupText depth s).2) := fun depth => by
      have hinner : Follows (groupLoop start turns (depth + 1)) ⟨x :: before, s⟩ _ _ :=
        ih (x :: before) hread' hturns'
      rw [Cursor.moveTo_cons before x (groupText_suffix depth s)]
      exact hinner.congr (List.append_assoc _ _ _) rfl
    refine hnext.bind ?_
    show Follows (if x = '{' then _ else _) _ _ _
    rw [groupText.eq_def]
    by_cases hopen : x = '{'
    · simpa only [hopen, if_true] using hgoes (depth + 1)
    by_cases hclose : x = '}'
    · subst hclose
      cases depth with
      | zero =>
        have hmoved := Cursor.moveTo_append before ['}'] s
        exact (follows_upToBrace _ hstart hread').congr (List.append_nil _).symm hmoved.symm
      | succ depth =>
        simp only [hopen, if_false, if_true]
        exact hgoes depth
    · simp only [hopen, hclose, if_false]
      exact hgoes depth

/-- `readGroup` follows the cursor: it skips blanks, takes the brace, and then the loop goes up to
the end of the group. -/
theorem follows_readGroup : Follows readGroup c c.readGroup.1 c.readGroup.2 := by
  refine (follows_skipBlank c).bind ?_
  have hblanks := skipBlank_suffix c.rest
  by_cases hopen : ∃ t, Text.skipBlank c.rest = '{' :: t
  · obtain ⟨t, ht⟩ := hopen
    have hgroup : Source.readGroup c.rest = groupText 0 t := readGroup_of_brace ht
    have hgroupSuffix := groupText_suffix 0 t
    obtain ⟨before, hblank⟩ : ∃ before, c.moveTo ('{' :: t) = ⟨before, '{' :: t⟩ := ⟨_, rfl⟩
    -- behind the blanks comes the brace, and behind that the group
    have hend : c.moveTo (groupText 0 t).2
        = (Cursor.mk ('{' :: before) t).moveTo (groupText 0 t).2 := by
      rw [← Cursor.moveTo_cons before '{' hgroupSuffix, ← hblank]
      exact (Cursor.moveTo_moveTo (ht ▸ hblanks)
        (hgroupSuffix.trans (List.suffix_cons '{' t))).symm
    rw [Cursor.skipBlank, ht, hblank, Cursor.readGroup, hgroup]
    show Follows _ _ (groupText 0 t).1 (c.moveTo (groupText 0 t).2)
    rw [hend]
    refine (follows_eat_self before '{' t).bind
      (Follows.bind (follows_position _) (Follows.bind (follows_turns _) ?_))
    exact follows_groupLoop _ rfl (List.append_nil _).symm (length_rest_lt _)
  · -- without a brace the blanks are gone and nothing else
    have hgroup : Source.readGroup c.rest = ([], Text.skipBlank c.rest) :=
      readGroup_of_no_brace fun t ht => hopen ⟨t, ht⟩
    have hcursor : c.readGroup = ([], c.skipBlank) := by rw [Cursor.readGroup, hgroup]; rfl
    rw [hcursor]
    exact (follows_eat_of_ne _ fun t ht => hopen ⟨t, ht⟩).bind (.pure [] _)

/-- `takeRest` follows the cursor to the end. -/
theorem follows_takeRest : Follows takeRest c c.takeRest.1 c.takeRest.2 := by
  refine (follows_rest c).bind ?_
  intro fallbacks
  have hconsumed : (c.moveTo []).consumed = c.input :=
    Cursor.consumed_moveTo (List.append_nil c.rest).symm
  show some (c.rest, State.mk c.input (byteLength c.input) fallbacks)
    = some (c.rest, State.mk (c.moveTo []).input (byteLength (c.moveTo []).consumed) fallbacks)
  rw [hconsumed, Cursor.input_moveTo List.nil_suffix]

end Operations

end ByteCursor

end FormulaMarkup.Source
