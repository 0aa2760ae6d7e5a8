import FormulaMarkup.Proofs.Source.ByteCursor

/-!
# FormulaMarkup — sequences of operations

Whoever reads a source performs one operation of a cursor after another, and may keep checkpoints
and come back to them in any order.  This module follows such a sequence on a cursor and on a number
of bytes side by side.

What one operation does on both sides is `perform_of`, with one case for each operation; what a
sequence does follows by induction.  Since the cursor cannot be anywhere but between two characters,
neither can the number of bytes.

* **`Operation`**, **`Answer`** — what can be done with a cursor, and what comes back.
* **`Session`** — a cursor with the checkpoints that have been saved.
* **`ByteCursor.Session`** — a number of bytes with the numbers that have been saved.
* **`Operation.Keeps`** — how the answer tells what has been consumed.
* **`ByteCursor.Session.perform_of`** — the same is done on both sides.
* **`ByteCursor.Session.places_stay_valid`** — after any sequence the place is between two
  characters, and the next operation finds and leaves what it should.
-/

namespace FormulaMarkup.Source

open Text

/-- What can be done with a `Cursor`.  Checkpoints are numbered in the order in which they are
saved. -/
inductive Operation where
  | isAtEnd
  | peek
  | next
  | nextText
  | startsWith (text : List Char)
  | eat (x : Char)
  | eatText (text : List Char)
  | atCommand (name : List Char)
  | skipBlank
  | readCommand
  | readGroup
  | takeRest
  | save
  | restore (number : Nat)
  | since (number : Nat)

/-- What comes back from an operation: nothing, whether something holds, a character or a text. -/
inductive Answer where
  | done
  | truth (holds : Bool)
  | character (x? : Option Char)
  | text (t : List Char)

namespace Operation

/-- Whether the operation is `restore`, the only one that can go back. -/
def isRestore : Operation → Bool
  | .restore _ => true
  | _ => false

/-- What is left before and after an operation, as far as its answer tells it.  An operation that
looks leaves it alone; one that returns a text, or finds the text that it was given, consumes
exactly that text. -/
def Keeps (operation : Operation) (answer : Answer) (left left' : List Char) : Prop :=
  match operation, answer with
  | .isAtEnd, _ | .peek, _ | .startsWith _, _ | .atCommand _, _ | .save, _ | .since _, _ =>
    left' = left
  | .next, .character x? => left = x?.toList ++ left'
  | .nextText, .text t | .takeRest, .text t => left = t ++ left'
  | .eat x, .truth found => left = (if found then [x] else []) ++ left'
  | .eatText t, .truth found => left = (if found then t else []) ++ left'
  | .skipBlank, .done | .readCommand, .text _ | .readGroup, .text _ => left' <:+ left
  | .restore _, .done => True
  | _, _ => False

end Operation

/-! ## On a cursor

All operations but one move forward in the same source, by an amount that their answers tell.  Only
`restore` may go back, and it goes to a place at which the cursor has been. -/

namespace Cursor

/-- The second cursor is behind the first one or where it is, in the same source. -/
def Forward (c c' : Cursor) : Prop := ∃ r, r <:+ c.rest ∧ c' = c.moveTo r

namespace Forward

variable {c c' : Cursor}

theorem refl (c : Cursor) : c.Forward c := ⟨c.rest, List.suffix_refl _, c.moveTo_rest.symm⟩

theorem suffix (h : c.Forward c') : c'.rest <:+ c.rest := by
  obtain ⟨r, hr, rfl⟩ := h
  exact hr

theorem input_eq (h : c.Forward c') : c'.input = c.input := by
  obtain ⟨r, hr, rfl⟩ := h
  exact Cursor.input_moveTo hr

end Forward

variable (c : Cursor)

theorem forward_moveTo {r : List Char} (h : r <:+ c.rest) : c.Forward (c.moveTo r) := ⟨r, h, rfl⟩

/-- `next` moves `Forward`. -/
theorem forward_next : c.Forward c.next.2 := by
  obtain ⟨before, rest⟩ := c
  cases rest with
  | nil => exact .refl _
  | cons x s => exact forward_moveTo _ (List.suffix_cons x s)

theorem forward_nextText : c.Forward c.nextText.2 := forward_moveTo c (List.drop_suffix 1 c.rest)

/-- `eatText` passes over the text that it looks for, or the cursor stays. -/
theorem forward_eatText (text : List Char) : c.Forward (c.eatText text).2 := by
  unfold eatText
  split
  · exact forward_moveTo c (List.drop_suffix _ c.rest)
  · exact .refl c

theorem forward_skipBlank : c.Forward c.skipBlank := forward_moveTo c (skipBlank_suffix c.rest)

theorem forward_readCommand : c.Forward c.readCommand.2 :=
  forward_moveTo c (readCommand_suffix c.rest)

theorem forward_readGroup : c.Forward c.readGroup.2 := forward_moveTo c (readGroup_suffix c.rest)

theorem forward_takeRest : c.Forward c.takeRest.2 := forward_moveTo c List.nil_suffix

/-- If `eatText` finds its text, this text is consumed, and no other. -/
theorem rest_eatText (text : List Char) :
    c.rest = (if (c.eatText text).1 then text else []) ++ (c.eatText text).2.rest := by
  unfold eatText
  split
  next hstarts =>
    obtain ⟨r, hr⟩ := List.isPrefixOf_iff_prefix.mp hstarts
    show c.rest = text ++ c.rest.drop text.length
    rw [← hr, List.drop_left]
  next => rfl

/-- **A checkpoint lies behind the cursor, and the text since then leads up to it, or it lies
ahead**, and then the text since is empty although there is a text `t` in between. -/
theorem since_cases (p : Checkpoint) :
    c.input.take p.position ++ c.since p = c.consumed ∨
      c.since p = [] ∧ ∃ t, t ≠ [] ∧ c.input.take p.position = c.consumed ++ t := by
  have hconsumed : c.input.take c.position = c.consumed := by
    simp [input, position, consumed]
  have hsince : c.since p = c.consumed.drop p.position := by rw [since, hconsumed]
  have hlength : c.consumed.length = c.position := by simp [consumed, position]
  by_cases hle : p.position ≤ c.position
  · have hfront : c.input.take p.position = c.consumed.take p.position := by
      rw [← hconsumed, List.take_take, Nat.min_eq_left hle]
    rw [hfront, hsince, List.take_append_drop]
    exact .inl rfl
  · have hnil : c.since p = [] := by rw [hsince, List.drop_eq_nil_iff]; omega
    have hfront :
        c.input.take p.position = c.consumed ++ c.rest.take (p.position - c.position) := by
      rw [← consumed_append_rest, List.take_append, hlength, List.take_of_length_le (by omega)]
    -- at the end of the source a checkpoint ahead is where the cursor is
    cases hahead : c.rest.take (p.position - c.position) with
    | nil => exact .inl (by rw [hfront, hahead, hnil]; simp)
    | cons x t => exact .inr ⟨hnil, x :: t, List.cons_ne_nil x t, by rw [hfront, hahead]⟩

/-- Coming back to a `Checkpoint` stays in the same source. -/
theorem input_restore (p : Checkpoint) : (c.restore p).input = c.input := by
  simp [restore, input]

end Cursor

/-- A cursor with the checkpoints that have been saved, the first one first. -/
structure Session where
  cursor : Cursor
  saved : List Checkpoint

namespace Session

/-- A session begins at the start of the source, without checkpoints. -/
def start (source : List Char) : Session := ⟨.start source, []⟩

/-- The answer, and the session with the cursor where it is now. -/
def moved (s : Session) (answer : Answer) (cursor : Cursor) : Answer × Session :=
  (answer, { s with cursor })

/-- What an operation answers, and the session behind it.  A checkpoint that has not been saved
cannot be used: nothing happens. -/
def perform (s : Session) : Operation → Answer × Session
  | .isAtEnd => s.moved (.truth s.cursor.isAtEnd) s.cursor
  | .peek => s.moved (.character s.cursor.peek?) s.cursor
  | .next => s.moved (.character s.cursor.next.1) s.cursor.next.2
  | .nextText => s.moved (.text s.cursor.nextText.1) s.cursor.nextText.2
  | .startsWith text => s.moved (.truth (s.cursor.startsWith text)) s.cursor
  | .eat x => s.moved (.truth (s.cursor.eat x).1) (s.cursor.eat x).2
  | .eatText text => s.moved (.truth (s.cursor.eatText text).1) (s.cursor.eatText text).2
  | .atCommand name => s.moved (.truth (s.cursor.atCommand name)) s.cursor
  | .skipBlank => s.moved .done s.cursor.skipBlank
  | .readCommand => s.moved (.text s.cursor.readCommand.1) s.cursor.readCommand.2
  | .readGroup => s.moved (.text s.cursor.readGroup.1) s.cursor.readGroup.2
  | .takeRest => s.moved (.text s.cursor.takeRest.1) s.cursor.takeRest.2
  | .save => (.done, { s with saved := s.saved ++ [s.cursor.save] })
  | .restore number =>
    match s.saved[number]? with
    | some p => s.moved .done (s.cursor.restore p)
    | none => (.done, s)
  | .since number =>
    match s.saved[number]? with
    | some p => s.moved (.text (s.cursor.since p)) s.cursor
    | none => (.text [], s)

/-- The session behind a sequence of operations. -/
def after (s : Session) (operations : List Operation) : Session :=
  operations.foldl (fun s o => (s.perform o).2) s

variable (s : Session)

/-- Asking for the text since a checkpoint changes nothing. -/
theorem perform_since (number : Nat) : (s.perform (.since number)).2 = s := by
  cases hsaved : s.saved[number]? <;> simp only [perform, hsaved, moved]

/-- A checkpoint is used or, if there is none of this number, nothing happens. -/
theorem perform_restore (number : Nat) :
    s.perform (.restore number) = (.done, s) ∨
      ∃ p, s.saved[number]? = some p ∧
        s.perform (.restore number) = (.done, ⟨s.cursor.restore p, s.saved⟩) := by
  cases hsaved : s.saved[number]? with
  | none => exact .inl (by simp only [perform, hsaved])
  | some p => exact .inr ⟨p, rfl, by simp only [perform, hsaved, moved]⟩

/-- **Only `restore` goes back.** One case for each operation; the ones that look do not move. -/
theorem forward_perform {o : Operation} (ho : o.isRestore = false) :
    s.cursor.Forward (s.perform o).2.cursor := by
  cases o with
  | isAtEnd | peek | startsWith _ | atCommand _ | save => exact .refl _
  | next => exact s.cursor.forward_next
  | nextText => exact s.cursor.forward_nextText
  | eat x => exact s.cursor.forward_eatText [x]
  | eatText text => exact s.cursor.forward_eatText text
  | skipBlank => exact s.cursor.forward_skipBlank
  | readCommand => exact s.cursor.forward_readCommand
  | readGroup => exact s.cursor.forward_readGroup
  | takeRest => exact s.cursor.forward_takeRest
  | restore number => cases ho
  | since number =>
    rw [perform_since]
    exact .refl _

/-- No operation leaves the source. -/
theorem input_perform (o : Operation) : (s.perform o).2.cursor.input = s.cursor.input := by
  cases ho : o.isRestore with
  | false => exact (s.forward_perform ho).input_eq
  | true =>
    cases o with
    | restore number =>
      rcases s.perform_restore number with h | ⟨p, -, h⟩ <;> rw [h]
      exact s.cursor.input_restore p
    | _ => cases ho

/-- **The answer of an operation tells what it consumed** (`Keeps`).  One case for each operation,
by what the cursor does. -/
theorem keeps_perform (o : Operation) :
    o.Keeps (s.perform o).1 s.cursor.rest (s.perform o).2.cursor.rest := by
  cases o with
  | isAtEnd | peek | startsWith _ | atCommand _ | save => rfl
  | next =>
    obtain ⟨⟨before, rest⟩, saved⟩ := s
    cases rest <;> rfl
  | nextText => exact (List.take_append_drop 1 s.cursor.rest).symm
  | eat x => exact s.cursor.rest_eatText [x]
  | eatText text => exact s.cursor.rest_eatText text
  | skipBlank => exact s.cursor.forward_skipBlank.suffix
  | readCommand => exact s.cursor.forward_readCommand.suffix
  | readGroup => exact s.cursor.forward_readGroup.suffix
  | takeRest => exact (List.append_nil s.cursor.rest).symm
  | restore number => rcases s.perform_restore number with h | ⟨p, -, h⟩ <;> rw [h] <;> trivial
  | since number =>
    rw [perform_since]
    rfl

/-- `perform` never loses a checkpoint, so each keeps its number. -/
theorem saved_perform (o : Operation) : s.saved <+: (s.perform o).2.saved := by
  cases o with
  | save => exact List.prefix_append _ _
  | restore number => rcases s.perform_restore number with h | ⟨p, -, h⟩ <;> rw [h]
  | since number => rw [perform_since]
  | _ => exact List.prefix_refl _

/-- A sequence of operations stays in the same source. -/
theorem input_after (operations : List Operation) :
    (s.after operations).cursor.input = s.cursor.input := by
  induction operations generalizing s with
  | nil => rfl
  | cons o operations ih => exact (ih _).trans (s.input_perform o)

/-- A sequence of operations loses no checkpoint. -/
theorem saved_after (operations : List Operation) : s.saved <+: (s.after operations).saved := by
  induction operations generalizing s with
  | nil => exact List.prefix_refl _
  | cons o operations ih => exact (s.saved_perform o).trans (ih _)

/-- A sequence of operations can be performed in two parts, as `after` is a loop over it. -/
theorem after_append (xs ys : List Operation) : s.after (xs ++ ys) = (s.after xs).after ys :=
  List.foldl_append

/-- **Coming back to a checkpoint.**  Whatever was done since it was saved, the cursor is the same
as then: the checkpoint is still the one of that number, and the source is the same. -/
theorem restore_after_save (operations : List Operation) :
    (s.after (.save :: operations ++ [.restore s.saved.length])).cursor = s.cursor := by
  have hsaved : (s.saved ++ [s.cursor.save]) <+: (s.after (.save :: operations)).saved :=
    saved_after (s.perform .save).2 operations
  obtain ⟨later, hlater⟩ := hsaved
  have hnumber : (s.after (.save :: operations)).saved[s.saved.length]? = some s.cursor.save := by
    simp [← hlater]
  have hinput := s.input_after (.save :: operations)
  -- the last operation alone, the checkpoint being still at its number
  rw [after_append]
  calc ((s.after (.save :: operations)).perform (.restore s.saved.length)).2.cursor
      = (s.after (.save :: operations)).cursor.restore s.cursor.save := by
        simp only [perform, hnumber, moved]
    _ = s.cursor.restore s.cursor.save := by rw [Cursor.restore, hinput, Cursor.restore]
    _ = s.cursor := s.cursor.restore_save

end Session

/-! ## On a number of bytes

The same operations on a number of bytes can fail, and they can answer with an empty text where one
could not be cut out.  `Session.of` puts a number of bytes beside a cursor, and `perform_of` says
that the two stay side by side. -/

namespace ByteCursor

/-- `moveTo` the length of a front part is moving to what stands behind it. -/
theorem follows_moveTo {c : Cursor} {x y : List Char} (h : c.input = x ++ y) :
    Follows (moveTo (byteLength x)) c () ⟨x.reverse, y⟩ := by
  intro fallbacks
  have hinput : (Cursor.mk x.reverse y).input = c.input := by
    rw [h, Cursor.input, List.reverse_reverse]
  have hconsumed : (Cursor.mk x.reverse y).consumed = x := List.reverse_reverse x
  show some ((), State.mk c.input (byteLength x) fallbacks) = some ((), .at _ fallbacks)
  rw [State.at, hinput, hconsumed]

/-- What is left of the source; nothing if the place is not between two of its characters. -/
def State.left? (st : State) : Option (List Char) :=
  (splitAtByte? st.position st.source).map Prod.snd

/-- A `State` with the places that have been saved, the first one first. -/
structure Session where
  state : State
  saved : List Nat

namespace Session

/-- A session begins in front of the first byte. -/
def start (source : List Char) : Session := ⟨⟨source, 0, 0⟩, []⟩

/-- Lets a `Routine` go through the state, beside the saved places. -/
def through {α : Type} (s : Session) (m : Routine α) (answer : α → Answer) :
    Option (Answer × Session) :=
  (m s.state).map fun r => (answer r.1, { s with state := r.2 })

/-- What an operation answers and the session behind it; nothing if a slice or a loop fails. -/
def perform (s : Session) : Operation → Option (Answer × Session)
  | .isAtEnd => s.through isAtEnd .truth
  | .peek => s.through peek? .character
  | .next => s.through next .character
  | .nextText => s.through nextText .text
  | .startsWith text => s.through (startsWith text) .truth
  | .eat x => s.through (eat x) .truth
  | .eatText text => s.through (eatText text) .truth
  | .atCommand name => s.through (atCommand name) .truth
  | .skipBlank => s.through skipBlank fun _ => .done
  | .readCommand => s.through readCommand .text
  | .readGroup => s.through readGroup .text
  | .takeRest => s.through takeRest .text
  | .save => some (.done, { s with saved := s.saved ++ [s.state.position] })
  | .restore number =>
    match s.saved[number]? with
    | some place => s.through (moveTo place) fun _ => .done
    | none => some (.done, s)
  | .since number =>
    match s.saved[number]? with
    | some place => s.through (between place s.state.position) .text
    | none => some (.text [], s)

/-- The session behind a sequence of operations; nothing if one of them fails. -/
def after (s : Session) (operations : List Operation) : Option Session :=
  operations.foldlM (fun s o => (s.perform o).map Prod.snd) s

/-- Whether the text since a checkpoint is asked for that lies ahead of the place. -/
def looksAhead (s : Session) : Operation → Bool
  | .since number => s.saved[number]?.any fun place => decide (s.state.position < place)
  | _ => false

/-- What comes back from an operation; nothing if it fails. -/
def answer? (s : Session) (o : Operation) : Option Answer := (s.perform o).map Prod.fst

/-- The operation gives this answer and leaves what it should (`Keeps`).  The empty text stands for
another only where the text since a checkpoint ahead is asked for, and is then the answer. -/
structure Performs (s : Session) (o : Operation) (answer : Answer) (s' : Session) : Prop where
  perform_eq : s.perform o = some (answer, s')
  left : ∃ left left', s.state.left? = some left ∧ s'.state.left? = some left' ∧
    o.Keeps answer left left' ∧ (o.isRestore = false → left' <:+ left)
  fallbacks : s'.state.fallbacks = s.state.fallbacks + if s.looksAhead o then 1 else 0
  ahead : s.looksAhead o = true → answer = .text []

end Session

/-- The number of bytes in front of a checkpoint. -/
def placeIn (source : List Char) (p : Checkpoint) : Nat := byteLength (source.take p.position)

/-- The numbers of bytes for a cursor and its checkpoints. -/
def Session.of (s : Source.Session) (fallbacks : Nat) : Session :=
  ⟨.at s.cursor fallbacks, s.saved.map (placeIn s.cursor.input)⟩

namespace Session

theorem position_of (s : Source.Session) (fallbacks : Nat) :
    (of s fallbacks).state.position = byteLength s.cursor.consumed := rfl

theorem saved_of (s : Source.Session) (fallbacks number : Nat) :
    (of s fallbacks).saved[number]? = s.saved[number]?.map (placeIn s.cursor.input) :=
  List.getElem?_map

/-- A checkpoint lies ahead if more bytes are in front of it than in front of the cursor. -/
theorem looksAhead_of {s : Source.Session} {fallbacks number : Nat} {p : Checkpoint}
    (h : s.saved[number]? = some p) :
    (of s fallbacks).looksAhead (.since number)
      = decide (byteLength s.cursor.consumed < placeIn s.cursor.input p) := by
  rw [looksAhead, saved_of, h]
  rfl

/-- What `Follows` an operation of the cursor does so beside the saved places too. -/
theorem through_of_follows {α : Type} {m : Routine α} {c c' : Cursor} {v : α}
    (h : Follows m c v c') (hinput : c'.input = c.input) (answer : α → Answer)
    (saved : List Checkpoint) (fallbacks : Nat) :
    (of ⟨c, saved⟩ fallbacks).through m answer = some (answer v, of ⟨c', saved⟩ fallbacks) := by
  rw [through, of, h fallbacks, of, hinput]
  rfl

/-- The text since a checkpoint ahead is empty. -/
theorem since_of_lt {c : Cursor} {p : Checkpoint}
    (h : byteLength c.consumed < placeIn c.input p) : c.since p = [] := by
  rcases c.since_cases p with hbehind | ⟨hnil, -⟩
  · rw [← hbehind, byteLength_append, placeIn] at h
    omega
  · exact hnil

/-- The text since a checkpoint that does not lie ahead can be cut out of the source, so `between`
finds it. -/
theorem follows_since {c : Cursor} {p : Checkpoint}
    (h : ¬byteLength c.consumed < placeIn c.input p) :
    Follows (between (placeIn c.input p) (byteLength c.consumed)) c (c.since p) c := by
  rcases c.since_cases p with hbehind | ⟨-, t, ht, hahead⟩
  · have hinput : c.input = c.input.take p.position ++ c.since p ++ c.rest := by
      rw [hbehind, Cursor.consumed_append_rest]
    have hbetween := follows_between c hinput
    rwa [hbehind] at hbetween
  · refine absurd ?_ h
    have hpos := Nat.pos_of_ne_zero (mt byteLength_eq_zero_iff.mp ht)
    rw [placeIn, hahead, byteLength_append]
    omega

/-- Coming back is the same on both sides. -/
theorem perform_of_restore (s : Source.Session) (fallbacks number : Nat) :
    (of s fallbacks).perform (.restore number)
      = some ((s.perform (.restore number)).1, of (s.perform (.restore number)).2 fallbacks) := by
  obtain ⟨c, saved⟩ := s
  cases hsaved : saved[number]? with
  | none => simp [perform, Source.Session.perform, saved_of, hsaved]
  | some p =>
    simp only [perform, Source.Session.perform, saved_of, hsaved, Option.map_some]
    have hparts := (List.take_append_drop p.position c.input).symm
    exact through_of_follows (follows_moveTo hparts) (c.input_restore p) (fun _ => .done) saved
      fallbacks

/-- The text since a checkpoint is the same on both sides.  Only for a checkpoint ahead does the
empty text stand for another, and this is counted. -/
theorem perform_of_since (s : Source.Session) (fallbacks number : Nat) :
    (of s fallbacks).perform (.since number)
      = some ((s.perform (.since number)).1, of (s.perform (.since number)).2
          (fallbacks + if (of s fallbacks).looksAhead (.since number) then 1 else 0)) := by
  obtain ⟨c, saved⟩ := s
  cases hsaved : saved[number]? with
  | none => simp [perform, Source.Session.perform, saved_of, hsaved, looksAhead]
  | some p =>
    rw [looksAhead_of hsaved]
    simp only [perform, Source.Session.perform, saved_of, hsaved, Option.map_some, position_of]
    -- there is text to cut out unless the checkpoint lies ahead of the cursor
    by_cases hahead : byteLength c.consumed < placeIn c.input p
    · -- no text is cut out, and the empty text stands for it, which is counted
      have hnone : textBetween? c.input (placeIn c.input p) (byteLength c.consumed) = none :=
        textBetween?_of_lt c.input hahead
      rw [decide_eq_true hahead, through, of, between, cutOut, State.at, hnone,
        since_of_lt hahead]
      rfl
    · -- the text is cut out, and no other text stands for it
      rw [decide_eq_false hahead]
      exact through_of_follows (follows_since hahead) rfl .text saved fallbacks

/-- **The same is done on both sides**: the number of bytes gives the answer of the cursor and ends
in its place.  One case for each `Operation`, by the lemma that says what its routine follows. -/
theorem perform_of (s : Source.Session) (fallbacks : Nat) (o : Operation) :
    (of s fallbacks).perform o
      = some ((s.perform o).1,
          of (s.perform o).2 (fallbacks + if (of s fallbacks).looksAhead o then 1 else 0)) := by
  obtain ⟨c, saved⟩ := s
  cases o with
  | isAtEnd => exact through_of_follows (follows_isAtEnd c) rfl _ saved fallbacks
  | peek => exact through_of_follows (follows_peek? c) rfl _ saved fallbacks
  | startsWith text => exact through_of_follows (follows_startsWith c text) rfl _ saved fallbacks
  | atCommand name => exact through_of_follows (follows_atCommand c name) rfl _ saved fallbacks
  | next => exact through_of_follows (follows_next c) c.forward_next.input_eq _ saved fallbacks
  | nextText =>
    exact through_of_follows (follows_nextText c) c.forward_nextText.input_eq _ saved fallbacks
  | eat x =>
    exact through_of_follows (follows_eat c x) (c.forward_eatText [x]).input_eq _ saved fallbacks
  | eatText text =>
    exact through_of_follows (follows_eatText c text) (c.forward_eatText text).input_eq _ saved
      fallbacks
  | skipBlank =>
    exact through_of_follows (follows_skipBlank c) c.forward_skipBlank.input_eq (fun _ => .done)
      saved fallbacks
  | readCommand =>
    exact through_of_follows (follows_readCommand c) c.forward_readCommand.input_eq _ saved
      fallbacks
  | readGroup =>
    exact through_of_follows (follows_readGroup c) c.forward_readGroup.input_eq _ saved fallbacks
  | takeRest =>
    exact through_of_follows (follows_takeRest c) c.forward_takeRest.input_eq _ saved fallbacks
  | save =>
    -- the place that is saved is the one of the checkpoint
    have hplace : placeIn c.input c.save = byteLength c.consumed := by
      simp [placeIn, Cursor.save, Cursor.position, Cursor.input, Cursor.consumed]
    show some (Answer.done, Session.mk (.at c fallbacks)
      (saved.map (placeIn c.input) ++ [byteLength c.consumed])) = _
    rw [← hplace, ← List.map_singleton, ← List.map_append]
    rfl
  | restore number => exact perform_of_restore ⟨c, saved⟩ fallbacks number
  | since number => exact perform_of_since ⟨c, saved⟩ fallbacks number

/-- **Whole sequences** run on both sides.  Induction on the sequence, `perform_of` being the
step. -/
theorem after_of (s : Source.Session) (fallbacks : Nat) (operations : List Operation) :
    ∃ fallbacks',
      (of s fallbacks).after operations = some (of (s.after operations) fallbacks') := by
  induction operations generalizing s fallbacks with
  | nil => exact ⟨fallbacks, rfl⟩
  | cons o operations ih =>
    obtain ⟨fallbacks', hafter⟩ := ih (s.perform o).2
      (fallbacks + if (of s fallbacks).looksAhead o then 1 else 0)
    refine ⟨fallbacks', ?_⟩
    rw [after, List.foldlM_cons, perform_of]
    exact hafter

/-- What is left of the source at the place of a cursor is what the cursor has left. -/
theorem left?_of (s : Source.Session) (fallbacks : Nat) :
    (of s fallbacks).state.left? = some s.cursor.rest := by
  show (splitAtByte? (byteLength s.cursor.consumed) s.cursor.input).map Prod.snd = _
  rw [← s.cursor.consumed_append_rest, splitAtByte?_append]
  rfl

/-- **One operation** in the place of a cursor gives its answer, consumes what the answer tells, and
lets the empty text stand for another only for a checkpoint ahead. -/
theorem performs_of (s : Source.Session) (fallbacks : Nat) (o : Operation) :
    ∃ s', (of s fallbacks).Performs o (s.perform o).1 s' := by
  refine ⟨_, perform_of s fallbacks o, ?_, rfl, ?_⟩
  · exact ⟨_, _, left?_of s fallbacks, left?_of _ _, s.keeps_perform o,
      fun ho => (s.forward_perform ho).suffix⟩
  · -- only the text since a checkpoint looks ahead, and it is empty then
    intro hahead
    cases o with
    | since number =>
      cases hsaved : s.saved[number]? with
      | none => simp only [Source.Session.perform, hsaved]
      | some p =>
        rw [looksAhead_of hsaved, decide_eq_true_eq] at hahead
        simp only [Source.Session.perform, hsaved, Source.Session.moved, since_of_lt hahead]
    | _ => cases hahead

/-- **The place is always valid and moves forward only.**  After any sequence of operations it is
between two characters of the source, so that nothing of the source is lost; every next operation
gives the answer of the cursor and consumes what this answer tells; and coming back to a checkpoint,
whatever has been done in between, leaves what was left when it was saved. -/
theorem places_stay_valid (source : List Char) (operations : List Operation) :
    ∃ s : Session, (start source).after operations = some s ∧
      s.state.source = source ∧ s.state.position ≤ byteLength source ∧
      (∃ consumed left, splitAtByte? s.state.position source = some (consumed, left) ∧
        consumed ++ left = source) ∧
      (∀ o, ∃ s', s.Performs o (((Source.Session.start source).after operations).perform o).1 s') ∧
      (s.answer? .isAtEnd = some (.truth true) ↔ s.answer? .peek = some (.character none)) ∧
      ∀ between, ∃ s', (start source).after
          (operations ++ (.save :: between ++ [.restore s.saved.length])) = some s' ∧
        s'.state.left? = s.state.left? := by
  have hrun := after_of (Source.Session.start source)
  obtain ⟨fallbacks, hafter⟩ := hrun 0 operations
  have hinput := (Source.Session.start source).input_after operations
  have hreturn := ((Source.Session.start source).after operations).restore_after_save
  have hsplit := (Source.Session.start source).after_append operations
  generalize (Source.Session.start source).after operations = t at *
  have hsource : t.cursor.consumed ++ t.cursor.rest = source := hinput
  refine ⟨of t fallbacks, hafter, hinput, ?_, ?_, performs_of t fallbacks, ?_, ?_⟩
  · rw [position_of, ← hsource, byteLength_append]
    omega
  · refine ⟨t.cursor.consumed, t.cursor.rest, ?_, hsource⟩
    rw [position_of, ← hsource, splitAtByte?_append]
  · rw [answer?, answer?, perform_of, perform_of]
    simp only [Option.map_some, Source.Session.perform, Source.Session.moved, Option.some.injEq,
      Answer.truth.injEq, Answer.character.injEq, Cursor.isAtEnd, Cursor.peek?, List.isEmpty_iff,
      List.head?_eq_none_iff]
  · -- the run with the checkpoint in it ends at a cursor too, namely the same one
    intro between
    have hsaved : (of t fallbacks).saved.length = t.saved.length := List.length_map _
    obtain ⟨fallbacks', hall⟩ :=
      hrun 0 (operations ++ (.save :: between ++ [.restore t.saved.length]))
    rw [hsaved]
    refine ⟨_, hall, ?_⟩
    rw [left?_of, left?_of, hsplit, hreturn]

end Session

end ByteCursor

end FormulaMarkup.Source
