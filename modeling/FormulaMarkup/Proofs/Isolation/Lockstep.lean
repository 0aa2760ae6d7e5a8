import FormulaMarkup.Proofs.Formula.Ends
import FormulaMarkup.Proofs.Formula.Names
import FormulaMarkup.Proofs.Isolation.Content

/-!
# FormulaMarkup — reading a content with and without what follows it

A content is read twice: up to the end of the input, and with something after it that closes it, by
a reader that has perhaps fewer levels left.  Both readings go through the content in the same
steps, as long as the second one does not reach the limit on nesting, and what follows the content
is left alone.

This is a simulation between two runs of the reader.  Its relation is `Matches`, which also says
inside how many groups the content is left, and there is one lemma for each routine.  The second run
is the one that may reach the limit, so nothing is claimed once it has.

* **`Matches`** — that two readings agree in this way.
* **`StopsAgree`** — the stops for which an expression ends at the same place in both.
* **`matches_readExpression`** — an expression is read in the same way, if its atoms are.
* **`agree_atomReader`** — atoms are, by induction on the levels.
-/

namespace FormulaMarkup.Isolation

open Source Text Formula

/-! ## Readings that match

A reading that matches another one can be changed and continued on both sides.  The limit is reached
at most once and at the very end, so a log within it has both of its parts within it. -/

/-- No `.tooDeep` has been reported: nothing was found that is nested too deeply to be read. -/
def WithinLimit (log : List Diagnostic) : Prop := ∀ n, .tooDeep n ∉ log

instance (log : List Diagnostic) : Decidable (WithinLimit log) :=
  decidable_of_iff (∀ d ∈ log, d.severity = .debug) <| by
    constructor
    · intro h n hn
      cases h _ hn
    · intro h d hd
      cases d with
      | tooDeep n => exact absurd hd (h n)
      | _ => rfl

theorem WithinLimit.of_append {log log' : List Diagnostic} (h : WithinLimit (log ++ log')) :
    WithinLimit log ∧ WithinLimit log' :=
  ⟨fun n hn => h n (List.mem_append_left _ hn), fun n hn => h n (List.mem_append_right _ hn)⟩

section Matches

variable {α β : Type}

/-- The same reading with more of the input after it. -/
def followed (x : List Char) (r : Reading α) : Reading α := ⟨r.value, r.rest ++ x, r.log⟩

/-- The second reading is the first one with `x` after it, unless it reaches the limit, and what is
left of the content is inside as many groups as `depth` says. -/
def Matches (x : List Char) (depth : Nat) (r r' : Reading α) : Prop :=
  WithinLimit r'.log → r' = followed x r ∧ Contained depth r.rest

variable {x : List Char} {depth depth' : Nat} {r r' : Reading α}

theorem Matches.of_eq (heq : r' = followed x r) (hrest : Contained depth r.rest) :
    Matches x depth r r' :=
  fun _ => ⟨heq, hrest⟩

/-- Readings that match go on to do so with whatever is made of their values. -/
theorem Matches.map (h : Matches x depth r r') (f : α → β) :
    Matches x depth (r.map f) (r'.map f) := by
  intro hlimit
  obtain ⟨rfl, hrest⟩ := h hlimit
  exact ⟨rfl, hrest⟩

/-- Readings that go on after readings that match. -/
theorem Matches.after {q q' : Reading β} (h : Matches x depth r r')
    (hq : r' = followed x r → Contained depth r.rest → Matches x depth' q q') :
    Matches x depth' (q.after r.log) (q'.after r'.log) := by
  intro hlimit
  obtain ⟨hbefore, hafter⟩ := hlimit.of_append
  obtain ⟨heq, hrest⟩ := h hbefore
  obtain ⟨rfl, hrest'⟩ := hq heq hrest hafter
  exact ⟨by rw [heq]; rfl, hrest'⟩

end Matches

/-- The atoms of two readers match (`Matches`), and where there is none for the first reader none
starts. -/
structure Agree (x : List Char) (a a' : AtomReader) : Prop where
  atoms : ∀ {depth s}, Contained depth s →
    Option.Rel (Matches x depth) (a.read s) (a'.read (s ++ x))
  strays : ∀ {s}, a.read s = none → startsAtom s = false

/-- What an expression waits for in both readings: the same places in what is left of the content,
among them every brace that closes a group around it, and what follows the content. -/
structure StopsAgree (x : List Char) (depth : Nat) (stops stops' : List Stop) (s : List Char) :
    Prop where
  within : ∀ c t, c :: t <:+ s → Contained depth (c :: t) →
    Stop.anyAt stops' (c :: (t ++ x)) = Stop.anyAt stops (c :: t)
  brace : ∀ t, Contained depth ('}' :: t) → Stop.anyAt stops ('}' :: t) = true
  last : Contained depth [] → x = [] ∨ Stop.anyAt stops' x = true

/-- Stops that agree for a content agree for what is left of it. -/
theorem StopsAgree.of_suffix {x : List Char} {depth : Nat} {stops stops' : List Stop}
    {s t : List Char} (h : StopsAgree x depth stops stops' t) (hs : s <:+ t) :
    StopsAgree x depth stops stops' s where
  within c u hu hrest := h.within c u (hu.trans hs) hrest
  brace := h.brace
  last := h.last

/-- A group of the content waits for `.groupEnd`, which comes before the content ends.  So it does
not matter what follows the content. -/
theorem StopsAgree.group (x : List Char) (depth : Nat) (s : List Char) :
    StopsAgree x (depth + 1) [.groupEnd] [.groupEnd] s where
  within _ _ _ _ := rfl
  brace _ _ := rfl
  last hrest := hrest.not_nil.elim

/-! ## Tokens

A number and a word end at a character that does not belong to them, or with the content. -/

section Tokens

variable {x : List Char} (hx : Closing x) {depth : Nat} {s : List Char}
include hx

/-- `readNumber` reads a number of the content in the same way, since what follows begins neither
with a digit nor with a period. -/
theorem matches_readNumber (h : Contained depth s) :
    Matches x depth (readNumber s) (readNumber (s ++ x)) := by
  obtain ⟨htake, hdrop⟩ := hx.takeWhile_append (p := Char.isDigit) (by decide) s
  have hs : Contained depth (s.dropWhile Char.isDigit) := h.dropWhile (by decide) (by decide)
  by_cases hperiod : ∃ t, s.dropWhile Char.isDigit = '.' :: t
  · obtain ⟨t, hrest⟩ := hperiod
    rw [hrest] at hs
    have hrest' : (s ++ x).dropWhile Char.isDigit = '.' :: (t ++ x) := by rw [hdrop, hrest]; rfl
    obtain ⟨htake', hdrop'⟩ := hx.takeWhile_append (p := Char.isDigit) (by decide) t
    rw [readNumber_of_period hrest, readNumber_of_period hrest', htake, htake', hdrop']
    exact .of_eq rfl ((hs.tail_of_ne (by decide) (by decide)).dropWhile (by decide) (by decide))
  · have hno : ∀ t, s.dropWhile Char.isDigit ≠ '.' :: t := fun t ht => hperiod ⟨t, ht⟩
    -- neither does what follows begin with a period
    have hno' : ∀ t, (s ++ x).dropWhile Char.isDigit ≠ '.' :: t := by
      intro t ht
      rw [hdrop] at ht
      cases hrest : s.dropWhile Char.isDigit with
      | nil =>
        rw [hrest, List.nil_append] at ht
        have hperiod' : '.' ∉ ['}', '&', '\\'] := by decide
        exact hperiod' (hx.head_mem ht)
      | cons c u =>
        rw [hrest, List.cons_append] at ht
        exact hno u (by rw [hrest, (List.cons.inj ht).1])
    rw [readNumber_of_not_period hno, readNumber_of_not_period hno', htake, hdrop]
    exact .of_eq rfl hs

/-- `readIdentifier` reads a run of letters of the content in the same way. -/
theorem matches_readIdentifier (h : Contained depth s) :
    Matches x depth (readIdentifier s) (readIdentifier (s ++ x)) := by
  obtain ⟨htake, hdrop⟩ := hx.takeWhile_append (p := Char.isAlpha) (by decide) s
  refine .of_eq ?_ (h.dropWhile (by decide) (by decide))
  rw [readIdentifier, htake, hdrop]
  rfl

end Tokens

theorem mem_pairedNames {name : String}
    (h : Command.ofName name = .radical ∨ Command.ofName name = .fence ∨
      Command.ofName name = .environment) : name ∈ pairedNames := by
  rcases h with h | h | h <;> have hword := mem_words_of_delimits h rfl <;>
    simp [Command.words] at hword <;> simp [hword, pairedNames]

/-! ## What consists of atoms

Two readers whose atoms match are followed through arguments, scripts, items and expressions.  The
loops are inductions on the first reading, and the second one makes the same steps. -/

section Reader

variable {x : List Char} (hx : Closing x) {a a' : AtomReader} (hagree : Agree x a a') {depth : Nat}
include hx hagree

/-- `readArgument` reads in the same way: where no atom starts in the content, none starts in what
follows. -/
theorem matches_readArgument {s : List Char} (h : Contained depth s) :
    Matches x depth (readArgument a s) (readArgument a' (s ++ x)) := by
  have hatom := hagree.atoms h.skipBlank
  unfold readArgument
  rw [hx.skipBlank_append]
  generalize a.read (skipBlank s) = read at hatom
  generalize a'.read (skipBlank s ++ x) = read' at hatom
  cases hatom with
  | some hatom => exact hatom
  | none => exact .of_eq rfl h.skipBlank

/-- `readScripts` reads in the same way.  Induction on the scripts in the order in which they are
read; at the end of the content no marker follows. -/
theorem matches_readScripts {found : Scripts} {s : List Char} (h : Contained depth s) :
    Matches x depth (readScripts a found s) (readScripts a' found (s ++ x)) := by
  fun_induction readScripts a found s with
  | case1 found s hnil =>
    have hs := h.of_skipBlank_eq hnil
    have hrest : skipBlank (s ++ x) = x := hx.skipBlank_append_eq hnil
    have hnone : ∀ c t, skipBlank (s ++ x) = c :: t → ScriptKind.ofMarker? c = none := by
      rw [hrest]
      exact hx.marker
    rw [readScripts_of_not_marker a' found hnone, hrest]
    exact .of_eq rfl hs
  | case2 found s c t hcons hc =>
    -- something else follows, in both
    have hs := h.of_skipBlank_eq hcons
    have hrest : skipBlank (s ++ x) = c :: (t ++ x) := hx.skipBlank_append_eq hcons
    rw [readScripts_of_other a' found hrest hc]
    exact .of_eq rfl hs
  | case3 found s c t hcons kind hc hfound =>
    -- a second script of its kind is left, in both
    have hs := h.of_skipBlank_eq hcons
    have hrest : skipBlank (s ++ x) = c :: (t ++ x) := hx.skipBlank_append_eq hcons
    rw [readScripts_of_found a' hrest hc hfound]
    exact .of_eq rfl hs
  | case4 found s c t hcons kind hc hfound script ih =>
    have hs := h.of_skipBlank_eq hcons
    have hrest : skipBlank (s ++ x) = c :: (t ++ x) := hx.skipBlank_append_eq hcons
    -- a marker is no brace
    have ht : Contained depth t := by
      refine hs.tail_of_ne ?_ ?_ <;> rintro rfl <;> cases hc
    rw [readScripts_of_marker a' hrest hc (Bool.eq_false_iff.mpr hfound)]
    refine (matches_readArgument hx hagree ht).after fun heq hargument => ?_
    rw [heq]
    exact ih hargument

/-- A base is read with its scripts in the same way. -/
theorem matches_readScripted (base : Formula) {s : List Char} (h : Contained depth s) :
    Matches x depth (readScripted a base s) (readScripted a' base (s ++ x)) :=
  (matches_readScripts hx hagree h).map _

/-- `readStray` reads in the same way.  It finds no brace, and no end of an environment, because
these do not stand in a content by themselves. -/
theorem matches_readStray {c : Char} {t : List Char} (h : Contained depth (c :: t))
    (hopen : c ≠ '{') (hclose : c ≠ '}') :
    Matches x depth (readStray a (c :: t)) (readStray a' (c :: (t ++ x))) := by
  have ht := h.tail_of_ne hopen hclose
  have hend : atCommand "end".toList (c :: t) = false := h.atCommand_eq_false (by decide)
  have hend' := hx.atCommand_append "end".toList (by decide) (by decide) h
  cases hc : ScriptKind.ofMarker? c with
  | some kind =>
    -- a script without a base
    rw [readStray_of_marker a hc, readStray_of_marker a' hc]
    exact (matches_readScripted hx hagree .emptyRow h).map some
  | none =>
    rw [readStray_of_not_marker a hc, readStray_of_not_marker a' hc, hend', hend]
    by_cases hcolumn : c = '&'
    · rw [if_pos hcolumn, if_pos hcolumn]
      exact .of_eq rfl ht
    rw [if_neg hcolumn, if_neg hcolumn]
    by_cases hslash : c = '\\'
    · rw [if_pos hslash, if_pos hslash]
      subst hslash
      obtain ⟨d, u, rfl, hopen', hclose'⟩ := h.of_slash
      rw [List.cons_append, List.head?_cons, List.head?_cons]
      split
      · exact .of_eq rfl (ht.tail_of_ne hopen' hclose')
      · have hread := hx.readCommand_append (List.cons_ne_nil d u)
        rw [List.cons_append] at hread
        rw [hread]
        exact .of_eq rfl h.readCommand
    · rw [if_neg hslash, if_neg hslash]
      exact .of_eq rfl ht

/-- `readItem` reads in the same way, unless there is a brace that closes a group: it finds an atom
with its scripts in both, or something stray in both (`Agree`). -/
theorem matches_readItem {c : Char} {t : List Char} (h : Contained depth (c :: t))
    (hclose : c ≠ '}') : Matches x depth (readItem a (c :: t)) (readItem a' (c :: (t ++ x))) := by
  have hatom := hagree.atoms h
  have hstray := hagree.strays (s := c :: t)
  rw [List.cons_append] at hatom
  unfold readItem
  generalize a.read (c :: t) = read at hatom hstray
  generalize a'.read (c :: (t ++ x)) = read' at hatom
  cases hatom with
  | some hatom =>
    refine hatom.after fun heq hrest => ?_
    rw [heq]
    exact (matches_readScripted hx hagree _ hrest).map some
  | none =>
    -- an opening brace would have started an atom
    have hopen : c ≠ '{' := by
      rintro rfl
      cases hstray rfl
    exact matches_readStray hx hagree h hopen hclose

/-- **Items are read in the same way**, up to a stop in the content or up to its end.  Induction on
the items in the order in which `readItems` reads them. -/
theorem matches_readItems {stops stops' : List Stop} {s : List Char} (h : Contained depth s)
    (hstops : StopsAgree x depth stops stops' s) :
    Matches x depth (readItems a stops s) (readItems a' stops' (s ++ x)) := by
  fun_induction readItems a stops s with
  | case1 s hnil =>
    have hs := h.of_skipBlank_eq hnil
    have hrest : skipBlank (s ++ x) = x := hx.skipBlank_append_eq hnil
    -- the content is at its end, and the second reading stops at what follows
    rcases hstops.last hs with rfl | hstop
    · rw [readItems_of_nil a' stops' hrest]
      exact .of_eq rfl hs
    · cases x with
      | nil =>
        rw [readItems_of_nil a' stops' hrest]
        exact .of_eq rfl hs
      | cons c t =>
        rw [readItems_of_stop a' hrest hstop]
        exact .of_eq rfl hs
  | case2 s c t hcons hstop =>
    -- a stop in the content is one in both
    have hs := h.of_skipBlank_eq hcons
    have hrest : skipBlank (s ++ x) = c :: (t ++ x) := hx.skipBlank_append_eq hcons
    have hstop' := hstops.within c t (hcons ▸ skipBlank_suffix s) hs
    rw [readItems_of_stop a' hrest (hstop'.trans hstop)]
    exact .of_eq rfl hs
  | case3 s c t hcons hstop item ih =>
    -- no stop, so both read an item and go on
    have hs := h.of_skipBlank_eq hcons
    have hsuffix : c :: t <:+ s := hcons ▸ skipBlank_suffix s
    have hrest : skipBlank (s ++ x) = c :: (t ++ x) := hx.skipBlank_append_eq hcons
    have hstop' := (hstops.within c t hsuffix hs).trans (Bool.eq_false_iff.mpr hstop)
    have hclose : c ≠ '}' := by
      rintro rfl
      exact hstop (hstops.brace t hs)
    rw [readItems_of_item a' hrest hstop']
    refine (matches_readItem hx hagree hs hclose).after fun heq hitem => ?_
    rw [heq]
    exact (ih hitem (hstops.of_suffix ((readItem_suffix a (c :: t)).trans hsuffix))).map _

/-- **An expression is read in the same way**, if the same stops are found in the content and what
follows it is a stop as well. -/
theorem matches_readExpression {stops stops' : List Stop} {s : List Char} (h : Contained depth s)
    (hstops : StopsAgree x depth stops stops' s) :
    Matches x depth (readExpression a stops s) (readExpression a' stops' (s ++ x)) :=
  (matches_readItems hx hagree h hstops).map _

/-- `readBraced` leaves a group of the content behind its brace, which is in the content too. -/
theorem matches_readBraced {t : List Char} (h : Contained (depth + 1) t) :
    Matches x depth (readBraced a t) (readBraced a' (t ++ x)) := by
  intro hlimit
  obtain ⟨heq, hrest⟩ := matches_readExpression hx hagree h (.group x depth t) hlimit
  have hends := rest_of_groupEnd a t
  unfold readBraced
  rw [heq]
  generalize readExpression a [.groupEnd] t = content at hrest hends
  obtain ⟨value, rest, log⟩ := content
  -- the group does not end with the content, where a brace would be missing
  rcases hends with rfl | ⟨u, rfl⟩
  · exact hrest.not_nil.elim
  · obtain ⟨_, hdepth, hu⟩ := hrest.closed
    obtain rfl := Nat.succ.inj hdepth
    exact ⟨rfl, hu⟩

/-- What follows a command matches, unless the command is paired.  One case for each kind of
`Command`: those that open something have the names that a content does not have. -/
theorem matches_readCommandBody {name : String} (hname : name ∉ pairedNames) {s : List Char}
    (h : Contained depth s) :
    Matches x depth (readCommandBody a (.ofName name) s)
      (readCommandBody a' (.ofName name) (s ++ x)) := by
  have harg {s : List Char} (h : Contained depth s) :
      Matches x depth (readArgument a s) (readArgument a' (s ++ x)) :=
    matches_readArgument hx hagree h
  cases hcommand : Command.ofName name with
  | nothing => exact .of_eq rfl h
  | fraction style =>
    -- two arguments, one after the other
    rw [readCommandBody_fraction, readCommandBody_fraction]
    refine (harg h).after fun heq hrest => ?_
    rw [heq]
    exact (harg hrest).map _
  -- the three commands that open something are paired
  | radical => exact absurd (mem_pairedNames (.inl hcommand)) hname
  | fence => exact absurd (mem_pairedNames (.inr (.inl hcommand))) hname
  | environment => exact absurd (mem_pairedNames (.inr (.inr hcommand))) hname
  | verbatim kind =>
    -- the text of a group, which is closed within the content
    obtain ⟨hread, hrest⟩ := readGroup_append hx h
    refine .of_eq ?_ hrest
    simp only [readCommandBody, hread]
    rfl
  | phantom => exact (harg h).map _
  | space name => exact .of_eq rfl h
  | styled variant => exact (harg h).map _
  | accent glyph position => exact (harg h).map _
  | leaf node => exact .of_eq rfl h
  | unknown other => exact .of_eq rfl h

/-- An atom is read in the same way if those on the next level are.  The cases are those of
`readAtomBody`; the first character is in the content, so both readings are in the same one. -/
theorem matches_readAtomBody {s : List Char} (h : Contained depth s)
    (hstarts : startsAtom s = true) :
    Matches x depth (readAtomBody a s) (readAtomBody a' (s ++ x)) := by
  cases s with
  | nil => cases hstarts
  | cons c t =>
    simp only [List.cons_append, readAtomBody]
    split
    · next hc =>
      subst hc
      -- a group of the content, which the content also closes
      exact matches_readBraced hx hagree h.opened
    · next hopen =>
      split
      · next hc =>
        subst hc
        -- a backslash is followed by a name within the content
        obtain ⟨d, u, rfl, _, _⟩ := h.of_slash
        rw [hx.readCommand_append (List.cons_ne_nil d u)]
        refine matches_readCommandBody hx hagree ?_ h.readCommand
        exact h.name_not_paired String.toList_ofList.symm
      · split
        · exact matches_readNumber hx h
        · split
          · exact matches_readIdentifier hx h
          · -- any other character is an operator; a closing brace starts no atom
            have hclose : c ≠ '}' := by
              rintro rfl
              cases hstarts
            exact .of_eq rfl (h.tail_of_ne hopen hclose)

end Reader

/-! ## Atoms

The second reader has no more levels than the first one.  Both go down together, and if the second
one comes to its end first it is at the limit, where nothing is claimed. -/

/-- **Atoms are read in the same way** with fewer levels left, as long as those are enough.
Induction on the levels of both readers; where the second one has none left it reports `.tooDeep`,
which `Matches` allows. -/
theorem agree_atomReader {x : List Char} (hx : Closing x) {levels levels' : Nat}
    (hle : levels' ≤ levels) : Agree x (atomReader levels) (atomReader levels') := by
  induction levels' generalizing levels with
  | zero =>
    refine ⟨fun {depth s} h => ?_, startsAtom_eq_false_of_read⟩
    have happend := hx.startsAtom_append h
    cases hs : startsAtom s with
    | false =>
      rw [read_of_not_startsAtom levels hs, read_of_not_startsAtom 0 (happend.trans hs)]
      exact .none
    | true =>
      -- the second reading is at the limit
      have hread : (atomReader 0).read (s ++ x) = some (readVerbatim (s ++ x)) :=
        if_pos (happend.trans hs)
      cases hfirst : (atomReader levels).read s with
      | none => cases (startsAtom_eq_false_of_read hfirst).symm.trans hs
      | some r =>
        rw [hread]
        exact .some fun hlimit => absurd List.mem_cons_self (hlimit _)
  | succ levels' ih =>
    obtain ⟨levels, rfl⟩ : ∃ l, levels = l + 1 := ⟨levels - 1, by omega⟩
    refine ⟨fun {depth s} h => ?_, startsAtom_eq_false_of_read⟩
    have happend := hx.startsAtom_append h
    cases hs : startsAtom s with
    | false =>
      rw [read_of_not_startsAtom _ hs, read_of_not_startsAtom _ (happend.trans hs)]
      exact .none
    | true =>
      rw [read_atomReader_succ levels hs, read_atomReader_succ levels' (happend.trans hs)]
      exact .some (matches_readAtomBody hx (ih (Nat.le_of_succ_le_succ hle)) h hs)

end FormulaMarkup.Isolation
