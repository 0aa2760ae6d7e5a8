import FormulaMarkup.Proofs.Isolation.Lockstep
import FormulaMarkup.Proofs.Notation.Atoms

/-!
# FormulaMarkup — words and scripts in front of a delimiter

A text of letters, digits, blanks and script markers has no delimiters of its own, but it may be
malformed: markers may be repeated, or have no base or no argument.  It is read in the same steps
whatever closes it, up to its last token.  Only if that is a marker does it matter what follows,
because the marker looks for its argument there.

* **`Plain`**, **`Dangling`** — such texts, and those of them that end in a marker.
* **`Progress`** — how far an expression has been read when the text is used up.
* **`exists_progress`** — the text is read up to the same place whatever follows.
* **`readExpression_plain`** — so it is read as the whole source would be, if what follows is no
  atom or nothing waits for one.
-/

namespace FormulaMarkup.Isolation

open Source Text Formula

/-! ## Plain texts

A plain text has only three kinds of characters, so every part of it that is left is plain too.
Whether it is dangling is a matter of its end and can be decided. -/

/-- A text of letters, digits, blanks and the markers of scripts. -/
def Plain (t : List Char) : Prop :=
  ∀ c ∈ t, c.isAlphanum = true ∨ isBlank c = true ∨ (ScriptKind.ofMarker? c).isSome = true

instance (t : List Char) : Decidable (Plain t) :=
  decidableForallMem _ t

theorem Plain.of_suffix {s t : List Char} (h : Plain t) (hs : s <:+ t) : Plain s :=
  fun c hc => h c (hs.subset hc)

/-- A text whose last character, blanks apart, is the marker of a script. -/
def Dangling (t : List Char) : Prop :=
  ∃ p c gap, t = p ++ c :: gap ∧ (ScriptKind.ofMarker? c).isSome = true ∧
    ∀ d ∈ gap, isBlank d = true

theorem not_dangling_nil : ¬ Dangling [] := by
  rintro ⟨p, c, gap, h, -⟩
  simp at h

/-- A text is dangling if its first character is a marker with nothing but blanks behind it, or if
what stands behind the first character is dangling.  This is the recursion by which
`decidableDangling` decides it. -/
theorem dangling_cons {c : Char} {t : List Char} :
    Dangling (c :: t) ↔
      ((ScriptKind.ofMarker? c).isSome = true ∧ ∀ d ∈ t, isBlank d = true) ∨ Dangling t := by
  constructor
  · rintro ⟨p, m, gap, h, hm, hgap⟩
    cases p with
    | nil =>
      obtain ⟨rfl, rfl⟩ := List.cons.inj h
      exact .inl ⟨hm, hgap⟩
    | cons d p =>
      obtain ⟨-, rfl⟩ := List.cons.inj h
      exact .inr ⟨p, m, gap, rfl, hm, hgap⟩
  · rintro (⟨hc, ht⟩ | ⟨p, m, gap, rfl, hm, hgap⟩)
    · exact ⟨[], c, t, rfl, hc, ht⟩
    · exact ⟨c :: p, m, gap, rfl, hm, hgap⟩

instance decidableDangling : (t : List Char) → Decidable (Dangling t)
  | [] => .isFalse not_dangling_nil
  | _ :: t =>
    have := decidableDangling t
    decidable_of_iff' _ dangling_cons

namespace Dangling

variable {p s t : List Char}

/-- A text is dangling if an end of it is. -/
theorem of_suffix (h : Dangling s) (hs : s <:+ t) : Dangling t := by
  obtain ⟨q, rfl⟩ := hs
  obtain ⟨p, m, gap, rfl, hm, hgap⟩ := h
  exact ⟨q ++ p, m, gap, (List.append_assoc q p _).symm, hm, hgap⟩

/-- What is no marker can be taken off. -/
theorem of_append (h : Dangling (p ++ s)) (hp : ∀ c ∈ p, ScriptKind.ofMarker? c = none) :
    Dangling s := by
  induction p with
  | nil => exact h
  | cons c p ih =>
    rcases dangling_cons.mp h with ⟨hc, -⟩ | h
    · rw [hp c List.mem_cons_self] at hc
      cases hc
    · exact ih h fun d hd => hp d (List.mem_cons_of_mem c hd)

theorem dropWhile {kind : Char → Bool} (hkind : ∀ c, kind c = true → ScriptKind.ofMarker? c = none)
    (h : Dangling t) : Dangling (t.dropWhile kind) := by
  rw [← List.takeWhile_append_dropWhile (p := kind) (l := t)] at h
  exact h.of_append fun c hc => hkind c (List.mem_takeWhile_imp hc)

/-- Blanks can be taken off. -/
theorem skipBlank (h : Dangling t) : Dangling (skipBlank t) := by
  refine h.dropWhile fun c hc => ?_
  cases hmarker : ScriptKind.ofMarker? c with
  | none => rfl
  | some kind =>
    rw [isBlank_eq_false_of_ofMarker? hmarker] at hc
    cases hc

end Dangling

/-! ## What follows a plain text

Four characters can come behind a plain text, and no token of it goes on with one of them. -/

/-- What can follow a plain text: the end of the input, or a token that ends an expression. -/
def Follows (x : List Char) : Prop := ∀ c r, x = c :: r → c ∈ ['}', ']', '&', '\\']

namespace Follows

variable {x : List Char} (hx : Follows x)
include hx

/-- A run of characters of a kind to which none of the four belongs ends where the text ends. -/
theorem takeWhile_append {p : Char → Bool} (hp : ∀ c ∈ ['}', ']', '&', '\\'], p c = false)
    (s : List Char) :
    (s ++ x).takeWhile p = s.takeWhile p ∧ (s ++ x).dropWhile p = s.dropWhile p ++ x :=
  Source.takeWhile_append (fun c r h => hp c (hx c r h)) s

/-- Blanks at the end of the text are skipped, and nothing behind it. -/
theorem skipBlank_append (s : List Char) : skipBlank (s ++ x) = skipBlank s ++ x :=
  (hx.takeWhile_append (by decide) s).2

theorem skipBlank_append_eq {s t : List Char} (h : skipBlank s = t) : skipBlank (s ++ x) = t ++ x :=
  h ▸ hx.skipBlank_append s

theorem not_marker {c : Char} {r : List Char} (h : x = c :: r) : ScriptKind.ofMarker? c = none := by
  have hall : ∀ c ∈ ['}', ']', '&', '\\'], ScriptKind.ofMarker? c = none := by decide
  exact hall c (hx c r h)

end Follows

/-- A `Plain` text has no character with which an expression could end. -/
theorem Plain.not_mem {c : Char} {t : List Char} (h : Plain t) (hc : c ∈ t) :
    c ∉ ['}', ']', '&', '\\'] := by
  have hall : ∀ c ∈ ['}', ']', '&', '\\'], ¬ (c.isAlphanum = true ∨ isBlank c = true ∨
      (ScriptKind.ofMarker? c).isSome = true) := by decide
  exact fun hmem => hall c hmem (h c hc)

/-- No expression ends at any other character. -/
theorem anyAt_eq_false {c : Char} (hc : c ∉ ['}', ']', '&', '\\']) (stops : List Stop)
    (t : List Char) : Stop.anyAt stops (c :: t) = false := by
  rw [Bool.eq_false_iff]
  intro h
  obtain ⟨stop, -, hstands⟩ := (Stop.anyAt_iff stops (c :: t)).mp h
  cases hstands <;> simp at hc

/-! ## The steps of reading a plain text

Each lemma is about one routine in front of a plain text.  What it finds and what it leaves do not
depend on what follows, on the stops or on the number of levels, so these are quantified behind the
existential quantifiers of the result. -/

/-- Reading a part of the text `t` leaves `s`, with the marker at its end if there is one. -/
structure Leaves (t s : List Char) : Prop where
  suffix : s <:+ t
  dangling : Dangling t → Dangling s

theorem Leaves.trans {s t u : List Char} (h : Leaves u t) (h' : Leaves t s) : Leaves u s :=
  ⟨h'.suffix.trans h.suffix, fun hu => h'.dangling (h.dangling hu)⟩

/-- Skipping blanks leaves an end of the text, with the marker at it. -/
theorem leaves_skipBlank {s t : List Char} (h : skipBlank t = s) : Leaves t s :=
  h ▸ ⟨skipBlank_suffix t, Dangling.skipBlank⟩

/-- Neither letters nor digits are markers. -/
theorem ofMarker?_of_isAlphanum {c : Char} (hc : c.isAlphanum = true) :
    ScriptKind.ofMarker? c = none := by
  have hsub : c ≠ '_' := by
    rintro rfl
    cases hc
  have hsup : c ≠ '^' := by
    rintro rfl
    cases hc
  simp [ScriptKind.ofMarker?, hsub, hsup]

theorem leaves_run {kind : Char → Bool} (hkind : ∀ c, kind c = true → c.isAlphanum = true)
    (t : List Char) : Leaves t (t.dropWhile kind) :=
  ⟨List.dropWhile_suffix _, Dangling.dropWhile fun c hc => ofMarker?_of_isAlphanum (hkind c hc)⟩

/-- **A letter or digit begins a token that ends within the text**: a run of letters is read by
`readIdentifier`, and a run of digits is a number without a period. -/
theorem exists_token {c : Char} {t : List Char} (hc : c.isAlphanum = true)
    (ht : Plain (c :: t)) :
    ∃ node s, Leaves (c :: t) s ∧ ∀ levels {x}, Follows x →
      (atomReader (levels + 1)).read (c :: (t ++ x)) = some ⟨node, s ++ x, []⟩ := by
  rw [Char.isAlphanum, Bool.or_eq_true] at hc
  -- a run of letters or a run of digits
  rcases hc with halpha | hdigit
  · have hclass : ∀ c : Char, c.isAlpha = true → c.isAlphanum = true := fun c hc => by
      rw [Char.isAlphanum, hc, Bool.true_or]
    refine ⟨.identifier (String.ofList ((c :: t).takeWhile Char.isAlpha)) false, _,
      leaves_run hclass (c :: t), fun levels x hx => ?_⟩
    refine (Notation.begins_and_read_free levels (isBlank_eq_false_of_isAlpha halpha)
      (Notation.not_mem_reserved (.inr halpha)) rfl ?_).2
    obtain ⟨htake, hdrop⟩ := hx.takeWhile_append (p := Char.isAlpha) (by decide) (c :: t)
    rw [isDigit_eq_false_of_isAlpha halpha, if_neg Bool.false_ne_true, if_pos halpha,
      readIdentifier, ← List.cons_append, htake, hdrop]
  · have hclass : ∀ c : Char, c.isDigit = true → c.isAlphanum = true := fun c hc => by
      rw [Char.isAlphanum, hc, Bool.or_true]
    have hleaves := leaves_run hclass (c :: t)
    refine ⟨.number (String.ofList ((c :: t).takeWhile Char.isDigit)), _, hleaves,
      fun levels x hx => ?_⟩
    refine (Notation.begins_and_read_free levels (isBlank_eq_false_of_isDigit hdigit)
      (Notation.not_mem_reserved (.inl hdigit)) rfl ?_).2
    obtain ⟨htake, hdrop⟩ := hx.takeWhile_append (p := Char.isDigit) (by decide) (c :: t)
    -- there is no period in the text, and none after it
    have hperiod : ∀ u, (c :: t ++ x).dropWhile Char.isDigit ≠ '.' :: u := by
      intro u hu
      rw [hdrop] at hu
      cases hrest : (c :: t).dropWhile Char.isDigit with
      | nil =>
        rw [hrest, List.nil_append] at hu
        have hno : '.' ∉ ['}', ']', '&', '\\'] := by decide
        exact hno (hx '.' u hu)
      | cons d v =>
        rw [hrest, List.cons_append] at hu
        obtain ⟨rfl, -⟩ := List.cons.inj hu
        have hmem : '.' ∈ c :: t := hleaves.suffix.subset (hrest ▸ List.mem_cons_self)
        exact absurd (ht '.' hmem) (by decide)
    rw [if_pos hdigit, ← List.cons_append, readNumber_of_not_period hperiod, htake, hdrop]

/-- What stands where blanks are gone is a token or a marker. -/
theorem Plain.token_or_marker {c : Char} {t : List Char} (h : Plain (c :: t))
    (hc : isBlank c = false) :
    c.isAlphanum = true ∨ ∃ kind, ScriptKind.ofMarker? c = some kind := by
  rcases h c List.mem_cons_self with halphanum | hblank | hmarker
  · exact .inl halphanum
  · rw [hc] at hblank
    cases hblank
  · exact .inr (Option.isSome_iff_exists.mp hmarker)

/-- No atom is read at a marker. -/
theorem read_of_marker (levels : Nat) {c : Char} {kind : ScriptKind}
    (hc : ScriptKind.ofMarker? c = some kind) (t : List Char) :
    (atomReader levels).read (c :: t) = none := by
  refine read_of_not_startsAtom levels ?_
  obtain ⟨hsub, hsup⟩ := eq_of_ofMarker? hc
  cases kind with
  | sub => rw [hsub rfl]; rfl
  | sup => rw [hsup rfl]; rfl

/-- `readArgument` in the text ends within it, and gives the same tree whatever follows. -/
theorem exists_argument {t : List Char} (ht : Plain t) (hne : skipBlank t ≠ []) :
    ∃ node s, Leaves t s ∧ ∀ levels {x}, Follows x →
      readArgument (atomReader (levels + 1)) (t ++ x) = ⟨node, s ++ x, []⟩ := by
  obtain ⟨c, u, hskip⟩ := List.exists_cons_of_ne_nil hne
  have hleaves := leaves_skipBlank hskip
  have hu : Plain (c :: u) := ht.of_suffix hleaves.suffix
  rcases hu.token_or_marker (not_isBlank_of_skipBlank_eq_cons hskip) with hc | ⟨kind, hc⟩
  · obtain ⟨node, s, hs, hread⟩ := exists_token hc hu
    refine ⟨node, s, hleaves.trans hs, fun levels x hx => readArgument_of_read ?_⟩
    rw [hx.skipBlank_append_eq hskip]
    exact hread levels hx
  · refine ⟨.emptyRow, c :: u, hleaves, fun levels x hx => ?_⟩
    rw [readArgument, hx.skipBlank_append_eq hskip, List.cons_append,
      read_of_marker (levels + 1) hc]

/-- `readItem` in the text begins with a base, which is empty in front of a marker, and goes on with
its scripts. -/
theorem exists_base {c : Char} {t : List Char} (ht : Plain (c :: t)) (hc : isBlank c = false) :
    ∃ base s, Leaves (c :: t) s ∧ ∀ levels {x}, Follows x →
      readItem (atomReader (levels + 1)) (c :: (t ++ x)) =
        (readScripted (atomReader (levels + 1)) base (s ++ x)).map some := by
  rcases ht.token_or_marker hc with hc | ⟨kind, hc⟩
  · obtain ⟨node, s, hs, hread⟩ := exists_token hc ht
    refine ⟨node, s, hs, fun levels x hx => ?_⟩
    rw [readItem, hread levels hx]
    rfl
  · refine ⟨.emptyRow, c :: t, ⟨List.suffix_refl _, id⟩, fun levels x hx => ?_⟩
    rw [readItem, read_of_marker (levels + 1) hc]
    exact readStray_of_marker _ hc _

/-- A marker that has something after it in the text is not the one that makes it `Dangling`. -/
theorem leaves_marker {c : Char} {t : List Char} (hne : skipBlank t ≠ []) : Leaves (c :: t) t := by
  refine ⟨List.suffix_cons c t, fun h => ?_⟩
  rcases dangling_cons.mp h with ⟨-, hblank⟩ | h
  · exact absurd (List.dropWhile_eq_nil_iff.mpr hblank) hne
  · exact h

/-- Blanks between a marker and its argument do not matter. -/
theorem readScripts_marker_blanks (a : AtomReader) {found : Scripts} {c : Char}
    {kind : ScriptKind} (hc : ScriptKind.ofMarker? c = some kind)
    (hfound : (found.get kind).isSome = false) {s gap x : List Char}
    (hs : skipBlank s = c :: (gap ++ x)) (hgap : ∀ d ∈ gap, isBlank d = true) :
    readScripts a found s = readScripts a found (c :: x) := by
  have hmarker : skipBlank (c :: x) = c :: x := skipBlank_cons (isBlank_eq_false_of_ofMarker? hc) x
  have hargument : readArgument a (gap ++ x) = readArgument a x := by
    rw [readArgument, readArgument, Source.skipBlank_append hgap]
  rw [readScripts_of_marker a hs hc hfound, readScripts_of_marker a hmarker hc hfound, hargument]

/-- Scripts in the text are read up to something else, or up to a marker at the end of a `Dangling`
text, whose argument is then looked for in what follows.  Induction on the length of the text. -/
theorem exists_scripts (found : Scripts) {t : List Char} (ht : Plain t) :
    (∃ found' s, Leaves t s ∧ ∀ levels {x}, Follows x →
      readScripts (atomReader (levels + 1)) found (t ++ x) = ⟨found', s ++ x, []⟩) ∨
    (Dangling t ∧ ∃ found' c kind, ScriptKind.ofMarker? c = some kind ∧
      (found'.get kind).isSome = false ∧ ∀ levels {x}, Follows x →
      readScripts (atomReader (levels + 1)) found (t ++ x) =
        readScripts (atomReader (levels + 1)) found' (c :: x)) := by
  induction hlength : t.length using Nat.strong_induction_on generalizing found t with
  | _ n ih =>
  cases hskip : skipBlank t with
  | nil =>
    refine .inl ⟨found, [], leaves_skipBlank hskip, fun levels x hx => ?_⟩
    have hrest : skipBlank (t ++ x) = x := hx.skipBlank_append_eq hskip
    rw [readScripts_of_not_marker, hrest, List.nil_append]
    rw [hrest]
    exact fun c r h => hx.not_marker h
  | cons c u =>
    have hleaves := leaves_skipBlank hskip
    have hu : Plain u := ht.of_suffix ((List.suffix_cons c u).trans hleaves.suffix)
    have hrest {x} (hx : Follows x) : skipBlank (t ++ x) = c :: (u ++ x) :=
      hx.skipBlank_append_eq hskip
    cases hc : ScriptKind.ofMarker? c with
    | none =>
      -- something else follows, at which the scripts end
      exact .inl ⟨found, c :: u, hleaves,
        fun levels x hx => readScripts_of_other _ found (hrest hx) hc⟩
    | some kind =>
      cases hfound : (found.get kind).isSome with
      | true =>
        -- a second script of its kind is left to the row
        exact .inl ⟨found, c :: u, hleaves,
          fun levels x hx => readScripts_of_found _ (hrest hx) hc hfound⟩
      | false =>
        by_cases hne : skipBlank u = []
        · have hblank : ∀ d ∈ u, isBlank d = true := List.dropWhile_eq_nil_iff.mp hne
          have hdangling : Dangling (c :: u) :=
            dangling_cons.mpr (.inl ⟨by rw [hc]; rfl, hblank⟩)
          exact .inr ⟨hdangling.of_suffix hleaves.suffix, found, c, kind, hc, hfound,
            fun levels x hx => readScripts_marker_blanks _ hc hfound (hrest hx) hblank⟩
        · obtain ⟨node, s, hs, hread⟩ := exists_argument hu hne
          have hfrom : Leaves t s := (hleaves.trans (leaves_marker hne)).trans hs
          -- the argument is in the text, and the scripts go on behind it
          have hstep levels {x} (hx : Follows x) :
              readScripts (atomReader (levels + 1)) found (t ++ x) =
                readScripts (atomReader (levels + 1)) (found.set kind node) (s ++ x) := by
            rw [readScripts_of_marker _ (hrest hx) hc hfound, hread levels hx]
            rfl
          have hlt : s.length < n := by
            have hle := hs.suffix.length_le
            have hle' := hleaves.suffix.length_le
            rw [List.length_cons] at hle'
            omega
          rcases ih s.length hlt (found.set kind node) (hu.of_suffix hs.suffix) rfl with
            ⟨found', s', hs', hdone⟩ | ⟨hdue, found', m, kind', hm, hfound', hrest'⟩
          · exact .inl ⟨found', s', hfrom.trans hs',
              fun levels x hx => (hstep levels hx).trans (hdone levels hx)⟩
          · exact .inr ⟨hdue.of_suffix hfrom.suffix, found', m, kind', hm, hfound',
              fun levels x hx => (hstep levels hx).trans (hrest' levels hx)⟩

/-! ## How far an expression has been read

The text is used up between two items or behind a marker.  `Progress` records which, with what has
been read so far, and `resume` reads on from there in what follows. -/

/-- How far an expression has been read when a text is used up: behind an item, or behind a marker
that waits for its argument. -/
inductive Progress where
  | between (items : List Formula)
  | waiting (items : List Formula) (base : Formula) (found : Scripts) (marker : Char)

namespace Progress

/-- An item in front of what has been read. -/
def push (item : Formula) : Progress → Progress
  | .between items => .between (item :: items)
  | .waiting items base found marker => .waiting (item :: items) base found marker

/-- Reads on in what follows the text. -/
def resume (a : AtomReader) (stops : List Stop) (x : List Char) : Progress → Reading (List Formula)
  | .between items => (readItems a stops x).map (items ++ ·)
  | .waiting items base found marker =>
    let scripted := (readScripts a found (marker :: x)).map (·.attach base)
    ((readItems a stops scripted.rest).map (items ++ scripted.value :: ·)).after scripted.log

/-- Reading on behind one more item gives this item in front of all others. -/
theorem resume_push (a : AtomReader) (stops : List Stop) (x : List Char) (item : Formula)
    (p : Progress) : (p.push item).resume a stops x = (p.resume a stops x).map (item :: ·) := by
  cases p <;> rfl

/-- The text in front ends accordingly, and the marker is of a kind that has not been found. -/
inductive After : List Char → Progress → Prop where
  | between {t : List Char} (h : ¬ Dangling t) (items : List Formula) : After t (.between items)
  | waiting {t : List Char} {marker : Char} {kind : ScriptKind} {found : Scripts}
      (h : Dangling t) (hmarker : ScriptKind.ofMarker? marker = some kind)
      (hfound : (found.get kind).isSome = false) (items : List Formula) (base : Formula) :
      After t (.waiting items base found marker)

/-- An item in front of a text does not change how the text ends. -/
theorem After.push {s t : List Char} {p : Progress} (h : After s p) (hs : Leaves t s)
    (item : Formula) : After t (p.push item) := by
  cases h with
  | between h items => exact .between (fun ht => h (hs.dangling ht)) _
  | waiting h hmarker hfound items base =>
    exact .waiting (h.of_suffix hs.suffix) hmarker hfound _ base

end Progress

/-- **A plain text is read in the same steps whatever closes it**: under any stops, with any number
of levels left, and whatever `Follows`.  Induction on the length of the text. -/
theorem exists_progress {t : List Char} (ht : Plain t) :
    ∃ p, Progress.After t p ∧ ∀ levels stops {x}, Follows x →
      readItems (atomReader (levels + 1)) stops (t ++ x) =
        p.resume (atomReader (levels + 1)) stops x := by
  induction hlength : t.length using Nat.strong_induction_on generalizing t with
  | _ n ih =>
  cases hskip : skipBlank t with
  | nil =>
    have hblank : ¬ Dangling t := fun h => not_dangling_nil (hskip ▸ h.skipBlank)
    refine ⟨.between [], .between hblank [], fun levels stops x hx => ?_⟩
    have hrest : skipBlank (t ++ x) = skipBlank x :=
      Source.skipBlank_append (List.dropWhile_eq_nil_iff.mp hskip) x
    rw [← readItems_skipBlank, hrest, readItems_skipBlank]
    rfl
  | cons c u =>
    have hleaves := leaves_skipBlank hskip
    have hu : Plain (c :: u) := ht.of_suffix hleaves.suffix
    obtain ⟨base, s, hs, hitem⟩ := exists_base hu (not_isBlank_of_skipBlank_eq_cons hskip)
    have hrest {x} (hx : Follows x) : skipBlank (t ++ x) = c :: (u ++ x) :=
      hx.skipBlank_append_eq hskip
    have hstop (stops : List Stop) (x : List Char) : Stop.anyAt stops (c :: (u ++ x)) = false :=
      anyAt_eq_false (hu.not_mem List.mem_cons_self) stops _
    rcases exists_scripts .none (hu.of_suffix hs.suffix) with
      ⟨found, s', hs', hscripts⟩ | ⟨hwaiting, found, m, kind, hm, hfound, hscripts⟩
    · have hread levels {x} (hx : Follows x) :
          readItem (atomReader (levels + 1)) (c :: (u ++ x)) =
            ⟨some (found.attach base), s' ++ x, []⟩ := by
        rw [hitem levels hx, readScripted, hscripts levels hx]
        rfl
      -- an item has been consumed, so less is left
      have hlt : s'.length < n := by
        have hconsumed := (readItem_consumes (atomReader 1) c (u ++ [])).2
        rw [hread 0 (x := []) (by rintro c r ⟨⟩)] at hconsumed
        have hle := hleaves.suffix.length_le
        simp only [List.append_nil] at hconsumed
        omega
      obtain ⟨p, hp, hresume⟩ := ih s'.length hlt (hu.of_suffix (hs.trans hs').suffix) rfl
      refine ⟨p.push (found.attach base), hp.push (hleaves.trans (hs.trans hs')) _,
        fun levels stops x hx => ?_⟩
      rw [readItems_of_item _ (hrest hx) (hstop stops x), hread levels hx,
        hresume levels stops hx, Progress.resume_push]
      rfl
    · -- the scripts end in a marker, which is the end of the text
      refine ⟨.waiting [] base found m,
        .waiting (hwaiting.of_suffix (hleaves.trans hs).suffix) hm hfound [] base,
        fun levels stops x hx => ?_⟩
      rw [readItems_of_item _ (hrest hx) (hstop stops x), hitem levels hx,
        readScripted, hscripts levels hx]
      rfl

/-! ## Where the text is closed

What closes the expression is left, and no item is read there.  The exception is a marker that waits
for its argument in front of an atom, such as a bracket. -/

/-- What closes an expression can follow a plain text. -/
theorem follows_of_closes {stops : List Stop} {x : List Char} (h : Notation.Closes stops x) :
    Follows x := by
  rcases h with rfl | ⟨c, r, rfl, hc, -⟩
  · rintro c r ⟨⟩
  · rintro d u ⟨⟩
    exact hc

/-- What closes the expression is left, unless it is an atom and an argument is waited for.  A
marker that waits where no atom starts gets `emptyRow`. -/
theorem Progress.After.exists_items {t : List Char} {p : Progress} (h : After t p) :
    ∃ items, ∀ levels stops {x}, Notation.Closes stops x →
      (startsAtom x = false ∨ ¬ Dangling t) →
      p.resume (atomReader levels) stops x = ⟨items, x, []⟩ := by
  cases h with
  | between h items =>
    -- nothing waits, and nothing is read
    refine ⟨items, fun levels stops x hx _ => ?_⟩
    rw [resume, hx.readItems_eq, Reading.map, List.append_nil]
  | @waiting marker kind found h hmarker hfound items base =>
    refine ⟨items ++ [(found.set kind .emptyRow).attach base], fun levels stops x hx hapart => ?_⟩
    have hstarts : startsAtom x = false := hapart.resolve_right (not_not_intro h)
    have hskip : skipBlank (marker :: x) = marker :: x :=
      skipBlank_cons (isBlank_eq_false_of_ofMarker? hmarker) x
    have hargument : readArgument (atomReader levels) x = ⟨.emptyRow, x, []⟩ := by
      rw [readArgument, hx.skipBlank_eq, read_of_not_startsAtom levels hstarts]
    have hscripts : readScripts (atomReader levels) (found.set kind .emptyRow) x =
        ⟨found.set kind .emptyRow, x, []⟩ := by
      rw [readScripts_of_not_marker _ _ hx.noMarker, hx.skipBlank_eq]
    have hread : readScripts (atomReader levels) found (marker :: x) =
        ⟨found.set kind .emptyRow, x, []⟩ := by
      rw [readScripts_of_marker _ hskip hmarker hfound, hargument]
      exact congrArg (Reading.after []) hscripts
    simp only [resume, hread, Reading.map, hx.readItems_eq]
    rfl

/-- **A plain text in front of a delimiter is read as the whole source would be**, unless it is
`Dangling` and an atom could start at the delimiter. -/
theorem readExpression_plain {t : List Char} (ht : Plain t) {stops : List Stop} {x : List Char}
    (hx : Notation.Closes stops x) (hapart : startsAtom x = false ∨ ¬ Dangling t) (levels : Nat) :
    readExpression (atomReader (levels + 1)) stops (t ++ x) = ⟨(read t).value, x, []⟩ := by
  obtain ⟨p, hp, hresume⟩ := exists_progress ht
  obtain ⟨items, hitems⟩ := hp.exists_items
  have halone : read t = ⟨Node.ofItems items, [], []⟩ := by
    have hend : Notation.Closes [] [] := .inl rfl
    have hread := hresume 127 [] (follows_of_closes hend)
    rw [hitems _ [] hend (.inl rfl), List.append_nil] at hread
    rw [Formula.read, readExpression]
    exact congrArg (Reading.map Node.ofItems) hread
  rw [readExpression, hresume levels stops (follows_of_closes hx), hitems _ stops hx hapart, halone]
  rfl

end FormulaMarkup.Isolation
