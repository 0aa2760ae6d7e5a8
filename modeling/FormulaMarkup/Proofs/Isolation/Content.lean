import FormulaMarkup.Proofs.Formula.Steps

/-!
# FormulaMarkup — content between delimiters

A text can stand between delimiters if its braces match and nothing in it opens or closes anything
else.  Apart from that it may be malformed in any way.  This module says which texts these are and
that none of their tokens reaches into the delimiter that follows.

Reading goes through the groups of the text, so what is left on the way is not such a text itself:
it closes groups that have been opened before.  `Contained` keeps count of them, and is what each
step of the reader hands on to the next.

* **`SelfContained`** — the texts that can stand between delimiters.
* **`Contained`** — what is left of such a text on the way, inside groups of its own.
* **`Closing`** — what such a text is followed by.
* **`Closing.readCommand_append`**, **`readGroup_append`** — tokens end where the text ends.
-/

namespace FormulaMarkup.Isolation

open Source Text Formula

/-- The commands that open something, or close it, other than by a brace. -/
def pairedNames : List String := ["left", "right", "begin", "end", "sqrt"]

/-- A text in which no brace is escaped, no command is cut off at the end and no command, nor the
beginning of one, is among the `pairedNames`. -/
structure Unpaired (t : List Char) : Prop where
  unescaped : ∀ c ∈ ['{', '}'], ¬ ['\\', c] <:+: t
  complete : ¬ ['\\'] <:+ t
  unpaired : ∀ name ∈ pairedNames, ¬ '\\' :: name.toList <:+: t

/-- A text that can stand between delimiters: it is `Unpaired`, and its braces match. -/
structure SelfContained (t : List Char) : Prop extends Unpaired t where
  balanced : Balanced t

/-- What is left of a text that can stand between delimiters, inside `depth` of its groups. -/
structure Contained (depth : Nat) (s : List Char) : Prop extends Unpaired s where
  balanced : BalancedFrom depth s

/-- The texts that can stand between delimiters, by a condition that can be decided for each of
them. -/
theorem selfContained_iff {t : List Char} :
    SelfContained t ↔ Balanced t ∧ (∀ c ∈ ['{', '}'], ¬ ['\\', c] <:+: t) ∧ ¬ ['\\'] <:+ t ∧
      ∀ name ∈ pairedNames, ¬ '\\' :: name.toList <:+: t :=
  ⟨fun h => ⟨h.balanced, h.unescaped, h.complete, h.unpaired⟩,
    fun ⟨hb, hu, hc, hp⟩ => ⟨⟨hu, hc, hp⟩, hb⟩⟩

instance (t : List Char) : Decidable (SelfContained t) :=
  decidable_of_iff' _ selfContained_iff

theorem SelfContained.contained {t : List Char} (h : SelfContained t) : Contained 0 t :=
  ⟨h.toUnpaired, balancedFrom_zero.mpr h.balanced⟩

/-- An end of an `Unpaired` text is `Unpaired`, so what is left of a content can be spoken of. -/
theorem Unpaired.of_suffix {s t : List Char} (h : Unpaired t) (hs : s <:+ t) : Unpaired s where
  unescaped c hc hin := h.unescaped c hc (hin.trans hs.isInfix)
  complete hend := h.complete (hend.trans hs)
  unpaired name hname hin := h.unpaired name hname (hin.trans hs.isInfix)

/-! ## What is left of a content

Each lemma takes off what one step of the reader consumes: a brace, another character, blanks, or a
command.  The number of open groups changes with braces only. -/

namespace Contained

variable {depth depth' : Nat} {c : Char} {s t : List Char}

theorem not_nil (h : Contained (depth + 1) []) : False := by
  have hcount : depth + 1 = 0 := h.balanced.2
  omega

/-- A character can be taken off, if the number of groups changes with it as it should. -/
theorem tail (h : Contained depth (c :: t))
    (hc : depth + [c].count '{' = depth' + [c].count '}') : Contained depth' t :=
  ⟨h.toUnpaired.of_suffix (List.suffix_cons c t), h.balanced.tail hc⟩

theorem opened (h : Contained depth ('{' :: t)) : Contained (depth + 1) t :=
  h.tail (by simp)

/-- A brace closes a group, so one was open. -/
theorem closed (h : Contained depth ('}' :: t)) :
    ∃ depth', depth = depth' + 1 ∧ Contained depth' t := by
  have hpos : 1 ≤ depth := by
    simpa using h.balanced.1 ['}'] (List.cons_prefix_cons.mpr ⟨rfl, List.nil_prefix⟩)
  obtain ⟨depth', rfl⟩ : ∃ d, depth = d + 1 := ⟨depth - 1, by omega⟩
  exact ⟨depth', rfl, h.tail (by simp)⟩

theorem tail_of_ne (h : Contained depth (c :: t)) (hopen : c ≠ '{') (hclose : c ≠ '}') :
    Contained depth t :=
  h.tail (by simp [hopen, hclose])

/-- A run of characters that are no braces can be taken off, since no group opens or closes in it.
Induction on the text. -/
theorem dropWhile (h : Contained depth s) {p : Char → Bool} (hopen : p '{' = false)
    (hclose : p '}' = false) : Contained depth (s.dropWhile p) := by
  induction s with
  | nil => exact h
  | cons c t ih =>
    rw [List.dropWhile_cons]
    split
    · next hc =>
      -- a character of the run is neither of the braces, because the run stops at both
      have hopen' : c ≠ '{' := by
        rintro rfl
        rw [hopen] at hc
        cases hc
      have hclose' : c ≠ '}' := by
        rintro rfl
        rw [hclose] at hc
        cases hc
      exact ih (h.tail_of_ne hopen' hclose')
    · exact h

theorem skipBlank (h : Contained depth s) : Contained depth (skipBlank s) :=
  h.dropWhile (by decide) (by decide)

/-- What `skipBlank` leaves is contained, under whatever name it comes up. -/
theorem of_skipBlank_eq (h : Contained depth s) (hskip : Text.skipBlank s = t) :
    Contained depth t :=
  hskip ▸ h.skipBlank

/-- After a backslash there is another character, and it is no brace, since no command is cut off
and no brace escaped. -/
theorem of_slash (h : Contained depth ('\\' :: t)) : ∃ c u, t = c :: u ∧ c ≠ '{' ∧ c ≠ '}' := by
  cases t with
  | nil => exact absurd (List.suffix_refl _) h.complete
  | cons c u =>
    have hpair : ['\\', c] <:+: '\\' :: c :: u := List.IsPrefix.isInfix ⟨u, rfl⟩
    refine ⟨c, u, rfl, ?_, ?_⟩
    · rintro rfl
      exact h.unescaped '{' (by decide) hpair
    · rintro rfl
      exact h.unescaped '}' (by decide) hpair

/-- `readCommand` takes a command off with its name, in which no brace stands. -/
theorem readCommand (h : Contained depth ('\\' :: t)) :
    Contained depth (readCommand ('\\' :: t)).2 := by
  obtain ⟨c, u, rfl, hopen, hclose⟩ := h.of_slash
  have hu : Contained depth u := (h.tail_of_ne (by decide) (by decide)).tail_of_ne hopen hclose
  cases hc : c.isAlpha with
  | true =>
    rw [readCommand_run hc]
    exact hu.dropWhile (by decide) (by decide)
  | false =>
    rw [readCommand_single hc]
    exact hu

/-- The name that `readCommand` gives is a part of the text, so it is none of the `pairedNames`. -/
theorem name_not_paired (h : Contained depth ('\\' :: t)) {name : String}
    (hname : (Source.readCommand ('\\' :: t)).1 = name.toList) : name ∉ pairedNames := by
  intro hpaired
  refine h.unpaired name hpaired (List.IsPrefix.isInfix ⟨(Source.readCommand ('\\' :: t)).2, ?_⟩)
  rw [← hname]
  exact readCommand_append_rest t

/-- `atCommand` finds none of the `pairedNames` anywhere in a content. -/
theorem atCommand_eq_false (h : Contained depth s) {name : String} (hname : name ∈ pairedNames) :
    atCommand name.toList s = false := by
  rw [Bool.eq_false_iff]
  intro hat
  obtain ⟨t, rfl, _⟩ := atCommand_iff.mp hat
  exact h.unpaired name hname (List.IsPrefix.isInfix ⟨t, rfl⟩)

end Contained

/-! ## What follows a content

Neither an atom nor a script begins with what follows, and so its first character is one of three.
Letters, digits and blanks are not among them, hence no token of the content goes on there. -/

/-- What can follow a content: the end of the input, or something with which neither an atom nor a
script begins.  All delimiters are `Closing`, and so are the separators of tables. -/
structure Closing (x : List Char) : Prop where
  starts : startsAtom x = false
  marker : ∀ c t, x = c :: t → ScriptKind.ofMarker? c = none

namespace Closing

variable {x : List Char} (hx : Closing x)
include hx

/-- What follows a content begins with a closing brace, an ampersand or a backslash, if there is
anything.  In particular it does not begin with a letter, a digit or a blank. -/
theorem head_mem {c : Char} {t : List Char} (h : x = c :: t) : c ∈ ['}', '&', '\\'] := by
  subst h
  have hmarker := hx.marker c t rfl
  have hsub : c ≠ '_' := by
    rintro rfl
    cases hmarker
  have hsup : c ≠ '^' := by
    rintro rfl
    cases hmarker
  have hstarts := hx.starts
  -- no atom starts: a closing brace, an ampersand, or a backslash with something that is no atom
  simp only [startsAtom, Bool.not_eq_false', Bool.or_eq_true, beq_iff_eq, Bool.and_eq_true, hsub,
    hsup, or_false] at hstarts
  simp only [List.mem_cons, List.not_mem_nil, or_false]
  tauto

/-- A run of characters of a kind to which none of the three belongs ends where the content ends.
Letters, digits and blanks are such kinds. -/
theorem takeWhile_append {p : Char → Bool} (hp : ∀ c ∈ ['}', '&', '\\'], p c = false)
    (s : List Char) :
    (s ++ x).takeWhile p = s.takeWhile p ∧ (s ++ x).dropWhile p = s.dropWhile p ++ x :=
  Source.takeWhile_append (fun c _ h => hp c (hx.head_mem h)) s

/-- Blanks at the end of the content are skipped, and nothing behind it. -/
theorem skipBlank_append (s : List Char) : skipBlank (s ++ x) = skipBlank s ++ x :=
  (hx.takeWhile_append (by decide) s).2

theorem skipBlank_append_eq {s t : List Char} (hskip : skipBlank s = t) :
    skipBlank (s ++ x) = t ++ x :=
  hskip ▸ hx.skipBlank_append s

/-- `readCommand` reads a command that has a name as if nothing followed. -/
theorem readCommand_append {t : List Char} (ht : t ≠ []) :
    readCommand ('\\' :: (t ++ x)) =
      ((readCommand ('\\' :: t)).1, (readCommand ('\\' :: t)).2 ++ x) := by
  obtain ⟨c, u, rfl⟩ := List.exists_cons_of_ne_nil ht
  obtain ⟨htake, hdrop⟩ := hx.takeWhile_append (p := Char.isAlpha) (by decide) u
  rw [List.cons_append]
  cases hc : c.isAlpha with
  | true => rw [readCommand_run hc, readCommand_run hc, htake, hdrop]
  | false => rw [readCommand_single hc, readCommand_single hc]

/-- `atCommand` finds a command in the content or nowhere: the backslash is in the content, and a
name that begins in it ends in it. -/
theorem atCommand_append (name : List Char) (hne : name ≠ [])
    (hname : ∀ c ∈ name, c.isAlpha = true) {depth : Nat} {c : Char} {t : List Char}
    (h : Contained depth (c :: t)) : atCommand name (c :: (t ++ x)) = atCommand name (c :: t) := by
  by_cases hc : c = '\\'
  · subst hc
    obtain ⟨d, u, rfl, _, _⟩ := h.of_slash
    rw [atCommand_eq_readCommand hne hname, atCommand_eq_readCommand hne hname,
      hx.readCommand_append (List.cons_ne_nil d u)]
  · rw [Source.atCommand_eq_false hc, Source.atCommand_eq_false hc]

/-- `startsAtom` has the same answer whatever follows the content. -/
theorem startsAtom_append {depth : Nat} {s : List Char} (h : Contained depth s) :
    startsAtom (s ++ x) = startsAtom s := by
  cases s with
  | nil => exact hx.starts
  | cons c t =>
    refine startsAtom_congr (fun hc => ?_)
      (hx.atCommand_append "right".toList (by decide) (by decide) h)
      (hx.atCommand_append "end".toList (by decide) (by decide) h)
    subst hc
    obtain ⟨d, u, rfl, _, _⟩ := h.of_slash
    rfl

end Closing

/-! ## Groups

A group that is opened in the content is closed there, because its braces match.  So its text, and
what is left behind it, are those that the content alone would give. -/

/-- `groupText` reads a group that is closed within the text as if nothing followed the text.
Induction on the text, the depth following its braces. -/
theorem groupText_append {depth inner : Nat} {t : List Char}
    (h : BalancedFrom (inner + (depth + 1)) t) (x : List Char) :
    groupText inner (t ++ x) = ((groupText inner t).1, (groupText inner t).2 ++ x) ∧
      BalancedFrom depth (groupText inner t).2 := by
  induction t generalizing inner with
  | nil =>
    -- at the end of the text all groups would be closed
    have hcount : inner + (depth + 1) = 0 := h.2
    omega
  | cons c t ih =>
    rw [List.cons_append, groupText.eq_def, groupText.eq_def inner (c :: t)]
    by_cases hopen : c = '{'
    · subst hopen
      have ht : BalancedFrom (inner + 1 + (depth + 1)) t := h.tail (by simp; omega)
      simp [ih ht]
    · by_cases hclose : c = '}'
      · subst hclose
        cases inner with
        | zero =>
          -- the brace closes the group that is read
          have ht : BalancedFrom depth t := h.tail (by simp)
          simp [ht]
        | succ inner =>
          have ht : BalancedFrom (inner + (depth + 1)) t := h.tail (by simp; omega)
          simp [ih ht]
      · have ht : BalancedFrom (inner + (depth + 1)) t := h.tail (by simp [hopen, hclose])
        simp [hopen, hclose, ih ht]

/-- `readGroup` reads as if nothing followed the content, whether there is a group or not. -/
theorem readGroup_append {x : List Char} (hx : Closing x) {depth : Nat} {s : List Char}
    (h : Contained depth s) :
    readGroup (s ++ x) = ((readGroup s).1, (readGroup s).2 ++ x) ∧
      Contained depth (readGroup s).2 := by
  have hs := h.skipBlank
  unfold readGroup
  rw [hx.skipBlank_append]
  cases hskip : skipBlank s with
  | nil =>
    rw [hskip] at hs
    refine ⟨?_, hs⟩
    rw [List.nil_append]
    split
    · have hno : '{' ∉ ['}', '&', '\\'] := by decide
      exact absurd (hx.head_mem rfl) hno
    · rfl
  | cons c t =>
    rw [hskip] at hs
    by_cases hc : c = '{'
    · subst hc
      have ht := hs.opened
      have hinner : BalancedFrom (0 + (depth + 1)) t := by
        rw [Nat.zero_add]
        exact ht.balanced
      obtain ⟨htext, hbalanced⟩ := groupText_append hinner x
      exact ⟨htext, ht.toUnpaired.of_suffix (groupText_suffix 0 t), hbalanced⟩
    · -- something else comes first, in the content and so in both
      rw [List.cons_append]
      split
      · next heq => exact absurd (List.cons.inj heq).1 hc
      · split
        · next heq => exact absurd (List.cons.inj heq).1 hc
        · exact ⟨rfl, hs⟩

end FormulaMarkup.Isolation
