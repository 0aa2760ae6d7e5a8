import FormulaMarkup.Proofs.Markup.Pieces

/-!
# FormulaMarkup — looking for a tag in a text

A tag can be looked for in markup without reading the markup, by comparing characters.  Whether this
finds the tag and nothing else is a question about all other characters, because a mark may begin in
one part of a text and end in another.

The question is answered part by part.  `Passes` says of one part that the search goes past it,
whatever follows; parts with that property can be put together, and then the tag is found behind
them.

* **`upTo?`** — what stands before and behind a mark.
* **`elementText?`** — what stands between two tags.
* **`withoutTag`**, **`withoutElement`** — a text in which every such tag, or everything from one
  tag to another, has been deleted.
* **`Passes`** — the search goes past a part of a text, whatever follows it.
* **`passes_text`**, **`passes_tag`** — it goes past texts and past other tags.
* **`Passes.withoutTag_tag`**, **`Passes.withoutElement_element`** — what is deleted, behind a part
  that the search goes past.
-/

namespace FormulaMarkup.Markup

open Text

/-- The text before the first place where a mark stands, and the text behind the mark.  Nothing is
known of the text but its characters; in particular it is not read as markup. -/
def upTo? (mark s : List Char) : Option (List Char × List Char) :=
  if mark.isPrefixOf s then some ([], s.drop mark.length)
  else
    match s with
    | [] => none
    | c :: t => (upTo? mark t).map fun parts => (c :: parts.1, parts.2)

/-- What stands before the mark, the mark, and what stands behind it are the whole text. -/
theorem eq_append_of_upTo? {mark s x y : List Char} (h : upTo? mark s = some (x, y)) :
    s = x ++ (mark ++ y) := by
  fun_induction upTo? mark s generalizing x with
  | case1 s hstarts =>
    obtain ⟨t, rfl⟩ := List.isPrefixOf_iff_prefix.mp hstarts
    obtain ⟨rfl, rfl⟩ := Prod.mk.inj (Option.some.inj h)
    rw [List.drop_left]
    rfl
  | case2 => cases h
  | case3 hstarts c t ih =>
    -- the mark does not stand here, so it has been found in the rest
    obtain ⟨⟨x', y'⟩, hrest, hparts⟩ := Option.map_eq_some_iff.mp h
    obtain ⟨rfl, rfl⟩ := Prod.mk.inj hparts
    rw [ih hrest]
    rfl

/-- The tag that has this text between its brackets. -/
def tagText (inside : List Char) : List Char := '<' :: inside ++ ['>']

/-- What `upTo?` finds behind a tag is shorter than the text, so that a search can go on there. -/
theorem length_lt_of_upTo? {inside s x y : List Char} (h : upTo? (tagText inside) s = some (x, y)) :
    y.length < s.length := by
  rw [eq_append_of_upTo? h]
  simp only [tagText, List.length_append, List.length_cons]
  omega

/-- The text between the first opening tag and the first following closing tag, by two searches with
`upTo?`. -/
def elementText? (opening closing s : List Char) : Option (List Char) :=
  (upTo? (tagText opening) s).bind fun parts => (upTo? (tagText closing) parts.2).map Prod.fst

/-- Deletes every tag with this text between its brackets, also where it is part of something
else. -/
def withoutTag (inside s : List Char) : List Char :=
  match _h : upTo? (tagText inside) s with
  | none => s
  | some (x, y) => x ++ withoutTag inside y
termination_by s.length
decreasing_by exact length_lt_of_upTo? _h

/-- Deletes every opening tag, with everything up to the next closing tag and that tag.  Without a
closing tag nothing more is deleted. -/
def withoutElement (opening closing s : List Char) : List Char :=
  match _h : upTo? (tagText opening) s with
  | none => s
  | some (x, y) =>
    match _h' : upTo? (tagText closing) y with
    | none => s
    | some (_, z) => x ++ withoutElement opening closing z
termination_by s.length
decreasing_by exact Nat.lt_trans (length_lt_of_upTo? _h') (length_lt_of_upTo? _h)

/-! ## What a search goes past

No part of the tag may begin in `x` and end behind it, which is why `Passes` speaks of everything
that may follow. -/

/-- The search for a tag goes past `x`, whatever follows it: neither does the tag stand in `x`, nor
does it begin there. -/
def Passes (inside x : List Char) : Prop :=
  ∀ s, upTo? (tagText inside) (x ++ s)
    = (upTo? (tagText inside) s).map fun parts => (x ++ parts.1, parts.2)

section Passes

variable {inside x y : List Char}

theorem Passes.nil (inside : List Char) : Passes inside [] := fun s => by
  cases h : upTo? (tagText inside) s <;> simp [h]

/-- **Parts one after the other.** The search goes past both (`Passes`) if it goes past each. -/
theorem Passes.append (hx : Passes inside x) (hy : Passes inside y) : Passes inside (x ++ y) := by
  intro s
  rw [List.append_assoc, hx, hy, Option.map_map]
  simp [Function.comp_def]

/-- A character at which the tag does not begin can be put in front. -/
theorem Passes.cons {c : Char} (hstarts : ∀ s, (tagText inside).isPrefixOf (c :: x ++ s) = false)
    (hx : Passes inside x) : Passes inside (c :: x) := by
  intro s
  rw [upTo?.eq_def, hstarts s, if_neg (by simp)]
  show (upTo? (tagText inside) (x ++ s)).map _ = _
  rw [hx, Option.map_map]
  rfl

/-- A tag begins with a bracket, so a text without brackets has no part of one.  Escaped text is
such a text. -/
theorem passes_text (h : '<' ∉ x) : Passes inside x := by
  induction x with
  | nil => exact .nil inside
  | cons c x ih =>
    have hc : '<' ≠ c := fun heq => h (heq ▸ List.mem_cons_self)
    refine .cons (fun s => ?_) (ih fun hmem => h (List.mem_cons_of_mem c hmem))
    simp [tagText, List.isPrefixOf, hc]

/-- Another tag is no place for a tag: it differs up to its bracket, and has no other inside.  The
texts between the brackets are compared by cutting both (`cut_tag`). -/
theorem passes_tag {other : List Char} (hinside : '>' ∉ inside)
    (hother : '<' ∉ other ∧ '>' ∉ other) (hne : other ≠ inside) :
    Passes inside (tagText other) := by
  refine .cons (fun s => Bool.eq_false_iff.mpr fun hstarts => hne ?_) (passes_text ?_)
  · obtain ⟨r, hr⟩ := List.isPrefixOf_iff_prefix.mp hstarts
    have hbehind : inside ++ '>' :: r = other ++ '>' :: s := by
      simpa [tagText] using hr
    have hcut := congrArg (cut true []) hbehind
    rw [cut_tag hinside, cut_tag hother.2] at hcut
    exact (Piece.mk.inj (List.cons.inj hcut).1).2.symm
  · simpa using hother.1

/-- `upTo?` finds a tag at the place where it stands. -/
theorem upTo?_tag (inside s : List Char) :
    upTo? (tagText inside) (tagText inside ++ s) = some ([], s) := by
  have hstarts : (tagText inside).isPrefixOf (tagText inside ++ s) = true :=
    List.isPrefixOf_iff_prefix.mpr (List.prefix_append _ _)
  rw [upTo?.eq_def, if_pos hstarts, List.drop_left]

/-- **A tag is found behind whatever the search goes past** (`Passes`), and what it goes past stands
before it. -/
theorem Passes.upTo?_eq (h : Passes inside x) (s : List Char) :
    upTo? (tagText inside) (x ++ (tagText inside ++ s)) = some (x, s) := by
  rw [h, upTo?_tag]
  simp

/-- **What stands between two tags is found**, behind a part that the search for the first one goes
past, if the search for the second one goes past what stands there. -/
theorem Passes.elementText?_eq {opening closing data : List Char} (h : Passes opening x)
    (hdata : Passes closing data) (s : List Char) :
    elementText? opening closing (x ++ (tagText opening ++ (data ++ (tagText closing ++ s))))
      = some data := by
  rw [elementText?, h.upTo?_eq, Option.bind_some, hdata.upTo?_eq]
  rfl

end Passes

/-! ## Deleting

Deleting is searching again and again.  Each lemma is one step of it: nothing is found, or something
is deleted and the rest is left to the same function. -/

/-- Where `upTo?` does not find the tag nothing is deleted. -/
theorem withoutTag_of_none {inside s : List Char} (h : upTo? (tagText inside) s = none) :
    withoutTag inside s = s := by
  rw [withoutTag]
  split
  next => rfl
  next hsome => rw [h] at hsome; cases hsome

/-- Where `upTo?` finds the tag it is left out, and the search goes on behind it. -/
theorem withoutTag_of_some {inside s x y : List Char}
    (h : upTo? (tagText inside) s = some (x, y)) :
    withoutTag inside s = x ++ withoutTag inside y := by
  rw [withoutTag]
  split
  next hnone => rw [h] at hnone; cases hnone
  next hsome =>
    rw [h] at hsome
    obtain ⟨rfl, rfl⟩ := Prod.mk.inj (Option.some.inj hsome)
    rfl

/-- Where `upTo?` does not find the opening tag nothing is deleted. -/
theorem withoutElement_of_none {opening s : List Char} (closing : List Char)
    (h : upTo? (tagText opening) s = none) : withoutElement opening closing s = s := by
  rw [withoutElement]
  split
  next => rfl
  next hsome => rw [h] at hsome; cases hsome

/-- Where both tags are found everything between them is left out, and they are, too;
`withoutElement` goes on behind the closing one. -/
theorem withoutElement_of_some {opening closing s x y w z : List Char}
    (h : upTo? (tagText opening) s = some (x, y)) (h' : upTo? (tagText closing) y = some (w, z)) :
    withoutElement opening closing s = x ++ withoutElement opening closing z := by
  rw [withoutElement]
  split
  next hnone => rw [h] at hnone; cases hnone
  -- the search has the result that is given, for the first tag and then for the second one
  next hsome =>
    rw [h] at hsome
    obtain ⟨rfl, rfl⟩ := Prod.mk.inj (Option.some.inj hsome)
    split
    next hnone => rw [h'] at hnone; cases hnone
    next hsome =>
      rw [h'] at hsome
      obtain ⟨rfl, rfl⟩ := Prod.mk.inj (Option.some.inj hsome)
      rfl

section Passes

variable {inside opening closing x data : List Char}

/-- In a text that the search goes past nothing is found. -/
theorem Passes.upTo?_eq_none (h : Passes inside x) : upTo? (tagText inside) x = none := by
  have hx := h []
  rw [List.append_nil] at hx
  rw [hx, upTo?.eq_def]
  rfl

/-- Where the search goes past everything nothing is deleted. -/
theorem Passes.withoutTag_eq (h : Passes inside x) : withoutTag inside x = x :=
  withoutTag_of_none h.upTo?_eq_none

/-- Where the opening tag is not found nothing is deleted, whatever the closing tag is. -/
theorem Passes.withoutElement_eq (h : Passes opening x) (closing : List Char) :
    withoutElement opening closing x = x :=
  withoutElement_of_none closing h.upTo?_eq_none

/-- **`withoutTag` deletes a tag** that stands behind a part it goes past, and goes on behind it. -/
theorem Passes.withoutTag_tag (h : Passes inside x) (s : List Char) :
    withoutTag inside (x ++ (tagText inside ++ s)) = x ++ withoutTag inside s :=
  withoutTag_of_some (h.upTo?_eq s)

/-- **`withoutElement` deletes an element** with what stands in it, and goes on behind it. -/
theorem Passes.withoutElement_element (h : Passes opening x) (hdata : Passes closing data)
    (s : List Char) :
    withoutElement opening closing (x ++ (tagText opening ++ (data ++ (tagText closing ++ s))))
      = x ++ withoutElement opening closing s :=
  withoutElement_of_some (h.upTo?_eq _) (hdata.upTo?_eq s)

end Passes

end FormulaMarkup.Markup
