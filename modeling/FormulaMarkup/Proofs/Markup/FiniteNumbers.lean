import FormulaMarkup.Proofs.Decimal.Finite
import FormulaMarkup.Proofs.Embedding.Options
import FormulaMarkup.Proofs.Markup.Correspondence
import FormulaMarkup.Proofs.Markup.Pieces

/-!
# FormulaMarkup — the markup of finite numbers

Numbers that are not finite have texts that markup does not know.  A configuration whose numbers are
finite never leads to such a text: its numbers are written with digits, and no keyword and no name
contains one of these texts either, nor do they arise where one part of a tag meets the next.

Only tags are looked at, since the texts of a formula may well contain these words.  A tag is put
together from its name and its attributes, each of which is clean, and the parts meet at characters
that occur in neither word.

* **`Clean`** — a text in which neither `NaN` nor `inf` occurs.
* **`Clean.join`** — clean texts that meet at a blank, a quote, an equals sign or a slash.
* **`admits_clean`** — the attributes of every element are clean.
* **`clean_convert`** — so is every tag of the markup of a source.
-/

namespace FormulaMarkup.Markup

/-- The texts of numbers that are not finite, without their sign. -/
def nonFiniteTexts : List (List Char) := ["NaN".toList, "inf".toList]

/-- A text in which no number that is not finite occurs, that is, neither `NaN` nor `inf`.  The sign
of a negative infinity stands in front of the word and does not matter. -/
def Clean (s : List Char) : Prop := ∀ word ∈ nonFiniteTexts, ¬ word <:+: s

instance (s : List Char) : Decidable (Clean s) :=
  inferInstanceAs (Decidable (∀ word ∈ nonFiniteTexts, ¬ word <:+: s))

/-- A word without the character that two texts meet at stands in one of them.  Induction on the
first text: the word starts at its front, and then it ends before that character, or further
behind. -/
theorem infix_of_infix_append_cons {word s t : List Char} {c : Char} (hc : c ∉ word)
    (h : word <:+: s ++ c :: t) : word <:+: s ∨ word <:+: t := by
  induction s with
  | nil =>
    rcases List.infix_cons_iff.mp h with hfront | hoccurs
    · cases word with
      | nil => exact .inr ⟨[], t, rfl⟩
      | cons d word =>
        obtain ⟨rfl, -⟩ := List.cons_prefix_cons.mp hfront
        exact absurd List.mem_cons_self hc
    · exact .inr hoccurs
  | cons d s ih =>
    rcases List.infix_cons_iff.mp h with hfront | hoccurs
    · -- a word from the front ends before the character
      have hend : d :: s <+: (d :: s) ++ c :: t := List.prefix_append _ _
      rcases List.prefix_or_prefix_of_prefix hfront hend with hshort | hlong
      · exact .inl hshort.isInfix
      · obtain ⟨rest, rfl⟩ := hlong
        obtain ⟨more, hmore⟩ := hfront
        rw [List.append_assoc] at hmore
        have hrest := List.append_cancel_left hmore
        cases rest with
        | nil => exact .inl ⟨[], [], by simp⟩
        | cons e rest =>
          obtain ⟨rfl, -⟩ := List.cons.inj hrest
          exact absurd (List.mem_append_right (d :: s) List.mem_cons_self) hc
    · rcases ih hoccurs with hs | ht
      · exact .inl (hs.trans (List.suffix_cons d s).isInfix)
      · exact .inr ht

/-- The characters at which the parts of a tag meet. -/
def separators : List Char := [' ', '=', '"', '/']

/-- **`Clean` texts that meet at a separator make a clean one**, because neither word has a
separator in it. -/
theorem Clean.join {s t : List Char} {c : Char} (hs : Clean s) (ht : Clean t)
    (hc : c ∈ separators) : Clean (s ++ c :: t) := by
  have hwords : ∀ c ∈ separators, ∀ word ∈ nonFiniteTexts, c ∉ word := by decide
  intro word hword hoccurs
  rcases infix_of_infix_append_cons (hwords c hc word hword) hoccurs with h | h
  · exact hs word hword h
  · exact ht word hword h

/-- A text without the first letters of the words is clean.  That is how numbers and units are seen
to be. -/
theorem clean_of_not_mem {s : List Char} (hN : 'N' ∉ s) (hi : 'i' ∉ s) : Clean s := by
  intro word hword hoccurs
  simp only [nonFiniteTexts, List.mem_cons, List.not_mem_nil, or_false] at hword
  rcases hword with rfl | rfl
  · exact hN (hoccurs.subset (by decide))
  · exact hi (hoccurs.subset (by decide))

/-! ## Attributes

The attributes are either keywords, of which a computation tells that they are clean, or numbers,
whose texts have none of the letters of the two words. -/

/-- An attribute whose name and value are clean. -/
def Attribute.Clean (a : Attribute) : Prop := Markup.Clean a.name.toList ∧ Markup.Clean a.value

theorem Attribute.clean_mk {name : String} {value : List Char} (hname : Markup.Clean name.toList)
    (hvalue : Markup.Clean value) : Attribute.Clean ⟨name, value⟩ :=
  ⟨hname, hvalue⟩

theorem clean_fixed {name value : String} (hname : Clean name.toList)
    (hvalue : Clean value.toList) : (Attribute.fixed name value).Clean :=
  ⟨hname, hvalue⟩

/-- The attributes of a tag meet at blanks, and their values stand between quotes.  Induction on the
attributes, for whatever stands before them in the tag. -/
theorem clean_attributes {attributes : List Attribute} (h : ∀ a ∈ attributes, a.Clean)
    {s : List Char} (hs : Clean s) : Clean (s ++ attributes.flatMap Attribute.text) := by
  induction attributes generalizing s with
  | nil =>
    rw [List.flatMap_nil, List.append_nil]
    exact hs
  | cons a attributes ih =>
    obtain ⟨hname, hvalue⟩ := h a List.mem_cons_self
    -- the attribute is put together from its end: value, quotes, equals sign, name, blank
    have hnil : Clean [] := by decide
    have hothers := ih (fun b hb => h b (List.mem_cons_of_mem a hb)) hnil
    have hafter := hvalue.join (c := '"') hothers (by decide)
    have hquoted := hnil.join (c := '"') hafter (by decide)
    have hassigned := hname.join (c := '=') hquoted (by decide)
    have hall := hs.join (c := ' ') hassigned (by decide)
    have htext : s ++ (a :: attributes).flatMap Attribute.text
        = s ++ ' ' :: (a.name.toList ++ '=' :: ([] ++ '"' :: (a.value ++ '"' ::
            ([] ++ attributes.flatMap Attribute.text)))) := by
      simp [Attribute.text]
    rw [htext]
    exact hall

/-- `Decimal.markupText` writes a finite number without the letters that the two words begin
with. -/
theorem not_mem_markupText {x : Float} (hx : x.isFinite = true) {c : Char}
    (hc : c ∉ Decimal.numeralCharacters) : c ∉ Decimal.markupText x :=
  fun hmem => hc (Decimal.isNumeral_markupText ((Decimal.isFinite_iff x).mp hx) c hmem)

theorem clean_markupText {x : Float} (hx : x.isFinite = true) : Clean (Decimal.markupText x) :=
  clean_of_not_mem (not_mem_markupText hx (by decide)) (not_mem_markupText hx (by decide))

/-- A length is `Clean` if the number is finite and its unit has none of the first letters. -/
theorem clean_lengthText {x : Float} (hx : x.isFinite = true) {unit : String}
    (hN : 'N' ∉ unit.toList) (hi : 'i' ∉ unit.toList) : Clean (lengthText x unit) := by
  refine clean_of_not_mem (fun hmem => ?_) (fun hmem => ?_)
  · rcases List.mem_append.mp hmem with hmem | hmem
    · exact not_mem_markupText hx (by decide) hmem
    · exact hN hmem
  · rcases List.mem_append.mp hmem with hmem | hmem
    · exact not_mem_markupText hx (by decide) hmem
    · exact hi hmem

theorem clean_emAttribute {name : String} (hname : Clean name.toList) {x : Float}
    (hx : x.isFinite = true) : (emAttribute name x).Clean :=
  ⟨hname, clean_lengthText hx (by decide) (by decide)⟩

/-- The alignments of a fraction are clean, being keywords. -/
theorem clean_alignmentAttributes {name : String} (hname : Clean name.toList)
    (alignment : Option Alignment) : ∀ a ∈ alignmentAttributes name alignment, a.Clean := by
  intro a ha
  cases alignment with
  | none => cases ha
  | some alignment =>
    rw [List.mem_singleton.mp ha]
    exact clean_fixed hname (by cases alignment <;> decide +kernel)

section Finite

variable {c : Config} (hc : c.Finite)
include hc

/-- The spacing of operators is `Clean`, if the width that the configuration has for it is
finite. -/
theorem clean_spacingAttributes (text : String) (large : Bool) :
    ∀ a ∈ spacingAttributes c text large, a.Clean := by
  intro a ha
  have hspacing : c.operatorSpacing.isFinite = true := hc .operatorSpacing
  unfold spacingAttributes at ha
  split at ha
  · simp only [List.mem_cons, List.not_mem_nil, or_false] at ha
    rcases ha with rfl | rfl <;> exact clean_emAttribute (by decide +kernel) hspacing
  · cases ha

/-- The attributes of the root are clean: three keywords and two numbers. -/
theorem clean_rootAttributes : ∀ a ∈ rootAttributes c, a.Clean := by
  have hsize : c.scriptMinSize.isFinite = true := hc .scriptMinSize
  have hscale : c.scriptScale.isFinite = true := hc .scriptScale
  intro a ha
  simp only [rootAttributes, List.mem_cons, List.not_mem_nil, or_false] at ha
  rcases ha with rfl | rfl | rfl | rfl | rfl
  · exact clean_fixed (by decide +kernel) (by decide +kernel)
  · exact clean_fixed (by decide +kernel) (by decide +kernel)
  · split <;> exact clean_fixed (by decide +kernel) (by decide +kernel)
  · exact Attribute.clean_mk (by decide +kernel) (clean_lengthText hsize (by decide) (by decide))
  · exact Attribute.clean_mk (by decide +kernel) (clean_markupText hscale)

/-- The attributes that a configuration with finite numbers gives rise to are clean.  In the terms
of `Admits` the same configuration stands on both sides, and the relation looks at one of them
only. -/
theorem admits_clean : Admits c c fun attributes _ => ∀ a ∈ attributes, a.Clean where
  padding := rfl
  -- all keywords at once, by a computation
  keyword pairs hpairs a ha := by
    have hclean : ∀ pair ∈ keywords, Clean pair.1.toList ∧ Clean pair.2.toList := by
      decide +kernel
    obtain ⟨pair, hpair, rfl⟩ := List.mem_map.mp ha
    exact hclean pair (hpairs pair hpair)
  fraction a ha := by
    rcases List.mem_cons.mp ha with rfl | ha
    · exact clean_emAttribute (by decide +kernel) (hc .fracLineThickness)
    · rcases List.mem_append.mp ha with ha | ha
      · exact clean_alignmentAttributes (by decide +kernel) _ a ha
      · exact clean_alignmentAttributes (by decide +kernel) _ a ha
  table a ha := by
    simp only [tableAttributes, List.mem_cons, List.not_mem_nil, or_false] at ha
    rcases ha with rfl | rfl
    · exact clean_emAttribute (by decide +kernel) (hc .matrixRowGap)
    · exact clean_emAttribute (by decide +kernel) (hc .matrixColGap)
  paddingWidth a ha := by
    rw [List.mem_singleton.mp ha]
    exact clean_emAttribute (by decide +kernel) (hc .fencePadding)

end Finite

/-! ## Elements

What has been shown of the attributes goes on to the tags.  The tags of operators are treated apart,
because `Corresponds` keeps account of them and does not relate their attributes. -/

theorem clean_openPiece (tag : Tag) {attributes : List Attribute}
    (h : ∀ a ∈ attributes, a.Clean) : Clean (openPiece tag attributes).characters :=
  clean_attributes h (by cases tag <;> decide +kernel)

theorem clean_closePiece (tag : Tag) : Clean (closePiece tag).characters := by
  cases tag <;> decide +kernel

theorem clean_voidPiece (tag : Tag) {attributes : List Attribute}
    (h : ∀ a ∈ attributes, a.Clean) : Clean (voidPiece tag attributes).characters :=
  (clean_openPiece tag h).join (c := '/') (t := []) (by decide) (by decide)

/-- The tags of a token are the one that opens it and the one that closes it.  What stands between
them is no tag. -/
theorem clean_token {tag : Tag} {attributes : List Attribute} {text : List Char}
    (h : ∀ a ∈ attributes, a.Clean) {p : Piece}
    (hp : p ∈ (Element.token tag attributes text).pieces) (htag : p.isTag = true) :
    Clean p.characters := by
  rcases List.mem_append.mp hp with hp | hp
  · rcases List.mem_cons.mp hp with rfl | hp
    · exact clean_openPiece tag h
    · unfold textPieces at hp
      split at hp
      · cases hp
      · rw [List.mem_singleton.mp hp] at htag
        cases htag
  · rw [List.mem_singleton.mp hp]
    exact clean_closePiece tag

/-- **The tags of elements with clean attributes are clean**, those of operators included.
Induction on `Corresponds`, which gives the attributes of every element that is no operator. -/
theorem clean_pieces {c : Config} (hc : c.Finite) {ops : List (String × Bool)}
    {es es' : List Element}
    (h : Corresponds c c (fun attributes _ => ∀ a ∈ attributes, a.Clean) ops es es') :
    ∀ p ∈ Element.piecesAll es, p.isTag = true → Clean p.characters := by
  induction h with
  | nil => intro p hp; cases hp
  | operator text large =>
    -- the attributes of an operator: two keywords if it is large, and its spacing
    intro p hp htag
    rw [Element.piecesAll_singleton] at hp
    refine clean_token (fun a ha => ?_) hp htag
    rcases List.mem_append.mp ha with ha | ha
    · split at ha
      · simp only [List.mem_cons, List.not_mem_nil, or_false] at ha
        rcases ha with rfl | rfl <;> exact clean_fixed (by decide +kernel) (by decide +kernel)
      · cases ha
    · exact clean_spacingAttributes hc text large a ha
  | token tag text hattributes =>
    intro p hp htag
    rw [Element.piecesAll_singleton] at hp
    exact clean_token hattributes hp htag
  | void tag hattributes =>
    intro p hp htag
    rw [Element.piecesAll_singleton] at hp
    rw [List.mem_singleton.mp hp]
    exact clean_voidPiece tag hattributes
  | container tag hattributes _ ih =>
    -- the tags of an element are its own two and those of what stands in it
    intro p hp htag
    rw [Element.piecesAll_singleton, Element.pieces] at hp
    rcases List.mem_append.mp hp with hp | hp
    · rcases List.mem_append.mp hp with hp | hp
      · rw [List.mem_singleton.mp hp]
        exact clean_openPiece tag hattributes
      · exact ih p hp htag
    · rw [List.mem_singleton.mp hp]
      exact clean_closePiece tag
  | append _ _ ih ih' =>
    intro p hp htag
    rw [Element.piecesAll_append] at hp
    rcases List.mem_append.mp hp with hp | hp
    · exact ih p hp htag
    · exact ih' p hp htag

/-- The spaces of a layout have the widths of the configuration, or their negatives, and both are
finite (`isFinite_neg`). -/
theorem everywhere_clean_layOut {c : Config} (hc : c.Finite) (formula : Formula) :
    (Formula.layOut c formula).Everywhere
      (AdmitsSpace fun attributes _ => ∀ a ∈ attributes, a.Clean) := by
  refine Node.everywhere_relabel (fun node width hwidth a ha => ?_) formula
  rw [List.mem_singleton.mp ha]
  refine clean_emAttribute (by decide +kernel) ?_
  -- only a space becomes a space
  cases node with
  | space name =>
    obtain rfl : SpaceName.width c name = width := Node.space.inj hwidth
    cases name with
    | thin => exact hc .thinSpace
    | medium => exact hc .mediumSpace
    | thick => exact hc .thickSpace
    | negativeThin => exact (Decimal.isFinite_neg c.thinSpace).trans (hc .thinSpace)
    | quad => exact hc .quad
    | qquad => exact hc .qquad
  | _ => cases hwidth

/-- **No tag of the markup of a source shows a number that is not finite**, if those of the
configuration are.  The pieces of the output are those of its document (`pieces_document`). -/
theorem clean_convert {c : Config} (hc : c.Finite) (source : List Char) :
    ∀ p ∈ pieces (convert c source), p.isTag = true → Clean p.characters := by
  have hdocument := corresponds_document (admits_clean hc) (clean_rootAttributes hc)
    (everywhere_clean_layOut hc (Formula.read source).value)
    (if c.annotates then some source else none)
  rw [convert, renderWithSource, pieces_document]
  exact clean_pieces hc hdocument

end FormulaMarkup.Markup
