import FormulaMarkup.Markup.Presentation
import FormulaMarkup.Proofs.Markup.ElementText

/-!
# FormulaMarkup — the attributes of a formula

Attribute values are written as they are, without escaping.  That is safe because none of them can
contain a reserved character: keywords are fixed, and the text of a number is made of digits, signs,
a point and a few letters, whatever the number.

Nothing from a source ever gets into an attribute, and so these are facts about keywords and numbers
alone.  With them every element is proper, which is what the lemmas on reading markup back ask for.

* **`isNumeral_text`** — the characters that a finite number is written with.
* **`markupText_plain`** — no number is written with a reserved character.
* **`presentation_proper`** — the element of every node is proper, under every configuration.
* **`document_proper`** — so is every document.
-/

namespace FormulaMarkup.Decimal

open Text

/-- The characters that the text of a finite number is made of. -/
def numeralCharacters : List Char :=
  ['0', '1', '2', '3', '4', '5', '6', '7', '8', '9', '-', '.', 'e']

/-- A text of `numeralCharacters` only.  It stays one whatever of it is dropped or put together. -/
def IsNumeral (s : List Char) : Prop := ∀ c ∈ s, c ∈ numeralCharacters

/-- Two numeral texts one after the other make one. -/
theorem IsNumeral.append {s t : List Char} (hs : IsNumeral s) (ht : IsNumeral t) :
    IsNumeral (s ++ t) := by
  intro c hc
  rcases List.mem_append.mp hc with hc | hc
  · exact hs c hc
  · exact ht c hc

/-- A numeral character can be put in front. -/
theorem IsNumeral.cons {c : Char} {s : List Char} (hc : c ∈ numeralCharacters)
    (hs : IsNumeral s) : IsNumeral (c :: s) := by
  intro d hd
  rcases List.mem_cons.mp hd with rfl | hd
  · exact hc
  · exact hs d hd

/-- A text without other characters than such a text has is one, too. -/
theorem IsNumeral.of_subset {s t : List Char} (ht : IsNumeral t) (h : s ⊆ t) : IsNumeral s :=
  fun c hc => ht c (h hc)

/-- Zeros are numeral characters; they fill up a number between its digits and its point. -/
theorem isNumeral_replicate_zero (n : Nat) : IsNumeral (List.replicate n '0') := by
  intro c hc
  rw [List.eq_of_mem_replicate hc]
  decide

theorem mem_numeralCharacters_of_isDigit {c : Char} (h : c.isDigit = true) :
    c ∈ numeralCharacters :=
  of_isDigit (by decide) h

theorem isNumeral_toDigits (n : Nat) : IsNumeral (Nat.toDigits 10 n) :=
  fun _ hc => mem_numeralCharacters_of_isDigit
    (Nat.isDigit_of_mem_toDigits (by decide) (by decide) hc)

/-- An integer is written with digits, and a sign in front if it is negative.  Exponents are
integers. -/
theorem isNumeral_intText (n : Int) : IsNumeral (intText n) := by
  unfold intText
  split
  · exact .cons (by decide) (isNumeral_toDigits _)
  · exact isNumeral_toDigits _

/-- The significant digits of a number are digits, since they are those of its mantissa without the
zeros at its end. -/
theorem isNumeral_ofScientific (s : Scientific) : IsNumeral (Digits.ofScientific s).digits := by
  refine (isNumeral_toDigits s.digits).of_subset fun c hc => ?_
  have hc := List.mem_reverse.mp hc
  exact List.mem_reverse.mp ((List.dropWhile_suffix _).subset hc)

/-- The form with an exponent has the first digit, a point with the other digits if there are any,
and the exponent behind the letter `e`. -/
theorem isNumeral_exponentText {d : Digits} (h : IsNumeral d.digits) :
    IsNumeral d.exponentText := by
  have hfirst : IsNumeral (d.digits.take 1) := h.of_subset (List.take_subset _ _)
  have hothers : IsNumeral (if d.digits.length ≤ 1 then [] else '.' :: d.digits.drop 1) := by
    split
    · intro c hc
      simp at hc
    · exact .cons (by decide) (h.of_subset (List.drop_subset _ _))
  exact (hfirst.append hothers).append (.cons (by decide) (isNumeral_intText _))

/-- The form without an exponent has digits, zeros and a point.  What follows a whole number is
given by the `Form`, and so it is a hypothesis here. -/
theorem isNumeral_positionalText {d : Digits} (h : IsNumeral d.digits) {whole : List Char}
    (hwhole : IsNumeral whole) : IsNumeral (d.positionalText whole) := by
  -- the point stands before the digits, after them, or between them
  unfold Digits.positionalText
  split
  · have hzeros := (isNumeral_replicate_zero (-d.point).toNat).append h
    exact .cons (by decide) (.cons (by decide) hzeros)
  · split
    · exact (h.append (isNumeral_replicate_zero _)).append hwhole
    · exact (h.of_subset (List.take_subset _ _)).append
        (.cons (by decide) (h.of_subset (List.drop_subset _ _)))

/-- **A finite number is written with numeral characters**, in either form and with either sign, if
the `Form` ends whole numbers with such characters. -/
theorem isNumeral_text {f : Form} (hf : IsNumeral f.whole) {x : Float}
    (hx : (Fields.of x).exponentBits ≠ 2047) : IsNumeral (text f x) := by
  have hsign : IsNumeral (if (Fields.of x).negative then ['-'] else []) := by
    split <;> intro c hc <;> simp_all [numeralCharacters]
  -- zero, or the digits
  simp only [text, if_neg hx]
  split
  · exact hsign.append (.cons (by decide) hf)
  · next b _ =>
    refine hsign.append ?_
    unfold Digits.text
    split
    · exact isNumeral_exponentText (isNumeral_ofScientific _)
    · exact isNumeral_positionalText (isNumeral_ofScientific _) hf

theorem isNumeral_markupText {x : Float} (hx : (Fields.of x).exponentBits ≠ 2047) :
    IsNumeral (markupText x) :=
  isNumeral_text (f := .markup) (fun _ hc => absurd hc List.not_mem_nil) hx

/-- What is not finite has one of three texts, `inf`, `-inf` and `NaN`. -/
theorem text_of_not_finite (f : Form) {x : Float} (hx : (Fields.of x).exponentBits = 2047) :
    text f x ∈ ["inf".toList, "-inf".toList, "NaN".toList] := by
  simp only [text, if_pos hx]
  cases (Fields.of x).negative <;> split <;> decide

/-- **`Decimal.markupText` writes no character that markup reserves**, be the number finite or not.
So a number from a configuration cannot end the attribute or the tag in which it stands. -/
theorem markupText_plain (x : Float) : ∀ c ∈ markupText x, isReserved c = false := by
  intro c hc
  by_cases hx : (Fields.of x).exponentBits = 2047
  · have hplain : ∀ s ∈ ["inf".toList, "-inf".toList, "NaN".toList],
        s.all (fun c => !isReserved c) = true := by decide
    have hall := hplain _ (text_of_not_finite .markup hx)
    simpa using List.all_eq_true.mp hall c hc
  · have hplain : ∀ c ∈ numeralCharacters, isReserved c = false := by decide
    exact hplain c (isNumeral_markupText hx c hc)

end FormulaMarkup.Decimal

namespace FormulaMarkup.Markup

open Text

/-! ## Attributes

An attribute is plain if its name and its value are.  The names are all fixed, and so a computation
decides about them; a value is a keyword, which is decided in the same way, or a number. -/

theorem Attribute.plain_mk {name : String} {value : List Char}
    (hname : ∀ c ∈ name.toList, isReserved c = false)
    (hvalue : ∀ c ∈ value, isReserved c = false) : Attribute.Plain ⟨name, value⟩ :=
  ⟨hname, hvalue⟩

theorem Attribute.plain_fixed {name value : String}
    (hname : ∀ c ∈ name.toList, isReserved c = false)
    (hvalue : ∀ c ∈ value.toList, isReserved c = false) : (Attribute.fixed name value).Plain :=
  ⟨hname, hvalue⟩

/-- A length is plain if its unit is, whatever the number (`markupText_plain`). -/
theorem lengthText_plain (value : Float) {unit : String}
    (h : ∀ c ∈ unit.toList, isReserved c = false) :
    ∀ c ∈ lengthText value unit, isReserved c = false := by
  intro c hc
  rcases List.mem_append.mp hc with hc | hc
  · exact Decimal.markupText_plain value c hc
  · exact h c hc

theorem plain_emAttribute {name : String} (value : Float)
    (h : ∀ c ∈ name.toList, isReserved c = false) : (emAttribute name value).Plain :=
  ⟨h, lengthText_plain value (by decide)⟩

/-- The spacing of operators is plain, whether the configuration asks for it or not. -/
theorem plain_of_mem_spacingAttributes {config : Config} {text : String} {large : Bool}
    {a : Attribute} (ha : a ∈ spacingAttributes config text large) : a.Plain := by
  unfold spacingAttributes at ha
  split at ha
  · simp only [List.mem_cons, List.not_mem_nil, or_false] at ha
    rcases ha with rfl | rfl <;> exact plain_emAttribute _ (by decide)
  · simp at ha

/-- The alignments of a fraction are plain, being keywords. -/
theorem plain_of_mem_alignmentAttributes {name : String} {alignment : Option Alignment}
    (h : ∀ c ∈ name.toList, isReserved c = false) {a : Attribute}
    (ha : a ∈ alignmentAttributes name alignment) : a.Plain := by
  cases alignment with
  | none => simp [alignmentAttributes] at ha
  | some alignment =>
    simp only [alignmentAttributes, List.mem_singleton] at ha
    subst ha
    exact Attribute.plain_fixed h (by cases alignment <;> decide)

/-- The attributes of the root are plain: three keywords and two numbers. -/
theorem plain_of_mem_rootAttributes {config : Config} {a : Attribute}
    (ha : a ∈ rootAttributes config) : a.Plain := by
  simp only [rootAttributes, List.mem_cons, List.not_mem_nil, or_false] at ha
  -- three keywords and two numbers
  rcases ha with rfl | rfl | rfl | rfl | rfl
  · exact Attribute.plain_fixed (by decide) (by decide)
  · exact Attribute.plain_fixed (by decide) (by decide)
  · split <;> exact Attribute.plain_fixed (by decide) (by decide)
  · exact Attribute.plain_mk (by decide) (lengthText_plain _ (by decide))
  · exact Attribute.plain_mk (by decide) (Decimal.markupText_plain _)

/-! ## Elements

One lemma for each construct, and from them the element of every node by recursion.  Character data
stands in tokens only, and the tag of each of these holds some. -/

/-- An operator is proper, large or not, spaced or not.  Its text may be any, as it is escaped. -/
theorem proper_operatorElement (config : Config) (text : String) (large : Bool) :
    (operatorElement config text large).Proper := by
  refine ⟨rfl, fun a ha => ?_⟩
  rcases List.mem_append.mp ha with ha | ha
  · split at ha
    · simp only [List.mem_cons, List.not_mem_nil, or_false] at ha
      rcases ha with rfl | rfl <;> exact Attribute.plain_fixed (by decide) (by decide)
    · simp at ha
  · exact plain_of_mem_spacingAttributes ha

/-- An identifier is proper, upright or not. -/
theorem proper_identifierElement (text : String) (upright : Bool) :
    (identifierElement text upright).Proper := by
  refine ⟨rfl, fun a ha => ?_⟩
  split at ha
  · rw [List.mem_singleton.mp ha]
    exact Attribute.plain_fixed (by decide) (by decide)
  · simp at ha

/-- A space is proper, whatever its width. -/
theorem proper_spaceElement (width : Float) : (spaceElement width).Proper := by
  intro a ha
  rw [List.mem_singleton.mp ha]
  exact plain_emAttribute width (by decide)

theorem proper_container {tag : Tag} {a : Attribute} {children : List Element}
    (htag : tag.holdsText = false) (ha : a.Plain) (hc : Element.ProperAll children) :
    (Element.container tag [a] children).Proper :=
  ⟨htag, fun _ hb => List.mem_singleton.mp hb ▸ ha, hc⟩

theorem proper_bare {tag : Tag} {children : List Element} (htag : tag.holdsText = false)
    (hc : Element.ProperAll children) : (Element.container tag [] children).Proper :=
  ⟨htag, fun _ hb => by simp at hb, hc⟩

/-- A fraction of `Proper` elements is proper, in any size.  A size of its own is one element more
around it. -/
theorem proper_fractionElement (config : Config) {numerator denominator : Element}
    (hn : numerator.Proper) (hd : denominator.Proper) (style : FractionStyle) :
    (fractionElement config numerator denominator style).Proper := by
  have hfraction : (Element.container .mfrac
      (emAttribute "linethickness" config.fracLineThickness ::
        (alignmentAttributes "numalign" config.fracNumAlign
          ++ alignmentAttributes "denomalign" config.fracDenomAlign))
      [numerator, denominator]).Proper := by
    refine ⟨rfl, fun a ha => ?_, hn, hd, trivial⟩
    rcases List.mem_cons.mp ha with rfl | ha
    · exact plain_emAttribute _ (by decide)
    · rcases List.mem_append.mp ha with ha | ha
      · exact plain_of_mem_alignmentAttributes (by decide) ha
      · exact plain_of_mem_alignmentAttributes (by decide) ha
  -- the size is one fixed attribute
  cases style with
  | inherit => exact hfraction
  | display =>
    exact proper_container rfl (Attribute.plain_fixed (by decide) (by decide)) ⟨hfraction, trivial⟩
  | text =>
    exact proper_container rfl (Attribute.plain_fixed (by decide) (by decide)) ⟨hfraction, trivial⟩

/-- An accent over or under a proper element is proper. -/
theorem proper_accentElement {body : Element} (hb : body.Proper) (glyph : String)
    (position : AccentPosition) : (accentElement body glyph position).Proper := by
  have hmark : (Element.token .mo [.fixed "accent" "true"] glyph.toList).Proper :=
    ⟨rfl, fun a ha => List.mem_singleton.mp ha ▸ Attribute.plain_fixed (by decide) (by decide)⟩
  cases position <;>
    exact proper_container rfl (Attribute.plain_fixed (by decide) (by decide)) ⟨hb, hmark, trivial⟩

/-- The glyph of a fence is proper, if there is one. -/
theorem properAll_fenceGlyph (glyph : String) : Element.ProperAll (fenceGlyph glyph) := by
  unfold fenceGlyph
  split
  · trivial
  · refine ⟨⟨rfl, fun a ha => ?_⟩, trivial⟩
    simp only [List.mem_cons, List.not_mem_nil, or_false] at ha
    rcases ha with rfl | rfl | rfl | rfl <;> exact Attribute.plain_fixed (by decide) (by decide)

/-- The padding of a fence is proper, if there is any. -/
theorem properAll_fencePadding (config : Config) : Element.ProperAll (fencePadding config) := by
  unfold fencePadding
  split
  · exact ⟨proper_spaceElement _, trivial⟩
  · trivial

/-- A `Proper` element between two fences is proper, with its glyphs and its padding. -/
theorem proper_fencedElement (config : Config) (opening closing : String) {body : Element}
    (hb : body.Proper) : (fencedElement config opening closing body).Proper := by
  refine proper_bare rfl ?_
  simp only [Element.properAll_append]
  exact ⟨⟨⟨⟨properAll_fenceGlyph opening, properAll_fencePadding config⟩, hb, trivial⟩,
    properAll_fencePadding config⟩, properAll_fenceGlyph closing⟩

/-- A table of `Proper` rows is proper, with or without fences. -/
theorem proper_matrixElement (config : Config) {rows : List Element}
    (hr : Element.ProperAll rows) (opening closing : String) :
    (matrixElement config rows opening closing).Proper := by
  have htable : (Element.container .mtable
      [emAttribute "rowspacing" config.matrixRowGap,
        emAttribute "columnspacing" config.matrixColGap] rows).Proper := by
    refine ⟨rfl, fun a ha => ?_, hr⟩
    simp only [List.mem_cons, List.not_mem_nil, or_false] at ha
    rcases ha with rfl | rfl <;> exact plain_emAttribute _ (by decide)
  unfold matrixElement
  split
  · exact htable
  · exact proper_fencedElement config opening closing htable

/-- No element around a base and its scripts holds character data. -/
theorem holdsText_scriptTag (placement : ScriptPlacement) (hasSub hasSup : Bool) :
    (scriptTag placement hasSub hasSup).holdsText = false := by
  cases placement <;> cases hasSub <;> cases hasSup <;> rfl

mutual

/-- **The element of every node is proper**, under every configuration.  The recursion is that of
`presentation`, with the lists of nodes, cells, rows and scripts beside it. -/
theorem presentation_proper (config : Config) :
    ∀ node : Layout, (presentation config node).Proper
  | .row children => proper_bare rfl (presentationAll_proper config children)
  | .identifier t upright => proper_identifierElement t upright
  | .number t => ⟨rfl, fun a ha => by simp at ha⟩
  | .operator t large => proper_operatorElement config t large
  | .text t .words => ⟨rfl, fun a ha => by simp at ha⟩
  | .text t .operatorName => proper_identifierElement t true
  | .fraction numerator denominator style =>
    proper_fractionElement config (presentation_proper config numerator)
      (presentation_proper config denominator) style
  | .radical body none => proper_bare rfl ⟨presentation_proper config body, trivial⟩
  | .radical body (some index) =>
    proper_bare rfl
      ⟨presentation_proper config body, presentation_proper config index, trivial⟩
  | .scripted base sub sup placement => by
    refine proper_bare (holdsText_scriptTag _ _ _) ?_
    exact Element.properAll_append.mpr
      ⟨⟨presentation_proper config base, presentationOption_proper config sub⟩,
        presentationOption_proper config sup⟩
  | .accent body glyph position =>
    proper_accentElement (presentation_proper config body) glyph position
  | .fenced opening closing body =>
    proper_fencedElement config opening closing (presentation_proper config body)
  | .matrix rows opening closing =>
    proper_matrixElement config (presentationRows_proper config rows) opening closing
  -- one fixed attribute for each style, of which a computation tells that they are plain
  | .styled variant body => by
    refine proper_container rfl (Attribute.plain_fixed (by decide) ?_)
      ⟨presentation_proper config body, trivial⟩
    cases variant <;> decide
  | .space width => proper_spaceElement width
  | .phantom body => proper_bare rfl ⟨presentation_proper config body, trivial⟩
  | .lineBreak =>
    fun a ha => List.mem_singleton.mp ha ▸ Attribute.plain_fixed (by decide) (by decide)

theorem presentationAll_proper (config : Config) :
    ∀ nodes : List Layout, Element.ProperAll (presentationAll config nodes)
  | [] => trivial
  | node :: nodes => ⟨presentation_proper config node, presentationAll_proper config nodes⟩

/-- The cells of a row are proper, each being an element around that of its node. -/
theorem presentationCells_proper (config : Config) :
    ∀ cells : List Layout, Element.ProperAll (presentationCells config cells)
  | [] => trivial
  | cell :: cells =>
    ⟨proper_bare rfl ⟨presentation_proper config cell, trivial⟩,
      presentationCells_proper config cells⟩

/-- The rows of a table are proper, each being an element around its cells. -/
theorem presentationRows_proper (config : Config) :
    ∀ rows : List (List Layout), Element.ProperAll (presentationRows config rows)
  | [] => trivial
  | cells :: rows =>
    ⟨proper_bare rfl (presentationCells_proper config cells),
      presentationRows_proper config rows⟩

theorem presentationOption_proper (config : Config) :
    ∀ node : Option Layout, Element.ProperAll (presentationOption config node)
  | none => trivial
  | some node => ⟨presentation_proper config node, trivial⟩

end

/-- **Every document is `Proper`**, with and without its source.  Of the source nothing is known,
but it is character data in an element that holds some. -/
theorem document_proper (config : Config) (node : Layout) (source : Option (List Char)) :
    (document config node source).Proper := by
  have hnode := presentation_proper config node
  refine ⟨rfl, fun a ha => plain_of_mem_rootAttributes ha, ?_, trivial⟩
  cases source with
  | none => exact hnode
  | some source =>
    -- the wrapper holds the formula and the element of the source, which has one fixed attribute
    refine proper_bare rfl ⟨hnode, ⟨rfl, fun a ha => ?_⟩, trivial⟩
    rw [List.mem_singleton.mp ha]
    exact Attribute.plain_fixed (by decide) (by decide)

end FormulaMarkup.Markup
