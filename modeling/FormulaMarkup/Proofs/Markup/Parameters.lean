import FormulaMarkup.Proofs.Markup.Correspondence
import FormulaMarkup.Proofs.Markup.Pieces

/-!
# FormulaMarkup — what the rendering parameters can change in the output

The parameters of rendering decide about attributes, about the padding of fences and about blanks
between tags.  They do not decide which tags and texts there are.

The tags and the texts are cut out of the output by `pieces`, which knows of angle brackets only.
Spacing is looked at in the text itself: it is inserted at the end of the start tags of operators,
and the segments around these tags are the same.

* **`bare_pieces`** — elements that correspond are cut into the same tags and texts.
* **`Inserts`** — one text arises from another by inserting spacing into the tags of operators.
* **`inserts_render`** — that is what the spacing of operators does.
* **`rendering_parameters`** — the main statement.
-/

namespace FormulaMarkup.Markup

open Text

/-! ## Tags and texts

The attributes do not matter here, and so the relation between them is the one that always holds. -/

/-- Elements that are the same up to attributes have the same tags and texts.  Induction on
`Corresponds`: without its attributes a tag is its name, with the slash of an empty element
(`Piece.bare`). -/
theorem bare_pieces {c c' : Config} {R : List Attribute → List Attribute → Prop}
    {ops : List (String × Bool)} {es es' : List Element} (h : Corresponds c c' R ops es es') :
    (Element.piecesAll es).map Piece.bare = (Element.piecesAll es').map Piece.bare := by
  induction h with
  | nil => rfl
  | operator text large =>
    simp [Element.piecesAll_singleton, Element.pieces, operatorElement, bare_openPiece]
  | token tag text _ => simp [Element.piecesAll_singleton, Element.pieces, bare_openPiece]
  | void tag _ => simp [Element.piecesAll_singleton, Element.pieces, bare_voidPiece]
  | container tag _ _ ih => simp [Element.piecesAll_singleton, Element.pieces, bare_openPiece, ih]
  | append _ _ ih ih' =>
    rw [Element.piecesAll_append, Element.piecesAll_append, List.map_append, List.map_append, ih,
      ih']

/-- The attributes do not matter at all where none of them is looked at, so padding is all that
`Admits` asks for then. -/
theorem admits_any {c c' : Config} (h : c.hasFencePadding = c'.hasFencePadding) :
    Admits c c' fun _ _ => True :=
  ⟨h, fun _ _ => trivial, trivial, trivial, trivial⟩

/-! ## Spacing of operators

The texts of two outputs are cut into segments at the start tags of operators.  Induction on the
correspondence puts the segments of an element together from those of its children. -/

/-- A part of a text: the element of an operator, or anything else.  `Inserts` cuts an output into
such parts. -/
inductive Segment where
  | other (written : List Char)
  | operator (text : String) (large : Bool)

namespace Segment

/-- The operator of a segment, if it is one. -/
def operator? : Segment → Option (String × Bool)
  | other _ => none
  | operator t large => some (t, large)

/-- The text of a segment, with something inserted at the end of the start tag of an operator. -/
def write (inserted : String → Bool → List Char) : Segment → List Char
  | other written => written
  | operator t large =>
    "<mo".toList ++ (if large then " largeop=\"true\" movablelimits=\"true\"".toList else [])
      ++ inserted t large ++ ">".toList ++ escape t.toList ++ "</mo>".toList

end Segment

/-- The spacing of an operator that takes some, which is a large one or one with a glyph that is
spaced. -/
def insertedSpacing (c : Config) (text : String) (large : Bool) : List Char :=
  if large || text.toList.any (spacedGlyphs.contains ·) then
    " lspace=\"".toList ++ Decimal.markupText c.operatorSpacing ++ "em\" rspace=\"".toList
      ++ Decimal.markupText c.operatorSpacing ++ "em\"".toList
  else []

/-- From `s` arises `s'` by inserting spacing into the start tags of the operators `ops`, which
follow one another in both texts.  The segments between these tags are the same. -/
def Inserts (c : Config) (ops : List (String × Bool)) (s s' : List Char) : Prop :=
  ∃ segments : List Segment, segments.filterMap Segment.operator? = ops ∧
    s = segments.flatMap (Segment.write fun _ _ => []) ∧
    s' = segments.flatMap (Segment.write (insertedSpacing c))

section Inserts

variable {c c' : Config}

theorem Inserts.same (c : Config) (s : List Char) : Inserts c [] s s := by
  refine ⟨[.other s], rfl, ?_, ?_⟩ <;> exact (List.append_nil s).symm

/-- If two texts arise by insertions (`Inserts`), so do both of them one after the other. -/
theorem Inserts.append {ops ops' : List (String × Bool)} {s s' t t' : List Char}
    (h : Inserts c ops s s') (h' : Inserts c ops' t t') :
    Inserts c (ops ++ ops') (s ++ t) (s' ++ t') := by
  obtain ⟨segments, rfl, rfl, rfl⟩ := h
  obtain ⟨segments', rfl, rfl, rfl⟩ := h'
  exact ⟨segments ++ segments', List.filterMap_append, List.flatMap_append.symm,
    List.flatMap_append.symm⟩

/-- The spacing of an operator as it stands in the tag. -/
def spacingText (c : Config) (text : String) (large : Bool) : List Char :=
  (spacingAttributes c text large).flatMap Attribute.text

/-- The configuration that asks for spacing writes what `insertedSpacing` says, with the width that
both configurations have. -/
theorem spacingText_of_on (h : c.operatorSpacing = c'.operatorSpacing)
    (hon : c'.useOperatorSpacing = true) : spacingText c' = insertedSpacing c := by
  funext text large
  rw [spacingText, spacingAttributes, insertedSpacing, hon, Bool.true_and, ← h]
  split
  · simp [Attribute.text, emAttribute, lengthText]
  · rfl

/-- Without spacing of operators, nothing is written in the tag. -/
theorem spacingText_of_off (hoff : c.useOperatorSpacing = false) :
    spacingText c = fun _ _ => [] := by
  funext text large
  rw [spacingText, spacingAttributes, hoff, Bool.false_and]
  rfl

/-- The attributes of a large operator as they stand in its tag. -/
theorem text_largeAttributes (large : Bool) :
    (if large then [Attribute.fixed "largeop" "true", .fixed "movablelimits" "true"]
      else []).flatMap Attribute.text
      = if large then " largeop=\"true\" movablelimits=\"true\"".toList else [] := by
  cases large with
  | false => rfl
  | true => decide

/-- The tag of an operator ends with its spacing, so that the element is two segments: what leads
its line, and the operator. -/
theorem written_operatorElement (c : Config) (lead : Nat → List Char) (depth : Nat) (text : String)
    (large : Bool) :
    writtenWith lead (Element.linesAll depth [operatorElement c text large])
      = [Segment.other (lead depth), .operator text large].flatMap
          (Segment.write (spacingText c)) := by
  have hopen : openTag .mo ((if large then
      [Attribute.fixed "largeop" "true", .fixed "movablelimits" "true"] else [])
        ++ spacingAttributes c text large)
      = "<mo".toList ++ (if large then " largeop=\"true\" movablelimits=\"true\"".toList else [])
        ++ spacingText c text large ++ ">".toList := by
    rw [openTag, List.flatMap_append, text_largeAttributes, ← List.append_assoc]
    rfl
  show lead depth ++ (appendEscaped (openTag .mo _) text.toList ++ closeTag .mo) ++ []
    = lead depth ++ (_ ++ ">".toList ++ escape text.toList ++ "</mo>".toList ++ [])
  rw [appendEscaped_eq, hopen, List.append_nil, List.append_nil]
  rfl

/-- Elements that differ in the attributes of operators only are written with nothing but spacing
inserted.  Induction on `Corresponds` with equality for the relation, at any depth of lines. -/
theorem inserts_written (hspacing : c.operatorSpacing = c'.operatorSpacing)
    (hoff : c.useOperatorSpacing = false) (hon : c'.useOperatorSpacing = true)
    {ops : List (String × Bool)} {es es' : List Element} (h : Corresponds c c' Eq ops es es')
    (lead : Nat → List Char) (depth : Nat) :
    Inserts c ops (writtenWith lead (Element.linesAll depth es))
      (writtenWith lead (Element.linesAll depth es')) := by
  induction h generalizing depth with
  | nil => exact .same c []
  | operator text large =>
    refine ⟨[.other (lead depth), .operator text large], rfl, ?_, ?_⟩
    · rw [written_operatorElement, spacingText_of_off hoff]
    · rw [written_operatorElement, spacingText_of_on hspacing hon]
  | token tag text hattributes => exact hattributes ▸ .same c _
  | void tag hattributes => exact hattributes ▸ .same c _
  | @container tag attributes _ _ _ _ hattributes _ ih =>
    -- what stands in the element is written one line deeper, between two tags that are the same
    subst hattributes
    have hopen := Inserts.same c (lead depth ++ openTag tag attributes)
    have hclose := Inserts.same c (lead depth ++ closeTag tag)
    have hall := (hopen.append (ih (depth + 1))).append hclose
    simpa [writtenWith, Element.linesAll, Element.lines] using hall
  | append _ _ ih ih' =>
    have hboth := (ih depth).append (ih' depth)
    rwa [← writtenWith_append, ← writtenWith_append, ← Element.linesAll_append,
      ← Element.linesAll_append] at hboth

/-- The two configurations give rise to the same attributes, but for those of operators, which
`Admits` does not ask for. -/
theorem admits_eq (h : c.AgreeOn [.fracLineThickness, .fracNumAlign, .fracDenomAlign,
    .matrixRowGap, .matrixColGap, .fencePadding] c') : Admits c c' Eq := by
  have hline : c.fracLineThickness = c'.fracLineThickness := h .fracLineThickness (by decide)
  have hnum : c.fracNumAlign = c'.fracNumAlign := h .fracNumAlign (by decide)
  have hdenom : c.fracDenomAlign = c'.fracDenomAlign := h .fracDenomAlign (by decide)
  have hrow : c.matrixRowGap = c'.matrixRowGap := h .matrixRowGap (by decide)
  have hcol : c.matrixColGap = c'.matrixColGap := h .matrixColGap (by decide)
  have hpadding : c.fencePadding = c'.fencePadding := h .fencePadding (by decide)
  refine ⟨?_, fun _ _ => rfl, ?_, ?_, ?_⟩
  · rw [Config.hasFencePadding, Config.hasFencePadding, hpadding]
  · rw [fractionAttributes, fractionAttributes, hline, hnum, hdenom]
  · rw [tableAttributes, tableAttributes, hrow, hcol]
  · rw [hpadding]

/-- **Asking for the spacing of operators inserts it and changes nothing else**, in the whole output
of `render`.  The segments with an operator are the `operators` of the tree, in order. -/
theorem inserts_render (hagree : ∀ k, k ≠ .useOperatorSpacing → c.get k = c'.get k)
    (hoff : c.useOperatorSpacing = false) (hon : c'.useOperatorSpacing = true) (node : Layout) :
    Inserts c node.operators (render c node) (render c' node) := by
  have hkeys : ∀ keys : List Key, .useOperatorSpacing ∉ keys → c.AgreeOn keys c' := by
    intro keys hkeys k hk
    exact hagree k fun heq => hkeys (heq ▸ hk)
  have hspacing : c.operatorSpacing = c'.operatorSpacing := hagree .operatorSpacing (by decide)
  have hpretty := isPretty_eq_of_agreeOn (hkeys _ (by decide))
  have hroot := rootAttributes_eq_of_agreeOn (hkeys _ (by decide))
  have hnode := corresponds_presentation (admits_eq (hkeys _ (by decide)))
    (Node.everywhere_of_forall (fun _ _ _ => rfl) node)
  -- the tags of the root are the same, and only operators stand between them
  have hinner := inserts_written hspacing hoff hon hnode (leadOf c.isPretty) 1
  have hopen := Inserts.same c (openTag .math (rootAttributes c))
  have hclose := Inserts.same c (writtenWith (leadOf c.isPretty) [⟨0, closeTag .math⟩])
  have hall := hopen.append (hinner.append hclose)
  rw [List.nil_append, List.append_nil] at hall
  rw [render, render, document, document, print_container, print_container, ← hpretty, ← hroot]
  exact hall

end Inserts

/-- **The rendering parameters change neither the tags nor the texts of the output.** If two
configurations both write the padding of fences or both do not, the outputs for one tree are the
same sequence of `pieces` once the attributes are dropped.  If they differ in nothing but the
spacing of operators, the one that asks for it inserts it (`insertedSpacing`) into the start tags of
the `operators` of the tree, in their order, and changes nothing else.  And the size and the fonts
of the surroundings have no influence on the markup of a source. -/
theorem rendering_parameters (c c' : Config) :
    (c.hasFencePadding = c'.hasFencePadding → ∀ node,
      (pieces (render c node)).map Piece.bare = (pieces (render c' node)).map Piece.bare) ∧
    ((∀ k, k ≠ .useOperatorSpacing → c.get k = c'.get k) →
      c.useOperatorSpacing = false → c'.useOperatorSpacing = true → ∀ node : Layout,
      ∃ segments : List Segment, segments.filterMap Segment.operator? = node.operators ∧
        render c node = segments.flatMap (Segment.write fun _ _ => []) ∧
        render c' node = segments.flatMap (Segment.write (insertedSpacing c))) ∧
    ((∀ k, k ∉ [.baseFontSize, .mathFontFamily, .uiFontFamily] → c.get k = c'.get k) →
      ∀ source, convert c source = convert c' source) := by
  refine ⟨fun hpadding node => ?_, inserts_render, fun hagree source => ?_⟩
  · have hdocument := corresponds_document (admits_any hpadding) trivial
      (Node.everywhere_of_forall (fun _ _ _ => trivial) node) none
    rw [render, render, pieces_document, pieces_document]
    exact bare_pieces hdocument
  · have hkeys : ∀ keys : List Key,
        (∀ k ∈ keys, k ∉ [.baseFontSize, .mathFontFamily, .uiFontFamily]) → c.AgreeOn keys c' :=
      fun keys hkeys k hk => hagree k (hkeys k hk)
    have hannotates : c.annotates = c'.annotates := hagree .annotate (by decide)
    have hpretty := isPretty_eq_of_agreeOn (hkeys _ (by decide))
    have hnode : (parse c source).value = (parse c' source).value :=
      Formula.layOut_eq_of_agreeOn (hkeys _ (by decide)) _
    rw [convert, convert, renderWithSource, renderWithSource, hnode, hannotates, hpretty,
      document_eq_of_agreeOn (hkeys _ (by decide)) (hkeys _ (by decide))]

/-- The standard configuration with bars of another thickness. -/
def thickBars : Config :=
  Config.standard.overlay (Overrides.empty.set .fracLineThickness (1.0 : Float))

/-- The standard configuration with spacing of operators. -/
def spacedOperators : Config :=
  Config.standard.overlay (Overrides.empty.set .useOperatorSpacing true)

/-- The standard configuration for surroundings of another size. -/
def smallSurroundings : Config :=
  Config.standard.overlay (Overrides.empty.set .baseFontSize (1.0 : Float))

/-- A fraction, which has no operator. -/
def half : Layout := .fraction (.number "1") (.number "2") .inherit

/-- An equation, which has one operator. -/
def equation : Layout := .row [.identifier "a" false, .operator "=" false, .number "1"]

/-- The standard configuration beside three others: with thick bars, with spaced operators, and for
small surroundings. -/
theorem rendering_parameters_standard :
    (Config.standard.hasFencePadding = thickBars.hasFencePadding ∧
      (pieces (render .standard half)).map Piece.bare
        = (pieces (render thickBars half)).map Piece.bare) ∧
    ((∀ k, k ≠ .useOperatorSpacing → Config.standard.get k = spacedOperators.get k) ∧
      Config.standard.useOperatorSpacing = false ∧ spacedOperators.useOperatorSpacing = true ∧
      ∃ segments : List Segment, segments.filterMap Segment.operator? = equation.operators ∧
        render .standard equation = segments.flatMap (Segment.write fun _ _ => []) ∧
        render spacedOperators equation
          = segments.flatMap (Segment.write (insertedSpacing .standard))) ∧
    ((∀ k, k ∉ [.baseFontSize, .mathFontFamily, .uiFontFamily] →
        Config.standard.get k = smallSurroundings.get k) ∧
      convert .standard "x^2".toList = convert smallSurroundings "x^2".toList) := by
  -- setting one key leaves the others alone
  have hset : ∀ (k : Key) (value : k.Value) (other : Key), other ≠ k → Config.standard.get other
      = (Config.standard.overlay (Overrides.empty.set k value)).get other := by
    intro k value other hne
    exact Config.agreeOn_overlay_set .standard (fun hk => hne (List.mem_singleton.mp hk).symm) value
      other List.mem_cons_self
  have hspaced : ∀ k, k ≠ .useOperatorSpacing →
      Config.standard.get k = spacedOperators.get k := hset .useOperatorSpacing true
  have hsized : ∀ k, k ∉ [.baseFontSize, .mathFontFamily, .uiFontFamily] →
      Config.standard.get k = smallSurroundings.get k :=
    fun k hk => hset .baseFontSize (1.0 : Float) k fun heq => hk (heq ▸ List.mem_cons_self)
  obtain ⟨hpieces, -, -⟩ := rendering_parameters .standard thickBars
  obtain ⟨-, hinserts, -⟩ := rendering_parameters .standard spacedOperators
  obtain ⟨-, -, hconvert⟩ := rendering_parameters .standard smallSurroundings
  exact ⟨⟨rfl, hpieces rfl half⟩, ⟨hspaced, rfl, rfl, hinserts hspaced rfl rfl equation⟩,
    hsized, hconvert hsized _⟩

end FormulaMarkup.Markup
