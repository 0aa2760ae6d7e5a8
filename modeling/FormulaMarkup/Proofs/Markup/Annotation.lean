import FormulaMarkup.Proofs.Markup.Indentation
import FormulaMarkup.Proofs.Markup.TagSearch

/-!
# FormulaMarkup — the source beside the formula

A formula may go with its source, which then stands in an element of its own, in a wrapper around
both.  No formula and no source, whatever tags and entities are written in them, can be taken for
the tags of the wrapper: these are found by comparing characters, and deleting them leaves the
formula alone.

The argument has two parts.  The tags of a formula have other names than those of the wrapper, and
its texts have no brackets; so a search goes past all of it (`passes_lines`).  And the source is
escaped, so that it has no brackets either, and a search for its closing tag finds the right one.

* **`wrapperTags`** — what stands between the brackets of these tags.
* **`passes_lines`** — the search for one of them goes past the elements of a formula.
* **`print_annotated`** — the output for a formula with its source, part by part.
* **`annotationText?`**, **`withoutWrapper`** — the text between the tags of the source, and the
  output without the wrapper and the source.
* **`annotation_carries_source`** — the main statement.
-/

namespace FormulaMarkup.Markup

open Text

/-- What stands between the brackets of the tags that go with a source: two that open an element and
two that close one. -/
def wrapperTags : List (List Char) :=
  ["semantics".toList, "annotation encoding=\"application/x-tex\"".toList, "/annotation".toList,
    "/semantics".toList]

/-! ## The elements of a formula are no wrapper

Tags are compared without their attributes.  Of two tags with names of their own a computation tells
that they differ, over all names that occur. -/

section Passes

variable {tag : Tag} {mark : List Char} (hmark : mark ∈ wrapperTags)
include hmark

theorem brackets_not_mem_wrapperTag : '<' ∉ mark ∧ '>' ∉ mark := by
  simp only [wrapperTags, List.mem_cons, List.not_mem_nil, or_false] at hmark
  rcases hmark with rfl | rfl | rfl | rfl <;> decide

theorem passes_wrapperTag {other : List Char} (hother : other ∈ wrapperTags) (hne : other ≠ mark) :
    Passes mark (tagText other) :=
  passes_tag (brackets_not_mem_wrapperTag hmark).2 (brackets_not_mem_wrapperTag hother) hne

/-- A tag whose name is its own is none of the wrapper, with any attributes.  The names are compared
by a computation over all of them, and `Piece.bare` is what is left of a tag without its
attributes. -/
theorem passes_piece (htag : tag.isWrapper = false) {p : Piece} (hp : p.isTag = true)
    (hplain : ∀ c ∈ p.characters, isReserved c = false)
    (hbare : p.bare ∈ [openPiece tag [], voidPiece tag [], closePiece tag]) :
    Passes mark (tagText p.characters) := by
  have hnone : ∀ q ∈ [openPiece tag [], voidPiece tag [], closePiece tag],
      q ≠ Piece.bare ⟨true, mark⟩ := by
    simp only [wrapperTags, List.mem_cons, List.not_mem_nil, or_false] at hmark
    rcases hmark with rfl | rfl | rfl | rfl <;> revert htag <;> cases tag <;> decide
  refine passes_tag (brackets_not_mem_wrapperTag hmark).2
    ⟨fun h => absurd (hplain _ h) (by decide), fun h => absurd (hplain _ h) (by decide)⟩ ?_
  rintro rfl
  obtain ⟨isTag, characters⟩ := p
  obtain rfl : isTag = true := hp
  exact hnone _ hbare rfl

/-- A search for the wrapper goes past an opening tag with another name. -/
theorem passes_openTag (htag : tag.isWrapper = false) {attributes : List Attribute}
    (h : ∀ a ∈ attributes, a.Plain) : Passes mark (openTag tag attributes) := by
  have hbare := bare_openPiece tag attributes
  exact passes_piece hmark htag (p := openPiece tag attributes) rfl
    (fun _ hc => not_isReserved_of_mem_tag h hc) (by simp [hbare])

/-- It goes past the tag of an empty element. -/
theorem passes_voidTag (htag : tag.isWrapper = false) {attributes : List Attribute}
    (h : ∀ a ∈ attributes, a.Plain) : Passes mark (voidTag tag attributes) := by
  have hbare := bare_voidPiece tag attributes
  have hplain : ∀ c ∈ (voidPiece tag attributes).characters, isReserved c = false := by
    intro c hc
    rcases List.mem_append.mp hc with hc | hc
    · exact not_isReserved_of_mem_tag h hc
    · rw [List.mem_singleton.mp hc]
      rfl
  have hpasses := passes_piece hmark htag rfl hplain (by simp [hbare])
  simpa [voidTag, voidPiece, tagText] using hpasses

/-- It goes past a closing tag. -/
theorem passes_closeTag (htag : tag.isWrapper = false) : Passes mark (closeTag tag) := by
  have hbare : (closePiece tag).bare = closePiece tag := by cases tag <;> decide
  have hplain : ∀ c ∈ (closePiece tag).characters, isReserved c = false := by
    intro c hc
    rcases List.mem_cons.mp hc with rfl | hc
    · rfl
    · exact (tag.name_plain c hc).2.2
  exact passes_piece hmark htag rfl hplain (by simp [hbare])

end Passes

theorem passes_blanks (mark : List Char) {s : List Char} (h : ∀ c ∈ s, isBlank c = true) :
    Passes mark s :=
  passes_text fun hmem => absurd (h _ hmem) (by decide)

/-- A search for the wrapper goes past a `Line` that it would go past without its blanks. -/
theorem passes_line {mark : List Char} {lead : Nat → List Char} (hlead : BlankLead lead)
    {line : Line} (h : Passes mark line.text) : Passes mark (writtenWith lead [line]) := by
  have hline := (passes_blanks mark (hlead line.depth)).append h
  simpa [writtenWith] using hline

mutual

/-- **No element of a formula can be taken for a tag of the wrapper**, whatever its text.  That its
tags are none of the wrapper is known from `FormulaTree`, that its text has no brackets from
escaping. -/
theorem passes_lines {mark : List Char} (hmark : mark ∈ wrapperTags) {lead : Nat → List Char}
    (hlead : BlankLead lead) : ∀ (e : Element), e.Proper → FormulaTree e.tree → ∀ depth,
      Passes mark (writtenWith lead (e.lines depth))
  | .token tag attributes text, h, .element htag _ _, depth => by
    refine passes_line hlead ?_
    rw [Text.appendEscaped_eq]
    have hopening := passes_openTag hmark htag h.2
    exact (hopening.append (passes_text (bracket_not_mem_escape text))).append
      (passes_closeTag hmark htag)
  | .void tag attributes, h, .element htag _ _, depth =>
    passes_line hlead (passes_voidTag hmark htag h)
  | .container tag attributes children, h, .element htag _ hchildren, depth => by
    obtain ⟨-, hattributes, hproper⟩ := h
    -- the first tag, what stands in the element, and the last tag
    have hopen : Passes mark (writtenWith lead [⟨depth, openTag tag attributes⟩]) :=
      passes_line hlead (passes_openTag hmark htag hattributes)
    have hclose : Passes mark (writtenWith lead [⟨depth, closeTag tag⟩]) :=
      passes_line hlead (passes_closeTag hmark htag)
    have hcontent := passes_linesAll hmark hlead children hproper hchildren (depth + 1)
    have hall := (hopen.append hcontent).append hclose
    rw [← writtenWith_append, ← writtenWith_append] at hall
    exact hall

/-- A search for the wrapper goes past elements in a row if it goes past each of their lines. -/
theorem passes_linesAll {mark : List Char} (hmark : mark ∈ wrapperTags) {lead : Nat → List Char}
    (hlead : BlankLead lead) : ∀ (es : List Element), Element.ProperAll es →
      (∀ tree ∈ Element.trees es, FormulaTree tree) → ∀ depth,
        Passes mark (writtenWith lead (Element.linesAll depth es))
  | [], _, _, _ => .nil mark
  | e :: es, h, hes, depth => by
    rw [Element.linesAll, writtenWith_append]
    have hrest : ∀ tree ∈ Element.trees es, FormulaTree tree := fun tree htree =>
      hes tree (List.mem_cons_of_mem _ htree)
    exact (passes_lines hmark hlead e h.1 (hes _ List.mem_cons_self) depth).append
      (passes_linesAll hmark hlead es h.2 hrest depth)

end

/-! ## Whole documents

The output is written out from the root to its closing tag, with the tags of the wrapper apart from
what stands between them. -/

/-- The output for a formula with its source: the root, the wrapper, the formula, the source between
its tags, and the closing tags, with what leads each line (`leadOf`). -/
theorem print_annotated (config : Config) (node : Layout) (source : List Char) (pretty : Bool) :
    (document config node (some source)).print pretty =
      (openTag .math (rootAttributes config) ++ leadOf pretty 1) ++ (tagText "semantics".toList ++
        ((writtenWith (leadOf pretty) ((presentation config node).lines 2) ++ leadOf pretty 2) ++
          (tagText "annotation encoding=\"application/x-tex\"".toList ++ (escape source ++
            (tagText "/annotation".toList ++ (leadOf pretty 1 ++ (tagText "/semantics".toList ++
              (leadOf pretty 0 ++ closeTag .math)))))))) := by
  have hopen : tagText "semantics".toList = openTag .semantics [] := rfl
  have hsource : tagText "annotation encoding=\"application/x-tex\"".toList
      = openTag .sourceText [.fixed "encoding" "application/x-tex"] := rfl
  have hend : tagText "/annotation".toList = closeTag .sourceText := rfl
  have hclose : tagText "/semantics".toList = closeTag .semantics := rfl
  rw [document, print_container, hopen, hsource, hend, hclose]
  simp [annotated, Element.linesAll, Element.lines, writtenWith, Text.appendEscaped_eq]

/-- The flat output for a formula with its source. -/
theorem print_annotated_flat (config : Config) (node : Layout) (source : List Char) :
    (document config node (some source)).print false =
      openTag .math (rootAttributes config) ++ (tagText "semantics".toList ++
        (flat ((presentation config node).lines 2) ++
          (tagText "annotation encoding=\"application/x-tex\"".toList ++ (escape source ++
            (tagText "/annotation".toList ++
              (tagText "/semantics".toList ++ closeTag .math)))))) := by
  rw [print_annotated]
  simp only [leadOf, Bool.false_eq_true, if_false, List.append_nil, List.nil_append,
    ← flat_eq_writtenWith]

/-- The output for a formula without its source. -/
theorem print_bare (config : Config) (node : Layout) :
    (document config node none).print false =
      openTag .math (rootAttributes config) ++
        (flat ((presentation config node).lines 2) ++ closeTag .math) := by
  rw [flat_lines 2 1, document, print_container]
  simp [Element.linesAll, writtenWith, leadOf, flat]

/-! ## Finding and deleting the source

Each tag of the wrapper stands once in the output.  In front of it stand the root and the formula,
and behind it the source and tags of the wrapper with other names. -/

/-- The text between the first tag that opens the source and the first following tag that closes it
(`elementText?`).  This is how a page gets the source out of the output. -/
def annotationText? (output : List Char) : Option (List Char) :=
  elementText? "annotation encoding=\"application/x-tex\"".toList "/annotation".toList output

/-- The output with the tags of the wrapper and the whole element of the source deleted, by
`withoutTag` and `withoutElement`. -/
def withoutWrapper (output : List Char) : List Char :=
  withoutTag "/semantics".toList
    (withoutElement "annotation encoding=\"application/x-tex\"".toList "/annotation".toList
      (withoutTag "semantics".toList output))

section Output

variable (config : Config) (node : Layout) {mark : List Char} (hmark : mark ∈ wrapperTags)
include hmark

/-- A search for the wrapper goes past the first tag of the root. -/
theorem passes_root : Passes mark (openTag .math (rootAttributes config)) :=
  passes_openTag hmark rfl fun _ ha => plain_of_mem_rootAttributes ha

/-- It goes past the formula, whatever blanks stand before its lines. -/
theorem passes_formula {lead : Nat → List Char} (hlead : BlankLead lead) (depth : Nat) :
    Passes mark (writtenWith lead ((presentation config node).lines depth)) :=
  passes_lines hmark hlead _ (presentation_proper config node) (formulaTree_nodeTree config node)
    depth

/-- It goes past the formula in flat output. -/
theorem passes_flatFormula (depth : Nat) :
    Passes mark (flat ((presentation config node).lines depth)) := by
  rw [flat_eq_writtenWith]
  exact passes_formula config node hmark blankLead_nil depth

end Output

/-- **The source is found**, flat or indented, as it is written between its tags.  In front of it
stand the root, the opening tag of the wrapper and the formula, past which the search goes. -/
theorem annotationText?_print (config : Config) (node : Layout) (source : List Char)
    (pretty : Bool) :
    annotationText? ((document config node (some source)).print pretty) = some (escape source) := by
  have hmark : "annotation encoding=\"application/x-tex\"".toList ∈ wrapperTags := by
    simp [wrapperTags]
  have hlead := blankLead_leadOf pretty
  have hopenMark : Passes _ (tagText "semantics".toList) :=
    passes_wrapperTag hmark (by simp [wrapperTags]) (by decide)
  have hopen := ((passes_root config hmark).append (passes_blanks _ (hlead 1))).append hopenMark
  have hformula := (passes_formula config node hmark hlead 2).append (passes_blanks _ (hlead 2))
  have hsource : Passes "/annotation".toList (escape source) :=
    passes_text (bracket_not_mem_escape source)
  rw [print_annotated, ← List.append_assoc, ← List.append_assoc, annotationText?]
  exact (hopen.append hformula).elementText?_eq hsource _

/-- What comes behind the formula does not open the wrapper again, whatever the source is: `escape`
writes its angle brackets as entities. -/
theorem passes_behind_formula (source : List Char) :
    Passes "semantics".toList
      (tagText "annotation encoding=\"application/x-tex\"".toList ++ (escape source ++
        (tagText "/annotation".toList ++ (tagText "/semantics".toList ++ closeTag .math)))) := by
  have hmark : "semantics".toList ∈ wrapperTags := by simp [wrapperTags]
  have hsource : Passes "semantics".toList
      (tagText "annotation encoding=\"application/x-tex\"".toList) :=
    passes_wrapperTag hmark (by simp [wrapperTags]) (by decide)
  have hend : Passes "semantics".toList (tagText "/annotation".toList) :=
    passes_wrapperTag hmark (by simp [wrapperTags]) (by decide)
  have hclose : Passes "semantics".toList (tagText "/semantics".toList) :=
    passes_wrapperTag hmark (by simp [wrapperTags]) (by decide)
  exact hsource.append ((passes_text (bracket_not_mem_escape source)).append
    (hend.append (hclose.append (passes_closeTag hmark rfl))))

/-- **Deleting the wrapper and the source** leaves the output for the formula alone.  Each tag is
found once, behind the root and the formula. -/
theorem withoutWrapper_print (config : Config) (node : Layout) (source : List Char) :
    withoutWrapper ((document config node (some source)).print false)
      = (document config node none).print false := by
  have hopenMark : "semantics".toList ∈ wrapperTags := by simp [wrapperTags]
  have hsourceMark : "annotation encoding=\"application/x-tex\"".toList ∈ wrapperTags := by
    simp [wrapperTags]
  have hcloseMark : "/semantics".toList ∈ wrapperTags := by simp [wrapperTags]
  have hfront : ∀ mark ∈ wrapperTags, Passes mark (openTag .math (rootAttributes config) ++
      flat ((presentation config node).lines 2)) := fun mark hmark =>
    (passes_root config hmark).append (passes_flatFormula config node hmark 2)
  -- the opening tag goes first, then the source with both its tags, and the closing tag last
  have hopen : withoutTag "semantics".toList ((document config node (some source)).print false)
      = (openTag .math (rootAttributes config) ++ flat ((presentation config node).lines 2)) ++
        (tagText "annotation encoding=\"application/x-tex\"".toList ++ (escape source ++
          (tagText "/annotation".toList ++ (tagText "/semantics".toList ++ closeTag .math)))) := by
    rw [print_annotated_flat, (passes_root config hopenMark).withoutTag_tag,
      ((passes_flatFormula config node hopenMark 2).append
        (passes_behind_formula source)).withoutTag_eq, List.append_assoc]
  have hclose : Passes "annotation encoding=\"application/x-tex\"".toList
      (tagText "/semantics".toList ++ closeTag .math) :=
    (passes_wrapperTag hsourceMark hcloseMark (by decide)).append (passes_closeTag hsourceMark rfl)
  have hsource : Passes "/annotation".toList (escape source) :=
    passes_text (bracket_not_mem_escape source)
  rw [withoutWrapper, hopen, (hfront _ hsourceMark).withoutElement_element hsource,
    hclose.withoutElement_eq, (hfront _ hcloseMark).withoutTag_tag,
    (passes_closeTag hcloseMark rfl).withoutTag_eq, print_bare, List.append_assoc]

/-- Where there is no source nothing is deleted. -/
theorem withoutWrapper_print_bare (config : Config) (node : Layout) :
    withoutWrapper ((document config node none).print false)
      = (document config node none).print false := by
  have hall : ∀ mark ∈ wrapperTags, Passes mark ((document config node none).print false) := by
    intro mark hmark
    rw [print_bare]
    exact (passes_root config hmark).append
      ((passes_flatFormula config node hmark 2).append (passes_closeTag hmark rfl))
  rw [withoutWrapper, (hall _ (by simp [wrapperTags])).withoutTag_eq,
    (hall _ (by simp [wrapperTags])).withoutElement_eq,
    (hall _ (by simp [wrapperTags])).withoutTag_eq]

/-- A configuration with `annotate` turned off. -/
def withoutSource (config : Config) : Config :=
  config.overlay (Overrides.empty.set .annotate false)

/-- Without its source a formula is rendered as the parsed tree is, since the key `annotate` is
looked at neither by reading nor by the elements. -/
theorem convert_withoutSource (config : Config) (source : List Char) :
    convert (withoutSource config) source = render config (parse config source).value := by
  have hagree : ∀ keys : List Key, .annotate ∉ keys → (withoutSource config).AgreeOn keys config :=
    fun keys hkeys k hk => (config.agreeOn_overlay_set hkeys false k hk).symm
  have hvalue : (parse (withoutSource config) source).value = (parse config source).value :=
    Formula.layOut_eq_of_agreeOn (hagree _ (by decide)) _
  have hannotates : (withoutSource config).annotates = false := rfl
  rw [convert, renderWithSource, hannotates, if_neg (by simp), hvalue, render,
    document_eq_of_agreeOn (hagree _ (by decide)) (hagree _ (by decide)),
    isPretty_eq_of_agreeOn (hagree _ (by decide))]

/-- **The annotation carries the source exactly and leaves the formula untouched.** If the source is
to go with the formula, what stands between its tags is the source, once the entities are read back,
flat or indented.  In flat output, deleting the wrapper and the source (`withoutWrapper`) gives the
output `withoutSource`, which is the parsed tree rendered. -/
theorem annotation_carries_source (config : Config) (source : List Char) :
    (config.annotates = true →
      (annotationText? (convert config source)).map unescape = some source) ∧
    (config.isPretty = false →
      withoutWrapper (convert config source) = convert (withoutSource config) source) ∧
    convert (withoutSource config) source = render config (parse config source).value := by
  have hrender := convert_withoutSource config source
  refine ⟨fun hannotates => ?_, fun hflat => ?_, hrender⟩
  · rw [convert, renderWithSource, if_pos hannotates, annotationText?_print, Option.map_some,
      unescape_escape]
  · rw [hrender, convert, renderWithSource, render, hflat]
    cases config.annotates with
    | true => exact withoutWrapper_print config _ source
    | false => exact withoutWrapper_print_bare config _

/-- A source that spells out the tags of the wrapper and an entity, in flat and in indented
output. -/
def imitation : List Char :=
  "\\text\x7b</annotation><semantics>&amp;\x7d\n</semantics>".toList

/-- A source that imitates the wrapper, flat and indented. -/
theorem annotation_carries_source_imitation :
    ∃ config pretty : Config,
      config.annotates = true ∧ config.isPretty = false ∧
      pretty.annotates = true ∧ pretty.isPretty = true ∧
      (annotationText? (convert config imitation)).map unescape = some imitation ∧
      withoutWrapper (convert config imitation) = convert (withoutSource config) imitation ∧
      (annotationText? (convert pretty imitation)).map unescape = some imitation := by
  let config := Config.standard.overlay (Overrides.empty.set .annotate true)
  let pretty := config.overlay (Overrides.empty.set .prettyPrint PrettyPrint.always)
  have hflat := annotation_carries_source config imitation
  exact ⟨config, pretty, rfl, rfl, rfl, rfl, hflat.1 rfl, hflat.2.1 rfl,
    (annotation_carries_source pretty imitation).1 rfl⟩

end FormulaMarkup.Markup
