import FormulaMarkup.Proofs.Markup.Attributes

/-!
# FormulaMarkup — markup cut into tags and texts

What remains of markup when nothing of it is understood but angle brackets: a sequence of tags and
of the texts between them.  Blanks between tags count only in elements that hold character data.

Cutting goes by the brackets, whatever the text is, and so two outputs can be compared without
knowing how either was made.  For a printed element the pieces are known (`pieces_print`), because
escaped text has no brackets and no attribute has one.

* **`Piece`** — a tag, given by what stands between its brackets, or a text.
* **`pieces`** — the pieces of a text, whatever it is.
* **`Piece.bare`** — a tag without its attributes.
* **`Yields`** — a part of a text gives these pieces.
* **`pieces_print`** — what a printed element is cut into, flat or indented.
-/

namespace FormulaMarkup.Markup

open Text

/-- What stands between the brackets of a tag, or a text. -/
structure Piece where
  isTag : Bool
  characters : List Char
  deriving DecidableEq

namespace Piece

/-- What is left of a tag without its attributes: its name, and the slash at the end of an empty
element.  A text stays as it is. -/
def bare (p : Piece) : Piece :=
  if p.isTag && p.characters.contains ' ' then
    ⟨true, p.characters.takeWhile (· != ' ')
      ++ (if p.characters.getLast? = some '/' then ['/'] else [])⟩
  else p

/-- Whether a piece opens an element that holds character data, which is known by its name. -/
def opensText (p : Piece) : Bool :=
  p.isTag && (Tag.ofName? p.bare.characters).any Tag.holdsText

end Piece

/-- Cuts a text at its angle brackets.  What has been read of the first piece is `part`.  Which
bracket ends a piece depends on whether it is a tag. -/
def cut (inTag : Bool) (part : List Char) : List Char → List Piece
  | [] => [⟨inTag, part⟩]
  | c :: s =>
    if c = (if inTag then '>' else '<') then ⟨inTag, part⟩ :: cut (!inTag) [] s
    else cut inTag (part ++ [c]) s

/-- Leaves out texts that are no texts: empty ones, and blanks outside the elements that hold
character data. -/
def tidy (inText : Bool) : List Piece → List Piece
  | [] => []
  | p :: ps =>
    if p.isTag then p :: tidy p.opensText ps
    else if p.characters.all isBlank && !(inText && !p.characters.isEmpty) then tidy inText ps
    else p :: tidy inText ps

/-- The tags and texts of a piece of markup. -/
def pieces (s : List Char) : List Piece := tidy false (cut false [] s)

/-! ## Pieces of tags and texts

What has been read of a piece and not yet been cut off is carried along, and at every tag of the
output it consists of blanks.  That is what `Yields` hands on from one part to the next. -/

section Cut

variable {inTag : Bool} {part s : List Char}

/-- Without a bracket that would end it, a piece goes on. -/
theorem cut_append (h : (if inTag then '>' else '<') ∉ s) (part t : List Char) :
    cut inTag part (s ++ t) = cut inTag (part ++ s) t := by
  induction s generalizing part with
  | nil => rw [List.nil_append, List.append_nil]
  | cons c s ih =>
    have hc : c ≠ (if inTag then '>' else '<') := fun heq => h (heq ▸ List.mem_cons_self)
    have hs : (if inTag then '>' else '<') ∉ s := fun hmem => h (List.mem_cons_of_mem c hmem)
    rw [List.cons_append, cut, if_neg hc, ih hs, List.append_assoc]
    rfl

theorem cut_text (h : '<' ∉ s) (part t : List Char) :
    cut false part (s ++ '<' :: t) = ⟨false, part ++ s⟩ :: cut true [] t := by
  rw [cut_append h]
  rfl

theorem cut_tag (h : '>' ∉ s) (t : List Char) :
    cut true [] (s ++ '>' :: t) = ⟨true, s⟩ :: cut false [] t := by
  rw [cut_append h]
  rfl

end Cut

/-- The pieces of a text that is not part of a tag: none if it is empty. -/
def textPieces (s : List Char) : List Piece := if s.isEmpty then [] else [⟨false, s⟩]

theorem tidy_blank {part : List Char} (h : part.all isBlank = true) (ps : List Piece) :
    tidy false (⟨false, part⟩ :: ps) = tidy false ps := by
  simp [tidy, h]

/-- A text in an element that holds character data counts, unless it is empty; so do blanks
there. -/
theorem tidy_text (s : List Char) (ps : List Piece) :
    tidy true (⟨false, s⟩ :: ps) = textPieces s ++ tidy true ps := by
  cases s with
  | nil => rfl
  | cons c s => simp [tidy, textPieces]

theorem tidy_tag (inText : Bool) (inside : List Char) (ps : List Piece) :
    tidy inText (⟨true, inside⟩ :: ps)
      = ⟨true, inside⟩ :: tidy (Piece.opensText ⟨true, inside⟩) ps := rfl

/-- Outside the elements that hold character data, and after any blanks, a part `s` of a text gives
the pieces `ps`, and leaves nothing but blanks before what follows. -/
def Yields (s : List Char) (ps : List Piece) : Prop :=
  ∀ part t, part.all isBlank = true → ∃ part', part'.all isBlank = true ∧
    tidy false (cut false part (s ++ t)) = ps ++ tidy false (cut false part' t)

section Yields

variable {s t : List Char} {ps qs : List Piece}

theorem Yields.nil : Yields [] [] := fun part _ hpart => ⟨part, hpart, rfl⟩

/-- **Parts one after the other.** Their pieces follow one another, and the blanks that the first
part leaves are dropped by the second one. -/
theorem Yields.append (hs : Yields s ps) (ht : Yields t qs) : Yields (s ++ t) (ps ++ qs) := by
  intro part u hpart
  obtain ⟨part', hpart', hcut⟩ := hs part (t ++ u) hpart
  obtain ⟨part'', hpart'', hcut'⟩ := ht part' u hpart'
  refine ⟨part'', hpart'', ?_⟩
  rw [List.append_assoc, hcut, hcut', List.append_assoc]

/-- Blanks give no pieces, so that indentation does not show. -/
theorem Yields.blanks (h : ∀ c ∈ s, isBlank c = true) : Yields s [] := by
  intro part t hpart
  have hbracket : '<' ∉ s := fun hmem => absurd (h _ hmem) (by decide)
  refine ⟨part ++ s, ?_, ?_⟩
  · rw [List.all_append, hpart, List.all_eq_true.mpr h]
    rfl
  · rw [cut_append hbracket]
    rfl

/-- A tag that opens no text is a piece of its own: one that closes an element, or opens one that
holds others. -/
theorem Yields.tag {inside : List Char} (hinside : '>' ∉ inside)
    (hopens : Piece.opensText ⟨true, inside⟩ = false) :
    Yields ('<' :: inside ++ ['>']) [⟨true, inside⟩] := by
  intro part t hpart
  refine ⟨[], rfl, ?_⟩
  have htext : '<' :: inside ++ ['>'] ++ t = [] ++ '<' :: (inside ++ '>' :: t) := by simp
  rw [htext, cut_text List.not_mem_nil, List.append_nil, tidy_blank hpart, cut_tag hinside,
    tidy_tag, hopens]
  rfl

/-- A tag that opens a text, the text, and the tag that closes it.  Inside, blanks count. -/
theorem Yields.token {inside data close : List Char} (hinside : '>' ∉ inside)
    (hopens : Piece.opensText ⟨true, inside⟩ = true) (hdata : '<' ∉ data) (hclose : '>' ∉ close)
    (hcloses : Piece.opensText ⟨true, close⟩ = false) :
    Yields ('<' :: inside ++ ['>'] ++ data ++ '<' :: close ++ ['>'])
      (⟨true, inside⟩ :: textPieces data ++ [⟨true, close⟩]) := by
  intro part t hpart
  refine ⟨[], rfl, ?_⟩
  have htext : '<' :: inside ++ ['>'] ++ data ++ '<' :: close ++ ['>'] ++ t
      = [] ++ '<' :: (inside ++ '>' :: (data ++ '<' :: (close ++ '>' :: t))) := by simp
  rw [htext, cut_text List.not_mem_nil, List.append_nil, tidy_blank hpart, cut_tag hinside,
    tidy_tag, hopens, cut_text hdata, List.nil_append, tidy_text, cut_tag hclose, tidy_tag,
    hcloses]
  simp

/-- A whole text has the pieces that it gives. -/
theorem Yields.pieces_eq (h : Yields s ps) : pieces s = ps := by
  obtain ⟨part, hpart, hcut⟩ := h [] [] rfl
  have hend : tidy false (cut false part []) = [] := tidy_blank hpart []
  rw [List.append_nil, hend, List.append_nil] at hcut
  exact hcut

end Yields

/-! ## Pieces of elements

The tags of an element are pieces of their own, and its character data is one between them, unless
it is empty. -/

/-- The piece of a tag that opens an element. -/
def openPiece (tag : Tag) (attributes : List Attribute) : Piece :=
  ⟨true, tag.name.toList ++ attributes.flatMap Attribute.text⟩

/-- The piece of a tag that closes an element. -/
def closePiece (tag : Tag) : Piece := ⟨true, '/' :: tag.name.toList⟩

/-- The piece of a tag of an empty element. -/
def voidPiece (tag : Tag) (attributes : List Attribute) : Piece :=
  ⟨true, tag.name.toList ++ attributes.flatMap Attribute.text ++ ['/']⟩

theorem Tag.space_not_mem_name (tag : Tag) : ' ' ∉ tag.name.toList :=
  fun h => (tag.name_plain ' ' h).1 rfl

/-- The name is what stands before the first blank. -/
theorem Tag.takeWhile_name (tag : Tag) (s : List Char) :
    (tag.name.toList ++ ' ' :: s).takeWhile (· != ' ') = tag.name.toList := by
  rw [List.takeWhile_append_of_pos]
  · simp
  · intro c hc
    simpa using (tag.name_plain c hc).1

/-- Without its attributes, an opening tag is the name, which ends at the first blank. -/
theorem bare_openPiece (tag : Tag) (attributes : List Attribute) :
    (openPiece tag attributes).bare = openPiece tag [] := by
  have hname := tag.space_not_mem_name
  rcases attributes_shape attributes with h | ⟨middle, h⟩
  · simp [openPiece, Piece.bare, h, hname]
  · have hlast : (' ' :: (middle ++ ['"'])).getLast? = some '"' := by
      rw [← List.cons_append, List.getLast?_concat]
    simp [openPiece, Piece.bare, h, hlast, tag.takeWhile_name]

/-- Without its attributes, the tag of an empty element is the name and the slash. -/
theorem bare_voidPiece (tag : Tag) (attributes : List Attribute) :
    (voidPiece tag attributes).bare = voidPiece tag [] := by
  have hname := tag.space_not_mem_name
  rcases attributes_shape attributes with h | ⟨middle, h⟩
  · simp [voidPiece, Piece.bare, h, hname]
  · have hsplit : ' ' :: (middle ++ ['"', '/']) = (' ' :: (middle ++ ['"'])) ++ ['/'] := by simp
    have hlast : (' ' :: (middle ++ ['"', '/'])).getLast? = some '/' := by
      rw [hsplit, List.getLast?_concat]
    simp [voidPiece, Piece.bare, h, hlast, tag.takeWhile_name]

/-- An opening tag opens a text if its element holds character data, whatever attributes it has. -/
theorem opensText_openPiece (tag : Tag) (attributes : List Attribute) :
    (openPiece tag attributes).opensText = tag.holdsText := by
  rw [Piece.opensText, bare_openPiece]
  simp [openPiece, Tag.ofName?_name]

/-- The tag of an empty element opens no text. -/
theorem opensText_voidPiece (tag : Tag) (attributes : List Attribute) :
    (voidPiece tag attributes).opensText = false := by
  -- a name with a slash after it is no name
  have hname : Tag.ofName? (voidPiece tag []).characters = none := by
    cases tag <;> decide
  rw [Piece.opensText, bare_voidPiece, hname]
  rfl

theorem opensText_closePiece (tag : Tag) : (closePiece tag).opensText = false := by
  cases tag <;> decide

theorem bracket_not_mem {tag : Tag} {attributes : List Attribute}
    (h : ∀ a ∈ attributes, a.Plain) :
    '>' ∉ tag.name.toList ++ attributes.flatMap Attribute.text :=
  fun hmem => absurd (not_isReserved_of_mem_tag h hmem) (by decide)

theorem yields_openTag {tag : Tag} {attributes : List Attribute} (htag : tag.holdsText = false)
    (h : ∀ a ∈ attributes, a.Plain) : Yields (openTag tag attributes) [openPiece tag attributes] :=
  .tag (bracket_not_mem h) ((opensText_openPiece tag attributes).trans htag)

theorem bracket_not_mem_close (tag : Tag) : '>' ∉ '/' :: tag.name.toList := by
  cases tag <;> decide

theorem yields_closeTag (tag : Tag) : Yields (closeTag tag) [closePiece tag] :=
  .tag (bracket_not_mem_close tag) (opensText_closePiece tag)

/-- The tag of an empty element is one piece. -/
theorem yields_voidTag (tag : Tag) {attributes : List Attribute}
    (h : ∀ a ∈ attributes, a.Plain) :
    Yields (voidTag tag attributes) [voidPiece tag attributes] := by
  have hinside : '>' ∉ tag.name.toList ++ attributes.flatMap Attribute.text ++ ['/'] := by
    intro hmem
    rcases List.mem_append.mp hmem with hmem | hmem
    · exact bracket_not_mem h hmem
    · cases List.mem_singleton.mp hmem
  have htag := Yields.tag hinside (opensText_voidPiece tag attributes)
  have htext : voidTag tag attributes
      = '<' :: (tag.name.toList ++ attributes.flatMap Attribute.text ++ ['/']) ++ ['>'] := by
    simp [voidTag]
  rw [htext]
  exact htag

theorem bracket_not_mem_escape (s : List Char) : '<' ∉ escape s :=
  fun hmem => absurd (eq_ampersand_of_mem_escape rfl hmem) (by decide)

namespace Element

mutual

/-- The tags and texts of an element. -/
def pieces : Element → List Piece
  | .token tag attributes text =>
    openPiece tag attributes :: textPieces (escape text) ++ [closePiece tag]
  | .void tag attributes => [voidPiece tag attributes]
  | .container tag attributes children =>
    [openPiece tag attributes] ++ piecesAll children ++ [closePiece tag]

/-- The tags and texts of elements in a row. -/
def piecesAll : List Element → List Piece
  | [] => []
  | element :: elements => pieces element ++ piecesAll elements

end

theorem piecesAll_singleton (e : Element) : piecesAll [e] = e.pieces :=
  List.append_nil e.pieces

/-- The pieces of elements one after the other. -/
theorem piecesAll_append (es fs : List Element) :
    piecesAll (es ++ fs) = piecesAll es ++ piecesAll fs := by
  induction es with
  | nil => rfl
  | cons e es ih => rw [List.cons_append, piecesAll, ih, piecesAll, List.append_assoc]

end Element

/-- A line gives its pieces, whatever blanks stand in front of it. -/
theorem Yields.line {lead : Nat → List Char} (hlead : BlankLead lead) {line : Line}
    {ps : List Piece} (h : Yields line.text ps) : Yields (writtenWith lead [line]) ps := by
  have hline := (Yields.blanks (hlead line.depth)).append h
  simpa [writtenWith] using hline

mutual

/-- **An element is cut into its pieces** (`Element.pieces`), whatever blanks stand in front of its
lines. -/
theorem yields_lines {lead : Nat → List Char} (hlead : BlankLead lead) :
    ∀ (e : Element), e.Proper → ∀ depth, Yields (writtenWith lead (e.lines depth)) e.pieces
  | .token tag attributes text, h, depth => by
    refine Yields.line hlead ?_
    have htoken := Yields.token (bracket_not_mem h.2)
      ((opensText_openPiece tag attributes).trans h.1) (bracket_not_mem_escape text)
      (bracket_not_mem_close tag) (opensText_closePiece tag)
    rw [Text.appendEscaped_eq, openTag, closeTag, ← List.append_assoc]
    exact htoken
  | .void tag attributes, h, depth => Yields.line hlead (yields_voidTag tag h)
  | .container tag attributes children, h, depth => by
    obtain ⟨htag, hattributes, hchildren⟩ := h
    -- the first tag, what stands in the element, and the last tag
    have hopen : Yields (writtenWith lead [⟨depth, openTag tag attributes⟩]) _ :=
      Yields.line hlead (yields_openTag htag hattributes)
    have hclose : Yields (writtenWith lead [⟨depth, closeTag tag⟩]) _ :=
      Yields.line hlead (yields_closeTag tag)
    have hall :=
      (hopen.append (yields_linesAll hlead children hchildren (depth + 1))).append hclose
    rw [← writtenWith_append, ← writtenWith_append] at hall
    exact hall

/-- Elements in a row are cut into their pieces, whatever blanks stand in front of their lines. -/
theorem yields_linesAll {lead : Nat → List Char} (hlead : BlankLead lead) :
    ∀ (es : List Element), Element.ProperAll es → ∀ depth,
      Yields (writtenWith lead (Element.linesAll depth es)) (Element.piecesAll es)
  | [], _, _ => Yields.nil
  | e :: es, h, depth => by
    rw [Element.linesAll, writtenWith_append]
    exact (yields_lines hlead e h.1 depth).append (yields_linesAll hlead es h.2 depth)

end

/-- What stands before every line but the first. -/
def leadOf (pretty : Bool) : Nat → List Char := if pretty then lineBreak else fun _ => []

/-- In either way of printing only blanks stand before a line. -/
theorem blankLead_leadOf (pretty : Bool) : BlankLead (leadOf pretty) := by
  cases pretty with
  | false => exact blankLead_nil
  | true => exact blankLead_lineBreak

/-- The first line of a printed element has nothing in front, all others have what they are led
by. -/
theorem print_container (tag : Tag) (attributes : List Attribute) (children : List Element)
    (pretty : Bool) :
    (Element.container tag attributes children).print pretty
      = openTag tag attributes ++ (writtenWith (leadOf pretty) (Element.linesAll 1 children)
        ++ writtenWith (leadOf pretty) [⟨0, closeTag tag⟩]) := by
  rw [← writtenWith_append]
  cases pretty with
  | false => simp [Element.print, Element.lines, flat, writtenWith, leadOf]
  | true => rfl

/-- **A printed element is cut into its pieces**, flat or indented.  The first line has no blanks in
front (`print_container`), and the others have blanks that do not show. -/
theorem pieces_print {tag : Tag} {attributes : List Attribute} {children : List Element}
    (h : (Element.container tag attributes children).Proper) (pretty : Bool) :
    pieces ((Element.container tag attributes children).print pretty)
      = (Element.container tag attributes children).pieces := by
  obtain ⟨htag, hattributes, hchildren⟩ := h
  have hlead := blankLead_leadOf pretty
  have hclose : Yields (writtenWith (leadOf pretty) [⟨0, closeTag tag⟩]) _ :=
    Yields.line hlead (yields_closeTag tag)
  have hall := (yields_openTag htag hattributes).append
    ((yields_linesAll hlead children hchildren 1).append hclose)
  rw [print_container, hall.pieces_eq, Element.pieces, List.append_assoc]

/-- A document is cut into the pieces of its element. -/
theorem pieces_document (c : Config) (node : Layout) (source : Option (List Char))
    (pretty : Bool) :
    pieces ((document c node source).print pretty) = Element.piecesAll [document c node source] :=
  (pieces_print (document_proper c node source) pretty).trans (Element.piecesAll_singleton _).symm

example : (pieces "<mrow>\n    <mi class=\"a\"> x</mi>\n</mrow>".toList).map Piece.bare =
    [⟨true, "mrow".toList⟩, ⟨true, "mi".toList⟩, ⟨false, " x".toList⟩, ⟨true, "/mi".toList⟩,
      ⟨true, "/mrow".toList⟩] := by decide

end FormulaMarkup.Markup
