import FormulaMarkup.Proofs.Markup.Dependence
import FormulaMarkup.Proofs.Markup.WellFormed
import FormulaMarkup.Proofs.Markup.Writing

/-!
# FormulaMarkup — indented output

Indented output is flat output with a line break and blanks before each of its lines.  Where a line
begins and how far it is indented is said here by what a reader finds: no line begins inside
character data, and each stands as deep as there are elements open at its place.

The reader is the one of `Proofs.Markup.Reader`, which knows nothing of nodes or of levels.  What it
has read before a line tells how many elements are open there, and the depth of the line is compared
with that number, so that a wrong level anywhere would show.

* **`Line.closes`** — whether a line closes an element that was opened on an earlier one.
* **`Walk`** — a reader goes over lines whose depths are the numbers of open elements.
* **`walk_lines`** — the lines of a proper element, by induction on the element.
* **`StandsAt`** — the same of the places of the lines in the whole text.
* **`indented_output`** — the main statement.
-/

namespace FormulaMarkup.Markup

open Text

/-- Whether a line is a closing tag, as its first two characters tell.  Such a line stands one level
less deep than what it closes. -/
def Line.closes (line : Line) : Bool := ['<', '/'].isPrefixOf line.text

/-- A reader goes over lines, from one progress to another.  Every line begins with a tag, outside
character data, and its depth is `base` more than the number of elements open around it: those that
are open before it, but for a closing tag without the one that it closes. -/
inductive Walk (base : Nat) : Progress → List Line → Progress → Prop where
  | nil (p : Progress) : Walk base p [] p
  | cons {p q r : Progress} {line : Line} {ls : List Line}
      (hp : p.inText = false)
      (htag : line.text.head? = some '<')
      (hdepth : line.depth + (if line.closes then 1 else 0) = base + p.stack.length)
      (hline : Reads line.text p q)
      (hrest : Walk base q ls r) :
      Walk base p (line :: ls) r

/-- One walk after another. -/
theorem Walk.append {base : Nat} {p q r : Progress} {ls ms : List Line} (h₁ : Walk base p ls q)
    (h₂ : Walk base q ms r) : Walk base p (ls ++ ms) r := by
  -- induction on the first walk
  induction h₁ with
  | nil _ => exact h₂
  | cons hp htag hdepth hline _ ih => exact .cons hp htag hdepth hline (ih h₂)

/-- What begins with the name of an element is no closing tag. -/
theorem closes_eq_false (depth : Nat) (tag : Tag) (s : List Char) :
    Line.closes ⟨depth, '<' :: (tag.name.toList ++ s)⟩ = false := by
  obtain ⟨c, name, hname⟩ := List.exists_cons_of_ne_nil tag.name_ne_nil
  have hc : c ≠ '/' := (tag.name_plain c (by simp [hname])).2.1
  simp [Line.closes, hname, List.isPrefixOf, Ne.symm hc]

/-- A walk over one line that closes nothing: a token, an empty element, or the tag that opens an
element. -/
theorem Walk.single (tag : Tag) {base : Nat} {p q : Progress} {line : Line}
    (hp : p.inText = false) (htext : ∃ s, line.text = '<' :: (tag.name.toList ++ s))
    (hdepth : line.depth = base + p.stack.length) (hline : Reads line.text p q) :
    Walk base p [line] q := by
  obtain ⟨depth, text⟩ := line
  obtain ⟨s, rfl⟩ := htext
  refine .cons hp rfl ?_ hline (.nil q)
  rw [closes_eq_false]
  exact hdepth

/-- `Progress.add` leaves as many elements open as before, since what it adds is complete. -/
theorem length_stack_add (p : Progress) (tree : Tree) :
    (p.add tree).stack.length = p.stack.length := by
  obtain ⟨roots, stack⟩ := p
  cases stack <;> rfl

mutual

/-- **The lines of an element stand where they belong.** A reader that is at the right depth walks
over the lines of a proper element and has then read that element.  What each line does to the
reader is known from `reads_lines` and its neighbours; what is added is where the lines begin. -/
theorem walk_lines (base : Nat) : ∀ (e : Element), e.Proper → ∀ (depth : Nat) (p : Progress),
    p.inText = false → depth = base + p.stack.length → Walk base p (e.lines depth) (p.add e.tree)
  | .token tag attributes text, h, depth, p, hp, hdepth => by
    have hread := reads_lines blankLead_nil (.token tag attributes text) h depth p hp
    refine Walk.single tag hp
      ⟨attributes.flatMap Attribute.text ++ '>' :: (escape text ++ closeTag tag), ?_⟩ hdepth
      (by simpa [writtenWith, Element.lines] using hread)
    simp [Text.appendEscaped_eq, openTag]
  | .void tag attributes, h, depth, p, hp, hdepth =>
    Walk.single tag hp
      ⟨attributes.flatMap Attribute.text ++ ['/', '>'], by simp [voidTag]⟩ hdepth
      (reads_voidTag p tag h)
  | .container tag attributes children, h, depth, p, hp, hdepth => by
    obtain ⟨htag, hattributes, hchildren⟩ := h
    -- the element is open while its children are written, so they stand one level deeper
    have hin : ∀ fs, Progress.inText ⟨p.roots, ⟨tag, [], fs⟩ :: p.stack⟩ = false := by
      intro fs
      simpa [Progress.inText] using htag
    have hopen : Walk base p [⟨depth, openTag tag attributes⟩] (p.push tag) :=
      Walk.single tag hp
        ⟨attributes.flatMap Attribute.text ++ ['>'], by simp [openTag]⟩ hdepth
        (reads_openTag p tag hattributes)
    have hcontent := walk_linesAll base children hchildren (depth + 1) (p.push tag)
      (hin []) (by simp only [Progress.push, List.length_cons]; omega)
    rw [Progress.push, Progress.addAll_push, List.nil_append] at hcontent
    have hclose : Walk base ⟨p.roots, ⟨tag, [], Element.trees children⟩ :: p.stack⟩
        [⟨depth, closeTag tag⟩] (p.add (Element.container tag attributes children).tree) := by
      refine .cons (hin _) rfl ?_ (reads_closeTag p.roots ⟨tag, [], _⟩ p.stack) (.nil _)
      -- the closing tag does not count the element that it closes
      have hcloses : Line.closes ⟨depth, closeTag tag⟩ = true := rfl
      simp only [hcloses, if_true, List.length_cons]
      omega
    exact (hopen.append hcontent).append hclose

/-- Elements one after the other are one `Walk`, all of them at one depth. -/
theorem walk_linesAll (base : Nat) : ∀ (es : List Element), Element.ProperAll es →
    ∀ (depth : Nat) (p : Progress), p.inText = false → depth = base + p.stack.length →
      Walk base p (Element.linesAll depth es) (p.addAll (Element.trees es))
  | [], _, _, p, _, _ => .nil p
  | e :: es, h, depth, p, hp, hdepth => by
    have he := walk_lines base e h.1 depth p hp hdepth
    have hes := walk_linesAll base es h.2 depth (p.add e.tree)
      (by rw [Progress.inText_add, hp]) (by rw [length_stack_add, hdepth])
    exact he.append hes

end

/-! ## Places in the whole text

A walk is a statement about all lines at once.  Here it is taken apart into one about each line and
the text before it. -/

/-- Every line begins with a tag at a place where no character data is being read, and its depth is
`base` more than the number of elements that are open around it, as a reader counts them that has
read the lines before. -/
def StandsAt (base : Nat) (ls : List Line) : Prop :=
  ∀ before line after, ls = before ++ line :: after →
    line.text.head? = some '<' ∧
    ∃ p, progress (flat before) = some p ∧ p.inText = false ∧
      line.depth + (if line.closes then 1 else 0) = base + p.stack.length

/-- At every line of a `Walk`, the lines before have been read, and the reader stands where the walk
says.  Induction on the walk. -/
theorem Walk.reads_before {base : Nat} {p r : Progress} {before : List Line} {line : Line}
    {after : List Line} (h : Walk base p (before ++ line :: after) r) :
    line.text.head? = some '<' ∧ ∃ q, Reads (flat before) p q ∧ q.inText = false ∧
      line.depth + (if line.closes then 1 else 0) = base + q.stack.length := by
  -- induction on the lines before, from wherever the walk starts
  induction before generalizing p with
  | nil =>
    cases h with
    | cons hp htag hdepth _ _ => exact ⟨htag, p, Reads.nil p, hp, hdepth⟩
  | cons first before ih =>
    cases h with
    | cons _ _ _ hline hrest =>
      obtain ⟨htag, q, hbefore, hq, hdepth⟩ := ih hrest
      have hall := hline.append hbefore
      exact ⟨htag, q, by simpa [flat] using hall, hq, hdepth⟩

/-- The lines of a `Walk` from the start stand where they belong. -/
theorem Walk.standsAt {base : Nat} {ls : List Line} {r : Progress} (h : Walk base .start ls r) :
    StandsAt base ls := by
  rintro before line after rfl
  obtain ⟨htag, q, hq, hin, hdepth⟩ := h.reads_before
  exact ⟨htag, q, progress_eq_of_reads hq, hin, hdepth⟩

/-! ## Flat and indented output

A `Writer` knows nothing of lines.  What it writes at a level above zero and what it writes at level
zero are, by `writes_node` and `convert_eq_written`, the texts of one element, and the lines of that
element are the cuts. -/

/-- The lines of a proper element stand where they belong, from any depth `base` on. -/
theorem standsAt_lines {e : Element} (he : e.Proper) (base : Nat) : StandsAt base (e.lines base) :=
  (walk_lines base e he base .start rfl rfl).standsAt

/-- The `lines` of an element that holds others start at its first tag and end with its last one. -/
theorem lines_container (tag : Tag) (attributes : List Attribute) (children : List Element) :
    ∃ first others, (Element.container tag attributes children).lines 0 = first :: others ∧
      (first :: others).getLast? = some ⟨0, closeTag tag⟩ :=
  ⟨⟨0, openTag tag attributes⟩, Element.linesAll 1 children ++ [⟨0, closeTag tag⟩], rfl, by
    rw [← List.cons_append, List.getLast?_concat]⟩

/-- The lines of a document start at its root, and the last one closes that root at depth zero. -/
theorem lines_document (config : Config) (node : Layout) (source : Option (List Char)) :
    ∃ first others, (document config node source).lines 0 = first :: others ∧
      (first :: others).getLast? = some ⟨0, "</math>".toList⟩ :=
  lines_container .math _ _

/-- The source of an annotated document stands on one line with its two tags, two levels deep, so
that indentation adds nothing to it. -/
theorem mem_lines_document (config : Config) (node : Layout) (source : List Char) :
    (⟨2, "<annotation encoding=\"application/x-tex\">".toList ++ Text.escape source
      ++ "</annotation>".toList⟩ : Line) ∈ (document config node (some source)).lines 0 := by
  simp [document, annotated, Element.lines, Element.linesAll, Text.appendEscaped_eq, openTag,
    closeTag, Tag.name, Attribute.fixed, Attribute.text]

/-- **What is written for a node is cut into lines.**  At a level above zero each of them has a line
break and its indentation in front; at level zero there is nothing between them. -/
theorem node_eq_lines (config : Config) {level : Nat} (hlevel : 1 ≤ level) (node : Layout)
    (out : List Char) :
    Writer.node config level node out
        = ((), out ++ indented ((presentation config node).lines level)) ∧
      Writer.node config 0 node out
        = ((), out ++ flat ((presentation config node).lines level)) := by
  constructor
  · rw [writes_node config level node out, nodeText, textAt_of_pos hlevel]
  · rw [writes_node config 0 node out, nodeText, textAt_zero, flat_lines 0 level]

/-- **Indentation adds line breaks and blanks between tags and nothing else, at the right depth.**
What `Writer.node` appends at a level above zero is what it appends at level zero, cut into lines
and with a line break and four blanks for every level of depth before each line; together the lines
are the one element of the node.  A line begins with a tag and outside character data, and its depth
is the level plus the number of elements that are open around it (`StandsAt`).  The same holds of
what `Writer.convert` writes for a source under two configurations that differ in nothing but
whether output is indented: there the first line starts the text, the last one is the closing tag of
the root, at depth zero, and if the source goes with the formula, it stands with its two tags on one
line, where nothing is added to it. -/
theorem indented_output (config : Config) :
    (∀ level, 1 ≤ level → ∀ node, ∃ ls,
      (∀ out, Writer.node config level node out = ((), out ++ ls.flatMap fun line =>
        '\n' :: List.replicate (4 * line.depth) ' ' ++ line.text)) ∧
      (∀ out, Writer.node config 0 node out = ((), out ++ ls.flatMap Line.text)) ∧
      StandsAt level ls ∧
      elements (ls.flatMap Line.text) = some [nodeTree config node]) ∧
    ∀ flatConfig : Config, config.isPretty = true → flatConfig.isPretty = false →
      (∀ k, k ≠ .prettyPrint → config.get k = flatConfig.get k) →
      ∀ source, ∃ first others,
        Writer.convert config source = first.text ++ others.flatMap (fun line =>
          '\n' :: List.replicate (4 * line.depth) ' ' ++ line.text) ∧
        Writer.convert flatConfig source = (first :: others).flatMap Line.text ∧
        StandsAt 0 (first :: others) ∧
        (first :: others).getLast? = some ⟨0, "</math>".toList⟩ ∧
        (config.annotates = true →
          ⟨2, "<annotation encoding=\"application/x-tex\">".toList ++ Text.escape source
            ++ "</annotation>".toList⟩ ∈ first :: others) := by
  constructor
  · -- the lines of the element of the node are the cuts, for all outputs that it is written onto
    intro level hlevel node
    refine ⟨(presentation config node).lines level, ?_, ?_, ?_, ?_⟩
    · intro out
      exact (node_eq_lines config hlevel node out).1
    · intro out
      exact (node_eq_lines config hlevel node out).2
    · exact standsAt_lines (presentation_proper config node) level
    · -- at level zero a node is its flat lines, and these are read back
      have hflat := elements_textAt (presentation_proper config node) 0
      rwa [textAt_zero, flat_lines 0 level] at hflat
  · -- the two configurations lay the same formula out and print the same document
    intro flatConfig hpretty hflat hagree source
    have hagreeOn : ∀ keys : List Key, .prettyPrint ∉ keys → config.AgreeOn keys flatConfig := by
      intro keys hkeys k hk
      exact hagree k fun hkp => hkeys (hkp ▸ hk)
    have hannotates : config.annotates = flatConfig.annotates := hagree .annotate (by decide)
    have hnode : (parse config source).value = (parse flatConfig source).value :=
      Formula.layOut_eq_of_agreeOn (hagreeOn _ (by decide)) _
    -- they differ in no key that the document looks at, so both write one document
    have hdocument := document_eq_of_agreeOn (hagreeOn _ (by decide)) (hagreeOn _ (by decide))
      (parse config source).value (if config.annotates then some source else none)
    have hproper := document_proper config (parse config source).value
      (if config.annotates then some source else none)
    obtain ⟨first, others, hlines, hlast⟩ := lines_document config (parse config source).value
      (if config.annotates then some source else none)
    refine ⟨first, others, ?_, ?_, hlines ▸ standsAt_lines hproper 0, hlast, ?_⟩
    · rw [← convert_eq_written, convert, renderWithSource, hpretty, Element.print, if_pos rfl,
        hlines]
      rfl
    · rw [← convert_eq_written, convert, renderWithSource, hflat, ← hannotates, ← hnode,
        ← hdocument, Element.print, if_neg (by simp), hlines]
      rfl
    · intro hsource
      have hmem := mem_lines_document config (parse config source).value source
      rw [hsource, if_pos rfl] at hlines
      rwa [hlines] at hmem

/-- A fraction with a size of its own over constructs that write lines of their own: a table between
fences, one of them absent, and scripts of a large operator, with an accent, a radical with an
index, a space and a phantom without a body. -/
def nested : Layout :=
  .fraction
    (.fenced "(" ")" (.matrix [[.identifier "a" true, .number "1"], [.lineBreak]] "[" ""))
    (.scripted (.operator "∑" true)
      (some (.accent (.styled .bold (.text "x<y" .words)) "^" .over))
      (some (.radical (.phantom .emptyRow) (some (.space 0.5)))) .underOver)
    .display

/-- The standard configuration with the source beside the formula. -/
def annotating : Config := Config.standard.overlay (Overrides.empty.set .annotate true)

/-- The standard configuration with the source beside the formula, indented. -/
def indenting : Config :=
  annotating.overlay (Overrides.empty.set .prettyPrint PrettyPrint.always)

/-- A source with a fraction that has a size of its own, a fence that is absent, an accent, bounds
and an index. -/
def nestedSource : List Char :=
  "\\dfrac\x7b\\left(\\hat x\\right.\x7d\x7b\\sum_1^\\sqrt[3]y\x7d".toList

/-- The statement for the `nested` node at the second level, and for `nestedSource` under two
configurations that differ in whether output is indented, both with the source beside the
formula. -/
theorem indented_output_nested :
    (1 ≤ 2 ∧ ∃ ls,
      (∀ out, Writer.node .standard 2 nested out = ((), out ++ ls.flatMap fun line =>
        '\n' :: List.replicate (4 * line.depth) ' ' ++ line.text)) ∧
      (∀ out, Writer.node .standard 0 nested out = ((), out ++ ls.flatMap Line.text)) ∧
      StandsAt 2 ls ∧
      elements (ls.flatMap Line.text) = some [nodeTree .standard nested]) ∧
    indenting.isPretty = true ∧ annotating.isPretty = false ∧
    (∀ k, k ≠ .prettyPrint → indenting.get k = annotating.get k) ∧
    indenting.annotates = true ∧
    ∃ first others,
      Writer.convert indenting nestedSource = first.text ++ others.flatMap (fun line =>
        '\n' :: List.replicate (4 * line.depth) ' ' ++ line.text) ∧
      Writer.convert annotating nestedSource = (first :: others).flatMap Line.text ∧
      StandsAt 0 (first :: others) ∧
      (first :: others).getLast? = some ⟨0, "</math>".toList⟩ ∧
      ⟨2, "<annotation encoding=\"application/x-tex\">".toList ++ Text.escape nestedSource
        ++ "</annotation>".toList⟩ ∈ first :: others := by
  -- one key has been set over `annotating`, and the others are taken from there
  have hagree : ∀ k, k ≠ .prettyPrint → indenting.get k = annotating.get k := by
    intro k hk
    simp only [indenting, Config.overlay, Overrides.get_set_of_ne _ (Ne.symm hk)]
    rfl
  refine ⟨⟨by decide, (indented_output .standard).1 2 (by decide) nested⟩, rfl, rfl, hagree, rfl,
    ?_⟩
  obtain ⟨first, others, hpretty, hflat, hstands, hlast, hsource⟩ :=
    (indented_output indenting).2 annotating rfl rfl hagree nestedSource
  exact ⟨first, others, hpretty, hflat, hstands, hlast, hsource rfl⟩

/-- The mark of an accent stands on a line of its own, beside the body. -/
example : Writer.written (Writer.node .standard 1 (.accent (.identifier "x" false) "^" .under)) =
    ("\n    <munder accentunder=\"true\">" ++
      "\n        <mi>x</mi>" ++
      "\n        <mo accent=\"true\">^</mo>" ++
      "\n    </munder>").toList := by
  decide +kernel

end FormulaMarkup.Markup
