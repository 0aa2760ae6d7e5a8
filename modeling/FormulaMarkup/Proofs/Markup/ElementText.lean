import FormulaMarkup.Proofs.Markup.Reader
import FormulaMarkup.Proofs.Text.Characters

/-!
# FormulaMarkup — the text of an element read back

An element is written as a list of lines, with blanks or nothing in front of each.  This module
shows that reading the lines gives the element again, whatever the blanks, so that flat and indented
output are read alike.

An element is read back if its attributes do not end their tag and its character data stands in a
tag that holds some.  That is all: the text of the element may be any, as it is escaped.

* **`Element.Proper`** — character data stands only where it may, and attributes contain nothing
  that would end a tag.
* **`Element.tree`** — what a reader is to find.
* **`reads_openTag`**, **`reads_closeTag`**, **`reads_escape`** — the pieces of an element.
* **`reads_lines`** — the lines of a proper element are read as that element and nothing else.
-/

namespace FormulaMarkup.Markup

open Text

/-! ## Tags

A tag is read as a whole when its closing bracket comes.  What stands between the brackets is taken
apart at the first blank or slash, which no name has. -/

/-- An attribute without characters that markup reserves (`isReserved`), in its name and in its
value. -/
def Attribute.Plain (a : Attribute) : Prop :=
  (∀ c ∈ a.name.toList, isReserved c = false) ∧ ∀ c ∈ a.value, isReserved c = false

/-- The written form of a `Plain` attribute has no reserved character either. -/
theorem Attribute.not_isReserved_of_mem_text {a : Attribute} (h : a.Plain) {c : Char}
    (hc : c ∈ a.text) : isReserved c = false := by
  simp only [Attribute.text, List.cons_append, List.mem_append, List.mem_cons, List.not_mem_nil,
    or_false] at hc
  rcases hc with rfl | (hc | rfl | rfl | hc) | rfl
  · rfl
  · exact h.1 c hc
  · rfl
  · rfl
  · exact h.2 c hc
  · rfl

theorem Tag.name_plain (tag : Tag) :
    ∀ c ∈ tag.name.toList, c ≠ ' ' ∧ c ≠ '/' ∧ isReserved c = false := by
  cases tag <;> decide

theorem Tag.name_ne_nil (tag : Tag) : tag.name.toList ≠ [] := by
  cases tag <;> decide

/-- The part of a tag up to its closing bracket goes to `Progress.tag` as a whole, because none of
its characters is reserved. -/
theorem run_tag (p : Progress) (part : List Char) {s : List Char}
    (hs : ∀ c ∈ s, isReserved c = false) :
    (Reader.tag p part).run (s ++ ['>']) = (p.tag (part ++ s)).map Reader.content := by
  -- induction on what is left of the tag, while the part that has been read grows
  induction s generalizing part with
  | nil =>
    rw [List.nil_append, Reader.run_cons, List.append_nil]
    simp only [Reader.step, if_true]
    cases p.tag part <;> rfl
  | cons c s ih =>
    have hc : isReserved c = false := hs c (by simp)
    have hne : c ≠ '>' := by rintro rfl; simp [isReserved] at hc
    rw [List.cons_append, Reader.run_cons]
    simp only [Reader.step, hne, hc, Bool.false_eq_true, if_false, Option.bind_some]
    rw [ih _ fun d hd => hs d (by simp [hd])]
    simp

/-- **A tag is read at once.** What stands between its brackets decides what it does, through
`Progress.tag`. -/
theorem reads_tag {p q : Progress} {s : List Char} (hs : ∀ c ∈ s, isReserved c = false)
    (h : p.tag s = some q) : Reads ('<' :: s ++ ['>']) p q := by
  have hstep : (Reader.content p).step '<' = some (.tag p []) := rfl
  rw [Reads, List.cons_append, Reader.run_cons, hstep, Option.bind_some, run_tag p [] hs,
    List.nil_append, h]
  rfl

/-- The attributes of a tag are set off by a blank, and the last one ends with a quote. -/
theorem attributes_shape (attributes : List Attribute) :
    attributes.flatMap Attribute.text = [] ∨
      ∃ middle, attributes.flatMap Attribute.text = ' ' :: middle ++ ['"'] := by
  induction attributes with
  | nil => exact .inl rfl
  | cons a as ih =>
    right
    rcases ih with h | ⟨middle, h⟩
    · exact ⟨a.name.toList ++ '=' :: '"' :: a.value, by simp [h, Attribute.text]⟩
    · exact ⟨a.name.toList ++ '=' :: '"' :: a.value ++ '"' :: ' ' :: middle, by
        simp [h, Attribute.text]⟩

/-- The name of a tag ends where its attributes, or a slash, begin.  This is how the reader finds
it. -/
theorem takeWhile_name (tag : Tag) {s : List Char} (hs : ∀ c ∈ s.head?, c = ' ' ∨ c = '/') :
    (tag.name.toList ++ s).takeWhile (fun c => c != ' ' && c != '/') = tag.name.toList := by
  rw [List.takeWhile_append_of_pos]
  · cases s with
    | nil => simp
    | cons c s =>
      rcases hs c rfl with rfl | rfl <;> simp
  · intro c hc
    have h := tag.name_plain c hc
    simp [h.1, h.2.1]

/-- What a tag without a slash in front does: a slash at its end makes an empty element of it, and
otherwise it opens an element. -/
theorem tag_of_name (p : Progress) (tag : Tag) {s : List Char}
    (hs : ∀ c ∈ s.head?, c = ' ' ∨ c = '/') :
    p.tag (tag.name.toList ++ s) =
      some (if (tag.name.toList ++ s).getLast? = some '/' then p.add (.element tag [] [])
        else p.push tag) := by
  obtain ⟨c, name, hname⟩ := List.exists_cons_of_ne_nil tag.name_ne_nil
  have hc : c ≠ '/' := (tag.name_plain c (by simp [hname])).2.1
  have htake := takeWhile_name tag hs
  -- the name does not begin with a slash, so this is no closing tag
  rw [Progress.tag.eq_2 p _ (by
    intro t ht
    rw [hname, List.cons_append] at ht
    exact hc (List.cons.inj ht).1), htake, Tag.ofName?_name]
  rfl

/-- No character of a tag is reserved. -/
theorem not_isReserved_of_mem_tag {tag : Tag} {attributes : List Attribute}
    (h : ∀ a ∈ attributes, a.Plain) {c : Char}
    (hc : c ∈ tag.name.toList ++ attributes.flatMap Attribute.text) : isReserved c = false := by
  rcases List.mem_append.mp hc with hc | hc
  · exact (tag.name_plain c hc).2.2
  · obtain ⟨a, ha, hca⟩ := List.mem_flatMap.mp hc
    exact Attribute.not_isReserved_of_mem_text (h a ha) hca

/-- **An opening tag opens its element** (`Reads`), whatever plain attributes it has.  It does not
end with a slash, since it ends with its name or with the quote of an attribute. -/
theorem reads_openTag (p : Progress) (tag : Tag) {attributes : List Attribute}
    (h : ∀ a ∈ attributes, a.Plain) : Reads (openTag tag attributes) p (p.push tag) := by
  rw [openTag, List.cons_append]
  refine reads_tag (fun c hc => not_isReserved_of_mem_tag h hc) ?_
  -- the tag ends with its name or with a quote, in no case with a slash
  rcases attributes_shape attributes with hs | ⟨middle, hs⟩
  · rw [hs, tag_of_name p tag (by simp), List.append_nil]
    rw [if_neg]
    intro hlast
    exact (tag.name_plain '/' (List.mem_of_getLast? hlast)).2.1 rfl
  · have hlast : tag.name.toList ++ (' ' :: middle ++ ['"'])
        = (tag.name.toList ++ ' ' :: middle) ++ ['"'] := by simp
    rw [hs, tag_of_name p tag (by simp), if_neg]
    rw [hlast, List.getLast?_concat]
    simp

/-- **A tag with a slash at its end adds an empty element**, and opens nothing.  It does not begin
with a slash, as it begins with the name of the element. -/
theorem reads_voidTag (p : Progress) (tag : Tag) {attributes : List Attribute}
    (h : ∀ a ∈ attributes, a.Plain) :
    Reads (voidTag tag attributes) p (p.add (.element tag [] [])) := by
  have hplain : ∀ c ∈ tag.name.toList ++ (attributes.flatMap Attribute.text ++ ['/']),
      isReserved c = false := by
    intro c hc
    rw [← List.append_assoc] at hc
    rcases List.mem_append.mp hc with hc | hc
    · exact not_isReserved_of_mem_tag h hc
    · rw [List.mem_singleton.mp hc]
      rfl
  -- the slash belongs to what stands between the brackets
  have htext : voidTag tag attributes
      = '<' :: (tag.name.toList ++ (attributes.flatMap Attribute.text ++ ['/'])) ++ ['>'] := by
    simp [voidTag]
  rw [htext]
  refine reads_tag hplain ?_
  rw [tag_of_name p tag]
  · simp [List.getLast?_append]
  · rcases attributes_shape attributes with hs | ⟨middle, hs⟩ <;> simp [hs]

/-- A closing tag closes the innermost element, if that is the element it names.  The frame `f`
becomes the element that is added to what is open around it. -/
theorem reads_closeTag (roots : List Tree) (f : Frame) (fs : List Frame) :
    Reads (closeTag f.tag) ⟨roots, f :: fs⟩ (Progress.add ⟨roots, fs⟩ f.tree) := by
  have hplain : ∀ c ∈ '/' :: f.tag.name.toList, isReserved c = false := by
    intro c hc
    rcases List.mem_cons.mp hc with rfl | hc
    · rfl
    · exact (f.tag.name_plain c hc).2.2
  refine reads_tag hplain ?_
  simp [Progress.tag, Tag.ofName?_name, Progress.close]

/-! ## Character data

A character is written as itself or as an entity, and both are read as that character.  Blanks are
read as characters too where character data is expected, which is why a line break must not stand
there. -/

/-- The written form of a character is read as that character, if the character may stand there at
all (`Progress.character`). -/
theorem reads_escapeChar {p q : Progress} {c : Char} (h : p.character c = some q) :
    Reads (escapeChar c) p q := by
  -- the three reserved characters are written as entities, any other as itself
  unfold escapeChar
  split
  · next hc => subst hc; simp [Reads, Reader.run, Reader.step, entity?, h]
  · next hamp =>
    split
    · next hc => subst hc; simp [Reads, Reader.run, Reader.step, entity?, h]
    · next hlt =>
      split
      · next hc => subst hc; simp [Reads, Reader.run, Reader.step, entity?, h]
      · next hgt => simp [Reads, Reader.run, Reader.step, hamp, hlt, hgt, h]

/-- **Text comes back as it was.** The written form of a text, in an element that holds character
data, adds exactly the text.  Induction on the text, whatever the element `f` holds already. -/
theorem reads_escape (roots : List Tree) (fs : List Frame) {f : Frame}
    (hf : f.tag.holdsText = true) (s : List Char) :
    Reads (escape s) ⟨roots, f :: fs⟩ ⟨roots, { f with text := f.text ++ s } :: fs⟩ := by
  induction s generalizing f with
  | nil => simpa using Reads.nil _
  | cons c s ih =>
    have hc : Progress.character ⟨roots, f :: fs⟩ c
        = some ⟨roots, { f with text := f.text ++ [c] } :: fs⟩ := by
      simp [Progress.character, hf]
    have hs := ih (f := { f with text := f.text ++ [c] }) hf
    simp only [List.append_assoc, List.singleton_append] at hs
    rw [escape_cons]
    exact (reads_escapeChar hc).append hs

/-- Blanks where no character data is read do not count, at the outermost level as inside an
element.  Induction on the blanks. -/
theorem reads_blanks {p : Progress} (hp : p.inText = false) {s : List Char}
    (hs : ∀ c ∈ s, isBlank c = true) : Reads s p p := by
  induction s with
  | nil => exact Reads.nil p
  | cons c s ih =>
    have hb : isBlank c = true := hs c (by simp)
    -- a blank is dropped at the outermost level and inside an element without character data
    have hchar : p.character c = some p := by
      obtain ⟨roots, stack⟩ := p
      cases stack with
      | nil => simp [Progress.character, hb]
      | cons f fs =>
        have hf : f.tag.holdsText = false := by simpa [Progress.inText] using hp
        simp [Progress.character, hf, hb]
    -- it stands for itself, because no reserved character is a blank
    have hne : isReserved c = false := by
      cases hr : isReserved c with
      | false => rfl
      | true =>
        simp only [isReserved, Bool.or_eq_true, beq_iff_eq] at hr
        rcases hr with (rfl | rfl) | rfl <;> simp [isBlank] at hb
    have hstep : Reads [c] p p := by
      simpa [escapeChar_of_not_isReserved hne] using reads_escapeChar hchar
    exact hstep.append (ih fun d hd => hs d (by simp [hd]))

/-! ## Elements

The statement about an element needs one about several elements in a row, and the two are shown
together by recursion on the element. -/

namespace Element

mutual

/-- Character data stands only in a tag that `holdsText`, and every attribute is `Plain`.  What is
proper is read back. -/
def Proper : Element → Prop
  | .token tag attributes _ => tag.holdsText = true ∧ ∀ a ∈ attributes, a.Plain
  | .void _ attributes => ∀ a ∈ attributes, a.Plain
  | .container tag attributes children =>
    tag.holdsText = false ∧ (∀ a ∈ attributes, a.Plain) ∧ ProperAll children

/-- The same of every element in a row. -/
def ProperAll : List Element → Prop
  | [] => True
  | element :: elements => Proper element ∧ ProperAll elements

end

mutual

/-- The element as a reader finds it. -/
def tree : Element → Tree
  | .token tag _ text => .element tag text []
  | .void tag _ => .element tag [] []
  | .container tag _ children => .element tag [] (trees children)

/-- Elements in a row as a reader finds them. -/
def trees : List Element → List Tree
  | [] => []
  | element :: elements => tree element :: trees elements

end

/-- Elements one after the other are found one after the other. -/
@[simp] theorem trees_append (es fs : List Element) : trees (es ++ fs) = trees es ++ trees fs := by
  induction es with
  | nil => rfl
  | cons e es ih => simp [trees, ih]

/-- The lines of elements one after the other. -/
theorem linesAll_append (depth : Nat) (es fs : List Element) :
    linesAll depth (es ++ fs) = linesAll depth es ++ linesAll depth fs := by
  induction es with
  | nil => rfl
  | cons e es ih => rw [List.cons_append, linesAll, ih, linesAll, List.append_assoc]

/-- Elements one after the other are proper if all of them are. -/
theorem properAll_append {es fs : List Element} :
    ProperAll (es ++ fs) ↔ ProperAll es ∧ ProperAll fs := by
  induction es with
  | nil => simp [ProperAll]
  | cons e es ih => simp [ProperAll, ih, and_assoc]

end Element

/-- Lines with something in front of each, which depends on how deep the line stands.  `flat` and
`indented` are the two cases. -/
def writtenWith (lead : Nat → List Char) (ls : List Line) : List Char :=
  ls.flatMap fun line => lead line.depth ++ line.text

theorem flat_eq_writtenWith (ls : List Line) : flat ls = writtenWith (fun _ => []) ls := by
  simp [flat, writtenWith]

/-- Indented output is `writtenWith` a `lineBreak` in front of each line. -/
theorem indented_eq_writtenWith (ls : List Line) : indented ls = writtenWith lineBreak ls := rfl

theorem writtenWith_append (lead : Nat → List Char) (ls ms : List Line) :
    writtenWith lead (ls ++ ms) = writtenWith lead ls ++ writtenWith lead ms := by
  simp [writtenWith]

/-- A line break and its indentation are blanks. -/
theorem isBlank_of_mem_lineBreak {depth : Nat} {c : Char} (h : c ∈ lineBreak depth) :
    isBlank c = true := by
  rcases List.mem_cons.mp h with rfl | h
  · decide
  · rw [List.eq_of_mem_replicate h]
    decide

namespace Progress

/-- Adds elements one after the other to the innermost open one. -/
def addAll (p : Progress) (trees : List Tree) : Progress := trees.foldl add p

theorem inText_add (p : Progress) (tree : Tree) : (p.add tree).inText = p.inText := by
  obtain ⟨roots, stack⟩ := p
  cases stack <;> rfl

/-- Inside an open element `f`, its children collect what is added. -/
theorem addAll_push (p : Progress) (f : Frame) (trees : List Tree) :
    addAll ⟨p.roots, f :: p.stack⟩ trees
      = ⟨p.roots, { f with children := f.children ++ trees } :: p.stack⟩ := by
  induction trees generalizing f with
  | nil => simp [addAll]
  | cons t ts ih =>
    have h := ih { f with children := f.children ++ [t] }
    rw [show (f.children ++ [t]) ++ ts = f.children ++ t :: ts by simp] at h
    exact h

end Progress

/-- What may stand in front of a line: blanks that depend on its depth, or nothing.  Flat and
indented output are the two cases. -/
def BlankLead (lead : Nat → List Char) : Prop :=
  ∀ depth, ∀ c ∈ lead depth, isBlank c = true

theorem blankLead_lineBreak : BlankLead lineBreak :=
  fun _ _ => isBlank_of_mem_lineBreak

theorem blankLead_nil : BlankLead fun _ => [] := by
  intro _ _ hc
  simp at hc

/-- A line that is read by itself is read in the same way after the blanks of a `BlankLead`, where
no character data is being read. -/
theorem reads_line {lead : Nat → List Char} (hlead : BlankLead lead) {p q : Progress}
    (hp : p.inText = false) (line : Line) (h : Reads line.text p q) :
    Reads (writtenWith lead [line]) p q := by
  have hline := (reads_blanks hp (hlead line.depth)).append h
  simpa [writtenWith] using hline

mutual

/-- **An element is read back from its lines.** Where no character data is expected, the lines of a
proper element, with any blanks in front of each, add `Element.tree` and nothing else. -/
theorem reads_lines {lead : Nat → List Char} (hlead : BlankLead lead) :
    ∀ (e : Element), e.Proper → ∀ (depth : Nat) (p : Progress), p.inText = false →
      Reads (writtenWith lead (e.lines depth)) p (p.add e.tree)
  | .token tag attributes text, h, depth, p, hp => by
    refine reads_line hlead hp _ ?_
    have hopen := reads_openTag p tag h.2
    have htext := reads_escape p.roots p.stack (f := ⟨tag, [], []⟩) h.1 text
    have hclose := reads_closeTag p.roots ⟨tag, text, []⟩ p.stack
    rw [Text.appendEscaped_eq]
    exact (hopen.append htext).append hclose
  | .void tag attributes, h, depth, p, hp =>
    reads_line hlead hp _ (reads_voidTag p tag h)
  | .container tag attributes children, h, depth, p, hp => by
    obtain ⟨htag, hattributes, hchildren⟩ := h
    -- inside the element no character data is expected either, whatever it holds already
    have hin : ∀ fs, Progress.inText ⟨p.roots, ⟨tag, [], fs⟩ :: p.stack⟩ = false := by
      intro fs
      simpa [Progress.inText] using htag
    have hopen := reads_line hlead hp ⟨depth, openTag tag attributes⟩
      (reads_openTag p tag hattributes)
    have hcontent := reads_linesAll hlead children hchildren (depth + 1) (p.push tag) (hin [])
    rw [Progress.push, Progress.addAll_push, List.nil_append] at hcontent
    have hclose := reads_line hlead (hin (Element.trees children))
      ⟨depth, closeTag tag⟩
      (reads_closeTag p.roots ⟨tag, [], Element.trees children⟩ p.stack)
    have hall := (hopen.append hcontent).append hclose
    rw [← writtenWith_append, ← writtenWith_append] at hall
    exact hall

/-- Elements one after the other are read one after the other, whatever blanks lead their lines. -/
theorem reads_linesAll {lead : Nat → List Char} (hlead : BlankLead lead) :
    ∀ (es : List Element), Element.ProperAll es → ∀ (depth : Nat) (p : Progress),
      p.inText = false →
      Reads (writtenWith lead (Element.linesAll depth es)) p (p.addAll (Element.trees es))
  | [], _, _, p, _ => Reads.nil p
  | e :: es, h, depth, p, hp => by
    have he := reads_lines hlead e h.1 depth p hp
    have hes := reads_linesAll hlead es h.2 depth (p.add e.tree)
      (by rw [Progress.inText_add, hp])
    rw [Element.linesAll, writtenWith_append]
    exact he.append hes

end

end FormulaMarkup.Markup
