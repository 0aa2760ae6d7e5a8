import FormulaMarkup.Markup.Element
import FormulaMarkup.Text.Blank

/-!
# FormulaMarkup — reading markup back

A reader of markup that knows nothing of formulas or of how the output is made.  It goes through a
text once, from left to right, with a stack of the elements that are open, and refuses whatever is
not well formed.

Statements about the output are made in terms of this reader.  It takes characters one at a time and
has no notion of a line, of a level or of an `Element`, so that whatever it finds is in the text.

* **`Tree`** — an element as it is read: its tag, the characters in it and its child elements.
* **`Progress`** — the elements read so far and the stack of those that are open.
* **`Reader.step`** — what one more character does.
* **`elements`** — the elements of a whole text, if the text is well formed.
* **`Reads`** — reading a piece of text leads from one progress to another; the pieces that output
  is made of are each described by a lemma of this kind.

Outside the elements that hold character data only blanks are accepted, and they are dropped.
-/

namespace FormulaMarkup.Markup

open Text

namespace Tag

/-- All elements that occur. -/
def all : List Tag :=
  [.math, .semantics, .sourceText, .mrow, .mi, .mn, .mo, .mtext, .mspace, .mfrac, .msqrt, .mroot,
   .msub, .msup, .msubsup, .munder, .mover, .munderover, .mtable, .mtr, .mtd, .mstyle, .mphantom]

/-- The element that a name stands for, if it is one of those. -/
def ofName? (name : List Char) : Option Tag :=
  all.find? (·.name.toList = name)

/-- `ofName?` finds every element by its name, so no two have the same one. -/
theorem ofName?_name (tag : Tag) : ofName? tag.name.toList = some tag := by
  cases tag <;> decide

/-- Whether an element holds character data and nothing else. -/
def holdsText : Tag → Bool
  | .mi | .mn | .mo | .mtext | .sourceText => true
  | _ => false

end Tag

/-- An element as it is read, with its entities replaced and its attributes left out. -/
inductive Tree where
  | element (tag : Tag) (text : List Char) (children : List Tree)

namespace Tree

/-- The tag of an element. -/
def tag : Tree → Tag
  | element tag _ _ => tag

/-- The elements that stand in an element. -/
def children : Tree → List Tree
  | element _ _ children => children

end Tree

/-- An element that is open, with what has been read of its contents.  The stack of a reader
consists of these. -/
structure Frame where
  tag : Tag
  text : List Char
  children : List Tree

/-- The element of a frame that is closed. -/
def Frame.tree (f : Frame) : Tree := .element f.tag f.text f.children

/-- What has been read: the elements that stand in no other, and the open ones, innermost first. -/
structure Progress where
  roots : List Tree
  stack : List Frame

namespace Progress

/-- Nothing has been read, and no element is open. -/
def start : Progress := ⟨[], []⟩

/-- Adds an element to the innermost open one. -/
def add (p : Progress) (tree : Tree) : Progress :=
  match p.stack with
  | [] => ⟨p.roots ++ [tree], []⟩
  | f :: fs => ⟨p.roots, { f with children := f.children ++ [tree] } :: fs⟩

/-- Opens an element in the innermost open one. -/
def push (p : Progress) (tag : Tag) : Progress := ⟨p.roots, ⟨tag, [], []⟩ :: p.stack⟩

/-- Closes the innermost element, which has to have this tag. -/
def close (p : Progress) (tag : Tag) : Option Progress :=
  match p.stack with
  | [] => none
  | f :: fs => if f.tag = tag then some (add ⟨p.roots, fs⟩ f.tree) else none

/-- Whether the innermost element holds character data. -/
def inText (p : Progress) : Bool := p.stack.head?.any (·.tag.holdsText)

/-- Adds a character to the innermost element.  Where no element `holdsText`, only blanks may stand,
and they do not count. -/
def character (p : Progress) (c : Char) : Option Progress :=
  match p.stack with
  | f :: fs =>
    if f.tag.holdsText then some ⟨p.roots, { f with text := f.text ++ [c] } :: fs⟩
    else if isBlank c then some p else none
  | [] => if isBlank c then some p else none

/-- Takes in a tag, given what stands between its brackets.  A slash in front closes the innermost
element; a slash at the end says that the element is empty. -/
def tag (p : Progress) : List Char → Option Progress
  | '/' :: name => (Tag.ofName? name).bind p.close
  | s =>
    (Tag.ofName? (s.takeWhile fun c => c != ' ' && c != '/')).map fun tag =>
      if s.getLast? = some '/' then p.add (.element tag [] []) else p.push tag

end Progress

/-- The character that an entity stands for. -/
def entity? (name : List Char) : Option Char :=
  if name = "amp".toList then some '&'
  else if name = "lt".toList then some '<'
  else if name = "gt".toList then some '>'
  else none

/-- A reader stands between the tags, or inside a tag or an entity of which it has read a part. -/
inductive Reader where
  | content (p : Progress)
  | tag (p : Progress) (part : List Char)
  | entity (p : Progress) (part : List Char)

namespace Reader

/-- Reads one character.  Angle brackets stand for nothing but tags and an ampersand for nothing but
an entity; a tag contains neither.  Where a character may not stand, reading fails. -/
def step : Reader → Char → Option Reader
  | content p, c =>
    if c = '<' then some (tag p [])
    else if c = '&' then some (entity p [])
    else if c = '>' then none
    else (p.character c).map content
  | tag p part, c =>
    if c = '>' then (p.tag part).map content
    else if isReserved c then none
    else some (tag p (part ++ [c]))
  | entity p part, c =>
    if c = ';' then ((entity? part).bind p.character).map content
    else some (entity p (part ++ [c]))

/-- Reads a text, character by character. -/
def run (r : Reader) (s : List Char) : Option Reader := s.foldlM step r

theorem run_append (r : Reader) (s t : List Char) :
    r.run (s ++ t) = (r.run s).bind (·.run t) :=
  List.foldlM_append

theorem run_cons (r : Reader) (c : Char) (s : List Char) :
    r.run (c :: s) = (r.step c).bind (·.run s) :=
  List.foldlM_cons

end Reader

/-- What has been read once a text is over: nothing if it is over inside a tag or an entity. -/
def progress (s : List Char) : Option Progress :=
  match (Reader.content .start).run s with
  | some (.content p) => some p
  | _ => none

/-- The elements of a well-formed text, in which no element is left open.  There are none if reading
fails anywhere, so that this is also the test for being well formed. -/
def elements (s : List Char) : Option (List Tree) :=
  match progress s with
  | some ⟨roots, []⟩ => some roots
  | _ => none

/-! ## Pieces of text

Between two pieces of output the reader always stands between the tags.  So it is enough to say from
which progress to which a piece leads, and pieces one after the other compose. -/

/-- Reading `s` between the tags leads from one progress to another, and again between the tags.  In
particular all of `s` is accepted. -/
def Reads (s : List Char) (p q : Progress) : Prop :=
  (Reader.content p).run s = some (.content q)

theorem Reads.nil (p : Progress) : Reads [] p p := rfl

/-- **Pieces one after the other.** The second one is read from where the first one leads, as `run`
is a loop over the characters. -/
theorem Reads.append {s t : List Char} {p q r : Progress} (hs : Reads s p q) (ht : Reads t q r) :
    Reads (s ++ t) p r := by
  rw [Reads, Reader.run_append, show (Reader.content p).run s = _ from hs]
  exact ht

/-- What comes after a piece that is read is read from where the piece leads. -/
theorem Reads.of_append {s t : List Char} {p q r : Progress} (hs : Reads s p q)
    (h : Reads (s ++ t) p r) : Reads t q r := by
  rw [Reads, Reader.run_append, show (Reader.content p).run s = _ from hs] at h
  exact h

theorem progress_eq_of_reads {s : List Char} {p : Progress} (h : Reads s .start p) :
    progress s = some p := by
  rw [progress, show (Reader.content .start).run s = _ from h]

/-- A text is well formed if it is read from `start` and leaves nothing open, and its elements are
the roots that have been collected. -/
theorem elements_eq_of_reads {s : List Char} {roots : List Tree}
    (h : Reads s .start ⟨roots, []⟩) : elements s = some roots := by
  rw [elements, progress_eq_of_reads h]

end FormulaMarkup.Markup
