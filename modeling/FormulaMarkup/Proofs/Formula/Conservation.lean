import FormulaMarkup.Convert
import FormulaMarkup.Proofs.Formula.Ends
import FormulaMarkup.Proofs.Isolation.Lockstep
import FormulaMarkup.Proofs.Markup.Texts

/-!
# FormulaMarkup — characters are neither lost nor invented

A source without a backslash has no commands, so that every character of it stands for itself:
blanks separate, the marks `{ } ^ _` group and attach, and all others belong to the texts of the
tree.  Reading moves each of them from the input to a text, once, whatever the input is.

* **`content`** — the characters of a text that are neither blanks nor marks.
* **`Conserves`** — what has been read and what is left have the content of the input.
* **`Faithful`** — a reader of atoms that conserves; `faithful_atomReader` is the induction on the
  levels.
* **`characters_conserved`** — the texts of the tree of a source have the content of the source.
-/

namespace FormulaMarkup.Node

variable {W P : Type}

/-- The characters of the texts of a node, in document order. -/
def characters (node : Node W P) : List Char :=
  node.texts.flatMap String.toList

/-- The characters of a row are those of its nodes, one behind the other. -/
theorem characters_row (children : List (Node W P)) :
    (Node.row children).characters = children.flatMap characters := by
  rw [characters, texts, textsAll_eq, List.flatMap_assoc]
  rfl

/-- The characters of an expression are those of its items, whether `Node.ofItems` makes a row of
them or not. -/
theorem characters_ofItems (items : List (Node W P)) :
    (ofItems items).characters = items.flatMap characters := by
  match items with
  | [item] => simp [ofItems]
  | [] => rfl
  | item :: other :: others => exact characters_row (item :: other :: others)

/-- The characters of a base with scripts are those of the base, of the subscript and of the
superscript, in this order. -/
theorem characters_scripted (base : Node W P) (sub sup : Option (Node W P)) (placement : P) :
    (Node.scripted base sub sup placement).characters
      = base.characters
        ++ (sub.toList.flatMap characters ++ sup.toList.flatMap characters) := by
  rw [characters, texts, textsOption_eq, textsOption_eq, List.flatMap_append, List.flatMap_append,
    List.flatMap_assoc, List.flatMap_assoc, List.append_assoc]
  rfl

end FormulaMarkup.Node

namespace FormulaMarkup.Formula

open Source Text Isolation

/-! ## Content

Content is what a source says beyond its structure.  It is defined by the character alone, so the
content of two texts one after the other is that of each. -/

/-- The characters that group and attach, and leave nothing in the tree. -/
def marks : List Char := ['{', '}', '^', '_']

/-- Whether a character is neither a blank nor a mark. -/
def isContent (c : Char) : Bool := !isBlank c && !marks.contains c

/-- The characters of a text that are neither blanks nor marks. -/
def content (s : List Char) : List Char := s.filter isContent

/-- The content of two texts is that of the first one and that of the second one. -/
theorem content_append (s t : List Char) : content (s ++ t) = content s ++ content t :=
  List.filter_append ..

theorem content_of_all {s : List Char} (h : ∀ c ∈ s, isContent c = true) : content s = s :=
  List.filter_eq_self.mpr h

theorem content_of_none {s : List Char} (h : ∀ c ∈ s, isContent c = false) : content s = [] :=
  List.filter_eq_nil_iff.mpr fun c hc => by simp [h c hc]

theorem isContent_of_isDigit {c : Char} (h : c.isDigit = true) : isContent c = true := by
  apply of_isDigit (motive := fun c => isContent c = true) _ h
  decide

/-- A letter is content. -/
theorem isContent_of_isAlpha {c : Char} (h : c.isAlpha = true) : isContent c = true := by
  have hmark : c ∉ marks := by
    intro hc
    have hmarks : ∀ mark ∈ marks, mark.isAlpha = false := by decide
    rw [hmarks c hc] at h
    cases h
  simp [isContent, isBlank_eq_false_of_isAlpha h, hmark]

theorem isContent_of_isBlank {c : Char} (h : isBlank c = true) : isContent c = false := by
  simp [isContent, h]

/-! ## Conservation

What is conserved is the content of the input, divided between what has been read and what is left.
The order is conserved too, except that a subscript is shown before a superscript, so equality is
claimed where only one kind of script occurs and permutation in general. -/

/-- Some kind of script does not occur in a source. -/
def OneKind (source : List Char) : Prop :=
  ∃ kind, ∀ c ∈ source, ScriptKind.ofMarker? c ≠ some kind

/-- Two texts have the same characters, and have them in the same order where a source has scripts
of one kind only: a tree shows a subscript before a superscript, in whichever order they come. -/
structure Rearranges (source s t : List Char) : Prop where
  perm : s.Perm t
  eq : OneKind source → s = t

section Rearranges

variable {source s t u s' t' : List Char}

theorem Rearranges.of_eq (h : s = t) : Rearranges source s t :=
  ⟨h ▸ .refl s, fun _ => h⟩

theorem Rearranges.trans (h : Rearranges source s t) (h' : Rearranges source t u) :
    Rearranges source s u :=
  ⟨h.perm.trans h'.perm, fun hone => (h.eq hone).trans (h'.eq hone)⟩

/-- `Rearranges` holds of two texts one after the other if it holds of each. -/
theorem Rearranges.append (h : Rearranges source s t) (h' : Rearranges source s' t') :
    Rearranges source (s ++ s') (t ++ t') :=
  ⟨h.perm.append h'.perm, fun hone => by rw [h.eq hone, h'.eq hone]⟩

/-- If a text is a rearranged one, its `content` is the rearranged `content`. -/
theorem Rearranges.content (h : Rearranges source s t) :
    Rearranges source (content s) (content t) :=
  ⟨h.perm.filter isContent, fun hone => by rw [h.eq hone]⟩

end Rearranges

/-- From the front of `s`, `text` has been read and `rest` is left: nothing of the content of `s` is
lost, and up to the limit on nesting nothing but content has been read. -/
structure Conserves (source s text rest : List Char) (log : List Diagnostic) : Prop where
  suffix : rest <:+ s
  same : Rearranges source (content text ++ content rest) (content s)
  clean : WithinLimit log → ∀ c ∈ text, isContent c = true

section Conserves

variable {source s text rest text' rest' : List Char} {log log' : List Diagnostic}

/-- **One reading after another** conserves content, with both texts and both logs.  What the first
one leaves is what the second one reads. -/
theorem Conserves.append (h : Conserves source s text rest log)
    (h' : Conserves source rest text' rest' log') :
    Conserves source s (text ++ text') rest' (log ++ log') where
  suffix := h'.suffix.trans h.suffix
  same := by
    rw [content_append, List.append_assoc]
    exact ((Rearranges.of_eq rfl).append h'.same).trans h.same
  clean hlimit c hc := by
    obtain ⟨hbefore, hafter⟩ := hlimit.of_append
    rcases List.mem_append.mp hc with hc | hc
    · exact h.clean hbefore c hc
    · exact h'.clean hafter c hc

/-- What has been read may be shown in another order, as far as `Rearranges` allows. -/
theorem Conserves.rearrange (h : Conserves source s text rest log)
    (htext : Rearranges source text' text) : Conserves source s text' rest log where
  suffix := h.suffix
  same := (htext.content.append (.of_eq rfl)).trans h.same
  clean hlimit c hc := h.clean hlimit c (htext.perm.subset hc)

theorem Conserves.token (h : text ++ rest = s) (htext : ∀ c ∈ text, isContent c = true) :
    Conserves source s text rest [] := by
  subst h
  exact ⟨List.suffix_append text rest, .of_eq (content_append text rest).symm, fun _ => htext⟩

/-- What is no `content` may be dropped. -/
theorem Conserves.drop {gap : List Char} (h : gap ++ rest = s)
    (hgap : ∀ c ∈ gap, isContent c = false) : Conserves source s [] rest [] := by
  subst h
  refine ⟨List.suffix_append gap rest, .of_eq ?_, fun _ _ hc => absurd hc List.not_mem_nil⟩
  rw [content_append, content_of_none hgap]
  rfl

/-- One of the `marks` may be dropped. -/
theorem Conserves.dropMark {c : Char} (hc : c ∈ marks) (s : List Char) :
    Conserves source (c :: s) [] s [] := by
  refine .drop (show [c] ++ s = c :: s from rfl) fun d hd => ?_
  rw [List.mem_singleton.mp hd]
  simp [isContent, hc]

theorem Conserves.skipBlank (source s : List Char) :
    Conserves source s [] (skipBlank s) [] :=
  .drop List.takeWhile_append_dropWhile fun _ hc =>
    isContent_of_isBlank (List.mem_takeWhile_imp hc)

end Conserves

/-! ## Tokens

A token moves from the input to a text as it is. -/

/-- A number conserves content: its digits, its period and the digits behind it become its text.
All of them are content, so nothing is dropped. -/
theorem conserves_readNumber (source s : List Char) :
    Conserves source s (readNumber s).value.characters (readNumber s).rest (readNumber s).log := by
  have hwhole : ∀ c ∈ s.takeWhile Char.isDigit, isContent c = true :=
    fun c hc => isContent_of_isDigit (List.mem_takeWhile_imp hc)
  have hs := List.takeWhile_append_dropWhile (p := Char.isDigit) (l := s)
  by_cases hperiod : ∃ t, s.dropWhile Char.isDigit = '.' :: t
  · -- the period is consumed even if no digit follows it, and it is in the text
    obtain ⟨t, ht⟩ := hperiod
    have hdecimals := List.takeWhile_append_dropWhile (p := Char.isDigit) (l := t)
    rw [readNumber_of_period ht]
    refine .token ?_ ?_
    · rw [ht] at hs
      simp [Node.characters, Node.texts, hdecimals, hs]
    · intro c hc
      simp only [Node.characters, Node.texts, List.flatMap_cons, List.flatMap_nil, List.append_nil,
        String.toList_ofList, List.mem_append, List.mem_cons] at hc
      rcases hc with hc | rfl | hc
      · exact hwhole c hc
      · decide
      · exact isContent_of_isDigit (List.mem_takeWhile_imp hc)
  · -- without a period the text is the first run of digits
    rw [readNumber_of_not_period fun t ht => hperiod ⟨t, ht⟩]
    refine .token ?_ ?_
    · simp [Node.characters, Node.texts]
    · simpa [Node.characters, Node.texts] using hwhole

/-- A run of letters conserves content: it becomes the text of the identifier. -/
theorem conserves_readIdentifier (source s : List Char) :
    Conserves source s (readIdentifier s).value.characters (readIdentifier s).rest
      (readIdentifier s).log := by
  refine .token ?_ fun c hc => ?_
  · simp [readIdentifier, Node.characters, Node.texts]
  · have hc : c ∈ s.takeWhile Char.isAlpha := by
      simpa [readIdentifier, Node.characters, Node.texts] using hc
    exact isContent_of_isAlpha (List.mem_takeWhile_imp hc)

/-- A character that stands for itself conserves content. -/
theorem conserves_operator (source : List Char) {c : Char} (hc : isContent c = true)
    (t : List Char) : Conserves source (c :: t)
      (Node.operator (String.singleton c) false : Formula).characters t [] := by
  have hcharacters : (Node.operator (String.singleton c) false : Formula).characters = [c] := by
    simp [Node.characters, Node.texts]
  rw [hcharacters]
  exact .token rfl fun d hd => List.mem_singleton.mp hd ▸ hc

/-! ## What consists of atoms

The reader is followed with an arbitrary reader of atoms that is `Faithful`.  The only routine that
does not keep the order of its input is the one that puts two scripts together. -/

/-- The characters of the scripts that have been found, the subscript first. -/
def Scripts.characters (scripts : Scripts) : List Char :=
  scripts.sub.toList.flatMap Node.characters ++ scripts.sup.toList.flatMap Node.characters

/-- The characters of a scripted formula are those of its base and of its scripts. -/
theorem Scripts.characters_attach (scripts : Scripts) (base : Formula) :
    (scripts.attach base).characters = base.characters ++ scripts.characters := by
  obtain ⟨sub, sup⟩ := scripts
  cases sub <;> cases sup
  · exact (List.append_nil _).symm
  all_goals exact Node.characters_scripted base _ _ ()

/-- **Only the order of two scripts can change.** `Scripts.set` puts a new script to the end of
those found before, except for a subscript after a superscript. -/
theorem Scripts.characters_set {source : List Char} {found : Scripts} {kind : ScriptKind}
    (hkinds : ∀ kind, (found.get kind).isSome → ∃ c ∈ source, ScriptKind.ofMarker? c = some kind)
    (hkind : ∃ c ∈ source, ScriptKind.ofMarker? c = some kind)
    (hfound : (found.get kind).isSome = false) (script : Formula) :
    Rearranges source (found.set kind script).characters
      (found.characters ++ script.characters) := by
  obtain ⟨sub, sup⟩ := found
  cases kind with
  | sup =>
    obtain rfl : sup = Option.none := by simpa [Scripts.get] using hfound
    exact .of_eq (by simp [Scripts.set, Scripts.characters])
  | sub =>
    obtain rfl : sub = Option.none := by simpa [Scripts.get] using hfound
    cases sup with
    | none => exact .of_eq (by simp [Scripts.set, Scripts.characters])
    | some sup =>
      -- both kinds occur, so the order is not claimed to be kept
      refine ⟨?_, ?_⟩
      · simpa [Scripts.set, Scripts.characters] using List.perm_append_comm
      · rintro ⟨missing, hmissing⟩
        obtain ⟨c, hc, hmarker⟩ : ∃ c ∈ source, ScriptKind.ofMarker? c = some missing := by
          cases missing with
          | sub => exact hkind
          | sup => exact hkinds .sup rfl
        exact absurd hmarker (hmissing c hc)

/-- A marker of scripts is one of the `marks`. -/
theorem mem_marks_of_ofMarker? {c : Char} {kind : ScriptKind}
    (h : ScriptKind.ofMarker? c = some kind) : c ∈ marks := by
  obtain ⟨hsub, hsup⟩ := eq_of_ofMarker? h
  cases kind with
  | sub => rw [hsub rfl]; decide
  | sup => rw [hsup rfl]; decide

/-- The `AtomReader` conserves the atoms of a source, and where it reads none no atom starts. -/
structure Faithful (source : List Char) (a : AtomReader) : Prop where
  atoms : ∀ {c t r}, c :: t <:+ source → isBlank c = false → a.read (c :: t) = some r →
    Conserves source (c :: t) r.value.characters r.rest r.log
  strays : ∀ {s}, a.read s = none → startsAtom s = false

section Reader

variable {source : List Char} {a : AtomReader} (ha : Faithful source a)
include ha

/-- An argument conserves the content of its input; an empty row has none, and nothing is consumed
for it. -/
theorem conserves_readArgument {s : List Char} (hs : s <:+ source) :
    Conserves source s (readArgument a s).value.characters (readArgument a s).rest
      (readArgument a s).log := by
  have hskip := Conserves.skipBlank source s
  unfold readArgument
  split
  · next r hread =>
    cases hcons : skipBlank s with
    | nil =>
      -- an atom consumes something
      have hlt := (a.consumes hread).2
      rw [hcons] at hlt
      cases hlt
    | cons c t =>
      rw [hcons] at hread hskip
      exact hskip.append
        (ha.atoms (hskip.suffix.trans hs) (not_isBlank_of_skipBlank_eq_cons hcons) hread)
  · exact hskip

/-- Scripts conserve content: `readScripts` reads them in any order and keeps them in one.
Induction on the scripts in the order in which they are read, with those found before in front of
the text that has been read. -/
theorem conserves_readScripts {found : Scripts} {s : List Char} (hs : s <:+ source)
    (hkinds : ∀ kind, (found.get kind).isSome →
      ∃ c ∈ source, ScriptKind.ofMarker? c = some kind) :
    ∃ text, Conserves source s text (readScripts a found s).rest (readScripts a found s).log ∧
      Rearranges source (readScripts a found s).value.characters (found.characters ++ text) := by
  fun_induction readScripts a found s with
  | case1 found s hnil =>
    have hskip := Conserves.skipBlank source s
    rw [hnil] at hskip
    exact ⟨[], hskip, .of_eq (List.append_nil _).symm⟩
  | case2 found s c t hcons hc =>
    have hskip := Conserves.skipBlank source s
    rw [hcons] at hskip
    exact ⟨[], hskip, .of_eq (List.append_nil _).symm⟩
  | case3 found s c t hcons kind hc hfound =>
    have hskip := Conserves.skipBlank source s
    rw [hcons] at hskip
    exact ⟨[], hskip, .of_eq (List.append_nil _).symm⟩
  | case4 found s c t hcons kind hc hfound script ih =>
    -- the marker itself is dropped
    have hmarker : Conserves source s [] t [] := by
      have hskip := Conserves.skipBlank source s
      rw [hcons] at hskip
      exact hskip.append (.dropMark (mem_marks_of_ofMarker? hc) t)
    have hargument := conserves_readArgument ha (hmarker.suffix.trans hs)
    have hscript := hmarker.append hargument
    have hoccurs : ∃ d ∈ source, ScriptKind.ofMarker? d = some kind :=
      ⟨c, (hs.subset (skipBlank_suffix s |>.subset (hcons ▸ List.mem_cons_self))), hc⟩
    -- the new script may have to go in front of a superscript
    have hset := Scripts.characters_set hkinds hoccurs (Bool.eq_false_iff.mpr hfound) script.value
    obtain ⟨text, htext, hvalue⟩ := ih (hscript.suffix.trans hs) (by
      intro other hother
      by_cases heq : other = kind
      · exact heq ▸ hoccurs
      · refine hkinds other ?_
        cases other <;> cases kind <;> first | exact absurd rfl heq | exact hother)
    refine ⟨_, hscript.append htext, ?_⟩
    rw [List.nil_append, ← List.append_assoc]
    exact hvalue.trans (hset.append (.of_eq rfl))

/-- A base with the scripts behind it conserves content, its own characters coming first. -/
theorem conserves_readScripted (base : Formula) {s : List Char} (hs : s <:+ source) :
    ∃ text, Conserves source s text (readScripted a base s).rest (readScripted a base s).log ∧
      Rearranges source (readScripted a base s).value.characters (base.characters ++ text) := by
  have hnone : ∀ kind, (Scripts.none.get kind).isSome →
      ∃ c ∈ source, ScriptKind.ofMarker? c = some kind := by
    rintro (_ | _) ⟨⟩
  obtain ⟨text, htext, hvalue⟩ := conserves_readScripts ha hs hnone
  refine ⟨text, htext, ?_⟩
  show Rearranges source ((readScripts a .none s).value.attach base).characters _
  rw [Scripts.characters_attach]
  exact (Rearranges.of_eq rfl).append hvalue

/-- Where no atom starts, in a source without commands, there is one of the `marks` or an ampersand.
A mark is dropped, with an argument behind it if it is a marker, and an ampersand becomes a text. -/
theorem conserves_readStray (hsource : '\\' ∉ source) {c : Char} {t : List Char}
    (hs : c :: t <:+ source) (hstarts : startsAtom (c :: t) = false) :
    Conserves source (c :: t) ((readStray a (c :: t)).value.toList.flatMap Node.characters)
      (readStray a (c :: t)).rest (readStray a (c :: t)).log := by
  have hslash : c ≠ '\\' := by
    rintro rfl
    exact hsource (hs.subset List.mem_cons_self)
  cases hc : ScriptKind.ofMarker? c with
  | some kind =>
    obtain ⟨text, htext, hvalue⟩ := conserves_readScripted ha .emptyRow hs
    rw [readStray_of_marker a hc]
    refine htext.rearrange ?_
    show Rearranges source ([(readScripted a .emptyRow (c :: t)).value].flatMap _) text
    rw [List.flatMap_singleton]
    exact hvalue
  | none =>
    rw [readStray_of_not_marker a hc]
    by_cases hcolumn : c = '&'
    · subst hcolumn
      rw [if_pos rfl]
      simpa using conserves_operator source (c := '&') (by decide) t
    · rw [if_neg hcolumn, if_neg hslash]
      -- only a closing brace is left
      have hmark : c ∈ marks := by
        simp only [startsAtom, Bool.not_eq_false', Bool.or_eq_true, Bool.and_eq_true,
          beq_iff_eq] at hstarts
        rcases hstarts with (((rfl | rfl) | rfl) | rfl) | ⟨rfl, _⟩
        · decide
        · decide
        · decide
        · exact absurd rfl hcolumn
        · exact absurd rfl hslash
      exact .dropMark hmark t

/-- An item conserves content, be it an atom with its scripts or what `readStray` gives. -/
theorem conserves_readItem (hsource : '\\' ∉ source) {c : Char} {t : List Char}
    (hs : c :: t <:+ source) (hblank : isBlank c = false) :
    Conserves source (c :: t) ((readItem a (c :: t)).value.toList.flatMap Node.characters)
      (readItem a (c :: t)).rest (readItem a (c :: t)).log := by
  unfold readItem
  split
  · next atom hread =>
    have hatom := ha.atoms hs hblank hread
    obtain ⟨text, htext, hvalue⟩ := conserves_readScripted ha atom.value (hatom.suffix.trans hs)
    refine (hatom.append htext).rearrange ?_
    show Rearranges source ([(readScripted a atom.value atom.rest).value].flatMap _) _
    rw [List.flatMap_singleton]
    exact hvalue
  · next hnone => exact conserves_readStray ha hsource hs (ha.strays hnone)

/-- **Items conserve the content of their input**, whatever they are read up to.  Induction on the
items in the order in which they are read; `Conserves.append` puts the blanks, the first item and
the other items one behind the other. -/
theorem conserves_readItems (hsource : '\\' ∉ source) (stops : List Stop) {s : List Char}
    (hs : s <:+ source) :
    Conserves source s ((readItems a stops s).value.flatMap Node.characters)
      (readItems a stops s).rest (readItems a stops s).log := by
  have hskip := Conserves.skipBlank source s
  fun_induction readItems a stops s with
  | case1 s hnil =>
    -- at the end of the input only blanks are dropped
    rw [hnil] at hskip
    exact hskip
  | case2 s c t hcons hstop =>
    -- at a stop too, which itself is left
    rw [hcons] at hskip
    exact hskip
  | case3 s c t hcons hstop item ih =>
    rw [hcons] at hskip
    have hitem := conserves_readItem ha hsource (hskip.suffix.trans hs)
      (not_isBlank_of_skipBlank_eq_cons hcons)
    have hfirst := hskip.append hitem
    have hothers := ih (hfirst.suffix.trans hs) (.skipBlank source item.rest)
    have hall := hfirst.append hothers
    rw [List.nil_append, List.nil_append, ← List.flatMap_append] at hall
    exact hall

/-- An expression conserves the content of its input, whatever it is read up to. -/
theorem conserves_readExpression (hsource : '\\' ∉ source) (stops : List Stop) {s : List Char}
    (hs : s <:+ source) :
    Conserves source s (readExpression a stops s).value.characters
      (readExpression a stops s).rest (readExpression a stops s).log := by
  show Conserves source s (Node.ofItems (readItems a stops s).value).characters _ _
  rw [Node.characters_ofItems]
  exact conserves_readItems ha hsource stops hs

/-- A group conserves content: its closing brace is one of the `marks` and is dropped, and if it is
missing there is nothing to drop. -/
theorem conserves_readBraced (hsource : '\\' ∉ source) {t : List Char} (ht : t <:+ source) :
    Conserves source t (readBraced a t).value.characters (readBraced a t).rest
      (readBraced a t).log := by
  have hcontent := conserves_readExpression ha hsource [.groupEnd] ht
  have hends := rest_of_groupEnd a t
  unfold readBraced
  generalize readExpression a [.groupEnd] t = content at hcontent hends
  obtain ⟨value, rest, log⟩ := content
  -- the end of the input or the closing brace
  rcases hends with rfl | ⟨u, rfl⟩
  · exact hcontent
  · have hall := hcontent.append (.dropMark (by decide) u)
    rw [List.append_nil, List.append_nil] at hall
    exact hall

/-- `readAtomBody` conserves content if the atoms one level further down do.  Without a backslash
there are four cases: a group, a number, an identifier, and a character that stands for itself. -/
theorem conserves_readAtomBody (hsource : '\\' ∉ source) {c : Char} {t : List Char}
    (hs : c :: t <:+ source) (hblank : isBlank c = false) (hstarts : startsAtom (c :: t) = true) :
    Conserves source (c :: t) (readAtomBody a (c :: t)).value.characters
      (readAtomBody a (c :: t)).rest (readAtomBody a (c :: t)).log := by
  simp only [readAtomBody]
  -- the cases are those of the definition
  split
  · next hc =>
    subst hc
    exact (Conserves.dropMark (by decide) t).append
      (conserves_readBraced ha hsource ((List.suffix_cons _ t).trans hs))
  · next hopen =>
    split
    · next hc =>
      subst hc
      exact absurd (hs.subset List.mem_cons_self) hsource
    · split
      · exact conserves_readNumber source (c :: t)
      · split
        · exact conserves_readIdentifier source (c :: t)
        · refine conserves_operator source ?_ t
          -- the other marks do not start an atom
          simp only [startsAtom, Bool.not_eq_true', Bool.or_eq_false_iff, beq_eq_false_iff_ne]
            at hstarts
          simp [isContent, hblank, marks, hopen, hstarts]

end Reader

/-! ## Sources

In a source that is read to its end nothing is left, so its content is what has been read. -/

/-- **Atoms are conserved, however many levels they have.** Induction on the levels.  Where none is
left, the text of the rest is its content and more. -/
theorem faithful_atomReader {source : List Char} (hsource : '\\' ∉ source) (levels : Nat) :
    Faithful source (atomReader levels) := by
  induction levels with
  | zero =>
    refine ⟨fun {c t r} hs hblank hread => ?_, startsAtom_eq_false_of_read⟩
    unfold atomReader at hread
    dsimp only at hread
    split at hread
    · -- the rest becomes a text, which is more than content, and the log says so
      cases hread
      refine ⟨List.nil_suffix, .of_eq ?_, fun hlimit => absurd List.mem_cons_self (hlimit _)⟩
      simp [readVerbatim, Node.characters, Node.texts, content]
    · cases hread
  | succ levels ih =>
    refine ⟨fun {c t r} hs hblank hread => ?_, startsAtom_eq_false_of_read⟩
    unfold atomReader at hread
    dsimp only at hread
    split at hread
    · next hstarts =>
      cases hread
      exact conserves_readAtomBody ih hsource hs hblank hstarts
    · cases hread

/-- `layOut` does not change the texts of a tree. -/
theorem characters_layOut (config : Config) (f : Formula) :
    (layOut config f).characters = f.characters := by
  rw [Node.characters, layOut, Node.texts_relabel]
  rfl

/-- **Characters are neither lost nor doubled nor invented.**  In a source without a backslash,
every character that is neither a blank nor one of the marks occurs in the texts of the tree as
often as in the source, also beyond the limit on nesting.  If scripts of one kind only occur and the
limit is not reached, the texts one after the other are the source without its blanks and marks. -/
theorem characters_conserved (config : Config) {source : List Char} (hsource : '\\' ∉ source) :
    (∀ c, isBlank c = false → c ∉ ['{', '}', '^', '_'] →
      ((parse config source).value.texts.flatMap String.toList).count c = source.count c) ∧
    ('^' ∉ source ∨ '_' ∉ source → WithinLimit (parse config source).log →
      (parse config source).value.texts.flatMap String.toList =
        source.filter fun c => !isBlank c && !(['{', '}', '^', '_'].contains c)) := by
  have hread := conserves_readExpression (faithful_atomReader hsource maxNesting) hsource []
    (List.suffix_refl source)
  have hrest : (readExpression (atomReader maxNesting) [] source).rest = [] := rest_read source
  have hsame := hread.same
  rw [hrest, content, content, List.filter_nil, List.append_nil] at hsame
  have hcharacters : (parse config source).value.texts.flatMap String.toList =
      (readExpression (atomReader maxNesting) [] source).value.characters :=
    characters_layOut config (read source).value
  rw [hcharacters]
  constructor
  · intro c hblank hmark
    have hc : isContent c = true := by simp [isContent, hblank, marks, hmark]
    have hcount := hsame.perm.count_eq c
    rwa [List.count_filter hc, content, List.count_filter hc] at hcount
  · intro hkinds hlimit
    -- a marker that does not occur leaves one kind of script
    have hone : OneKind source := by
      rcases hkinds with hsup | hsub
      · exact ⟨.sup, fun c hc hmarker => hsup ((eq_of_ofMarker? hmarker).2 rfl ▸ hc)⟩
      · exact ⟨.sub, fun c hc hmarker => hsub ((eq_of_ofMarker? hmarker).1 rfl ▸ hc)⟩
    have hclean := hread.clean hlimit
    have heq := hsame.eq hone
    rw [← content, content_of_all hclean] at heq
    exact heq

/-- A stray brace and separator, a group that is not closed, superscripts without a base and without
an argument. -/
def unbalancedSource : List Char := "x^\x7bab\x7d\x7d &[a]^^ 1.5\x7ba^".toList

/-- Superscripts only, with braces that do not match: counts and order are both claimed. -/
theorem characters_conserved_unbalanced :
    '\\' ∉ unbalancedSource ∧ '_' ∉ unbalancedSource ∧
    WithinLimit (parse .standard unbalancedSource).log ∧
    (isBlank 'a' = false ∧ 'a' ∉ ['{', '}', '^', '_'] ∧
      ((parse .standard unbalancedSource).value.texts.flatMap String.toList).count 'a' = 3) ∧
    (parse .standard unbalancedSource).value.texts.flatMap String.toList =
      "xab&[a]1.5a".toList := by
  have hsource : '\\' ∉ unbalancedSource := by decide
  have hsub : '_' ∉ unbalancedSource := by decide
  have hlimit : WithinLimit (parse .standard unbalancedSource).log := by decide +kernel
  obtain ⟨hcount, htexts⟩ := characters_conserved .standard hsource
  refine ⟨hsource, hsub, hlimit, ⟨by decide, by decide, ?_⟩, ?_⟩
  · rw [hcount 'a' (by decide) (by decide)]
    decide
  · rw [htexts (.inr hsub) hlimit]
    decide

end FormulaMarkup.Formula
