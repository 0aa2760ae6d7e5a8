import FormulaMarkup.Convert
import FormulaMarkup.Proofs.Limit.BraceDepth
import FormulaMarkup.Proofs.Limit.Locality

/-!
# FormulaMarkup — the rest of the input past the limit

Where an atom starts and no level is left for it, the rest of the input becomes one text of the
tree.  This happens once, ends the reading, and nothing else becomes of the rest.

The proof goes through the routines of the reader in the order in which they are built on each
other, and shows each to be `Local` where its atoms are.  The levels are then an induction: with
none left an atom is the rest of the input, and with one more it is read by routines whose atoms
are local already.  What is local for the whole source gives the first half of the result, the
count of braces in `BraceDepth` gives the second.

* **`InNode`** and its neighbours — where in a value the text can stand, as a frame around it.
* **`ReadsLocally`** — a reader whose atoms are local; **`readsLocally_atomReader`** is the
  induction on the levels.
* **`itemsThen`**, **`local_items`** — items with whatever closes them.
* **`fallback_exact`** — what the fallback takes, and where it is triggered in a source without a
  backslash.
-/

namespace FormulaMarkup.Limit

open Source Text Formula
open Isolation (WithinLimit)

/-! ## Where the text stands

The verbatim text stands at one place of what is read.  For a formula this is a `Node.Frame`; items,
scripts, cells and rows in progress have a predicate of their own each, and the lemmas say how one
becomes another when the reader puts the parts together. -/

/-- The node stands somewhere in a formula, in the hole of a `Node.Frame`. -/
def InNode (around : Formula → Formula) : Prop :=
  ∃ frame : Node.Frame SpaceName Unit, around = frame.fill

/-- The text stands in an item, which is then there. -/
def InItem (around : Formula → Option Formula) : Prop :=
  ∃ inner, InNode inner ∧ around = fun node => some (inner node)

/-- The text stands in one of the items, with others before and behind it. -/
def InItems (around : Formula → List Formula) : Prop :=
  ∃ before inner after, InNode inner ∧ around = fun node => before ++ inner node :: after

/-- The text stands in the script that has been found last. -/
def InScripts (around : Formula → Scripts) : Prop :=
  ∃ found kind inner, InNode inner ∧ around = fun node => Scripts.set found kind (inner node)

/-- The text stands in one cell of one row. -/
def InRows (around : Formula → List (List Formula)) : Prop :=
  ∃ above before inner after below, InNode inner ∧
    around = fun node => above ++ (before ++ inner node :: after) :: below

/-- A text in a script stands in the scripted formula.  The frame depends on whether the other kind
of script has been found before. -/
theorem InScripts.attach {around : Formula → Scripts} (h : InScripts around) (base : Formula) :
    InNode fun node => (around node).attach base := by
  obtain ⟨found, kind, _, ⟨frame, rfl⟩, rfl⟩ := h
  cases kind with
  | sub => exact ⟨.subscript base frame found.sup (), rfl⟩
  | sup =>
    refine ⟨.superscript base found.sub frame (), funext fun node => ?_⟩
    -- without a subscript the frame is a superscript alone, with one it is both
    cases hsub : found.sub <;> simp [Scripts.set, Scripts.attach, hsub, Node.Frame.fill]

/-- A text in one of the items stands in `Node.ofItems` of them, be it a row or the item itself. -/
theorem InItems.ofItems {around : Formula → List Formula} (h : InItems around) :
    InNode fun node => Node.ofItems (around node) := by
  obtain ⟨before, _, after, ⟨frame, rfl⟩, rfl⟩ := h
  obtain ⟨whole, hwhole⟩ := Node.Frame.exists_ofItems before frame after
  exact ⟨whole, funext fun node => (hwhole node).symm⟩

/-- A text in a cell stands in the table. -/
theorem InRows.matrix {around : Formula → List (List Formula)} (h : InRows around)
    (opening closing : String) : InNode fun node => .matrix (around node) opening closing := by
  obtain ⟨above, before, _, after, below, ⟨frame, rfl⟩, rfl⟩ := h
  exact ⟨.cell above before frame after below opening closing, rfl⟩

theorem InRows.ofCell {around : Formula → List Formula} (h : InItems around)
    (cells : List Formula) : InRows fun node => [cells ++ [Node.ofItems (around node)]] :=
  ⟨[], cells, fun node => Node.ofItems (around node), [], [], h.ofItems, rfl⟩

/-- A text in the rows below a row stands in the rows that begin with it. -/
theorem InRows.below {around : Formula → List (List Formula)} (h : InRows around)
    (cells : List Formula) : InRows fun node => cells :: around node := by
  obtain ⟨above, before, inner, after, below, hinner, rfl⟩ := h
  exact ⟨cells :: above, before, inner, after, below, hinner, rfl⟩

/-! ## What consists of atoms

All routines between an atom and a construct are read with some reader of atoms, `a`.  They are
local where its atoms are, and this is all that is assumed of it, so the level on which they are
read does not matter here. -/

/-- **Atoms are read by `body` where one starts, and nowhere else, and `body` is local.** This is
what the lemmas about arguments, scripts and items ask of the level below, and
`readsLocally_atomReader` gives it for `atomReader` at every level. -/
structure ReadsLocally (a : AtomReader) (body : List Char → Reading Formula) : Prop where
  reads : ∀ s, a.read s = if startsAtom s then some (body s) else none
  atoms : ∀ {c t}, isBlank c = false → startsAtom (c :: t) = true → Local InNode body (c :: t)

section Reader

variable {a : AtomReader} {body : List Char → Reading Formula} (ha : ReadsLocally a body)
include ha

theorem ReadsLocally.read_eq_some {s : List Char} (h : startsAtom s = true) :
    a.read s = some (body s) := by
  rw [ha.reads, if_pos h]

theorem ReadsLocally.read_eq_none {s : List Char} (h : startsAtom s = false) : a.read s = none := by
  rw [ha.reads, if_neg (Bool.eq_false_iff.mp h)]

/-- At the end of the input an argument is an empty row, without a word.  This is what a construct
with two arguments makes of the second one when the first has taken the rest of the input. -/
theorem readArgument_nil : readArgument a [] = ⟨.emptyRow, [], []⟩ := by
  have hnone : a.read (skipBlank []) = none := ha.read_eq_none rfl
  rw [readArgument, hnone]
  rfl

omit ha in
theorem readArgument_skipBlank (s : List Char) :
    readArgument a (skipBlank s) = readArgument a s := by
  rw [readArgument, skipBlank_skipBlank, readArgument]

/-- `readArgument` is `Local`: it gives an atom, or an empty row where none starts.  Which of them
it is, all variants have in common (`Variant.startsAtom`). -/
theorem local_readArgument (s : List Char) : Local InNode (readArgument a) s := by
  refine Local.skipBlank ?_ readArgument_skipBlank
  cases hs : skipBlank s with
  | nil =>
    have hnil := readArgument_nil ha
    exact .nil (by rw [hnil]) (by rw [hnil]; exact withinLimit_nil)
  | cons c t =>
    have hblank := not_isBlank_of_skipBlank_eq_cons hs
    have hskip {s' : List Char} (hs' : Variant (c :: t) s') : skipBlank s' = s' := by
      obtain ⟨t', rfl⟩ := hs'.exists_cons
      exact skipBlank_cons hblank t'
    -- all variants begin with the same character, so none has blanks to skip
    cases hstarts : startsAtom (c :: t) with
    | true =>
      refine (ha.atoms hblank hstarts).congr fun s' hs' => ?_
      rw [readArgument, hskip hs', ha.read_eq_some (hs'.startsAtom.trans hstarts)]
    | false =>
      refine (Local.leave .emptyRow withinLimit_nil (c :: t)).congr fun s' hs' => ?_
      rw [readArgument, hskip hs', ha.read_eq_none (hs'.startsAtom.trans hstarts)]

theorem local_argument_map (f : Formula → Formula)
    (hf : ∀ around, InNode around → InNode fun node => f (around node)) (s : List Char) :
    Local InNode (fun s => (readArgument a s).map f) s :=
  (local_readArgument ha s).map f hf

omit ha in
theorem readScripts_skipBlank (found : Scripts) (s : List Char) :
    readScripts a found (skipBlank s) = readScripts a found s := by
  rw [readScripts.eq_def, skipBlank_skipBlank, readScripts.eq_def a found s]

/-- **Scripts are `Local`.** Induction on the scripts in the order in which `readScripts` finds
them.  When one has taken the rest of the input, no other is found behind it. -/
theorem local_readScripts (found : Scripts) (s : List Char) :
    Local InScripts (readScripts a found) s := by
  refine Local.skipBlank ?_ (readScripts_skipBlank found)
  induction found, s using readScripts.induct a with
  | case1 found s hnil =>
    -- nothing is left
    have hread := readScripts_of_nil a found (s := []) rfl
    rw [hnil]
    exact .nil (by rw [hread]) (by rw [hread]; exact withinLimit_nil)
  | case2 found s c t hcons hc =>
    -- no marker is next
    have hblank := not_isBlank_of_skipBlank_eq_cons hcons
    rw [hcons]
    refine (Local.leave found withinLimit_nil (c :: t)).congr fun s' hs' => ?_
    obtain ⟨t', rfl⟩ := hs'.exists_cons
    exact readScripts_of_other a found (skipBlank_cons hblank t') hc
  | case3 found s c t hcons kind hc hfound =>
    -- a second script of the same kind is left to the row
    have hblank := not_isBlank_of_skipBlank_eq_cons hcons
    rw [hcons]
    refine (Local.leave found withinLimit_nil (c :: t)).congr fun s' hs' => ?_
    obtain ⟨t', rfl⟩ := hs'.exists_cons
    exact readScripts_of_found a (skipBlank_cons hblank t') hc hfound
  | case4 found s c t hcons kind hc hfound script ih =>
    -- a marker with its argument, and further scripts
    have hblank := not_isBlank_of_skipBlank_eq_cons hcons
    rw [hcons]
    have hrest := Local.skipBlank ih (readScripts_skipBlank _)
    refine (Local.bind (fun script rest => readScripts a (found.set kind script) rest)
      (local_readArgument ha t) hrest fun around hin => ?_).behind fun t' => ?_
    · refine ⟨fun node => found.set kind (around node), ⟨found, kind, around, hin, rfl⟩, ?_⟩
      exact fun node => readScripts_of_nil a _ rfl
    · exact readScripts_of_marker a (skipBlank_cons hblank t') hc (Bool.eq_false_iff.mpr hfound)

/-- `readScripted` is `Local`, the text being in one of the scripts. -/
theorem local_readScripted (base : Formula) (s : List Char) :
    Local InNode (readScripted a base) s :=
  (local_readScripts ha .none s).map (·.attach base) fun _ hin => hin.attach base

omit ha in
theorem readScripted_nil (base : Formula) : readScripted a base [] = ⟨base, [], []⟩ := by
  rw [readScripted, readScripts_of_nil a .none rfl]
  rfl

omit ha in
/-- Behind a backslash, where no atom starts, `readStray` finds a line break, the end of an
environment or a closing fence. -/
theorem local_readStray_slash (t : List Char) :
    Local InItem (fun t => readStray a ('\\' :: t)) t := by
  have hstray (t : List Char) := readStray_of_not_marker a (c := '\\') rfl t
  by_cases hhead : t.head? = some '\\'
  · obtain ⟨u, rfl⟩ := List.head?_eq_some_iff.mp hhead
    refine (Local.leave (some .lineBreak) withinLimit_nil u).behind fun u' => ?_
    rw [hstray]
    rfl
  have hslash : ('\\' = '&') = False := by simp
  -- the end of an environment is dropped with its name, which the log tells
  cases hend : atCommand "end".toList ('\\' :: t) with
  | true =>
    refine (Local.bind (fun name rest => ⟨none, rest, [.strayEnd name]⟩)
      (local_afterCommand local_readGroup t) (.leave none ?_ _) fun _ => False.elim).congr
      fun t' ht' => ?_
    · rintro n hn
      cases List.mem_singleton.mp hn
    · have hhead' : t'.head? ≠ some '\\' := ht'.head ▸ hhead
      have hend' := (ht'.atCommand_slash (by decide) (by decide)).trans hend
      simp only [hstray, hslash, hhead', hend', if_true, if_false]
      rfl
  | false =>
    refine ((local_readCommand t).map (fun _ => none) fun _ => False.elim).congr fun t' ht' => ?_
    have hhead' : t'.head? ≠ some '\\' := ht'.head ▸ hhead
    have hend' := (ht'.atCommand_slash (by decide) (by decide)).trans hend
    simp only [hstray, hslash, hhead', hend', if_true, if_false, Bool.false_eq_true]
    rfl

/-- What is read where no atom starts is local: a script without a base, a stray `&` or line break,
or a command that nothing waits for.  The cases are those of `readStray`, each of which is already
known to be local in `readScripted`, `local_readStray_slash` or `Local.leave`. -/
theorem local_readStray {c : Char} (t : List Char) : Local InItem (readStray a) (c :: t) := by
  cases hc : ScriptKind.ofMarker? c with
  | some kind =>
    refine ((local_readScripted ha .emptyRow (c :: t)).map some fun around hin =>
      ⟨around, hin, rfl⟩).congr fun s' hs' => ?_
    obtain ⟨t', rfl⟩ := hs'.exists_cons
    exact readStray_of_marker a hc t'
  | none =>
    by_cases hslash : c = '\\'
    · -- the three commands behind a backslash
      subst hslash
      exact (local_readStray_slash t).behind fun _ => rfl
    · -- a stray ampersand is an operator, a stray brace nothing
      refine (Local.leave (if c = '&' then some (.operator "&" false) else none) withinLimit_nil
        t).behind fun t' => ?_
      rw [readStray_of_not_marker a hc, if_neg hslash]
      split <;> rfl

/-- `readItem` is `Local`: it gives an atom with its scripts, or what is read in its place. -/
theorem local_readItem {c : Char} (hblank : isBlank c = false) (t : List Char) :
    Local InItem (readItem a) (c :: t) := by
  cases hstarts : startsAtom (c :: t) with
  | false =>
    refine (local_readStray ha t).congr fun s' hs' => ?_
    rw [readItem, ha.read_eq_none (hs'.startsAtom.trans hstarts)]
  | true =>
    -- the scripts are read behind the atom
    have hsome (base : Formula) (s : List Char) :
        Local InItem (fun s => (readScripted a base s).map some) s :=
      (local_readScripted ha base s).map some fun around hin => ⟨around, hin, rfl⟩
    refine (Local.bind (fun base rest => (readScripted a base rest).map some)
      (ha.atoms hblank hstarts) (hsome _ _) fun around hin => ?_).congr fun s' hs' => ?_
    · refine ⟨fun node => some (around node), ⟨around, hin, rfl⟩, fun node => ?_⟩
      rw [readScripted_nil]
      rfl
    · rw [readItem, ha.read_eq_some (hs'.startsAtom.trans hstarts)]

/-- `readItem` drops the end of an environment that nothing waits for, with its name. -/
theorem readItem_of_end {s : List Char} (h : atCommand "end".toList s = true) :
    readItem a s =
      ⟨none, skipEnvironmentEnd s, [.strayEnd (readGroup (readCommand s).2).1]⟩ := by
  obtain ⟨t, rfl, ht⟩ := atCommand_iff.mp h
  have hstarts : startsAtom ('\\' :: ("end".toList ++ t)) = false := by
    simp only [startsAtom, h, Bool.or_true, Bool.and_true, Bool.not_eq_false', beq_self_eq_true]
  have hcolumn : ¬ '\\' = '&' := by decide
  have hrow : ("end".toList ++ t).head? ≠ some '\\' := by simp
  rw [readItem, ha.read_eq_none hstarts, readStray_of_not_marker a rfl, if_neg hcolumn, if_pos rfl,
    if_neg hrow, if_pos h, skipEnvironmentEnd, if_pos h]

/-- `readItem` is `Local` together with the test whether there is a stop in front of it, also at the
end of an environment, whose name it consumes. -/
theorem local_item_withStopAhead (stops : List Stop) {c : Char} (hblank : isBlank c = false)
    (t : List Char) :
    Local (PairedWith (Stop.anyAt stops (c :: t)) InItem)
      (withStopAhead stops (readItem a)) (c :: t) := by
  cases hend : atCommand "end".toList (c :: t) with
  | false => exact (local_readItem ha hblank t).withStopAhead (.inl hend)
  | true =>
    have hlog (name : List Char) : WithinLimit [.strayEnd name] := by
      intro n hn
      cases List.mem_singleton.mp hn
    refine (local_end_withStopAhead stops none (fun name => [.strayEnd name]) hlog hend _).congr
      fun s' hs' => ?_
    have hend' : atCommand "end".toList s' = true := (hs'.atCommand (by decide)).trans hend
    rw [withStopAhead, withStopAhead, readItem_of_end ha hend']

/-! ## Items and what closes them

A construct that has a stop, such as a group or a cell, reads items up to it and then consumes it.
The two steps are taken together as `itemsThen`, because the stop has been looked at by the first
one before it is consumed by the second. -/

/-- Items up to a stop, and what a construct makes of them and of the stop behind them. -/
def itemsThen {β : Type} (a : AtomReader) (stops : List Stop)
    (close : List Formula → List Char → Reading β) (s : List Char) : Reading β :=
  (close (readItems a stops s).value (readItems a stops s).rest).after (readItems a stops s).log

section ItemsThen

variable {β : Type} (stops : List Stop) (close : List Formula → List Char → Reading β)

omit ha in
theorem itemsThen_skipBlank (s : List Char) :
    itemsThen a stops close (skipBlank s) = itemsThen a stops close s := by
  rw [itemsThen, itemsThen, readItems_skipBlank]

omit ha in
/-- At the end of the input there are no items, and no stop either. -/
theorem itemsThen_nil : itemsThen a stops close [] = close [] [] := by
  rw [itemsThen, readItems_of_nil a stops rfl]
  rfl

omit ha in
theorem itemsThen_of_stop {c : Char} {t : List Char} (hblank : isBlank c = false)
    (hstop : Stop.anyAt stops (c :: t) = true) :
    itemsThen a stops close (c :: t) = close [] (c :: t) := by
  rw [itemsThen, readItems_of_stop a (skipBlank_cons hblank t) hstop]
  rfl

omit ha in
theorem itemsThen_of_item {c : Char} {t : List Char} (hblank : isBlank c = false)
    (hstop : Stop.anyAt stops (c :: t) = false) :
    itemsThen a stops close (c :: t) =
      (itemsThen a stops (fun items => close ((readItem a (c :: t)).value.toList ++ items))
        (readItem a (c :: t)).rest).after (readItem a (c :: t)).log := by
  rw [itemsThen, readItems_of_item a (skipBlank_cons hblank t) hstop]
  simp only [itemsThen, Reading.after, Reading.map, List.append_assoc]

end ItemsThen

/-- **Items are local, together with what closes them.** By themselves they would not be: to see
that an environment ends here its name is looked at, which is consumed by what closes the items.
Induction on the items for all `close`: what has been read goes into it, in front of the items to
come. -/
theorem local_items {β : Type} {arounds : (Formula → β) → Prop} (stops : List Stop) (s : List Char)
    (close : List Formula → List Char → Reading β)
    (hclose : ∀ items s', s' <:+ s → Stop.anyAt stops s' = true →
      Local (PairedWith true arounds) (withStopAhead stops (close items)) s')
    (hnil : ∀ items, (close items []).rest = [] ∧ WithinLimit (close items []).log)
    (hcut : ∀ around, InItems around → ∃ around', arounds around' ∧
      ∀ node, close (around node) [] = ⟨around' node, [], []⟩) :
    Local arounds (itemsThen a stops close) s := by
  refine Local.skipBlank ?_ (itemsThen_skipBlank stops close)
  induction s using readItems.induct a stops generalizing close with
  | case1 s hs =>
    -- at the end of the input the items are closed by nothing
    rw [hs]
    refine .nil ?_ ?_
    · rw [itemsThen_nil]
      exact (hnil []).1
    · rw [itemsThen_nil]
      exact (hnil []).2
  | case2 s c t hcons hstop =>
    -- in front of a stop it is consumed by `close`
    have hblank := not_isBlank_of_skipBlank_eq_cons hcons
    have hsuffix : c :: t <:+ s := hcons ▸ skipBlank_suffix s
    rw [hcons]
    refine (hclose [] (c :: t) hsuffix hstop).of_withStopAhead hstop fun s' hs' hstop' => ?_
    obtain ⟨t', rfl⟩ := hs'.exists_cons
    exact itemsThen_of_stop stops close hblank hstop'
  | case3 s c t hcons hstop item ih =>
    have hblank := not_isBlank_of_skipBlank_eq_cons hcons
    have hsuffix : item.rest <:+ s :=
      (readItem_suffix a (c :: t)).trans (hcons ▸ skipBlank_suffix s)
    have hstop := Bool.eq_false_iff.mpr hstop
    have hitem := local_item_withStopAhead ha stops hblank t
    rw [hstop] at hitem
    rw [hcons]
    -- what is read behind the item
    let next (item : Option Formula) : List Char → Reading β :=
      itemsThen a stops fun items => close (item.toList ++ items)
    have hnext : Local arounds (next item.value) item.rest := by
      refine Local.skipBlank (ih _ (fun items s' hs' => ?_) (fun items => hnil _) ?_)
        (itemsThen_skipBlank stops _)
      · exact hclose _ s' (hs'.trans hsuffix)
      · rintro _ ⟨before, inner, after, hinner, rfl⟩
        obtain ⟨around', hin, heq⟩ := hcut _
          ⟨item.value.toList ++ before, inner, after, hinner, rfl⟩
        refine ⟨around', hin, fun node => ?_⟩
        rw [← heq, List.append_assoc]
    -- an item that has taken the rest leaves nothing to be read but the end of the input
    have hlast : ∀ around, InItem around → ∃ around', arounds around' ∧
        ∀ node, next (around node) [] = ⟨around' node, [], []⟩ := by
      rintro _ ⟨inner, hinner, rfl⟩
      obtain ⟨around', hin, heq⟩ := hcut _ ⟨[], inner, [], hinner, rfl⟩
      exact ⟨around', hin, fun node => (itemsThen_nil stops _).trans (heq node)⟩
    have hboth := hitem.bind_withStopAhead next hstop hnext hlast
    refine hboth.of_withStopAhead hstop fun s' hs' hstop' => ?_
    obtain ⟨t', rfl⟩ := hs'.exists_cons
    exact itemsThen_of_item stops close hblank hstop'

/-- Items up to a stop that is looked for without going further.  Here what closes the items is
local by itself, and the test for the stop needs no attention. -/
theorem local_items_visible {β : Type} {arounds : (Formula → β) → Prop} {stops : List Stop}
    (hstops : ∀ name, .environmentEnd name ∉ stops) (s : List Char)
    (close : List Formula → List Char → Reading β)
    (hclose : ∀ items s', Stop.anyAt stops s' = true → Local arounds (close items) s')
    (hnil : ∀ items, (close items []).rest = [] ∧ WithinLimit (close items []).log)
    (hcut : ∀ around, InItems around → ∃ around', arounds around' ∧
      ∀ node, close (around node) [] = ⟨around' node, [], []⟩) :
    Local arounds (itemsThen a stops close) s := by
  refine local_items ha stops s close (fun items s' _ hstop => ?_) hnil hcut
  rw [← hstop]
  exact (hclose items s' hstop).withStopAhead (.inr hstops)

/-! ## Atoms

The bodies of groups, radicals and fences are items with a stop of their own, so each of these
lemmas says what closes the items and in which frame the text stands if it is among them. -/

/-- `readBraced` is `Local`, because the closing brace of a group is one character. -/
theorem local_readBraced (s : List Char) : Local InNode (readBraced a) s := by
  have hread (s : List Char) : readBraced a s =
      itemsThen a [.groupEnd] (fun items s => ⟨Node.ofItems items, s.drop 1, []⟩) s := by
    simp only [readBraced, itemsThen, Reading.after, List.append_nil]
    rfl
  refine Local.congr ?_ fun s' _ => hread s'
  refine local_items_visible ha (by simp) s _ (fun items s' hstop => ?_)
    (fun items => ⟨rfl, withinLimit_nil⟩) fun around hin => ⟨_, hin.ofItems, fun _ => rfl⟩
  obtain ⟨_, hmem, hstands⟩ := Stop.anyAt_iff _ _ |>.mp hstop
  obtain rfl := List.mem_singleton.mp hmem
  cases hstands with
  | groupEnd t => exact (Local.leave (Node.ofItems items) withinLimit_nil t).behind fun _ => rfl

/-- The index of a radical and the body behind it are `Local` together.  The bracket is a stop that
is seen by its one character, so `local_items_visible` applies. -/
theorem local_index (t : List Char) : Local InNode (itemsThen a [.bracketEnd] fun items s =>
    (readArgument a (s.drop 1)).map (.radical · (some (Node.ofItems items)))) t := by
  have hnil := readArgument_nil ha
  refine local_items_visible ha (by simp) t _ (fun items s' hstop => ?_) (fun items => ?_)
    fun around hin => ?_
  · obtain ⟨_, hmem, hstands⟩ := Stop.anyAt_iff _ _ |>.mp hstop
    obtain rfl := List.mem_singleton.mp hmem
    cases hstands with
    | bracketEnd t =>
      refine (local_argument_map ha (.radical · (some (Node.ofItems items))) ?_ t).behind
        fun _ => rfl
      rintro _ ⟨frame, rfl⟩
      exact ⟨.radicand frame _, rfl⟩
  · rw [List.drop_nil, hnil]
    exact ⟨rfl, withinLimit_nil⟩
  · -- an index that has taken the rest leaves an empty radicand
    obtain ⟨frame, hframe⟩ := hin.ofItems
    refine ⟨(Node.Frame.index .emptyRow frame).fill, ⟨_, rfl⟩, fun node => ?_⟩
    have hnode : Node.ofItems (around node) = frame.fill node := congrFun hframe node
    rw [List.drop_nil, hnil, hnode]
    rfl

/-- A radical is local, with an index in brackets or without one.  Both cases are told apart by one
character, which all variants of the input have in common. -/
theorem local_readRadical (s : List Char) : Local InNode (readRadical a) s := by
  have hskip (s : List Char) : readRadical a (skipBlank s) = readRadical a s := by
    rw [readRadical, skipBlank_skipBlank, readRadical]
  -- without an index the body is an argument like any other
  have hbody (s : List Char) :
      Local InNode (fun s => (readArgument a s).map (.radical · none)) s := by
    refine local_argument_map ha (.radical · none) ?_ s
    rintro _ ⟨frame, rfl⟩
    exact ⟨.radicand frame none, rfl⟩
  -- the definition looks behind the blanks, which are gone already here
  have hother {s : List Char} (hs : s.head? ≠ some '[') (hblank : skipBlank s = s) :
      readRadical a s = (readArgument a s).map (.radical · none) := by
    have hbracket : ∀ t, skipBlank s ≠ '[' :: t := by
      intro t ht
      rw [hblank] at ht
      exact hs (by rw [ht]; rfl)
    rw [readRadical_of_not_bracket a hbracket, hblank]
  -- from here on the first character is known, and it is no blank
  refine Local.skipBlank ?_ hskip
  cases hs : skipBlank s with
  | nil =>
    refine (hbody []).congr fun s' hs' => ?_
    -- the empty text has no other variant
    obtain rfl : s' = [] := List.head?_eq_none_iff.mp hs'.head
    exact hother (by simp) rfl
  | cons c t =>
    have hblank := not_isBlank_of_skipBlank_eq_cons hs
    by_cases hc : c = '['
    · subst hc
      -- the bracket is passed over, and the index with its body is local behind it
      refine (local_index ha t).behind fun t' => ?_
      rw [readRadical_of_bracket a (skipBlank_cons hblank t')]
      rfl
    · refine (hbody (c :: t)).congr fun s' hs' => ?_
      obtain ⟨t', rfl⟩ := hs'.exists_cons
      refine hother ?_ (skipBlank_cons hblank t')
      rw [List.head?_cons]
      exact fun h => hc (Option.some.inj h)

/-- What becomes of the body of a fence: with the closing command its glyph is read, and at the end
of the input there is none. -/
def closeFence (opening : String) (items : List Formula) (s : List Char) : Reading Formula :=
  if atCommand "right".toList s then
    ⟨.fenced opening (readDelimiter (readCommand s).2).1 (Node.ofItems items),
      (readDelimiter (readCommand s).2).2, []⟩
  else ⟨.fenced opening "" (Node.ofItems items), s, []⟩

/-- A fence is local.  Its opening glyph is read first (`local_readDelimiter`), and the command
`right` that closes it is a stop which is seen by its name alone, so `local_items_visible`
applies. -/
theorem local_readFenced (s : List Char) : Local InNode (readFenced a) s := by
  -- the routine in the form of `itemsThen`: a glyph, items up to `right`, and what closes them
  have hread (s : List Char) : readFenced a s =
      (itemsThen a [.right] (closeFence (readDelimiter s).1) (readDelimiter s).2).after [] := by
    have hbody : readExpression a [.right] (readDelimiter s).2
        = (readItems a [.right] (readDelimiter s).2).map Node.ofItems := rfl
    simp only [readFenced, itemsThen, closeFence, hbody, Reading.after, Reading.map,
      List.nil_append]
    split
    · simp only [List.append_nil]
    · simp only [List.append_nil]
  -- where the stop stands, the command is consumed and the closing glyph is read behind it
  have hclose (opening : String) (items : List Formula) (s : List Char)
      (hstop : Stop.anyAt [.right] s = true) : Local InNode (closeFence opening items) s := by
    obtain ⟨_, hmem, hstands⟩ := Stop.anyAt_iff _ _ |>.mp hstop
    obtain rfl := List.mem_singleton.mp hmem
    cases hstands with
    | right t hname =>
      suffices h : Local InNode (fun t => closeFence opening items ('\\' :: t))
          ("right".toList ++ t) by
        exact h.behind fun _ => rfl
      have hat : atCommand "right".toList ('\\' :: ("right".toList ++ t)) = true :=
        atCommand_iff.mpr ⟨t, rfl, hname⟩
      refine ((local_afterCommand local_readDelimiter ("right".toList ++ t)).map
        (fun closing => .fenced opening closing (Node.ofItems items)) fun _ => False.elim).congr
        fun t' ht' => ?_
      rw [closeFence, if_pos ((ht'.atCommand_slash (by decide) (by decide)).trans hat)]
      rfl
  -- a fence that is never closed has the empty closing glyph, around the text that is taken
  have hbody (opening : String) (s : List Char) :
      Local InNode (itemsThen a [.right] (closeFence opening)) s := by
    refine local_items_visible ha (by simp) s _ (hclose opening) (fun items => ?_)
      fun around hin => ?_
    · exact ⟨rfl, withinLimit_nil⟩
    · obtain ⟨frame, hframe⟩ := hin.ofItems
      refine ⟨(Node.Frame.fenced opening "" frame).fill, ⟨_, rfl⟩, fun node => ?_⟩
      have hnode : Node.ofItems (around node) = frame.fill node := congrFun hframe node
      show (⟨.fenced opening "" (Node.ofItems (around node)), [], []⟩ : Reading Formula) = _
      rw [hnode]
      rfl
  exact (Local.bind (fun opening rest => itemsThen a [.right] (closeFence opening) rest)
    (local_readDelimiter s) (hbody _ _) fun _ => False.elim).congr fun s' _ => hread s'

/-! ## Environments

A cell ends at a column mark, at a line break or with the environment, and what follows it is read
by the same routine again.  This is why the rows are an induction on the length of what is left. -/

/-- What becomes of a cell, with the other cells of its row, and of the rows behind it. -/
def closeCell (a : AtomReader) (environment : List Char) (cells : List Formula)
    (s : List Char) : Reading (List (List Formula)) :=
  match s with
  | '&' :: r => readRows a environment cells r
  | '\\' :: '\\' :: r => (readRows a environment [] r).map (cells :: ·)
  | r => ⟨[cells], skipEnvironmentEnd r, []⟩

omit ha in
/-- Rows are the items of a cell, and what becomes of them.  The three cases of `readRows`, which
look at what the cell has left, are those of `closeCell`. -/
theorem readRows_eq_itemsThen (environment : List Char) (cells : List Formula) {s : List Char}
    (hs : s ≠ []) : readRows a environment cells s =
      itemsThen a (cellStops environment)
        (fun items => closeCell a environment (cells ++ [Node.ofItems items])) s := by
  by_cases hcolumn : ∃ r, (readExpression a (cellStops environment) s).rest = '&' :: r
  · obtain ⟨r, hr⟩ := hcolumn
    have hrest : (readItems a (cellStops environment) s).rest = '&' :: r := hr
    rw [readRows_of_column a environment cells hs hr, itemsThen, hrest]
    rfl
  by_cases hrow : ∃ r, (readExpression a (cellStops environment) s).rest = '\\' :: '\\' :: r
  · obtain ⟨r, hr⟩ := hrow
    have hrest : (readItems a (cellStops environment) s).rest = '\\' :: '\\' :: r := hr
    rw [readRows_of_row a environment cells hs hr, itemsThen, hrest]
    rfl
  -- neither a column mark nor a line break: the table is closed
  rw [readRows_of_end a environment cells hs (fun r hr => hcolumn ⟨r, hr⟩) fun r hr => hrow ⟨r, hr⟩,
    itemsThen, closeCell]
  · rw [Reading.after, List.append_nil]
    rfl
  · exact fun r hr => hcolumn ⟨r, hr⟩
  · exact fun r hr => hrow ⟨r, hr⟩

omit ha in
/-- `closeCell` is `Local` together with the test for the stop, if the rows that are read later are.
One case for each of the three `cellStops`. -/
theorem local_closeCell (environment : List Char) {s : List Char}
    (hrows : ∀ r cells, r <:+ s → r.length < s.length →
      Local InRows (readRows a environment cells) r)
    (hstop : Stop.anyAt (cellStops environment) s = true) (cells : List Formula) :
    Local (PairedWith true InRows)
      (withStopAhead (cellStops environment) (closeCell a environment cells)) s := by
  -- for the first two stops the test looks at no name
  have hvisible (h : Local InRows (closeCell a environment cells) s)
      (hend : atCommand "end".toList s = false) : Local (PairedWith true InRows)
        (withStopAhead (cellStops environment) (closeCell a environment cells)) s := by
    rw [← hstop]
    exact h.withStopAhead (.inl hend)
  obtain ⟨stop, hmem, hstands⟩ := Stop.anyAt_iff _ _ |>.mp hstop
  simp only [cellStops, List.mem_cons, List.not_mem_nil, or_false] at hmem
  rcases hmem with rfl | rfl | rfl
  · cases hstands with
    | column r =>
      have hr := hrows r cells (List.suffix_cons _ r) (Nat.lt_succ_self _)
      exact hvisible (hr.behind fun _ => rfl) (atCommand_eq_false (by decide) r)
  · cases hstands with
    | row r =>
      have hr := hrows r [] ((List.suffix_cons _ r).trans (List.suffix_cons _ _))
        (Nat.lt_succ_of_lt (Nat.lt_succ_self _))
      refine hvisible (Local.behind (Local.behind (hr.map (cells :: ·) fun _ hin => hin.below cells)
        fun _ => rfl) fun _ => rfl) rfl
  · cases hstands with
    | environmentEnd t hname =>
      have hend : atCommand "end".toList ('\\' :: ("end".toList ++ t)) = true :=
        atCommand_iff.mpr ⟨t, rfl, hname⟩
      refine (local_end_withStopAhead (cellStops (readGroup t).1) [cells] (fun _ => [])
        (fun _ => withinLimit_nil) hend true).congr
        fun s' hs' => ?_
      have hend' : atCommand "end".toList s' = true := (hs'.atCommand (by decide)).trans hend
      obtain ⟨u, rfl, _⟩ := atCommand_iff.mp hend'
      rfl

/-- **Tables are `Local`.** Induction on the length of what is left of the table, `local_closeCell`
being the step. -/
theorem local_readRows (environment : List Char) (cells : List Formula) (s : List Char) :
    Local InRows (readRows a environment cells) s := by
  induction hn : s.length using Nat.strong_induction_on generalizing s cells with
  | _ n ih =>
    subst hn
    cases s with
    | nil => exact .nil (by rw [readRows]) (by rw [readRows]; exact withinLimit_nil)
    | cons c t =>
      refine Local.congr ?_ fun s' hs' => readRows_eq_itemsThen environment cells ?_
      · refine local_items ha _ _ _ (fun items s' hs' hstop => ?_) (fun items => ?_)
          fun around hin => ⟨_, .ofCell hin cells, fun _ => rfl⟩
        · -- what follows the cell is shorter, so the induction hypothesis applies
          refine local_closeCell environment (fun r cells' hr hlt => ?_) hstop _
          exact ih r.length (Nat.lt_of_lt_of_le hlt hs'.length_le) cells' r rfl
        · exact ⟨rfl, withinLimit_nil⟩
      · obtain ⟨t', rfl⟩ := hs'.exists_cons
        exact List.cons_ne_nil c t'

/-- `readMatrix` is `Local`, since `readRows` is. -/
theorem local_readMatrix (environment : Environment) (s : List Char) :
    Local InNode (readMatrix a environment) s :=
  (local_readRows ha _ [] s).map
    (fun rows => Node.matrix rows environment.opening environment.closing)
    fun _ hin => hin.matrix _ _

/-- What an environment is, once its name has been read. -/
def readNamed (a : AtomReader) (name s : List Char) : Reading Formula :=
  if name = [] then ⟨.emptyRow, s, []⟩
  else
    match Environment.ofName? (String.ofList name) with
    | some environment =>
      readMatrix a environment (if environment.hasColumnSpec then (readGroup s).2 else s)
    | none =>
      (itemsThen a [.environmentEnd name]
        (fun items s => ⟨Node.ofItems items, skipEnvironmentEnd s, []⟩) s).after
        [.unknownEnvironment name]

/-- An environment is local once its name is known: nothing at all where the name is empty, a table
with or without a column specification, or items up to the own end if the name is unknown.  Only in
the last case does a stop depend on what stands in braces, which `local_end_withStopAhead` is
for. -/
theorem local_readNamed (name s : List Char) : Local InNode (readNamed a name) s := by
  by_cases hname : name = []
  · refine (Local.leave .emptyRow withinLimit_nil s).congr fun s' _ => ?_
    rw [readNamed, if_pos hname]
  cases henvironment : Environment.ofName? (String.ofList name) with
  | some environment =>
    -- a known name is that of a table, with the column specification skipped if there is one
    have hmatrix (s : List Char) : readNamed a name s = readMatrix a environment
        (if environment.hasColumnSpec then (readGroup s).2 else s) := by
      simp only [readNamed, if_neg hname, henvironment]
    by_cases hspec : environment.hasColumnSpec
    · refine (Local.bind (fun _ rest => readMatrix a environment rest) (local_readGroup s)
        (local_readMatrix ha environment _) fun _ => False.elim).congr fun s' _ => ?_
      rw [hmatrix, if_pos hspec]
      rfl
    · refine (local_readMatrix ha environment s).congr fun s' _ => ?_
      rw [hmatrix, if_neg hspec]
  | none =>
    -- an unknown name is reported before the body is read
    have hlog : WithinLimit [.unknownEnvironment name] := by
      intro n hn
      cases List.mem_singleton.mp hn
    have hbody : Local InNode (itemsThen a [.environmentEnd name]
        fun items s => ⟨Node.ofItems items, skipEnvironmentEnd s, []⟩) s := by
      refine local_items ha _ _ _ (fun items s' _ hstop => ?_) (fun items => ⟨rfl, withinLimit_nil⟩)
        fun around hin => ⟨_, hin.ofItems, fun _ => rfl⟩
      -- the body ends at its own end, which is consumed with the name
      obtain ⟨_, hmem, hstands⟩ := Stop.anyAt_iff _ _ |>.mp hstop
      obtain rfl := List.mem_singleton.mp hmem
      cases hstands with
      | environmentEnd t hat =>
        exact local_end_withStopAhead _ _ (fun _ => []) (fun _ => withinLimit_nil)
          (atCommand_iff.mpr ⟨t, rfl, hat⟩) true
    have hbefore : Local Nowhere (fun s => ⟨(), s, [.unknownEnvironment name]⟩) s :=
      .leave () hlog s
    refine (Local.bind (fun (_ : Unit) rest => itemsThen a [.environmentEnd name] _ rest)
      hbefore hbody fun _ => False.elim).congr fun s' _ => ?_
    simp only [readNamed, if_neg hname, henvironment]

/-- `readEnvironment` is `Local`: the name is read as a group (`local_readGroup`), and then the
environment with this name (`local_readNamed`). -/
theorem local_readEnvironment (s : List Char) : Local InNode (readEnvironment a) s := by
  refine (Local.bind (fun name rest => readNamed a name rest) (local_readGroup s)
    (local_readNamed ha _ _) fun _ => False.elim).congr fun s' _ => ?_
  show readEnvironment a s' = readNamed a (readGroup s').1 (readGroup s').2
  by_cases hname : (readGroup s').1 = []
  · simp only [readEnvironment, readNamed, if_pos hname]
  cases henvironment : Environment.ofName? (String.ofList (readGroup s').1) with
  | some environment => simp only [readEnvironment, readNamed, if_neg hname, henvironment]
  | none =>
    simp only [readEnvironment, readNamed, if_neg hname, henvironment, itemsThen, Reading.after,
      List.append_nil]
    rfl

/-! ## The levels

Each command is read by one of the routines above, each atom by one of the commands or by a run of
characters, and a level by the atoms of the level below it. -/

/-- What follows a command is local, for every `Command`.  The frames are those of the arguments,
except that the numerator of a fraction leaves an empty denominator behind it. -/
theorem local_readCommandBody (command : Command) (s : List Char) :
    Local InNode (readCommandBody a command) s := by
  cases command with
  | nothing => exact .leave Node.emptyRow withinLimit_nil s
  | fraction style =>
    -- the denominator is the last argument, so the text can stand in it as it is
    have hbelow (above : Formula) (s : List Char) :
        Local InNode (fun s => (readArgument a s).map (.fraction above · style)) s := by
      refine local_argument_map ha (.fraction above · style) ?_ s
      rintro _ ⟨frame, rfl⟩
      exact ⟨.denominator above frame style, rfl⟩
    refine (Local.bind (fun above rest => (readArgument a rest).map (.fraction above · style))
      (local_readArgument ha s) (hbelow _ _) ?_).congr
        fun s' _ => readCommandBody_fraction a style s'
    rintro _ ⟨frame, rfl⟩
    -- a numerator that has taken everything leaves nothing for the denominator
    refine ⟨_, ⟨.numerator frame .emptyRow style, rfl⟩, fun node => ?_⟩
    rw [readArgument_nil ha]
    rfl
  | radical => exact local_readRadical ha s
  | fence => exact local_readFenced ha s
  | environment => exact local_readEnvironment ha s
  | verbatim kind =>
    exact (local_readGroup s).map (fun text => Node.text (String.ofList text) kind)
      fun _ => False.elim
  | phantom =>
    refine local_argument_map ha .phantom ?_ s
    rintro _ ⟨frame, rfl⟩
    exact ⟨.phantom frame, rfl⟩
  | space name => exact .leave (Node.space name) withinLimit_nil s
  | styled variant =>
    refine local_argument_map ha (.styled variant) ?_ s
    rintro _ ⟨frame, rfl⟩
    exact ⟨.styled variant frame, rfl⟩
  | accent glyph position =>
    refine local_argument_map ha (.accent · glyph position) ?_ s
    rintro _ ⟨frame, rfl⟩
    exact ⟨.accented frame glyph position, rfl⟩
  | leaf node => exact .leave node withinLimit_nil s
  | unknown name =>
    refine .leave (Node.identifier name false) (fun n hn => ?_) s
    cases List.mem_singleton.mp hn

end Reader

/-- What follows the whole digits of a number. -/
def readDecimals (whole s : List Char) : Reading Formula :=
  if s.head? = some '.' then
    ⟨.number (String.ofList (whole ++ '.' :: (s.drop 1).takeWhile Char.isDigit)),
      (s.drop 1).dropWhile Char.isDigit, []⟩
  else ⟨.number (String.ofList whole), s, []⟩

/-- `readNumber` is `Local`: it takes digits, and with a period the digits behind it.  Whether a
period follows is a matter of the first character that the digits leave. -/
theorem local_readNumber (s : List Char) : Local InNode readNumber s := by
  have hdecimals (whole s : List Char) : Local InNode (readDecimals whole) s := by
    by_cases hperiod : s.head? = some '.'
    · obtain ⟨t, rfl⟩ := List.head?_eq_some_iff.mp hperiod
      exact ((local_run Char.isDigit t).map
        (fun decimals => .number (String.ofList (whole ++ '.' :: decimals)))
        fun _ => False.elim).behind fun _ => rfl
    · refine (Local.leave (.number (String.ofList whole)) withinLimit_nil s).congr fun s' hs' => ?_
      rw [readDecimals, if_neg (hs'.head ▸ hperiod)]
  -- the two definitions agree, with a period and without one
  refine (Local.bind readDecimals (local_run Char.isDigit s) (hdecimals _ _)
    fun _ => False.elim).congr fun s' _ => ?_
  by_cases hperiod : ∃ t, s'.dropWhile Char.isDigit = '.' :: t
  · obtain ⟨t, ht⟩ := hperiod
    simp only [readNumber_of_period ht, token, readDecimals, ht]
    rfl
  · have hhead : (s'.dropWhile Char.isDigit).head? ≠ some '.' := fun h =>
      hperiod (List.head?_eq_some_iff.mp h)
    simp only [readNumber_of_not_period fun t ht => hperiod ⟨t, ht⟩, token, readDecimals, hhead]
    rfl

/-- `readAtomBody` is `Local` if the atoms on the level below are.  The first character tells the
case, and all variants have it in common. -/
theorem local_readAtomBody {a : AtomReader} {body : List Char → Reading Formula}
    (ha : ReadsLocally a body) (c : Char) (t : List Char) :
    Local InNode (readAtomBody a) (c :: t) := by
  by_cases hopen : c = '{'
  · subst hopen
    exact (local_readBraced ha t).behind fun _ => rfl
  by_cases hslash : c = '\\'
  · subst hslash
    suffices h : Local InNode (fun t => readAtomBody a ('\\' :: t)) t by
      exact h.behind fun _ => rfl
    -- the name is looked at as a whole, so the command is the same
    refine (Local.bind (fun _ rest => readCommandBody a
      (.ofName (String.ofList (readCommand ('\\' :: t)).1)) rest) (local_readCommand t)
      (local_readCommandBody ha _ _) fun _ => False.elim).congr fun t' ht' => ?_
    simp only [readAtomBody, hopen, if_true, if_false, ht'.name]
    rfl
  by_cases hdigit : c.isDigit
  · refine (local_readNumber (c :: t)).congr fun s' hs' => ?_
    obtain ⟨t', rfl⟩ := hs'.exists_cons
    simp only [readAtomBody, hopen, hslash, hdigit, if_true, if_false]
  by_cases halpha : c.isAlpha
  · refine ((local_run Char.isAlpha (c :: t)).map
      (fun letters => .identifier (String.ofList letters) false) fun _ => False.elim).congr
      fun s' hs' => ?_
    obtain ⟨t', rfl⟩ := hs'.exists_cons
    simp only [readAtomBody, hopen, hslash, hdigit, halpha, if_true, if_false, Bool.false_eq_true]
    rfl
  · refine (Local.leave (.operator (String.singleton c) false) withinLimit_nil t).behind
      fun t' => ?_
    simp only [readAtomBody, hopen, hslash, hdigit, halpha, if_false, Bool.false_eq_true]

/-- What `atomReader` reads where an atom starts, with a given number of levels left. -/
def atomBody : Nat → List Char → Reading Formula
  | 0 => readVerbatim
  | levels + 1 => readAtomBody (atomReader levels)

/-- **Atoms are `Local`, however many levels are left.** Induction on the levels: where none is left
the rest is taken as it is. -/
theorem readsLocally_atomReader (levels : Nat) :
    ReadsLocally (atomReader levels) (atomBody levels) := by
  induction levels with
  | zero =>
    -- with no level left the whole rest is the text, in an empty frame
    refine ⟨fun _ => rfl, fun {c t} _ hstarts => ⟨fun {w u} hleft hu => ?_, ?_⟩⟩
    · exact absurd hleft (ne_nil_of_startsAtom hu)
    · exact .inr ⟨c :: t, id, [], hstarts, ⟨.hole, rfl⟩, withinLimit_nil, [], rfl, fun _ _ => rfl⟩
  | succ levels ih => exact ⟨fun _ => rfl, fun {c t} _ _ => local_readAtomBody ih c t⟩

/-- **A whole source is `Local`.** It consists of items that nothing closes, so `local_items`
applies. -/
theorem local_read (source : List Char) : Local InNode read source := by
  have hitems : Local InNode (itemsThen (atomReader maxNesting) []
      fun items s => ⟨Node.ofItems items, s, []⟩) source :=
    local_items_visible (readsLocally_atomReader maxNesting) (by simp) source _
      (fun items s hstop => by cases hstop) (fun items => ⟨rfl, withinLimit_nil⟩)
      fun around hin => ⟨_, hin.ofItems, fun _ => rfl⟩
  refine hitems.congr fun s' _ => ?_
  simp only [itemsThen, Reading.after, List.append_nil]
  rfl

/-! ## Sources

The two halves of the result are about different things.  Whatever the source, the exchange of the
rest says that all of it has become one text.  That the fallback is triggered at the first place
deep enough is said for sources without a backslash, where braces alone make levels. -/

/-- Only the fallback is a warning: `WithinLimit` says that every entry of the log is for
debugging. -/
theorem withinLimit_iff {log : List Diagnostic} :
    WithinLimit log ↔ ∀ d ∈ log, d.severity = .debug := by
  constructor
  · intro h d hd
    cases d with
    | tooDeep n => exact absurd hd (h n)
    | _ => rfl
  · intro h n hn
    cases h _ hn

/-- **The fallback past the limit on nesting takes exactly the rest of the input, once.**  A parse
warns at most once, at the very end.  If it does, the tree has a verbatim text which is the end `u`
of the source, of the size that the warning names, and nothing else of the tree or of the log comes
from it: with any text that fits in its place they are the same.  In a source without a backslash
this happens at the first place where an atom starts inside as many groups as there are levels, the
tree has no other verbatim text, and where there is no such place there is none and no warning. -/
theorem fallback_exact (config : Config) (source : List Char) :
    ((∀ d ∈ (parse config source).log, d.severity = .debug) ∨
      ∃ (p u : List Char) (frame : Node.Frame Float ScriptPlacement) (before : List Diagnostic),
        source = p ++ u ∧ (∀ d ∈ before, d.severity = .debug) ∧
        parse config source = ⟨frame.fill (.text (String.ofList u) .words), [],
          before ++ [.tooDeep (String.ofList u).utf8ByteSize]⟩ ∧
        ∀ v, Fits u v → parse config (p ++ v) = ⟨frame.fill (.text (String.ofList v) .words), [],
          before ++ [.tooDeep (String.ofList v).utf8ByteSize]⟩) ∧
    ('\\' ∉ source →
      (∀ n, IsDeep source n → (∀ m < n, ¬ IsDeep source m) →
        (parse config source).value.verbatims = [String.ofList (source.drop n)] ∧
        (parse config source).log = [.tooDeep (String.ofList (source.drop n)).utf8ByteSize]) ∧
      ((∀ n, ¬ IsDeep source n) →
        (parse config source).value.verbatims = [] ∧ (parse config source).log = [])) := by
  have hverbatims : (parse config source).value.verbatims = (read source).value.verbatims :=
    Node.verbatims_relabel _ _ _
  refine ⟨(local_read source).takes.imp withinLimit_iff.mp ?_, fun hslash => ⟨?_, ?_⟩⟩
  · rintro ⟨u, _, before, hu, ⟨frame, rfl⟩, hbefore, p, rfl, hp⟩
    -- the frame is laid out with everything else, the text is not changed by it
    have hparse (v : List Char) (hv : Fits u v) : parse config (p ++ v) =
        ⟨(frame.relabel (SpaceName.width config)
            fun largeBase _ => scriptPlacement config largeBase).fill
          (.text (String.ofList v) .words), [],
          before ++ [.tooDeep (String.ofList v).utf8ByteSize]⟩ := by
      rw [parse, hp v hv]
      show (⟨layOut config (frame.fill (verbatim v)), [], _⟩ : Reading Layout) = _
      rw [layOut, Node.Frame.relabel_fill]
      rfl
    exact ⟨p, u, _, before, rfl, withinLimit_iff.mp hbefore, hparse u (.refl hu), hparse⟩
  · rw [hverbatims]
    exact fun n hdeep hfirst => read_of_isDeep hslash hdeep hfirst
  · rw [hverbatims]
    exact read_of_not_isDeep hslash

/-- As many groups as there are levels, with an atom in the innermost one behind a script marker. -/
def deepSource : List Char := List.replicate 128 '{' ++ "^x\x7d\x7d y".toList

/-- One group less, so that only the marker and the braces stand too deep. -/
def fittingSource : List Char := List.replicate 127 '{' ++ "x\x7b^\x7d\x7d y".toList

/-- The first atom of `deepSource` that is too deep stands behind 128 braces and a marker, and the
rest from there is taken.  In `fittingSource` no atom stands so deep, and nothing is logged. -/
theorem fallback_exact_deep :
    '\\' ∉ deepSource ∧ IsDeep deepSource 129 ∧ (∀ m < 129, ¬ IsDeep deepSource m) ∧
    (parse .standard deepSource).value.verbatims = ["x\x7d\x7d y"] ∧
    Fits "x\x7d\x7d y".toList "x+1".toList ∧
    '\\' ∉ fittingSource ∧ (∀ n, ¬ IsDeep fittingSource n) ∧
    (parse .standard fittingSource).log = [] := by
  have hdeep : '\\' ∉ deepSource := by decide
  have hplace : IsDeep deepSource 129 := by decide +kernel
  have hfirst : ∀ m < 129, ¬ IsDeep deepSource m := by decide +kernel
  have hfitting : '\\' ∉ fittingSource := by decide
  have hnone : ∀ n < fittingSource.length, ¬ IsDeep fittingSource n := by decide +kernel
  have hnowhere : ∀ n, ¬ IsDeep fittingSource n := fun n hn => hnone n hn.lt_length hn
  exact ⟨hdeep, hplace, hfirst,
    (((fallback_exact .standard deepSource).2 hdeep).1 129 hplace hfirst).1,
    ⟨rfl, by decide, by decide, by decide⟩, hfitting, hnowhere,
    (((fallback_exact .standard fittingSource).2 hfitting).2 hnowhere).2⟩

end FormulaMarkup.Limit
