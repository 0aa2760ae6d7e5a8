import FormulaMarkup.Proofs.Formula.Ends
import FormulaMarkup.Proofs.Isolation.Delimiters
import FormulaMarkup.Proofs.Limit.Verbatim

/-!
# FormulaMarkup — the depth of braces

In a source without a backslash only braces nest, so the place where no level is left can be seen by
counting them.  This module counts, and shows that reading keeps the same count: it passes over a
text as long as no atom starts where no level is left, and takes the rest as it is where one does.

* **`braceDepth`** — how many groups are open after a text.
* **`IsDeep`** — the places where an atom starts that is too deep to be read.
* **`Passes`** — a text without such a place.
* **`Settles`** — what a routine does: it passes over its text, or it stops at the first such place,
  or it comes to a backslash, of which nothing is claimed here.
* **`settles_read`** — a whole source.
-/

namespace FormulaMarkup.Limit

open Source Text Formula
open Isolation (WithinLimit SelfContained StopsAgree closing_brace
  readExpression_content)

/-! ## Counting braces

What is counted depends on the source alone and can be decided for each place of it.  `IsDeep` is
the place at which the fallback is triggered in a source without a backslash. -/

/-- How many groups are open after a character.  A brace that closes nothing is ignored. -/
def depthAfter (depth : Nat) (c : Char) : Nat :=
  if c = '{' then depth + 1 else if c = '}' then depth - 1 else depth

/-- How many groups are open after a text: `depthAfter`, one character after the other. -/
def braceDepth (s : List Char) : Nat := s.foldl depthAfter 0

/-- Whether an atom starts with this character, which is no backslash. -/
def opensAtom (c : Char) : Bool := !isBlank c && !(['}', '^', '_', '&'].contains c)

/-- An atom starts at this place of a source and no level is left for it: the `braceDepth` in front
of it is `maxNesting`. -/
def IsDeep (source : List Char) (n : Nat) : Prop :=
  braceDepth (source.take n) = maxNesting ∧ source[n]?.any opensAtom = true

instance (source : List Char) (n : Nat) : Decidable (IsDeep source n) :=
  inferInstanceAs (Decidable (_ ∧ _))

theorem depthAfter_of_ne {c : Char} (hopen : c ≠ '{') (hclose : c ≠ '}') (depth : Nat) :
    depthAfter depth c = depth := by
  rw [depthAfter, if_neg hopen, if_neg hclose]

/-- A text whose braces match leaves as many groups open as it found.  Induction on the text, for
all numbers `inner` of groups that it has opened before. -/
theorem foldl_depthAfter_of_balancedFrom {inner : Nat} {t : List Char} (h : BalancedFrom inner t)
    (depth : Nat) : t.foldl depthAfter (depth + inner) = depth := by
  induction t generalizing inner with
  | nil =>
    have hinner : inner = 0 := by simpa using h.2
    rw [hinner]
    rfl
  | cons c t ih =>
    rw [List.foldl_cons]
    by_cases hopen : c = '{'
    · subst hopen
      have ht : BalancedFrom (inner + 1) t := h.tail (by simp)
      exact ih ht
    · by_cases hclose : c = '}'
      · subst hclose
        -- the brace closes a group of the text
        have hpos : 1 ≤ inner := by
          simpa using h.1 ['}'] (List.cons_prefix_cons.mpr ⟨rfl, List.nil_prefix⟩)
        have hdepth : depthAfter (depth + inner) '}' = depth + (inner - 1) := by
          show depth + inner - 1 = depth + (inner - 1)
          omega
        rw [hdepth]
        exact ih (h.tail (by simp; omega))
      · rw [depthAfter_of_ne hopen hclose]
        exact ih (h.tail (by simp [hopen, hclose]))

/-- If `startsAtom` holds and there is no command, `opensAtom` holds of the first character. -/
theorem opensAtom_of_startsAtom {c : Char} {t : List Char} (hblank : isBlank c = false)
    (hstarts : startsAtom (c :: t) = true) : opensAtom c = true := by
  simp only [startsAtom, Bool.not_eq_true', Bool.or_eq_false_iff, beq_eq_false_iff_ne] at hstarts
  obtain ⟨⟨⟨⟨hclose, hsup⟩, hsub⟩, hcolumn⟩, _⟩ := hstarts
  simp [opensAtom, hblank, hclose, hsup, hsub, hcolumn]

/-- Where `startsAtom` fails there is a blank, a mark, an ampersand or a backslash. -/
theorem opensAtom_of_not_startsAtom {c : Char} {t : List Char} (hslash : c ≠ '\\')
    (hstarts : startsAtom (c :: t) = false) : opensAtom c = false := by
  have hslash : (c == '\\') = false := beq_eq_false_iff_ne.mpr hslash
  simp only [startsAtom, hslash, Bool.false_and, Bool.or_false, Bool.not_eq_false',
    Bool.or_eq_true, beq_iff_eq] at hstarts
  rcases hstarts with ((rfl | rfl) | rfl) | rfl <;> decide

/-! ## Texts to pass over

The text of a construct that closes its own groups again never has fewer groups open than there were
before it.  `floor` keeps this in the definition, because a closing brace ends the construct that
has opened the group. -/

/-- A text without a backslash that can be passed over with `depth` groups open before it: no atom
starts where no level is left, and at least `floor` groups stay open. -/
def Passes (floor : Nat) : Nat → List Char → Prop
  | _, [] => True
  | depth, c :: t =>
    c ≠ '\\' ∧ (depth = maxNesting → opensAtom c = false) ∧ floor ≤ depthAfter depth c ∧
      Passes floor (depthAfter depth c) t

section Passes

variable {floor floor' depth : Nat} {p q : List Char}

/-- Passing over two texts (`Passes`) is passing over the first one and then over the second one,
with as many groups open as the first one leaves. -/
theorem passes_append : Passes floor depth (p ++ q) ↔
    Passes floor depth p ∧ Passes floor (p.foldl depthAfter depth) q := by
  induction p generalizing depth with
  | nil => exact ⟨fun h => ⟨trivial, h⟩, And.right⟩
  | cons c p ih =>
    rw [List.cons_append, Passes, Passes, ih, List.foldl_cons]
    tauto

/-- A text that keeps `floor` groups open keeps fewer open as well. -/
theorem Passes.mono (h : Passes floor depth p) (hle : floor' ≤ floor) : Passes floor' depth p := by
  induction p generalizing depth with
  | nil => trivial
  | cons c p ih =>
    -- the bound on the groups is the only part that speaks of `floor`
    obtain ⟨hslash, hopens, hfloor, hrest⟩ := h
    exact ⟨hslash, hopens, Nat.le_trans hle hfloor, ih hrest⟩

theorem Passes.next {c : Char} (h : Passes floor depth (p ++ c :: q)) :
    c ≠ '\\' ∧ (p.foldl depthAfter depth = maxNesting → opensAtom c = false) ∧
      floor ≤ depthAfter (p.foldl depthAfter depth) c :=
  have hc := (passes_append.mp h).2
  ⟨hc.1, hc.2.1, hc.2.2.1⟩

/-- A run of characters that are no braces is passed over, if none of them opens an atom or levels
are left, and the count of `depthAfter` is the same behind it. -/
theorem passes_run (hp : ∀ c ∈ p, c ≠ '\\' ∧ c ≠ '{' ∧ c ≠ '}')
    (hlevel : depth = maxNesting → ∀ c ∈ p, opensAtom c = false) :
    Passes depth depth p ∧ p.foldl depthAfter depth = depth := by
  induction p with
  | nil => exact ⟨trivial, rfl⟩
  | cons c p ih =>
    obtain ⟨hslash, hopen, hclose⟩ := hp c List.mem_cons_self
    obtain ⟨hpasses, hfold⟩ := ih (fun d hd => hp d (List.mem_cons_of_mem c hd))
      fun hmax d hd => hlevel hmax d (List.mem_cons_of_mem c hd)
    rw [Passes, List.foldl_cons, depthAfter_of_ne hopen hclose]
    exact ⟨⟨hslash, fun hmax => hlevel hmax c List.mem_cons_self, Nat.le_refl depth, hpasses⟩,
      hfold⟩

/-- Blanks are passed over at any depth, since none of them opens an atom. -/
theorem passes_blanks (hp : ∀ c ∈ p, isBlank c = true) (depth : Nat) :
    Passes depth depth p ∧ p.foldl depthAfter depth = depth := by
  refine passes_run (fun c hc => ?_) fun _ c hc => ?_
  · have hblank := hp c hc
    refine ⟨?_, ?_, ?_⟩ <;> rintro rfl <;> exact absurd hblank (by decide)
  · rw [opensAtom, hp c hc]
    rfl

end Passes

/-! ## What a routine does

A routine is described by what it makes of its text: nothing verbatim and no log, or exactly the
rest from the first place that is too deep.  The third case ends the description, because behind a
backslash braces are not all that nests. -/

section Settles

variable {α β : Type} {leaves : α → List String} {leaves' : β → List String} {depth : Nat}
  {s : List Char} {r : Reading α} {q : Reading β}

/-- What a routine does with `depth` groups open before its text.  The groups that it opens it
closes again, unless the text ends before that. -/
inductive Settles (leaves : α → List String) (depth : Nat) (s : List Char) (r : Reading α) : Prop
  /-- It passes over the text up to what is left. -/
  | within (p : List Char) (hs : s = p ++ r.rest) (hp : Passes depth depth p)
      (hend : r.rest ≠ [] → p.foldl depthAfter depth = depth) (hleaves : leaves r.value = [])
      (hlog : r.log = [])
  /-- It comes to a place that is too deep, and takes everything from there on. -/
  | tooDeep (p : List Char) (c : Char) (t : List Char) (hs : s = p ++ c :: t)
      (hp : Passes depth depth p) (hdeep : p.foldl depthAfter depth = maxNesting)
      (hopens : opensAtom c = true) (hleaves : leaves r.value = [String.ofList (c :: t)])
      (hrest : r.rest = []) (hlog : r.log = [.tooDeep (String.ofList (c :: t)).utf8ByteSize])
  /-- It comes to a backslash. -/
  | command (p t : List Char) (hs : s = p ++ '\\' :: t) (hp : Passes depth depth p)

/-- What is made of the value of a routine that `Settles` does so too, if it has the same verbatim
texts. -/
theorem Settles.map (h : Settles leaves depth s r) {f : α → β}
    (hf : leaves' (f r.value) = leaves r.value) : Settles leaves' depth s (r.map f) := by
  cases h with
  | within p hs hp hend hleaves hlog => exact .within p hs hp hend (hf.trans hleaves) hlog
  | tooDeep p c t hs hp hdeep hopens hleaves hrest hlog =>
    exact .tooDeep p c t hs hp hdeep hopens (hf.trans hleaves) hrest hlog
  | command p t hs hp => exact .command p t hs hp

/-- A routine settles behind a text that has been passed over and leaves as many groups open as it
found.  In each of the three ways to settle, the text goes in front of what is passed over. -/
theorem Settles.behind {p : List Char} (hp : Passes depth depth p)
    (hend : p.foldl depthAfter depth = depth) (h : Settles leaves depth s r) :
    Settles leaves depth (p ++ s) r := by
  have hpasses {p' : List Char} (hp' : Passes depth depth p') : Passes depth depth (p ++ p') :=
    passes_append.mpr ⟨hp, by rwa [hend]⟩
  have hfold (p' : List Char) : (p ++ p').foldl depthAfter depth = p'.foldl depthAfter depth := by
    rw [List.foldl_append, hend]
  cases h with
  | within p' hs hp' hend' hleaves hlog =>
    exact .within (p ++ p') (by rw [hs, List.append_assoc]) (hpasses hp')
      (fun hne => (hfold p').trans (hend' hne)) hleaves hlog
  | tooDeep p' c t hs hp' hdeep hopens hleaves hrest hlog =>
    exact .tooDeep (p ++ p') c t (by rw [hs, List.append_assoc]) (hpasses hp')
      ((hfold p').trans hdeep) hopens hleaves hrest hlog
  | command p' t hs hp' => exact .command (p ++ p') t (by rw [hs, List.append_assoc]) (hpasses hp')

/-- One routine after another.  Where the first one took everything, the second one finds an empty
input and adds nothing. -/
theorem Settles.after (h : Settles leaves depth s r)
    (hnext : leaves r.value = [] → Settles leaves' depth r.rest q)
    (hcut : r.rest = [] → leaves' q.value = leaves r.value ∧ q.rest = [] ∧ q.log = []) :
    Settles leaves' depth s (q.after r.log) := by
  cases h with
  | tooDeep p c t hs hp hdeep hopens hleaves hrest hlog =>
    obtain ⟨hvalue, hrest', hlog'⟩ := hcut hrest
    refine .tooDeep p c t hs hp hdeep hopens (hvalue.trans hleaves) hrest' ?_
    show r.log ++ q.log = _
    rw [hlog', hlog, List.append_nil]
  | command p t hs hp => exact .command p t hs hp
  | within p hs hp hend hleaves hlog =>
    have hq : q.after r.log = q := by rw [hlog]; rfl
    have hsecond := hnext hleaves
    rw [hq, hs]
    by_cases hne : r.rest = []
    · -- nothing is left to be read, so the second routine does nothing
      rw [hne] at hsecond
      cases hsecond with
      | within p' hs' hp' hend' hleaves' hlog' =>
        obtain ⟨hp'nil, hqnil⟩ := List.append_eq_nil_iff.mp hs'.symm
        exact .within p (by rw [hne, hqnil]) hp (fun hq => absurd hqnil hq) hleaves' hlog'
      | tooDeep p' c t hs' => exact absurd hs'.symm (by simp)
      | command p' t hs' => exact absurd hs'.symm (by simp)
    · exact hsecond.behind hp (hend hne)

/-- A routine that leaves its whole input `Settles`, if its value has no verbatim text. -/
theorem Settles.refl {value : α} (hvalue : leaves value = []) (depth : Nat) (s : List Char) :
    Settles leaves depth s ⟨value, s, []⟩ :=
  .within [] rfl trivial (fun _ => rfl) hvalue rfl

theorem Settles.token {value : α} {p t : List Char} (hvalue : leaves value = [])
    (hp : ∀ c ∈ p, c ≠ '\\' ∧ c ≠ '{' ∧ c ≠ '}')
    (hlevel : depth = maxNesting → ∀ c ∈ p, opensAtom c = false) :
    Settles leaves depth (p ++ t) ⟨value, t, []⟩ :=
  have h := passes_run hp hlevel
  .behind h.1 h.2 (.refl hvalue depth t)

/-- Blanks in front of a routine that settles are passed over. -/
theorem Settles.skipBlank (h : Settles leaves depth (skipBlank s) r) :
    Settles leaves depth s r := by
  obtain ⟨hgap, hs⟩ := leading_blanks s
  have hblanks := passes_blanks hgap depth
  rw [← hs]
  exact h.behind hblanks.1 hblanks.2

end Settles

/-! ## What consists of atoms

The reader is taken apart as it is built: arguments and scripts, items, expressions.  In all of it
the number of open groups is the same, so the number of levels left is too. -/

/-- The verbatim texts of scripts, the subscript first. -/
def scriptVerbatims (scripts : Scripts) : List String :=
  scripts.sub.toList.flatMap Node.verbatims ++ scripts.sup.toList.flatMap Node.verbatims

/-- A scripted formula has the verbatim texts of its base and of its scripts. -/
theorem verbatims_attach (scripts : Scripts) (base : Formula) :
    (scripts.attach base).verbatims = base.verbatims ++ scriptVerbatims scripts := by
  obtain ⟨sub, sup⟩ := scripts
  cases sub <;> cases sup <;>
    simp [Scripts.attach, scriptVerbatims, Node.verbatims, Node.verbatimsOption]

/-- A script that `Scripts.set` adds to others without a verbatim text brings its own ones. -/
theorem scriptVerbatims_set {found : Scripts} (hfound : scriptVerbatims found = [])
    (kind : ScriptKind) (script : Formula) :
    scriptVerbatims (found.set kind script) = script.verbatims := by
  obtain ⟨sub, sup⟩ := found
  obtain ⟨hsub, hsup⟩ := List.append_eq_nil_iff.mp hfound
  cases kind with
  | sub => simp [scriptVerbatims, Scripts.set, hsup]
  | sup => simp [scriptVerbatims, Scripts.set, hsub]

/-- The verbatim texts of an item, if there is one. -/
def itemVerbatims (item : Option Formula) : List String := item.toList.flatMap Node.verbatims

/-- The atoms that are read with `depth` groups open settle, and where there is none no atom
starts. -/
structure Settled (depth : Nat) (a : AtomReader) : Prop where
  atoms : ∀ {c t r}, isBlank c = false → a.read (c :: t) = some r →
    Settles Node.verbatims depth (c :: t) r
  strays : ∀ {s}, a.read s = none → startsAtom s = false

section Reader

variable {depth : Nat} {a : AtomReader} (ha : Settled depth a)
include ha

/-- `readArgument` settles: it gives an atom, or nothing where none starts. -/
theorem settles_readArgument (s : List Char) :
    Settles Node.verbatims depth s (readArgument a s) := by
  apply Settles.skipBlank
  unfold readArgument
  cases hread : a.read (skipBlank s) with
  | none => exact .refl rfl depth (skipBlank s)
  | some r =>
    cases hs : skipBlank s with
    | nil =>
      -- an atom consumes something
      have hlt := (a.consumes hread).2
      rw [hs] at hlt
      cases hlt
    | cons c t => exact ha.atoms (not_isBlank_of_skipBlank_eq_cons hs) (hs ▸ hread)

/-- `readScripts` settles, as long as the scripts found before have no verbatim text.  Induction on
the scripts in the order in which they are read; a marker is passed over, and its argument
settles. -/
theorem settles_readScripts {found : Scripts} (hfound : scriptVerbatims found = [])
    (s : List Char) : Settles scriptVerbatims depth s (readScripts a found s) := by
  apply Settles.skipBlank
  fun_induction readScripts a found s with
  | case1 found s hnil =>
    rw [hnil]
    exact .refl hfound depth []
  | case2 found s c t hcons hc =>
    rw [hcons]
    exact .refl hfound depth (c :: t)
  | case3 found s c t hcons kind hc hkind =>
    rw [hcons]
    exact .refl hfound depth (c :: t)
  | case4 found s c t hcons kind hc hkind script ih =>
    rw [hcons]
    -- a marker nests nothing and opens no atom
    have hmarker : ∀ d ∈ [c], d ≠ '\\' ∧ d ≠ '{' ∧ d ≠ '}' ∧ opensAtom d = false := by
      intro d hd
      obtain rfl := List.mem_singleton.mp hd
      obtain ⟨hsub, hsup⟩ := eq_of_ofMarker? hc
      cases kind with
      | sub => rw [hsub rfl]; decide
      | sup => rw [hsup rfl]; decide
    have hpass : Passes depth depth [c] ∧ [c].foldl depthAfter depth = depth := by
      refine passes_run (fun d hd => ?_) fun _ d hd => (hmarker d hd).2.2.2
      exact ⟨(hmarker d hd).1, (hmarker d hd).2.1, (hmarker d hd).2.2.1⟩
    have hset := scriptVerbatims_set hfound kind script.value
    refine .behind (p := [c]) hpass.1 hpass.2 ((settles_readArgument ha t).after ?_ ?_)
    · intro hscript
      exact (ih (hset.trans hscript)).skipBlank
    · intro hrest
      have hnil : skipBlank script.rest = [] := by
        show skipBlank (readArgument a t).rest = []
        rw [hrest]
        rfl
      rw [readScripts_of_nil a _ hnil]
      exact ⟨hset, rfl, rfl⟩

theorem settles_readScripted {base : Formula} (hbase : base.verbatims = []) (s : List Char) :
    Settles Node.verbatims depth s (readScripted a base s) := by
  refine (settles_readScripts ha rfl s).map ?_
  rw [verbatims_attach, hbase, List.nil_append]

/-- What is read where no atom starts settles.  A stray brace stands outside all groups only,
because inside a group every item is read up to the brace (`hclose`). -/
theorem settles_readStray {c : Char} {t : List Char} (hstarts : startsAtom (c :: t) = false)
    (hclose : c = '}' → depth = 0) :
    Settles itemVerbatims depth (c :: t) (readStray a (c :: t)) := by
  by_cases hslash : c = '\\'
  · exact .command [] t (by rw [hslash]; rfl) trivial
  have hopens := opensAtom_of_not_startsAtom hslash hstarts
  -- a brace opens a group, which is an atom
  have hopen : c ≠ '{' := by
    rintro rfl
    cases hstarts
  cases hc : ScriptKind.ofMarker? c with
  | some kind =>
    have hbase : (Node.emptyRow : Formula).verbatims = [] := rfl
    -- the base of a stray script is an empty row and has no text
    rw [readStray_of_marker a hc]
    exact (settles_readScripted ha hbase (c :: t)).map (List.flatMap_singleton _ _)
  | none =>
    rw [readStray_of_not_marker a hc, if_neg hslash]
    by_cases hbrace : c = '}'
    · -- with no group open, a closing brace changes nothing in the count
      obtain rfl := hclose hbrace
      subst hbrace
      exact .within ['}'] rfl ⟨hslash, fun _ => hopens, Nat.zero_le _, trivial⟩ (fun _ => rfl) rfl
        rfl
    · -- any other character is passed over, whether it gives an operator or nothing
      have hall : ∀ d ∈ [c], d ≠ '\\' ∧ d ≠ '{' ∧ d ≠ '}' := fun d hd =>
        List.mem_singleton.mp hd ▸ ⟨hslash, hopen, hbrace⟩
      have hlevel : depth = maxNesting → ∀ d ∈ [c], opensAtom d = false := fun _ d hd =>
        List.mem_singleton.mp hd ▸ hopens
      split
      · exact Settles.token (p := [c]) rfl hall hlevel
      · exact Settles.token (p := [c]) rfl hall hlevel

/-- `readItem` settles, unless there is the brace that closes the group around it: it gives an atom
with its scripts, or what stands in its place. -/
theorem settles_readItem {c : Char} {t : List Char} (hblank : isBlank c = false)
    (hclose : c = '}' → depth = 0) :
    Settles itemVerbatims depth (c :: t) (readItem a (c :: t)) := by
  unfold readItem
  cases hread : a.read (c :: t) with
  | none => exact settles_readStray ha (ha.strays hread) hclose
  | some atom =>
    have hsome (r : Reading Formula) : itemVerbatims (some r.value) = r.value.verbatims :=
      List.flatMap_singleton _ _
    -- either the atom leaves something, and its scripts are read, or it takes everything
    refine (ha.atoms hblank hread).after (fun hatom => ?_) fun hrest => ?_
    · exact (settles_readScripted ha hatom atom.rest).map (hsome _)
    · have hnil : readScripted a atom.value atom.rest = ⟨atom.value, [], []⟩ := by
        rw [hrest, readScripted, readScripts_of_nil a _ rfl]
        rfl
      rw [hnil]
      exact ⟨hsome ⟨atom.value, [], []⟩, rfl, rfl⟩

/-- **Items settle**, if inside a group `readItems` stops at its brace.  Induction on the items in
the order in which they are read; when one has taken everything, the others find an empty input. -/
theorem settles_readItems {stops : List Stop}
    (hstops : depth ≠ 0 → ∀ t, Stop.anyAt stops ('}' :: t) = true) (s : List Char) :
    Settles (List.flatMap Node.verbatims) depth s (readItems a stops s) := by
  apply Settles.skipBlank
  fun_induction readItems a stops s with
  | case1 s hnil =>
    rw [hnil]
    exact .refl rfl depth []
  | case2 s c t hcons hstop =>
    rw [hcons]
    exact .refl rfl depth (c :: t)
  | case3 s c t hcons hstop item ih =>
    rw [hcons]
    -- in a group its brace is a stop, so here no group is open
    have hclose : c = '}' → depth = 0 := by
      rintro rfl
      by_contra hdepth
      exact hstop (hstops hdepth t)
    have hitem := settles_readItem ha (t := t) (not_isBlank_of_skipBlank_eq_cons hcons) hclose
    refine hitem.after (fun hleaves => ih.skipBlank.map ?_) fun hrest => ?_
    · rw [List.flatMap_append]
      show itemVerbatims item.value ++ _ = _
      rw [hleaves, List.nil_append]
    · have hnil : skipBlank item.rest = [] := by
        show skipBlank (readItem a (c :: t)).rest = []
        rw [hrest]
        rfl
      rw [readItems_of_nil a stops hnil]
      refine ⟨?_, rfl, rfl⟩
      show List.flatMap Node.verbatims (item.value.toList ++ []) = itemVerbatims item.value
      rw [List.append_nil]
      rfl

theorem settles_readExpression {stops : List Stop}
    (hstops : depth ≠ 0 → ∀ t, Stop.anyAt stops ('}' :: t) = true) (s : List Char) :
    Settles Node.verbatims depth s (readExpression a stops s) :=
  (settles_readItems ha hstops s).map (Node.verbatims_ofItems _)

end Reader

/-! ## Atoms

A group opens a level and needs one, and without a backslash nothing else does.  So the levels that
are left and the groups that are open always add up to the limit, which is the invariant of
`settled_atomReader`. -/

/-- A group opens a level and closes it again, so `readBraced` settles if its content does one level
further down.  A group that is not closed takes the rest of the text. -/
theorem settles_group {depth : Nat} {a : AtomReader} (ha : Settled (depth + 1) a)
    (hdepth : depth < maxNesting) (t : List Char) :
    Settles Node.verbatims depth ('{' :: t) (readBraced a t) := by
  have hstops : depth + 1 ≠ 0 → ∀ t, Stop.anyAt [.groupEnd] ('}' :: t) = true := fun _ _ => rfl
  have hcontent := settles_readExpression ha hstops t
  have hends := rest_of_groupEnd a t
  have hopened {p : List Char} (hp : Passes (depth + 1) (depth + 1) p) :
      Passes depth depth ('{' :: p) :=
    ⟨by decide, fun hmax => absurd hmax (Nat.ne_of_lt hdepth), Nat.le_succ depth,
      hp.mono (Nat.le_succ depth)⟩
  unfold readBraced
  generalize readExpression a [.groupEnd] t = content at hcontent hends
  obtain ⟨value, rest, log⟩ := content
  -- a command or a place that is too deep ends the description inside the group
  cases hcontent with
  | command p t hs hp => exact .command ('{' :: p) t (by rw [hs]; rfl) (hopened hp)
  | tooDeep p c t hs hp hdeep hopens hleaves hrest hlog =>
    obtain rfl : rest = [] := hrest
    exact .tooDeep ('{' :: p) c t (by rw [hs]; rfl) (hopened hp) hdeep hopens hleaves rfl hlog
  | within p hs hp hend hleaves hlog =>
    rcases hends with hnil | ⟨u, hu⟩
    · -- the group is not closed
      obtain rfl : rest = [] := hnil
      exact .within ('{' :: p) (by rw [hs]; rfl) (hopened hp) (fun hne => absurd rfl hne) hleaves
        hlog
    · obtain rfl : rest = '}' :: u := hu
      have hdepthAfter : p.foldl depthAfter (depth + 1) = depth + 1 := hend (List.cons_ne_nil _ _)
      have hclosed : Passes depth (p.foldl depthAfter (depth + 1)) ['}'] := by
        rw [hdepthAfter]
        exact ⟨by decide, fun _ => rfl, Nat.le_refl depth, trivial⟩
      refine .within ('{' :: (p ++ ['}'])) ?_ ?_ (fun _ => ?_) hleaves hlog
      · rw [hs]
        simp
      · obtain ⟨hslash, hmax, hfloor, hrest⟩ := hopened hp
        exact ⟨hslash, hmax, hfloor, passes_append.mpr ⟨hrest, hclosed⟩⟩
      · show (p ++ ['}']).foldl depthAfter (depth + 1) = depth
        rw [List.foldl_append, hdepthAfter]
        rfl

theorem settles_run {depth : Nat} (hdepth : depth < maxNesting) {p t : List Char} {value : Formula}
    (hvalue : value.verbatims = []) (hp : ∀ c ∈ p, c ≠ '\\' ∧ c ≠ '{' ∧ c ≠ '}') :
    Settles Node.verbatims depth (p ++ t) ⟨value, t, []⟩ :=
  .token hvalue hp fun hmax => absurd hmax (Nat.ne_of_lt hdepth)

/-- `readNumber` settles: its digits and its period nest nothing. -/
theorem settles_readNumber {depth : Nat} (hdepth : depth < maxNesting) (s : List Char) :
    Settles Node.verbatims depth s (readNumber s) := by
  have hdigits (s : List Char) : ∀ c ∈ s.takeWhile Char.isDigit, c ≠ '\\' ∧ c ≠ '{' ∧ c ≠ '}' := by
    intro c hc
    have hdigit : c.isDigit = true := List.mem_takeWhile_imp hc
    refine ⟨?_, ?_, ?_⟩ <;> rintro rfl <;> cases hdigit
  have hs := List.takeWhile_append_dropWhile (p := Char.isDigit) (l := s)
  by_cases hperiod : ∃ t, s.dropWhile Char.isDigit = '.' :: t
  · -- with a period, the digits on both sides of it are passed over at once
    obtain ⟨t, ht⟩ := hperiod
    have hdecimals := List.takeWhile_append_dropWhile (p := Char.isDigit) (l := t)
    have hwhole : s = (s.takeWhile Char.isDigit ++ '.' :: t.takeWhile Char.isDigit)
        ++ t.dropWhile Char.isDigit := by
      rw [List.append_assoc, List.cons_append, hdecimals, ← ht, hs]
    rw [readNumber_of_period ht]
    nth_rewrite 1 [hwhole]
    refine settles_run hdepth rfl fun c hc => ?_
    rcases List.mem_append.mp hc with hc | hc
    · exact hdigits s c hc
    · rcases List.mem_cons.mp hc with rfl | hc
      · decide
      · exact hdigits t c hc
  · -- without a period, the digits are all there is
    rw [readNumber_of_not_period fun t ht => hperiod ⟨t, ht⟩]
    nth_rewrite 1 [← hs]
    exact settles_run hdepth rfl (hdigits s)

/-- `readIdentifier` settles: a run of letters nests nothing. -/
theorem settles_readIdentifier {depth : Nat} (hdepth : depth < maxNesting) (s : List Char) :
    Settles Node.verbatims depth s (readIdentifier s) := by
  have hs := List.takeWhile_append_dropWhile (p := Char.isAlpha) (l := s)
  unfold readIdentifier
  nth_rewrite 1 [← hs]
  refine settles_run hdepth rfl fun c hc => ?_
  have halpha : c.isAlpha = true := List.mem_takeWhile_imp hc
  refine ⟨?_, ?_, ?_⟩ <;> rintro rfl <;> cases halpha

/-- `readAtomBody` settles if the atoms one level further down do.  Only a group opens another
level, as long as there is no command. -/
theorem settles_readAtomBody {depth : Nat} {a : AtomReader} (ha : Settled (depth + 1) a)
    (hdepth : depth < maxNesting) {c : Char} {t : List Char}
    (hstarts : startsAtom (c :: t) = true) :
    Settles Node.verbatims depth (c :: t) (readAtomBody a (c :: t)) := by
  -- the cases are those of the definition: a group, a command, and three tokens
  simp only [readAtomBody]
  split
  · next hc =>
    subst hc
    exact settles_group ha hdepth t
  · next hopen =>
    split
    · next hc => exact .command [] t (by rw [hc]; rfl) trivial
    · next hslash =>
      split
      · exact settles_readNumber hdepth (c :: t)
      · split
        · exact settles_readIdentifier hdepth (c :: t)
        · have hclose : c ≠ '}' := by
            rintro rfl
            cases hstarts
          exact settles_run (p := [c]) hdepth rfl fun d hd =>
            List.mem_singleton.mp hd ▸ ⟨hslash, hopen, hclose⟩

/-- **Atoms settle**: the levels that `atomReader` has left and the groups that are open make up the
limit.  Induction on the levels. -/
theorem settled_atomReader {levels depth : Nat} (h : levels + depth = maxNesting) :
    Settled depth (atomReader levels) := by
  induction levels generalizing depth with
  | zero =>
    -- no level is left: an atom that starts here is the place
    obtain rfl : depth = maxNesting := by omega
    refine ⟨fun {c t r} hblank hread => ?_, startsAtom_eq_false_of_read⟩
    by_cases hslash : c = '\\'
    · exact .command [] t (by rw [hslash]; rfl) trivial
    · cases hs : startsAtom (c :: t) with
      | false => cases (read_of_not_startsAtom 0 hs).symm.trans hread
      | true =>
        obtain rfl : readVerbatim (c :: t) = r :=
          Option.some.inj ((if_pos hs).symm.trans hread)
        exact .tooDeep [] c t rfl trivial rfl (opensAtom_of_startsAtom hblank hs) rfl rfl rfl
  | succ levels ih =>
    -- with one group more there is one level less
    refine ⟨fun {c t r} hblank hread => ?_, startsAtom_eq_false_of_read⟩
    cases hs : startsAtom (c :: t) with
    | false => cases (read_of_not_startsAtom _ hs).symm.trans hread
    | true =>
      obtain rfl := Option.some.inj ((read_atomReader_succ levels hs).symm.trans hread)
      exact settles_readAtomBody (ih (by omega)) (by omega) hs

/-- **A whole source settles** with no group open before it, and all levels of `atomReader` left. -/
theorem settles_read (source : List Char) : Settles Node.verbatims 0 source (read source) :=
  settles_readExpression (settled_atomReader rfl) (fun hne => absurd rfl hne) source

/-! ## The first place that is too deep

What settles says of a source as a whole is now turned into `IsDeep`: a text that is passed over has
no such place, and the place at which it is stopped is one. -/

/-- A text that can be passed over (`Passes`) has no place that is too deep (`IsDeep`). -/
theorem not_isDeep_of_passes {p : List Char} (hp : Passes 0 0 p) (u : List Char) {n : Nat}
    (hn : n < p.length) : ¬ IsDeep (p ++ u) n := by
  rintro ⟨hdepth, hopens⟩
  -- the character at the place is one that has been passed over
  have hsplit : p = p.take n ++ p[n] :: p.drop (n + 1) := by
    rw [List.getElem_cons_drop, List.take_append_drop]
  rw [hsplit] at hp
  rw [List.take_append_of_le_length (Nat.le_of_lt hn)] at hdepth
  rw [List.getElem?_append_left hn, List.getElem?_eq_getElem hn, Option.any_some,
    hp.next.2.1 hdepth] at hopens
  cases hopens

/-- A character that opens an atom, behind as many groups as there are levels (`maxNesting`), is too
deep. -/
theorem isDeep_append_cons {p : List Char} {c : Char} (hdeep : braceDepth p = maxNesting)
    (hopens : opensAtom c = true) (t : List Char) : IsDeep (p ++ c :: t) p.length := by
  refine ⟨?_, ?_⟩
  · rw [List.take_left]
    exact hdeep
  · rw [List.getElem?_append_right (Nat.le_refl _), Nat.sub_self]
    exact hopens

/-- There is no place beyond the end. -/
theorem IsDeep.lt_length {source : List Char} {n : Nat} (h : IsDeep source n) :
    n < source.length := by
  by_contra hn
  have hopens := h.2
  rw [List.getElem?_eq_none (Nat.le_of_not_lt hn)] at hopens
  cases hopens

section Source

variable {source : List Char} (hslash : '\\' ∉ source)
include hslash

/-- From the first place that is too deep (`IsDeep`) on, the source is taken as it is, and nothing
else.  `settles_read` leaves three cases, and the other two have no such place, or one before. -/
theorem read_of_isDeep {n : Nat} (hdeep : IsDeep source n) (hfirst : ∀ m < n, ¬ IsDeep source m) :
    (read source).value.verbatims = [String.ofList (source.drop n)] ∧
      (read source).log = [.tooDeep (String.ofList (source.drop n)).utf8ByteSize] := by
  cases settles_read source with
  | command p t hs =>
    rw [hs] at hslash
    exact absurd (List.mem_append_right p List.mem_cons_self) hslash
  | within p hs hp =>
    rw [rest_read, List.append_nil] at hs
    subst hs
    have hpasses := not_isDeep_of_passes hp [] hdeep.lt_length
    rw [List.append_nil] at hpasses
    exact absurd hdeep hpasses
  | tooDeep p c t hs hp hmax hopens hleaves _ hlog =>
    -- both places are the first one
    have hn : n = p.length := by
      have hp' : IsDeep source p.length := hs ▸ isDeep_append_cons hmax hopens t
      by_contra hne
      rcases Nat.lt_or_gt_of_ne hne with hlt | hgt
      · exact not_isDeep_of_passes hp (c :: t) hlt (hs ▸ hdeep)
      · exact hfirst p.length hgt hp'
    have hdrop : source.drop n = c :: t := by
      rw [hs, hn, List.drop_left]
    rw [hdrop]
    exact ⟨hleaves, hlog⟩

/-- Where no place is too deep (`IsDeep`) nothing is taken as it is. -/
theorem read_of_not_isDeep (h : ∀ n, ¬ IsDeep source n) :
    (read source).value.verbatims = [] ∧ (read source).log = [] := by
  cases settles_read source with
  | command p t hs =>
    rw [hs] at hslash
    exact absurd (List.mem_append_right p List.mem_cons_self) hslash
  | within p hs hp hend hleaves hlog => exact ⟨hleaves, hlog⟩
  | tooDeep p c t hs hp hmax hopens =>
    exact absurd (hs ▸ isDeep_append_cons hmax hopens t) (h p.length)

end Source

/-! ## Groups in other surroundings

Whether a group without a backslash is too deep depends on the levels that are left and on its own
text.  What follows it is used elsewhere to put a group into another source. -/

section Group

variable {levels : Nat} (hlevels : levels < maxNesting) {t : List Char} (ht : Balanced t)
  (hslash : '\\' ∉ t)
include ht hslash

/-- A text without a backslash whose braces match is `SelfContained`: it can stand between
braces. -/
theorem selfContained_of_balanced : SelfContained t where
  balanced := ht
  unescaped _ _ hin := hslash (hin.subset List.mem_cons_self)
  complete hend := hslash (hend.subset List.mem_cons_self)
  unpaired _ _ hin := hslash (hin.subset List.mem_cons_self)

include hlevels

/-- Nothing in the text of a group, and not the brace behind it, is passed over on the way to
something else: at this brace fewer groups would be open than `Passes` asks for. -/
theorem passes_group {x p u : List Char} {c : Char} (hs : t ++ '}' :: x = p ++ c :: u)
    (hp : Passes (maxNesting - levels) (maxNesting - levels) p) :
    (∃ q, t = p ++ c :: q) ∨ p = t ∧ c = '}' := by
  have hdepth : t.foldl depthAfter (maxNesting - levels) = maxNesting - levels := by
    simpa using foldl_depthAfter_of_balancedFrom (balancedFrom_zero.mpr ht) (maxNesting - levels)
  rcases List.append_eq_append_iff.mp hs with ⟨q, rfl, hq⟩ | ⟨q, rfl, hq⟩
  · cases q with
    | nil => exact .inr ⟨List.append_nil t, (List.cons.inj hq).1.symm⟩
    | cons d q =>
      -- the brace behind the text would leave fewer groups open
      obtain ⟨rfl, _⟩ := List.cons.inj hq
      have hfloor := hp.next.2.2
      rw [hdepth] at hfloor
      have hclose : depthAfter (maxNesting - levels) '}' = maxNesting - levels - 1 := rfl
      omega
  · cases q with
    | nil => exact .inr ⟨(List.append_nil p).symm, (List.cons.inj hq).1⟩
    | cons d q =>
      obtain ⟨rfl, _⟩ := List.cons.inj hq
      exact .inl ⟨q, rfl⟩

/-- **What follows a group has no part in whether it is too deep.** The first place that is too deep
(`IsDeep`) would be in its text, and that is the same in front of anything. -/
theorem withinLimit_readBraced_congr {x : List Char}
    (hlimit : WithinLimit (readBraced (atomReader levels) (t ++ '}' :: x)).log) (y : List Char) :
    WithinLimit (readBraced (atomReader levels) (t ++ '}' :: y)).log := by
  have hsettled := settled_atomReader (Nat.add_sub_of_le (Nat.le_of_lt hlevels))
  have hstops : maxNesting - levels ≠ 0 → ∀ t, Stop.anyAt [.groupEnd] ('}' :: t) = true :=
    fun _ _ => rfl
  have hreads (x : List Char) := settles_readExpression hsettled hstops (t ++ '}' :: x)
  have hcommand {x p u : List Char} (hs : t ++ '}' :: x = p ++ '\\' :: u)
      (hp : Passes (maxNesting - levels) (maxNesting - levels) p) : False := by
    rcases passes_group hlevels ht hslash hs hp with ⟨q, rfl⟩ | ⟨_, hc⟩
    · exact hslash (List.mem_append_right p List.mem_cons_self)
    · cases hc
  -- the first reading shows that the text can be passed over
  have hpasses : Passes (maxNesting - levels) (maxNesting - levels) t := by
    cases hreads x with
    | command p u hs hp => exact (hcommand hs hp).elim
    | tooDeep p c u _ _ _ _ _ _ hlog =>
      have hlog : (readBraced (atomReader levels) (t ++ '}' :: x)).log = _ := hlog
      rw [hlog] at hlimit
      exact absurd List.mem_cons_self (hlimit _)
    | within p hs hp =>
      have hcontent := selfContained_of_balanced ht hslash
      rw [readExpression_content (Nat.le_of_lt hlevels) hcontent (closing_brace x) (.braced t x)
        hlimit] at hs
      exact List.append_cancel_right hs ▸ hp
  cases hreads y with
  | command p u hs hp => exact (hcommand hs hp).elim
  | within p _ _ _ _ hlog =>
    show WithinLimit (readExpression (atomReader levels) [.groupEnd] (t ++ '}' :: y)).log
    rw [hlog]
    exact fun n hn => absurd hn List.not_mem_nil
  | tooDeep p c u hs hp hdeep hopens =>
    rcases passes_group hlevels ht hslash hs hp with ⟨q, rfl⟩ | ⟨_, rfl⟩
    · rw [hpasses.next.2.1 hdeep] at hopens
      cases hopens
    · cases hopens

end Group

end FormulaMarkup.Limit
