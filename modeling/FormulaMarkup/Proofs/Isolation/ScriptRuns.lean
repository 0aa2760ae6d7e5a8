import FormulaMarkup.Proofs.Isolation.Plain
import FormulaMarkup.Proofs.Limit.BraceDepth
import FormulaMarkup.Proofs.Notation.Parse

/-!
# FormulaMarkup — runs of scripts

A base may be followed by any number of scripts in braces.  They are grouped greedily: a script goes
to the node in progress if that has none of its kind yet, and otherwise begins a new node without a
base of its own.  This is spread over the loop for scripts, which leaves alone what it has found
already, the treatment of stray tokens and the loop for items.

The three are taken together as `readCluster`: reading the scripts of a base and then the items
behind them.  A mark does one of two things to a cluster in progress, and the run of marks is an
induction with these two steps.

* **`Base`**, **`Mark`** — the sources: a base and its scripts in braces.
* **`grouped`** — the nodes, by scanning the scripts from left to right.
* **`readItems_marks`** — what is read, by induction on the scripts; **`readItems_exchange`** —
  two of them the other way round.
* **`scripts_grouped`** — a whole source, and that two scripts of different kinds can be exchanged.
-/

namespace FormulaMarkup.ScriptRuns

open Source Text Formula
open Isolation (WithinLimit anyAt_eq_false readBraced_content)
open Limit (selfContained_of_balanced withinLimit_readBraced_congr settles_read)
open Notation (Blanks Letters Numeral Ending Begins Closes NoMarker marker ofMarker?_marker
  breaks_marker skipBlank_marker breaks_of_isBlank unplaced)

/-! ## Sources

The texts in braces have matching braces and no backslash, so that they do not reach beyond their
own braces and their depth can be seen from their braces alone. -/

/-- What scripts can be attached to. -/
inductive Base where
  | letters (letters : Letters)
  | numeral (numeral : Numeral)
  | symbol (name : String) (symbol : Symbol) (known : Symbol.ofName? name = some symbol)
  | group (text : List Char) (balanced : Balanced text) (plain : '\\' ∉ text)

namespace Base

/-- The text of a base. -/
def source : Base → List Char
  | .letters l => l.chars
  | .numeral n => n.chars
  | .symbol name _ _ => '\\' :: name.toList
  | .group text _ _ => '{' :: (text ++ ['}'])

/-- The tree of a base, as it is read. -/
def formula : Base → Formula
  | .letters l => .identifier (String.ofList l.chars) false
  | .numeral n => .number (String.ofList n.chars)
  | .symbol name meaning _ => Command.symbolNode name meaning
  | .group text _ _ => (read text).value

/-- The layout of a base.  That of a group is what its text is parsed as. -/
def node (config : Config) : Base → Layout
  | .letters l => .identifier (String.ofList l.chars) false
  | .numeral n => .number (String.ofList n.chars)
  | .symbol name meaning _ => layOut config (Command.symbolNode name meaning)
  | .group text _ _ => (parse config text).value

theorem layOut_formula (config : Config) (base : Base) :
    layOut config base.formula = base.node config := by
  cases base <;> rfl

/-- What would make the base longer. -/
def ending : Base → Ending
  | .letters l => (Notation.Atom.letters l).ending
  | .numeral n => (Notation.Atom.numeral n).ending
  | .symbol name meaning known => (Notation.Atom.named (.symbol name meaning known)).ending
  | .group _ _ _ => .closed

end Base

/-- A script with its marker, in braces and with blanks around the marker. -/
structure Mark where
  before : Blanks
  kind : ScriptKind
  inside : Blanks
  text : List Char
  balanced : Balanced text
  plain : '\\' ∉ text

/-- A mark behind the blanks before it, and what follows it. -/
def Mark.onto (m : Mark) (s : List Char) : List Char :=
  marker m.kind :: (m.inside.chars ++ '{' :: (m.text ++ '}' :: s))

/-- The text of a mark, with the blanks before it. -/
def Mark.source (m : Mark) : List Char :=
  m.before.chars ++ marker m.kind :: (m.inside.chars ++ '{' :: (m.text ++ ['}']))

theorem isBlank_of_mem_nil : ∀ c ∈ [], isBlank c = true := fun _ hc => absurd hc List.not_mem_nil

/-- No blanks. -/
def adjacent : Blanks := ⟨[], isBlank_of_mem_nil⟩

/-- The text of several marks. -/
def sources (marks : List Mark) : List Char := marks.flatMap Mark.source

/-! ## Grouping

Grouping is a scan over the scripts with one cluster in progress.  It is defined with any labels, as
the trees are, and it does not look at the base or the scripts themselves. -/

section Grouping

variable {W P : Type}

/-- A base with the scripts that it has got so far. -/
structure Cluster (W P : Type) where
  base : Node W P
  sub : Option (Node W P)
  sup : Option (Node W P)

namespace Cluster

/-- A base without scripts. -/
def bare (base : Node W P) : Cluster W P := ⟨base, none, none⟩

/-- The script of a kind, if there is one. -/
def get (c : Cluster W P) : ScriptKind → Option (Node W P)
  | .sub => c.sub
  | .sup => c.sup

/-- The cluster with a script of a kind. -/
def set (c : Cluster W P) (kind : ScriptKind) (script : Node W P) : Cluster W P :=
  match kind with
  | .sub => ⟨c.base, some script, c.sup⟩
  | .sup => ⟨c.base, c.sub, some script⟩

/-- The base with its scripts; without any it stands for itself. -/
def node (place : Bool → P) (c : Cluster W P) : Node W P :=
  if c.sub.isNone && c.sup.isNone then c.base
  else .scripted c.base c.sub c.sup (place c.base.isLargeOperator)

end Cluster

/-- The nodes of a cluster and of the scripts behind it, scanned from left to right.  A script joins
the cluster if that has none of its kind, and otherwise begins a new one on an empty row. -/
def grouped (place : Bool → P) (c : Cluster W P) : List (ScriptKind × Node W P) → List (Node W P)
  | [] => [c.node place]
  | (kind, script) :: scripts =>
    if (c.get kind).isNone then grouped place (c.set kind script) scripts
    else c.node place :: grouped place (.set (.bare .emptyRow) kind script) scripts

/-- A cluster on `emptyRow`, once it has a script. -/
def Headless (c : Cluster W P) : Prop :=
  c.base = .emptyRow ∧ (c.sub.isSome ∨ c.sup.isSome)

/-- A script on an empty row makes a cluster without a base of its own. -/
theorem Headless.set {c : Cluster W P} (hbase : c.base = .emptyRow) (kind : ScriptKind)
    (script : Node W P) : Headless (c.set kind script) := by
  cases kind with
  | sub => exact ⟨hbase, .inl rfl⟩
  | sup => exact ⟨hbase, .inr rfl⟩

/-- A `Headless` cluster stands for a scripted empty row, with its scripts at the side, since an
empty row is no large operator. -/
theorem Headless.node {c : Cluster W P} (h : Headless c) (place : Bool → P) :
    c.node place = .scripted .emptyRow c.sub c.sup (place false) := by
  obtain ⟨base, sub, sup⟩ := c
  obtain ⟨rfl, hscript⟩ := h
  rw [Cluster.node, if_neg]
  · rfl
  · rcases hscript with hsub | hsup
    · rw [Option.isSome_iff_exists] at hsub
      obtain ⟨script, rfl⟩ : ∃ script, sub = some script := hsub
      simp
    · rw [Option.isSome_iff_exists] at hsup
      obtain ⟨script, rfl⟩ : ∃ script, sup = some script := hsup
      simp

/-- A `Headless` cluster is followed by such clusters only.  Induction on the scripts; a script
joins the cluster or begins another one that is headless. -/
theorem scripted_of_headless (place : Bool → P) {c : Cluster W P} (h : Headless c)
    (scripts : List (ScriptKind × Node W P)) :
    ∀ node ∈ grouped place c scripts,
      ∃ sub sup, node = .scripted .emptyRow sub sup (place false) := by
  induction scripts generalizing c with
  | nil =>
    intro node hnode
    rw [grouped, List.mem_singleton] at hnode
    exact ⟨c.sub, c.sup, hnode.trans (h.node place)⟩
  | cons script scripts ih =>
    obtain ⟨kind, script⟩ := script
    rw [grouped]
    -- the script joins the cluster, or the next one begins on an empty row
    split
    · exact ih (.set h.1 kind script)
    · intro node hnode
      rcases List.mem_cons.mp hnode with rfl | hnode
      · exact ⟨c.sub, c.sup, h.node place⟩
      · exact ih (.set rfl kind script) node hnode

/-- **Only the first node has the base**, since every cluster but the first is `Headless`. -/
theorem scripted_of_mem_tail (place : Bool → P) (c : Cluster W P)
    (scripts : List (ScriptKind × Node W P)) :
    ∀ node ∈ (grouped place c scripts).tail,
      ∃ sub sup, node = .scripted .emptyRow sub sup (place false) := by
  induction scripts generalizing c with
  | nil => exact fun node hnode => absurd hnode List.not_mem_nil
  | cons script scripts ih =>
    obtain ⟨kind, script⟩ := script
    rw [grouped]
    split
    · exact ih _
    · rw [List.tail_cons]
      exact scripted_of_headless place (.set rfl kind script) scripts

variable {W' P' : Type} (width : W → W') (place : Bool → P')

/-- The cluster with other labels. -/
def Cluster.relabel (c : Cluster W Unit) : Cluster W' P' :=
  ⟨c.base.relabel width fun large _ => place large,
    c.sub.map (Node.relabel width fun large _ => place large),
    c.sup.map (Node.relabel width fun large _ => place large)⟩

/-- The node of a cluster can be labelled before or after it is made. -/
theorem Cluster.relabel_node (c : Cluster W Unit) :
    (c.node unplaced).relabel width (fun large _ => place large)
      = (c.relabel width place).node place := by
  obtain ⟨base, sub, sup⟩ := c
  cases sub <;> cases sup <;>
    simp [Cluster.node, Cluster.relabel, Node.relabel, Node.relabelOption,
      Node.isLargeOperator_relabel]

/-- Clusters can be labelled before or after they are grouped.  Induction on the scripts: labels
have no part in which script joins which cluster. -/
theorem relabel_grouped (c : Cluster W Unit) (scripts : List (ScriptKind × Node W Unit)) :
    (grouped unplaced c scripts).map (Node.relabel width fun large _ => place large)
      = grouped place (c.relabel width place)
          (scripts.map fun s => (s.1, s.2.relabel width fun large _ => place large)) := by
  induction scripts generalizing c with
  | nil => exact congrArg (fun node => [node]) (c.relabel_node width place)
  | cons script scripts ih =>
    obtain ⟨kind, script⟩ := script
    -- a script joins a cluster before or after both are labelled
    have hset (c : Cluster W Unit) : (c.set kind script).relabel width place
        = (c.relabel width place).set kind (script.relabel width fun large _ => place large) := by
      cases kind <;> rfl
    -- a labelled cluster has scripts of the same kinds
    have hget : ((c.relabel width place).get kind).isNone = (c.get kind).isNone := by
      cases kind with
      | sub => exact Option.isNone_map
      | sup => exact Option.isNone_map
    rw [grouped, List.map_cons, grouped, hget]
    split
    · rw [ih, hset]
    · rw [List.map_cons, c.relabel_node, ih, hset]
      rfl

end Grouping

/-! ## Groups

Whether a group in braces is too deep is a matter of its own braces.  So if it has been read once
without reaching the limit, it is read as its text wherever it stands on this level. -/

/-- Nothing in the group is too deep, wherever it stands: it is read as `read` reads its text, and
without a guess. -/
def Shallow (levels : Nat) (t : List Char) : Prop :=
  ∀ r, (atomReader levels).read ('{' :: (t ++ '}' :: r)) = some ⟨(read t).value, r, []⟩

section Groups

variable {levels : Nat} (hlevels : levels ≤ maxNesting) {t : List Char} (ht : Balanced t)
  (hplain : '\\' ∉ t)
include hlevels ht hplain

/-- **If a group is read within the limit once, it is `Shallow`.** What follows has no part in its
depth (`withinLimit_readBraced_congr`), and without a command there is nothing else to report
(`settles_read`). -/
theorem shallow_of_withinLimit {r : List Char} {atom : Reading Formula}
    (hread : (atomReader levels).read ('{' :: (t ++ '}' :: r)) = some atom)
    (hlimit : WithinLimit atom.log) : Shallow levels t := by
  cases levels with
  | zero =>
    -- without a level the text would have been taken as it is
    obtain rfl : readVerbatim _ = atom := Option.some.inj hread
    exact absurd List.mem_cons_self (hlimit _)
  | succ levels =>
    obtain rfl : readBraced (atomReader levels) (t ++ '}' :: r) = atom := Option.some.inj hread
    intro r'
    have hlimit' := withinLimit_readBraced_congr hlevels ht hplain hlimit r'
    have hcontent := readBraced_content (Nat.le_of_succ_le hlevels)
      (selfContained_of_balanced ht hplain) r' hlimit'
    -- without a command there is nothing else to guess
    have hlog : (read t).log = [] := by
      rw [hcontent] at hlimit'
      cases settles_read t with
      | within _ _ _ _ _ hlog => exact hlog
      | tooDeep _ _ _ _ _ _ _ _ _ hlog =>
        rw [hlog] at hlimit'
        exact absurd List.mem_cons_self (hlimit' _)
      | command p u hs =>
        rw [hs] at hplain
        exact absurd (List.mem_append_right p List.mem_cons_self) hplain
    show some (readBraced (atomReader levels) (t ++ '}' :: r')) = _
    rw [hcontent, hlog]

end Groups

/-- A group after blanks is an argument. -/
theorem readArgument_group {levels : Nat} {t : List Char} (h : Shallow levels t) (gap : Blanks)
    (r : List Char) :
    readArgument (atomReader levels) (gap.chars ++ '{' :: (t ++ '}' :: r)) =
      ⟨(read t).value, r, []⟩ := by
  refine readArgument_of_read ?_
  rw [Notation.skipBlank_blanks, skipBlank_cons (by decide)]
  exact h r

/-! ## Bases

A base is an atom.  Two of the four kinds are tokens, one is a command and one a group, and each is
read in full because nothing that follows makes it longer. -/

/-- The base is read, whatever follows it without making it longer. -/
def Base.ReadBy (levels : Nat) (base : Base) : Prop :=
  ∀ s, base.ending.allows s = true →
    Begins (base.source ++ s) ∧
      (atomReader levels).read (base.source ++ s) = some ⟨base.formula, s, []⟩

/-- A base `Begins` at the front of its source, whatever follows. -/
theorem Base.begins (base : Base) {s : List Char} (hs : base.ending.allows s = true) :
    Begins (base.source ++ s) := by
  cases base with
  | letters l => exact (Notation.readBy_letters 0 l s hs).1
  | numeral n => exact (Notation.readBy_numeral 0 n s hs).1
  | symbol name symbol known => exact (Notation.readBy_named 0 (.symbol name symbol known) s hs).1
  | group text balanced plain => exact .of_brace _

/-- If a base is read within the limit once, it is read everywhere.  Only a group could be too
deep. -/
theorem Base.readBy_of_withinLimit {levels : Nat} (hlevels : levels ≤ maxNesting) {base : Base}
    {s : List Char} (hs : base.ending.allows s = true) {atom : Reading Formula}
    (hread : (atomReader levels).read (base.source ++ s) = some atom)
    (hlimit : WithinLimit atom.log) : base.ReadBy levels := by
  obtain ⟨levels, rfl⟩ : ∃ l, levels = l + 1 := by
    cases levels with
    | zero =>
      obtain rfl : readVerbatim _ = atom :=
        Option.some.inj ((if_pos (base.begins hs).starts).symm.trans hread)
      exact absurd List.mem_cons_self (hlimit _)
    | succ levels => exact ⟨levels, rfl⟩
  refine fun r hr => ⟨base.begins hr, ?_⟩
  cases base with
  | letters l => exact (Notation.readBy_letters levels l r hr).2
  | numeral n => exact (Notation.readBy_numeral levels n r hr).2
  | symbol name symbol known =>
    have hatom := (Notation.readBy_named levels (.symbol name symbol known) r hr).2
    cases symbol <;> exact hatom
  | group text balanced plain =>
    -- the group has been read once
    have hsource (s : List Char) : (Base.group text balanced plain).source ++ s
        = '{' :: (text ++ '}' :: s) := by
      simp [Base.source]
    rw [hsource] at hread ⊢
    exact shallow_of_withinLimit hlevels balanced plain hread hlimit r

/-! ## Reading

The scripts that the reader has found are the cluster in progress.  This section translates between
the two, before the steps of the reader are described in terms of clusters. -/

/-- The script of a mark. -/
def Mark.script (m : Mark) : ScriptKind × Formula := (m.kind, (read m.text).value)

/-- Reads the scripts of a base that has some, and the items behind them. -/
def readCluster (a : AtomReader) (stops : List Stop) (base : Formula) (found : Scripts)
    (s : List Char) : Reading (List Formula) :=
  let scripts := readScripts a found s
  ((readItems a stops scripts.rest).map (scripts.value.attach base :: ·)).after scripts.log

/-- The scripts that have been found, as a cluster. -/
def cluster (base : Formula) (found : Scripts) : Cluster SpaceName Unit :=
  ⟨base, found.sub, found.sup⟩

/-- The node of the cluster is the base with the scripts attached. -/
theorem node_cluster (base : Formula) (found : Scripts) :
    (cluster base found).node unplaced = found.attach base := by
  obtain ⟨sub, sup⟩ := found
  cases sub <;> cases sup <;> rfl

theorem get_cluster (base : Formula) (found : Scripts) (kind : ScriptKind) :
    (cluster base found).get kind = found.get kind := by
  cases kind <;> rfl

/-- A script on an empty row, as a cluster and as what has been found. -/
theorem set_bare (kind : ScriptKind) (script : Formula) :
    (Cluster.bare .emptyRow).set kind script =
      cluster .emptyRow (Scripts.none.set kind script) := by
  cases kind <;> rfl

theorem set_cluster (base : Formula) (found : Scripts) (kind : ScriptKind) (script : Formula) :
    (cluster base found).set kind script = cluster base (found.set kind script) := by
  cases kind <;> rfl

/-! ### Scripts of both kinds

Two scripts of different kinds can be put in either order, since each has its own place. -/

theorem isSome_get_none (kind : ScriptKind) : (Scripts.none.get kind).isSome = false := by
  cases kind <;> rfl

theorem isSome_get_set {kind kind' : ScriptKind} (h : kind ≠ kind') (script : Formula) :
    ((Scripts.none.set kind script).get kind').isSome = false := by
  cases kind <;> cases kind' <;> first | rfl | exact absurd rfl h

/-- Two scripts of different kinds may be found in either order. -/
theorem set_set_comm {kind kind' : ScriptKind} (h : kind ≠ kind') (script script' : Formula) :
    (Scripts.none.set kind script).set kind' script'
      = (Scripts.none.set kind' script').set kind script := by
  cases kind <;> cases kind' <;> first | rfl | exact absurd rfl h

/-! ### Marks

One lemma for each of the two things that a mark can do, and one for the end of the run.  Both need
to know that the text of the mark is not too deep, which is read off the log of the whole reading.
-/

section Reader

variable (a : AtomReader) (stops : List Stop)

/-- The text of a mark in front of something is the mark behind its blanks. -/
theorem Mark.source_append (m : Mark) (s : List Char) :
    m.source ++ s = m.before.chars ++ m.onto s := by
  simp [Mark.source, Mark.onto]

/-- A script of a new kind joins the cluster (`readScripts_of_marker`). -/
theorem readCluster_of_new (base : Formula) {found : Scripts} {kind : ScriptKind}
    (hfound : (found.get kind).isSome = false) (gap : Blanks) (t : List Char) :
    readCluster a stops base found (gap.chars ++ marker kind :: t) =
      (readCluster a stops base (found.set kind (readArgument a t).value)
        (readArgument a t).rest).after (readArgument a t).log := by
  rw [readCluster,
    readScripts_of_marker a (skipBlank_marker gap kind t) (ofMarker?_marker kind) hfound]
  simp only [readCluster, Reading.after, Reading.map, List.append_assoc]

/-- A marker that does not belong to a base stands on an empty row: no blank and no stop begins with
it, and no atom, so `readStray` is asked. -/
theorem readItems_of_marker {levels : Nat} (kind : ScriptKind) (t : List Char) :
    readItems (atomReader levels) stops (marker kind :: t) =
      readCluster (atomReader levels) stops .emptyRow .none (marker kind :: t) := by
  have hblank : skipBlank (marker kind :: t) = marker kind :: t := by
    refine skipBlank_cons ?_ t
    cases kind <;> decide
  have hstop : Stop.anyAt stops (marker kind :: t) = false := by
    refine anyAt_eq_false ?_ stops t
    cases kind <;> decide
  have hnone : (atomReader levels).read (marker kind :: t) = none := by
    refine read_of_not_startsAtom levels ?_
    cases kind <;> rfl
  rw [readItems_of_item _ hblank hstop, readItem, hnone]
  dsimp only
  rw [readStray_of_marker _ (ofMarker?_marker kind)]
  rfl

/-- A second script of a kind begins a new cluster: `readScripts` leaves its marker, no atom starts
there, and `readStray` puts it on an empty row. -/
theorem readCluster_of_found {levels : Nat} (base : Formula) {found : Scripts} {kind : ScriptKind}
    (hfound : (found.get kind).isSome = true) (gap : Blanks) (t : List Char) :
    readCluster (atomReader levels) stops base found (gap.chars ++ marker kind :: t) =
      (readCluster (atomReader levels) stops .emptyRow .none (marker kind :: t)).map
        (found.attach base :: ·) := by
  rw [readCluster,
    readScripts_of_found _ (skipBlank_marker gap kind t) (ofMarker?_marker kind) hfound,
    readItems_of_marker]
  rfl

/-- **A mark whose text is `Shallow`** adds its script to the cluster. -/
theorem readCluster_of_shallow {levels : Nat} {m : Mark} (hshallow : Shallow levels m.text)
    (base : Formula) {found : Scripts} (hfound : (found.get m.kind).isSome = false)
    (before : Blanks) (s : List Char) :
    readCluster (atomReader levels) stops base found (before.chars ++ m.onto s) =
      readCluster (atomReader levels) stops base (found.set m.kind (read m.text).value) s := by
  rw [Mark.onto, readCluster_of_new _ stops base hfound, readArgument_group hshallow]
  rfl

/-- A mark that is read within the limit has a `Shallow` text. -/
theorem shallow_of_readCluster {levels : Nat} (hlevels : levels ≤ maxNesting) {m : Mark}
    {base : Formula} {found : Scripts} (hfound : (found.get m.kind).isSome = false)
    {before : Blanks} {s : List Char}
    (hlimit : WithinLimit
      (readCluster (atomReader levels) stops base found (before.chars ++ m.onto s)).log) :
    Shallow levels m.text := by
  rw [Mark.onto, readCluster_of_new _ stops base hfound] at hlimit
  have hargument := hlimit.of_append.1
  cases hread : (atomReader levels).read ('{' :: (m.text ++ '}' :: s)) with
  | none => cases startsAtom_eq_false_of_read hread
  | some atom =>
    have hskip : skipBlank (m.inside.chars ++ '{' :: (m.text ++ '}' :: s))
        = '{' :: (m.text ++ '}' :: s) := by
      rw [Notation.skipBlank_blanks, skipBlank_cons (by decide)]
    rw [readArgument_of_read (hskip ▸ hread)] at hargument
    exact shallow_of_withinLimit hlevels m.balanced m.plain hread hargument

/-- A mark whose kind has been found begins a new cluster, before which there are no blanks. -/
theorem readCluster_of_onto {levels : Nat} {m : Mark} (base : Formula) {found : Scripts}
    (hfound : (found.get m.kind).isSome = true) (before : Blanks) (s : List Char) :
    readCluster (atomReader levels) stops base found (before.chars ++ m.onto s) =
      (readCluster (atomReader levels) stops .emptyRow .none (adjacent.chars ++ m.onto s)).map
        (found.attach base :: ·) :=
  readCluster_of_found stops base hfound before _

theorem sources_cons (m : Mark) (marks : List Mark) (s : List Char) :
    sources (m :: marks) ++ s = m.before.chars ++ m.onto (sources marks ++ s) := by
  rw [← m.source_append, ← List.append_assoc]
  exact congrArg (· ++ s) List.flatMap_cons

variable {stops} {levels : Nat} (hlevels : levels ≤ maxNesting) {x : List Char}
  (hx : Closes stops x) (gap : Blanks)
include hx

/-- Behind the last mark there are blanks only, so `readScripts` finds no marker and `readItems` no
item. -/
theorem readCluster_nil (base : Formula) (found : Scripts) :
    readCluster (atomReader levels) stops base found (gap.chars ++ x) =
      ⟨[found.attach base], x, []⟩ := by
  have hskip : skipBlank (gap.chars ++ x) = x := by
    rw [Notation.skipBlank_blanks, hx.skipBlank_eq]
  have hnone : NoMarker (gap.chars ++ x) := by
    intro c t hs
    rw [hskip] at hs
    exact hx.noMarker c t (by rw [hx.skipBlank_eq, hs])
  rw [readCluster, readScripts_of_not_marker _ found hnone]
  dsimp only
  rw [hskip, hx.readItems_eq]
  rfl

include hlevels

/-- **The marks behind a base are `grouped`**, if the limit is not reached on the way.  Induction on
the marks: each of them goes to the cluster in progress or begins a new one. -/
theorem readCluster_marks (marks : List Mark) (base : Formula) (found : Scripts)
    (hlimit : WithinLimit (readCluster (atomReader levels) stops base found
      (sources marks ++ (gap.chars ++ x))).log) :
    readCluster (atomReader levels) stops base found (sources marks ++ (gap.chars ++ x)) =
      ⟨grouped unplaced (cluster base found) (marks.map Mark.script), x, []⟩ := by
  induction marks generalizing base found with
  | nil =>
    rw [List.map_nil, grouped, node_cluster]
    exact readCluster_nil hx gap base found
  | cons m marks ih =>
    -- a mark on a cluster that has no script of its kind
    have hnew {base : Formula} {found : Scripts} {before : Blanks}
        (hfound : (found.get m.kind).isSome = false)
        (hlimit : WithinLimit (readCluster (atomReader levels) stops base found
          (before.chars ++ m.onto (sources marks ++ (gap.chars ++ x)))).log) :
        readCluster (atomReader levels) stops base found
            (before.chars ++ m.onto (sources marks ++ (gap.chars ++ x))) =
          ⟨grouped unplaced (cluster base (found.set m.kind (read m.text).value))
            (marks.map Mark.script), x, []⟩ := by
      have hshallow := shallow_of_readCluster stops hlevels hfound hlimit
      rw [readCluster_of_shallow stops hshallow base hfound] at hlimit ⊢
      exact ih base (found.set m.kind (read m.text).value) hlimit
    rw [sources_cons] at hlimit ⊢
    rw [List.map_cons, Mark.script, grouped, get_cluster]
    -- a mark of a new kind joins the cluster, any other begins the next one
    cases hfound : found.get m.kind with
    | none =>
      rw [Option.isNone_none, if_pos rfl, set_cluster]
      exact hnew (by rw [hfound]; rfl) hlimit
    | some script =>
      have hsome : (found.get m.kind).isSome = true := by rw [hfound]; rfl
      rw [readCluster_of_onto stops base hsome] at hlimit ⊢
      rw [Option.isNone_some, if_neg Bool.false_ne_true, hnew (isSome_get_none m.kind) hlimit,
        node_cluster, set_bare]
      rfl

end Reader

/-! ## Expressions

A base with its marks is the content of an expression.  Behind the base, whose end the marker shows,
the cluster is in progress that has the base and no scripts. -/

section Expression

variable {levels : Nat} {stops : List Stop} {base : Base}

/-- Where a base is read, its scripts and the items behind them are read next, which is
`readCluster`. -/
theorem readItems_base (hbase : base.ReadBy levels) {s : List Char}
    (hs : base.ending.allows s = true) :
    readItems (atomReader levels) stops (base.source ++ s) =
      readCluster (atomReader levels) stops base.formula .none s := by
  obtain ⟨hbegins, hread⟩ := hbase s hs
  have hskip := hbegins.skipBlank_eq
  rw [readItems_of_atom (by rw [hskip]; exact hread)
    (by rw [hskip]; exact hbegins.not_anyAt stops) rfl]
  rfl

/-- If a base is read within the limit once, it is everywhere. -/
theorem readBy_of_readItems (hlevels : levels ≤ maxNesting) {s : List Char}
    (hs : base.ending.allows s = true)
    (hlimit : WithinLimit (readItems (atomReader levels) stops (base.source ++ s)).log) :
    base.ReadBy levels := by
  have hbegins := base.begins hs
  have hskip := hbegins.skipBlank_eq
  cases hread : (atomReader levels).read (base.source ++ s) with
  | none => cases (startsAtom_eq_false_of_read hread).symm.trans hbegins.starts
  | some atom =>
    rw [readItems_of_atom (by rw [hskip]; exact hread)
      (by rw [hskip]; exact hbegins.not_anyAt stops) rfl] at hlimit
    exact base.readBy_of_withinLimit hlevels hs hread hlimit.of_append.1.of_append.1

theorem allows_mark (ending : Ending) (m : Mark) (s : List Char) :
    ending.allows (m.source ++ s) = true := by
  rw [m.source_append]
  exact ending.allows_blanks m.before (breaks_marker m.kind) _

/-- A base is never made longer by what comes behind it, be it a mark, a blank or what closes the
expression (`Closes`). -/
theorem allows_marks {x : List Char} (hx : Closes stops x) (ending : Ending) (gap : Blanks)
    (marks : List Mark) : ending.allows (sources marks ++ (gap.chars ++ x)) = true := by
  cases marks with
  | cons m marks =>
    rw [sources_cons, ← m.source_append]
    exact allows_mark ending m _
  | nil =>
    -- only blanks and the end of the expression follow
    show ending.allows (gap.chars ++ x) = true
    cases hgap : gap.chars with
    | nil => exact hx.allows ending
    | cons b bs =>
      have hblank : isBlank b = true := gap.blank b (by rw [hgap]; exact List.mem_cons_self)
      exact ending.allows_cons (breaks_of_isBlank hblank) _

/-- **A base and its marks are read as the `grouped` nodes**, at any depth and up to any stop, if
the limit is not reached on the way. -/
theorem readItems_marks (hlevels : levels ≤ maxNesting) {x : List Char} (hx : Closes stops x)
    (gap : Blanks) (marks : List Mark)
    (hlimit : WithinLimit (readItems (atomReader levels) stops
      (base.source ++ (sources marks ++ (gap.chars ++ x)))).log) :
    readItems (atomReader levels) stops (base.source ++ (sources marks ++ (gap.chars ++ x))) =
      ⟨grouped unplaced (.bare base.formula) (marks.map Mark.script), x, []⟩ := by
  have hs := allows_marks hx base.ending gap marks
  have hbase := readBy_of_readItems hlevels hs hlimit
  rw [readItems_base hbase hs] at hlimit ⊢
  exact readCluster_marks hlevels hx gap marks base.formula .none hlimit

/-! ### Two marks

Here nothing is assumed of what follows the two marks, so they may be part of a longer run or be
followed by anything else. -/

variable {m m' : Mark} (hkind : m.kind ≠ m'.kind)
include hkind

/-- Two marks of different kinds make one cluster, and what follows is read behind it. -/
theorem readItems_pair (hbase : base.ReadBy levels) (hm : Shallow levels m.text)
    (hm' : Shallow levels m'.text) (r : List Char) :
    readItems (atomReader levels) stops (base.source ++ (m.source ++ (m'.source ++ r))) =
      readCluster (atomReader levels) stops base.formula
        ((Scripts.none.set m.kind (read m.text).value).set m'.kind (read m'.text).value) r := by
  rw [readItems_base hbase (allows_mark base.ending m _), m.source_append,
    readCluster_of_shallow stops hm _ (isSome_get_none m.kind), m'.source_append,
    readCluster_of_shallow stops hm' _ (isSome_get_set hkind _)]

/-- **Two marks of different kinds can be exchanged**, whatever follows them, if they are read
within the limit with something behind them. -/
theorem readItems_exchange (hlevels : levels ≤ maxNesting) {r : List Char}
    (hlimit : WithinLimit (readItems (atomReader levels) stops
      (base.source ++ (m.source ++ (m'.source ++ r)))).log) (r' : List Char) :
    readItems (atomReader levels) stops (base.source ++ (m.source ++ (m'.source ++ r'))) =
      readItems (atomReader levels) stops (base.source ++ (m'.source ++ (m.source ++ r'))) := by
  have hs := allows_mark base.ending m (m'.source ++ r)
  have hbase := readBy_of_readItems hlevels hs hlimit
  rw [readItems_base hbase hs, m.source_append] at hlimit
  have hm := shallow_of_readCluster stops hlevels (isSome_get_none m.kind) hlimit
  rw [readCluster_of_shallow stops hm _ (isSome_get_none m.kind), m'.source_append] at hlimit
  have hm' := shallow_of_readCluster stops hlevels (isSome_get_set hkind _) hlimit
  rw [readItems_pair hkind hbase hm hm', readItems_pair hkind.symm hbase hm' hm, set_set_comm hkind]

end Expression

/-! ## Sources

A whole source is laid out, and the scripts of every node get their place: those of the first one by
its base, and those of the others at the side. -/

/-- The nodes of a base and its scripts, each of which is what its text is parsed as. -/
def nodes (config : Config) (base : Base) (marks : List Mark) : List Layout :=
  grouped (scriptPlacement config) (.bare (base.node config))
    (marks.map fun m => (m.kind, (parse config m.text).value))

/-- `layOut` of the grouped nodes is grouping the layouts, by `relabel_grouped`. -/
theorem layOut_grouped (config : Config) (base : Base) (marks : List Mark) :
    layOut config (.ofItems (grouped unplaced (.bare base.formula) (marks.map Mark.script)))
      = .ofItems (nodes config base marks) := by
  rw [layOut, Node.relabel_ofItems, Node.relabelAll_eq_map, relabel_grouped, List.map_map, nodes,
    ← base.layOut_formula]
  rfl

/-- **Runs of scripts are grouped greedily, and the order within a pair does not matter.**  As long
as the limit on nesting is not reached, a base with any number of scripts in braces is parsed as the
nodes that come from scanning the scripts from left to right.  Only the first of them has the base,
and all others have their scripts at the side.  A script and another one of the other kind can be
exchanged, whatever comes behind them. -/
theorem scripts_grouped (config : Config) (base : Base) :
    (∀ (marks : List Mark) (gap : Blanks),
      WithinLimit (parse config (base.source ++ (sources marks ++ gap.chars))).log →
      parse config (base.source ++ (sources marks ++ gap.chars)) =
        ⟨.ofItems (nodes config base marks), [], []⟩) ∧
    (∀ marks : List Mark, ∀ node ∈ (nodes config base marks).tail,
      ∃ sub sup, node = .scripted .emptyRow sub sup .beside) ∧
    ∀ (m m' : Mark) (r : List Char), m.kind ≠ m'.kind →
      WithinLimit (parse config (base.source ++ (m.source ++ (m'.source ++ r)))).log →
      ∀ r', parse config (base.source ++ (m.source ++ (m'.source ++ r'))) =
        parse config (base.source ++ (m'.source ++ (m.source ++ r'))) := by
  have hclosed : Closes [] [] := .inl rfl
  refine ⟨fun marks gap hlimit => ?_, fun marks => scripted_of_mem_tail _ _ _,
    fun m m' r hkind hlimit r' => ?_⟩
  · rw [← List.append_nil gap.chars] at hlimit ⊢
    have hread := readItems_marks (Nat.le_refl maxNesting) hclosed gap marks hlimit
    rw [parse, Formula.read, readExpression, hread, ← layOut_grouped]
    rfl
  · have hexchange := readItems_exchange hkind (Nat.le_refl maxNesting) hlimit r'
    rw [parse, parse, Formula.read, Formula.read, readExpression, readExpression, hexchange]

/-- Both parts at a sum with blanks around its markers: three scripts in two nodes, and the exchange
of the first two in front of a letter. -/
theorem scripts_grouped_sum :
    WithinLimit (parse .standard "\\sum_ \x7bi\x7d ^\x7bn\x7d ^\x7b2\x7d ".toList).log ∧
    (parse .standard "\\sum_ \x7bi\x7d ^\x7bn\x7d ^\x7b2\x7d ".toList).value =
      .row [.scripted (.operator "∑" true) (some (parse .standard "i".toList).value)
          (some (parse .standard "n".toList).value) .underOver,
        .scripted .emptyRow none (some (parse .standard "2".toList).value) .beside] ∧
    ScriptKind.sub ≠ .sup ∧
    WithinLimit (parse .standard "\\sum_ \x7bi\x7d ^\x7bn\x7dx".toList).log ∧
    parse .standard "\\sum_ \x7bi\x7d ^\x7bn\x7dx".toList
      = parse .standard "\\sum ^\x7bn\x7d_ \x7bi\x7dx".toList := by
  let apart : Blanks := ⟨[' '], by decide⟩
  let sum : Base := .symbol "sum" (.largeOperator "∑") rfl
  let lower : Mark := ⟨adjacent, .sub, apart, ['i'], by decide, by decide⟩
  let upper : Mark := ⟨apart, .sup, adjacent, ['n'], by decide, by decide⟩
  let second : Mark := ⟨apart, .sup, adjacent, ['2'], by decide, by decide⟩
  have hlimit :
      WithinLimit (parse .standard "\\sum_ \x7bi\x7d ^\x7bn\x7d ^\x7b2\x7d ".toList).log := by
    decide +kernel
  have hpair : WithinLimit (parse .standard "\\sum_ \x7bi\x7d ^\x7bn\x7dx".toList).log := by
    decide +kernel
  have hkind : ScriptKind.sub ≠ .sup := by decide
  obtain ⟨hgrouped, _, hexchange⟩ := scripts_grouped .standard sum
  have hparse := hgrouped [lower, upper, second] apart hlimit
  exact ⟨hlimit, congrArg Reading.value hparse, hkind, hpair,
    hexchange lower upper ['x'] hkind hpair ['x']⟩

end FormulaMarkup.ScriptRuns
