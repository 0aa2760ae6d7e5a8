import FormulaMarkup.CommandLine.Run
import FormulaMarkup.Proofs.CommandLine.Arguments
import FormulaMarkup.Proofs.Config.Layers
import FormulaMarkup.Proofs.Source.Tokens

/-!
# FormulaMarkup — which layer wins on the command line

A run lays the configuration file over the standard configuration and the switches over both.  Each
switch has a key of its own and a value for it, so that the switches of a command line are a layer
that sets these keys and no others.

The two modes share a key, and if both were there one of them would win over the other.  But then
the command line is not accepted (`compatible_of_ofArguments`).

* **`Switch.key`**, **`Switch.value`** — what a switch sets.
* **`Arguments.Loads`**, **`Arguments.Reads`** — the layer of the configuration file and the formula
  that a command line asks for.
* **`run_convert`** — what a run writes.
* **`layers_lastWins`** — the last writer wins, whatever the way by which layers are applied.
-/

namespace FormulaMarkup

open Text

/-- The text before the blanks at its end. -/
theorem Text.trimBlankEnd_append {s blanks : List Char} (hblanks : ∀ c ∈ blanks, isBlank c = true)
    (hend : ∀ c ∈ s.getLast?, isBlank c = false) : trimBlankEnd (s ++ blanks) = s := by
  have hreversed : ∀ c ∈ blanks.reverse, isBlank c = true :=
    fun c hc => hblanks c (List.mem_reverse.mp hc)
  rw [trimBlankEnd, List.reverse_append, Source.skipBlank_append hreversed]
  cases hs : s.reverse with
  | nil =>
    rw [List.reverse_eq_nil_iff.mp hs]
    rfl
  | cons c t =>
    have hlast : c ∈ s.getLast? := by rw [← List.head?_reverse, hs]; rfl
    rw [Source.skipBlank_cons (hend c hlast), ← hs, List.reverse_reverse]

/-- A file that holds a text is read as this text. -/
theorem FileContent.text_toUTF8 (s : String) : (bytes s.toUTF8).text = .ok s.toList := by
  have hread : String.fromUTF8? s.toUTF8 = some s := dif_pos s.isValidUTF8
  rw [text, hread]

namespace CommandLine

/-! ## What the switches set

The layer of the switches is looked at key by key: a key that a switch sets has the value of that
switch, and all others are not set. -/

/-- The parameter that a switch sets. -/
def Switch.key : Switch → Key
  | .inline | .block => .displayMode
  | .pretty => .prettyPrint
  | .annotate => .annotate
  | .noMunderover => .useMunderover
  | .operatorSpacing => .useOperatorSpacing

/-- The value that a switch sets its parameter to. -/
def Switch.value : (s : Switch) → s.key.Value
  | .inline => false
  | .block => true
  | .pretty => PrettyPrint.always
  | .annotate => true
  | .noMunderover => false
  | .operatorSpacing => true

namespace Arguments

variable {a : Arguments}

/-- **A switch sets its parameter.** -/
theorem get_overrides_of_mem (ha : a.Compatible) {s : Switch} (hs : s ∈ a.switches) :
    a.overrides.get s.key = some s.value := by
  have hcontains : a.switches.contains s = true := List.contains_iff_mem.mpr hs
  cases s with
  | block =>
    -- the other mode would win, but it is not there
    have hinline : ¬ a.switches.contains .inline = true :=
      fun h => ha.oneMode ⟨List.contains_iff_mem.mp h, hs⟩
    exact (if_neg hinline).trans (if_pos hcontains)
  | _ => exact if_pos hcontains

/-- Switches set no other parameter than their own (`Switch.key`), so the layer of a command line is
silent about all others. -/
theorem get_overrides_of_untouched {k : Key} (h : ∀ s ∈ a.switches, s.key ≠ k) :
    a.overrides.get k = none := by
  have hno : ∀ s : Switch, s.key = k → ¬ a.switches.contains s = true :=
    fun s hs hcontains => h s (List.contains_iff_mem.mp hcontains) hs
  cases k with
  | displayMode => exact (if_neg (hno .inline rfl)).trans (if_neg (hno .block rfl))
  | prettyPrint => exact if_neg (hno .pretty rfl)
  | annotate => exact if_neg (hno .annotate rfl)
  | useMunderover => exact if_neg (hno .noMunderover rfl)
  | useOperatorSpacing => exact if_neg (hno .operatorSpacing rfl)
  | _ => rfl

/-- The layer of the configuration file that a command line names.  It is empty without a file, and
otherwise it is what `Overrides.ofFile` makes of the content. -/
inductive Loads (a : Arguments) (file : String → FileContent) : Overrides → Prop where
  | noFile (h : a.configFile = none) : Loads a file .empty
  | named {name : String} {layer : Overrides} (h : a.configFile = some name)
      (hlayer : Overrides.ofFile (file name) = .ok layer) : Loads a file layer

/-- The formula that a command line asks for: its argument as it is, or the standard input up to the
blanks at its end. -/
inductive Reads (a : Arguments) (stdin : FileContent) : List Char → Prop where
  | argument {formula : String} (h : a.formula = some formula) : Reads a stdin formula.toList
  | input {s blanks : List Char} (h : a.formula = none) (htext : stdin.text = .ok (s ++ blanks))
      (hblanks : ∀ c ∈ blanks, isBlank c = true) (hend : ∀ c ∈ s.getLast?, isBlank c = false) :
      Reads a stdin s

/-- The layer of the file is the one that a run loads. -/
theorem Loads.fileOverrides_eq {file : String → FileContent} {layer : Overrides}
    (h : a.Loads file layer) : a.fileOverrides file = .ok layer := by
  cases h with
  | noFile h => rw [fileOverrides, h]
  | named h hlayer => rw [fileOverrides, h]; exact hlayer

/-- The formula is the one that a run converts. -/
theorem Reads.source_eq {stdin : FileContent} {s : List Char} (h : a.Reads stdin s) :
    a.source stdin = .ok s := by
  cases h with
  | argument h => rw [source, h]
  | input h htext hblanks hend =>
    rw [source, h]
    show stdin.text.map trimBlankEnd = .ok s
    rw [htext]
    exact congrArg Except.ok (trimBlankEnd_append hblanks hend)

end Arguments

/-! ## Runs

A command line that is accepted leads to one line of output, if its file can be loaded and its
formula can be read. -/

/-- **A run converts the formula** under the standard configuration, then the layer of the file,
then the switches.  There is nothing else that a run reads. -/
theorem run_convert {arguments : List String} {a : Arguments}
    (h : Request.ofArguments arguments = .ok (.convert a)) {file : String → FileContent}
    {stdin : FileContent} {layer : Overrides} {source : List Char} (hlayer : a.Loads file layer)
    (hsource : a.Reads stdin source) :
    run arguments file stdin =
      ⟨0, (Converter.mk ((Config.standard.overlay layer).overlay a.overrides)).convert source
        ++ ['\n'], []⟩ := by
  rw [run, h]
  show convertArguments a file stdin = _
  unfold convertArguments
  rw [hlayer.fileOverrides_eq, hsource.source_eq]
  rfl

end CommandLine

open CommandLine

/-- **The last writer wins**, key by key and whatever the way by which layers are applied.  Under a
list of layers each key has the value of the last layer that sets it, or else its standard value;
converters derived one after the other, and layers merged first, give the same, and every converter
on the way keeps its configuration.  On the command line, whatever is compatible can be said, and an
accepted command line with a configuration file that can be loaded writes the markup of its formula
and a line end: the switches win over the file, the file over the standard configuration, and a key
that neither sets keeps its standard value. -/
theorem layers_lastWins :
    (∀ (layers : List Overrides) (k : Key),
      (∀ value, LastSets layers k value →
        (layers.foldl Config.overlay .standard).get k = value) ∧
      ((∀ layer ∈ layers, layer.get k = none) →
        (layers.foldl Config.overlay .standard).get k = Config.standard.get k)) ∧
    (∀ (layers : List Overrides) (c : Converter),
      layers.foldl Converter.withOverrides c = ⟨layers.foldl Config.overlay c.config⟩ ∧
      c.config.overlay (layers.foldl Overrides.merge .empty) =
        layers.foldl Config.overlay c.config ∧
      ∀ n ≤ layers.length, (layers.scanl Converter.withOverrides c)[n]? =
        some ⟨(layers.take n).foldl Config.overlay c.config⟩) ∧
    (∀ a : Arguments, a.Compatible → Request.ofArguments a.words = .ok (.convert a)) ∧
    ∀ arguments a file stdin layer source,
      Request.ofArguments arguments = .ok (.convert a) → a.Loads file layer →
      a.Reads stdin source →
        (a.Compatible ∧ ∀ formula, a.formula = some formula → formula ∈ arguments) ∧
        ∃ config : Config,
          run arguments file stdin = ⟨0, (Converter.mk config).convert source ++ ['\n'], []⟩ ∧
          (∀ s ∈ a.switches, config.get s.key = s.value) ∧
          ∀ k, (∀ s ∈ a.switches, s.key ≠ k) →
            (∀ value, layer.get k = some value → config.get k = value) ∧
            (layer.get k = none → config.get k = Config.standard.get k) := by
  refine ⟨fun layers k => ⟨fun value => Config.get_foldl_overlay _,
      Config.get_foldl_overlay_of_unset _⟩,
    fun layers c => ⟨c.foldl_withOverrides layers, c.config.overlay_foldl_merge .empty layers,
      fun n => c.getElem?_scanl_withOverrides layers⟩,
    fun a => ofArguments_words, ?_⟩
  intro arguments a file stdin layer source haccepted hlayer hsource
  obtain ⟨hcompatible, hformula⟩ := compatible_of_ofArguments haccepted
  refine ⟨⟨hcompatible, hformula⟩, _, run_convert haccepted hlayer hsource, fun s hs => ?_,
    fun k hk => ?_⟩
  · exact Config.get_overlay_of_set _ (Arguments.get_overrides_of_mem hcompatible hs)
  · rw [Config.get_overlay_of_unset _ (Arguments.get_overrides_of_untouched hk)]
    exact ⟨fun value => Config.get_overlay_of_set _, Config.get_overlay_of_unset _⟩

/-- The text of a configuration file that asks for a formula in a line. -/
def inlineFile : String := "display-mode = false\n"

/-- An alignment that is set and then left out, and a run whose switch contradicts its file. -/
theorem layers_lastWins_contradiction :
    LastSets [.set .empty .fracNumAlign (some Alignment.left), .set .empty .fracNumAlign none]
      .fracNumAlign none ∧
    ([.set .empty .fracNumAlign (some Alignment.left), .set .empty .fracNumAlign none].foldl
      Config.overlay .standard).get .fracNumAlign = none ∧
    ∃ config : Config, run ["--block", "-c", "m.toml"] (fun _ => .bytes inlineFile.toUTF8)
        (.bytes "-x\n ".toUTF8) = ⟨0, (Converter.mk config).convert "-x".toList ++ ['\n'], []⟩ ∧
      config.get .displayMode = true := by
  obtain ⟨hlayers, _, _, hruns⟩ := layers_lastWins
  -- an alignment that is left out is the last value of the key, and counts as one
  have hlast : LastSets
      [.set .empty .fracNumAlign (some Alignment.left), .set .empty .fracNumAlign none]
      .fracNumAlign none :=
    ⟨[_], _, [], rfl, rfl, fun later hlater => absurd hlater List.not_mem_nil⟩
  -- the file can be loaded
  obtain ⟨layer, hlayer⟩ : ∃ layer, Overrides.ofFile (.bytes inlineFile.toUTF8) = .ok layer := by
    have hok : (Overrides.ofText inlineFile.toList).isOk = true := by decide +kernel
    rw [Overrides.ofFile, FileContent.text_toUTF8]
    cases h : Overrides.ofText inlineFile.toList with
    | ok layer => exact ⟨layer, h⟩
    | error e =>
      rw [h] at hok
      cases hok
  have haccepted : Request.ofArguments ["--block", "-c", "m.toml"] =
      .ok (.convert ⟨none, some "m.toml", [.block]⟩) := by rfl
  -- the formula is what the standard input holds before the blanks at its end
  have hlastChar : ∀ c ∈ "-x".toList.getLast?, isBlank c = false := by
    intro c hc
    obtain rfl : 'x' = c := Option.some.inj hc
    decide
  have hsource : Arguments.Reads ⟨none, some "m.toml", [.block]⟩ (.bytes "-x\n ".toUTF8)
      "-x".toList :=
    @Arguments.Reads.input _ _ _ "\n ".toList rfl (FileContent.text_toUTF8 _) (by decide) hlastChar
  obtain ⟨_, config, hrun, hswitches, _⟩ := hruns _ _ (fun _ => .bytes inlineFile.toUTF8) _ layer _
    haccepted (.named rfl hlayer) hsource
  exact ⟨hlast, (hlayers _ _).1 _ hlast, config, hrun, hswitches .block (by decide)⟩

end FormulaMarkup
