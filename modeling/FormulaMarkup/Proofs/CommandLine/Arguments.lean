import Mathlib.Data.List.Nodup
import Mathlib.Data.List.Perm.Subperm
import FormulaMarkup.CommandLine.Arguments

/-!
# FormulaMarkup — which command lines are accepted

Arguments are taken up one by one.  What has been taken up is sound at any time: no switch is there
twice, a configuration file has a name, and the formula is one of the arguments, unchanged.  Two
switches that exclude each other are found at the end.

For the other direction one way of saying the arguments is enough: all switches in their long form,
then the file, then the formula behind a double hyphen.

* **`Arguments.Compatible`** — what one command line can say.
* **`Progress.Sound`** — what holds of the arguments taken up, kept by **`Sound.put`**.
* **`compatible_of_ofArguments`** — an accepted command line says something compatible.
* **`ofArguments_words`** — whatever is compatible can be said.
-/

namespace FormulaMarkup.CommandLine

/-- What one command line can say: no switch twice, at most one of the two modes, and a
configuration file that has a name. -/
structure Arguments.Compatible (a : Arguments) : Prop where
  nodup : a.switches.Nodup
  oneMode : ¬ (.inline ∈ a.switches ∧ .block ∈ a.switches)
  named : a.configFile ≠ some ""

namespace Progress

/-- What has been taken up of the given arguments: no switch twice, a configuration file with a
name, and a formula that is one of the arguments. -/
structure Sound (given : List String) (p : Progress) : Prop where
  nodup : p.switches.Nodup
  named : p.configFile ≠ some ""
  formula : ∀ f, p.formula = some f → f ∈ given

variable {given : List String} {p q : Progress}

/-- Before the first argument nothing has been taken up. -/
theorem sound_start (given : List String) : start.Sound given where
  nodup := List.nodup_nil
  named := by rintro ⟨⟩
  formula := by rintro f ⟨⟩

/-- A configuration file is taken up if there is none yet and it has a name; in all other cases
`putConfigFile` is an error. -/
theorem Sound.putConfigFile (hp : p.Sound given) {value : String}
    (h : p.putConfigFile value = .ok q) : q.Sound given := by
  unfold Progress.putConfigFile at h
  split at h
  · cases h
  · split at h
    · cases h
    · next hvalue =>
      cases h
      refine ⟨hp.nodup, fun hempty => hvalue ?_, hp.formula⟩
      rw [Option.some.inj hempty]
      rfl

/-- Before the next argument, what waits for one is settled. -/
theorem Sound.settle (hp : p.Sound given) (h : p.settle = .ok q) : q.Sound given := by
  unfold Progress.settle at h
  split at h
  · cases h
    exact hp
  · cases h
  · have hcleared : Sound given { p with waiting := .nothing } :=
      ⟨hp.nodup, hp.named, hp.formula⟩
    exact hcleared.putConfigFile h

/-- A switch is taken up if it is not there yet, so that none is there twice. -/
theorem Sound.putSwitch (hp : p.Sound given) {s : Switch} (h : p.putSwitch s = .ok q) :
    q.Sound given := by
  unfold Progress.putSwitch at h
  split at h
  · cases h
  · next hs =>
    cases h
    refine ⟨List.nodup_append.mpr ⟨hp.nodup, List.nodup_singleton s, ?_⟩, hp.named, hp.formula⟩
    rintro earlier hearlier last hlast rfl
    rw [List.mem_singleton.mp hlast] at hearlier
    exact hs (List.contains_iff_mem.mpr hearlier)

/-- A parameter settles what waits for a value, and then it is a switch, which is taken up at once,
or it waits for a value itself. -/
theorem Sound.putParameter (hp : p.Sound given) {parameter : Parameter}
    (h : p.putParameter parameter = .ok q) : q.Sound given := by
  unfold Progress.putParameter at h
  split at h
  · cases h
  · next settled hsettled =>
    have hsound := hp.settle hsettled
    cases parameter with
    | switch s => exact hsound.putSwitch h
    | config =>
      cases h
      exact ⟨hsound.nodup, hsound.named, hsound.formula⟩
    | help => cases h
    | version => cases h

/-- A value that is attached to its parameter is the name of a file. -/
theorem Sound.putAttached (hp : p.Sound given) {value : String} (h : p.putAttached value = .ok q) :
    q.Sound given := by
  unfold Progress.putAttached at h
  split at h
  · cases h
  · next settled hsettled => exact (hp.settle hsettled).putConfigFile h

/-- The formula is taken up as it is, so it is still one of the arguments given. -/
theorem Sound.putFormula (hp : p.Sound given) {argument : String} (hmem : argument ∈ given)
    (h : p.putFormula argument = .ok q) : q.Sound given := by
  unfold Progress.putFormula at h
  split at h
  · cases h
  · split at h
    · cases h
    · next settled hsettled =>
      have hsound := hp.settle hsettled
      cases h
      refine ⟨hsound.nodup, hsound.named, ?_⟩
      rintro f ⟨⟩
      exact hmem

/-- An argument with two hyphens is one parameter. -/
theorem Sound.putLong (hp : p.Sound given) {argument : List Char}
    (h : p.putLong argument = .ok q) : q.Sound given := by
  unfold Progress.putLong at h
  dsimp only at h
  split at h
  · cases h
  · exact hp.putParameter h
  · exact hp.putAttached h
  · cases h

/-- An argument with one hyphen is several parameters, each with a letter.  Induction on the
letters: one that takes a value ends the cluster, with the letters behind it as the value. -/
theorem Sound.putCluster (hp : p.Sound given) {letters : List Char}
    (h : p.putCluster letters = .ok q) : q.Sound given := by
  induction letters generalizing p with
  | nil =>
    cases h
    exact hp
  | cons letter letters ih =>
    unfold Progress.putCluster at h
    split at h
    · cases h
    · split at h
      · -- the last letter, or one with a value attached to it
        exact hp.putParameter h
      · exact hp.putAttached h
      · exact hp.putAttached h
    · split at h
      · -- a switch, and the other letters behind it
        next next hnext => exact ih (hp.putParameter hnext) h
      · cases h

/-- **Taking up one of the arguments keeps what has been taken up sound**, whichever kind it is of:
a value that is waited for, a parameter in one of the two forms, or the formula. -/
theorem Sound.put (hp : p.Sound given) {argument : String} (hmem : argument ∈ given)
    (h : p.put argument = .ok q) : q.Sound given := by
  unfold Progress.put at h
  split at h
  · exact hp.putFormula hmem h
  · split at h
    · cases h
      exact ⟨hp.nodup, hp.named, hp.formula⟩
    · exact hp.putLong h
    · exact hp.putCluster h
    · split at h
      · cases h
        exact ⟨hp.nodup, hp.named, hp.formula⟩
      · exact hp.putFormula hmem h

/-- **Taking up any number of arguments keeps what has been taken up sound**, by induction on the
arguments. -/
theorem Sound.putAll (hp : p.Sound given) {arguments : List String}
    (hmem : ∀ argument ∈ arguments, argument ∈ given) (h : p.putAll arguments = .ok q) :
    q.Sound given := by
  induction arguments generalizing p with
  | nil => exact hp.settle h
  | cons argument arguments ih =>
    unfold Progress.putAll at h
    split at h
    · next next hnext =>
      exact ih (hp.put (hmem argument List.mem_cons_self) hnext)
        (fun later hlater => hmem later (List.mem_cons_of_mem argument hlater)) h
    · cases h

/-- What is left to be found at the end is a second mode: without one, `Arguments` are what has been
taken up. -/
theorem finish_eq_ok_iff {a : Arguments} :
    p.finish = .ok a ↔ a = ⟨p.formula, p.configFile, p.switches⟩ ∧
      (p.switches.filter fun s => s = .inline || s = .block).length ≤ 1 := by
  unfold finish
  split
  · next hmodes => simp [hmodes]
  · next hmodes =>
    have hle : (p.switches.filter fun s => s = .inline || s = .block).length ≤ 1 := by
      cases hfilter : p.switches.filter fun s => s = .inline || s = .block with
      | nil => exact Nat.zero_le 1
      | cons first others =>
        cases others with
        | nil => exact Nat.le_refl 1
        | cons second others => exact absurd hfilter (hmodes first second others)
    simp [hle, eq_comm]

/-! ## Taking up what can be said

Each argument of the form that has been chosen is followed through `put`.  Nothing waits between
them. -/

/-- A progress at which nothing waits and no double hyphen has been read. -/
def atRest (formula configFile : Option String) (switches : List Switch) : Progress :=
  ⟨formula, configFile, switches, .nothing, false⟩

/-- A switch in its long form is taken up if it is not there yet. -/
theorem put_shown {formula configFile : Option String} {switches : List Switch} {s : Switch}
    (hs : s ∉ switches) :
    (atRest formula configFile switches).put s.shown =
      .ok (atRest formula configFile (switches ++ [s])) := by
  have hparameter : (atRest formula configFile switches).put s.shown =
      (atRest formula configFile switches).putParameter (.switch s) := by
    cases s <;> rfl
  have hcontains : ¬ switches.contains s = true := fun h => hs (List.contains_iff_mem.mp h)
  rw [hparameter]
  show (atRest formula configFile switches).putSwitch s = _
  exact if_neg hcontains

/-- Switches without repetition are taken up one after the other.  Induction on the switches,
`put_shown` being the step. -/
theorem putAll_shown {formula configFile : Option String} {switches others : List Switch}
    (hnodup : (switches ++ others).Nodup) (rest : List String) :
    (atRest formula configFile switches).putAll (others.map Switch.shown ++ rest) =
      (atRest formula configFile (switches ++ others)).putAll rest := by
  induction others generalizing switches with
  | nil => rw [List.append_nil]; rfl
  | cons s others ih =>
    have hsplit : switches ++ s :: others = switches ++ [s] ++ others := by simp
    rw [hsplit] at hnodup
    have hs : s ∉ switches := by
      have hfront := (List.nodup_append.mp hnodup).1
      exact fun hmem => (List.nodup_append.mp hfront).2.2 s hmem s (List.mem_singleton.mpr rfl) rfl
    rw [hsplit, ← ih hnodup, List.map_cons, List.cons_append, putAll, put_shown hs]

/-- A configuration file with a name is taken up, its name being attached to the parameter by
`=`. -/
theorem put_configFile {formula : Option String} {switches : List Switch} {name : String}
    (hname : name ≠ "") :
    (atRest formula none switches).put ("--config=" ++ name) =
      .ok (atRest formula (some name) switches) := by
  have hargument : ("--config=" ++ name).toList = '-' :: '-' :: ("config=".toList ++ name.toList) :=
    String.toList_append
  have hlong : (atRest formula none switches).put ("--config=" ++ name) =
      (atRest formula none switches).putLong ("config=".toList ++ name.toList) := by
    unfold put
    rw [hargument]
    rfl
  have hempty : ¬ name.isEmpty = true := by simpa using hname
  rw [hlong]
  show (atRest formula none switches).putAttached (String.ofList name.toList) = _
  rw [String.ofList_toList]
  exact if_neg hempty

/-- After a double hyphen every argument is the formula, whatever it begins with. -/
theorem putAll_formula {configFile : Option String} {switches : List Switch} (formula : String) :
    (atRest none configFile switches).putAll ["--", formula] =
      .ok ⟨some formula, configFile, switches, .nothing, true⟩ :=
  rfl

end Progress

/-! ## Whole command lines

Both directions end with the check for a second mode. -/

/-- A command line that says the given arguments: the switches, the configuration file, and the
formula after a double hyphen, so that it may begin with a hyphen itself. -/
def Arguments.words (a : Arguments) : List String :=
  a.switches.map Switch.shown ++ (a.configFile.toList.map ("--config=" ++ ·) ++
    a.formula.toList.flatMap fun formula => ["--", formula])

/-- The arguments that say something compatible are all taken up: the switches by `putAll_shown`,
the file by `put_configFile` and the formula by `putAll_formula`, each from where the one before has
stopped. -/
theorem Progress.putAll_words {a : Arguments} (ha : a.Compatible) :
    Progress.start.putAll a.words =
      .ok ⟨a.formula, a.configFile, a.switches, .nothing, a.formula.isSome⟩ := by
  obtain ⟨formula, configFile, switches⟩ := a
  have hswitches : Progress.start.putAll (Arguments.words ⟨formula, configFile, switches⟩) = _ :=
    @putAll_shown none none [] switches ha.nodup _
  rw [hswitches, List.nil_append]
  -- the formula stands behind the double hyphen, if there is one
  have hformula : ∀ file : Option String,
      (atRest none file switches).putAll (formula.toList.flatMap fun formula => ["--", formula]) =
        .ok ⟨formula, file, switches, .nothing, formula.isSome⟩ := by
    intro file
    cases formula with
    | none => rfl
    | some formula => exact putAll_formula formula
  cases configFile with
  | none => exact hformula none
  | some name =>
    -- a configuration file that is named has a name
    have hname : name ≠ "" := fun h => ha.named (congrArg some h)
    show (atRest none none switches).putAll
      (("--config=" ++ name) :: formula.toList.flatMap fun formula => ["--", formula]) = _
    rw [putAll, put_configFile hname]
    exact hformula (some name)

/-- Without both modes there is at most one.  Of two modes among different switches one would be
`inline` and the other one `block`. -/
theorem length_modes_le_one {switches : List Switch} (hnodup : switches.Nodup)
    (honeMode : ¬ (.inline ∈ switches ∧ .block ∈ switches)) :
    (switches.filter fun s => s = .inline || s = .block).length ≤ 1 := by
  have hmodes : ∀ s ∈ switches.filter fun s => s = .inline || s = .block,
      s ∈ switches ∧ (s = .inline ∨ s = .block) := by
    intro s hs
    simpa using hs
  have hnodup' := hnodup.filter fun s => s = .inline || s = .block
  cases hfilter : switches.filter fun s => s = .inline || s = .block with
  | nil => exact Nat.zero_le 1
  | cons first others =>
    cases others with
    | nil => exact Nat.le_refl 1
    | cons second others =>
      -- two modes: they are not the same switch, as no switch occurs twice
      rw [hfilter] at hmodes hnodup'
      obtain ⟨hfirst, hkind⟩ := hmodes first List.mem_cons_self
      obtain ⟨hsecond, hkind'⟩ := hmodes second (List.mem_cons_of_mem _ List.mem_cons_self)
      have hne : first ≠ second := fun h =>
        (List.nodup_cons.mp hnodup').1 (h ▸ List.mem_cons_self)
      rcases hkind with rfl | rfl <;> rcases hkind' with rfl | rfl
      · exact absurd rfl hne
      · exact absurd ⟨hfirst, hsecond⟩ honeMode
      · exact absurd ⟨hsecond, hfirst⟩ honeMode
      · exact absurd rfl hne

/-- **Whatever is compatible can be said**, by the command line `Arguments.words`. -/
theorem ofArguments_words {a : Arguments} (ha : a.Compatible) :
    Request.ofArguments a.words = .ok (.convert a) := by
  have hfinish : Progress.finish ⟨a.formula, a.configFile, a.switches, .nothing, a.formula.isSome⟩ =
      .ok a :=
    Progress.finish_eq_ok_iff.mpr ⟨rfl, length_modes_le_one ha.nodup ha.oneMode⟩
  rw [Request.ofArguments, Progress.putAll_words ha]
  show (Progress.finish _).map Request.convert = _
  rw [hfinish]
  rfl

/-- **An accepted command line says something compatible**, and its formula is one of its arguments,
unchanged.  What has been taken up is `Sound` to the end, and `finish` tells two modes apart. -/
theorem compatible_of_ofArguments {arguments : List String} {a : Arguments}
    (h : Request.ofArguments arguments = .ok (.convert a)) :
    a.Compatible ∧ ∀ formula, a.formula = some formula → formula ∈ arguments := by
  unfold Request.ofArguments at h
  split at h
  · cases h
  · cases h
  · cases h
  · next p hp =>
    have hsound := (Progress.sound_start arguments).putAll (fun _ hmem => hmem) hp
    cases hfinish : p.finish with
    | error e =>
      rw [hfinish] at h
      cases h
    | ok said =>
      rw [hfinish] at h
      obtain rfl : said = a := Request.convert.inj (Except.ok.inj h)
      obtain ⟨rfl, hmodes⟩ := Progress.finish_eq_ok_iff.mp hfinish
      refine ⟨⟨hsound.nodup, fun ⟨hinline, hblock⟩ => ?_, hsound.named⟩, hsound.formula⟩
      -- both modes would be among the modes
      have hsub : [Switch.inline, .block] ⊆
          p.switches.filter fun s => s = .inline || s = .block := by
        intro s hs
        rcases List.mem_cons.mp hs with rfl | hs
        · simpa using hinline
        · obtain rfl := List.mem_singleton.mp hs
          simpa using hblock
      have htwo := (List.subperm_of_subset (by decide) hsub).length_le
      have hlength : ([Switch.inline, .block] : List Switch).length = 2 := rfl
      omega

end FormulaMarkup.CommandLine
