import Mathlib.Data.List.Induction
import FormulaMarkup.Proofs.Embedding.Acceptance
import FormulaMarkup.Proofs.Embedding.RoundTrip

/-!
# FormulaMarkup — what a converter remembers of the calls

A call either fails or does what it is for.  Failing calls, conversions and questions leave a
converter as it was, so that all it remembers is the last call that gave it a configuration.

The calls are sorted into those that give a configuration and all others.  The first kind sets the
state without looking at it, the second kind does not touch it, and so the state after any calls is
that of the last one of the first kind.

* **`Gives`** — the layer that the options of a call give.
* **`Call.Configures`**, **`InForce`** — the calls that give a configuration, and the last of them.
* **`call_of_configures`**, **`call_of_not_configures`** — one call.
* **`exists_inForce`**, **`config_of_inForce`** — any number of calls.
* **`run_transactional`** — the main statement.
-/

namespace FormulaMarkup

namespace Embedding

/-- The layer that options give.  No options give the empty layer, an accepted object gives the one
that it describes (`Options.Describes`), and an object that is not accepted gives none. -/
inductive Gives : Option Options → Overrides → Prop where
  | nothing : Gives none .empty
  | object {o : Options} {layer : Overrides} (haccepted : o.Accepted) (hlayer : o.Describes layer) :
      Gives (some o) layer

/-- Reading options finds the layer that they give, and finds none where they give none. -/
theorem overridesOf_eq_ok_iff {options : Option Options} {layer : Overrides} :
    overridesOf options = .ok layer ↔ Gives options layer := by
  cases options with
  | none =>
    constructor
    · rintro ⟨⟩
      exact .nothing
    · rintro ⟨⟩
      rfl
  | some o =>
    rw [show overridesOf (some o) = o.overrides from rfl, Options.overrides_eq_ok_iff_accepted]
    constructor
    · rintro ⟨haccepted, hlayer⟩
      exact .object haccepted hlayer
    · rintro ⟨⟩
      exact ⟨‹_›, ‹_›⟩

/-- Reading options fails just if they are an object with a rejected property, the first of which is
named. -/
theorem overridesOf_eq_error_iff {options : Option Options} {k : Key} :
    overridesOf options = .error k ↔ ∃ o, options = some o ∧ o.FirstRejected k := by
  cases options with
  | none => simp [overridesOf]
  | some o =>
    rw [show overridesOf (some o) = o.overrides from rfl, Options.overrides_eq_error_iff]
    simp

end Embedding

/-- The options that are handed over with a call. -/
def Call.options? : Call → Option Options
  | .create options | .convert _ options => options
  | .configure options => some options
  | .config => none

/-- What a call says when it fails. -/
def Answer.failure? : Answer → Option String
  | .wrong key => some (Options.errorMessage key)
  | .done | .markup _ | .options _ => none

/-- A call that gives the converter a configuration, which is the standard one under a layer. -/
inductive Call.Configures : Call → Overrides → Prop where
  | create {options : Option Options} {layer : Overrides} (h : Embedding.Gives options layer) :
      Configures (.create options) layer
  | configure {options : Options} {layer : Overrides} (h : Embedding.Gives (some options) layer) :
      Configures (.configure options) layer

namespace Embedding

/-- The layer of the last call that gives a configuration, or the empty one if no call does. -/
inductive InForce : List Call → Overrides → Prop where
  | standard {calls : List Call} (hnone : ∀ c ∈ calls, ∀ layer, ¬ c.Configures layer) :
      InForce calls .empty
  | last {before after : List Call} {c : Call} {layer : Overrides} (hc : c.Configures layer)
      (hafter : ∀ later ∈ after, ∀ layer, ¬ later.Configures layer) :
      InForce (before ++ c :: after) layer

/-! ## One call

Each kind of call is followed on its own, as far as it goes before it fails. -/

section Call

variable (e : Embedding) {c : Call} {layer : Overrides}

/-- Options that give a layer set the configuration, whatever it was. -/
theorem reset_of_gives {options : Option Options} (h : Gives options layer) :
    e.reset options = (.done, ⟨⟨Config.standard.overlay layer⟩⟩) := by
  rw [reset, overridesOf_eq_ok_iff.mpr h]
  rfl

/-- Options that give no layer leave the converter as it was. -/
theorem reset_of_not_gives {options : Option Options} (h : ∀ layer, ¬ Gives options layer) :
    (e.reset options).2 = e := by
  unfold reset
  split
  · next layer hlayer => exact absurd (overridesOf_eq_ok_iff.mp hlayer) (h layer)
  · rfl

/-- A call that gives a configuration takes effect, whatever was there before. -/
theorem call_of_configures (h : c.Configures layer) :
    e.call c = (.done, ⟨⟨Config.standard.overlay layer⟩⟩) := by
  cases h with
  | create h => exact e.reset_of_gives h
  | configure h => exact e.reset_of_gives h

/-- **All other calls leave the converter as it was**, whether they fail or not. -/
theorem call_of_not_configures (h : ∀ layer, ¬ c.Configures layer) : (e.call c).2 = e := by
  cases c with
  | create options => exact e.reset_of_not_gives fun layer hgives => h layer (.create hgives)
  | configure options => exact e.reset_of_not_gives fun layer hgives => h layer (.configure hgives)
  | convert source options =>
    unfold call
    dsimp only
    split <;> rfl
  | config => rfl

/-- A conversion is made with the options laid over the configuration, for this one time. -/
theorem call_convert_of_gives {options : Option Options} (h : Gives options layer)
    (source : List Char) :
    e.call (.convert source options) =
      (.markup ((Converter.mk (e.converter.config.overlay layer)).convert source), e) := by
  unfold call
  dsimp only
  rw [overridesOf_eq_ok_iff.mpr h]
  rfl

/-- Being given a configuration fails just if the options cannot be read. -/
theorem failure_reset {options : Option Options} {message : String} :
    (e.reset options).1.failure? = some message ↔
      ∃ k, overridesOf options = .error k ∧ Options.errorMessage k = message := by
  unfold reset
  split
  · next hok => simp [Answer.failure?, hok]
  · next key herror => simp [Answer.failure?, herror]

/-- **A call fails exactly if its options are not accepted**, and names the first parameter to
blame.  All calls with options read them first (`overridesOf`), and nothing else in a call can
fail. -/
theorem failure_call {message : String} :
    (e.call c).1.failure? = some message ↔
      ∃ o k, c.options? = some o ∧ o.FirstRejected k ∧ Options.errorMessage k = message := by
  -- a call fails just if its options cannot be read
  have hoptions : (e.call c).1.failure? = some message ↔
      ∃ k, overridesOf c.options? = .error k ∧ Options.errorMessage k = message := by
    -- `create` and `configure` reset the configuration, `config` never fails
    cases c with
    | create options => exact e.failure_reset
    | configure options => exact e.failure_reset
    | convert source options =>
      show (e.call (.convert source options)).1.failure? = some message ↔
        ∃ k, overridesOf options = .error k ∧ Options.errorMessage k = message
      unfold call
      dsimp only
      split
      · next hok => simp [Answer.failure?, hok]
      · next key herror => simp [Answer.failure?, herror]
    | config => simp [call, Answer.failure?, Call.options?, overridesOf]
  -- and they cannot be read just if a property is rejected, the first of which is named
  rw [hoptions]
  constructor
  · rintro ⟨k, herror, hmessage⟩
    obtain ⟨o, ho, hk⟩ := overridesOf_eq_error_iff.mp herror
    exact ⟨o, k, ho, hk, hmessage⟩
  · rintro ⟨o, k, ho, hk, hmessage⟩
    exact ⟨k, overridesOf_eq_error_iff.mpr ⟨o, ho, hk⟩, hmessage⟩

/-- A call that fails gives no configuration. -/
theorem not_configures_of_failure (h : (e.call c).1.failure?.isSome = true) (layer : Overrides) :
    ¬ c.Configures layer := by
  intro hc
  rw [e.call_of_configures hc] at h
  cases h

end Call

/-! ## Any number of calls

The answer to a call and the state behind it depend on the calls before it through the state alone.
-/

/-- Calls in two parts: the second part starts with the converter as the first one has left it. -/
theorem run_append (e : Embedding) (calls later : List Call) :
    e.run (calls ++ later) =
      ((e.run calls).1 ++ ((e.run calls).2.run later).1, ((e.run calls).2.run later).2) := by
  induction calls generalizing e with
  | nil => rfl
  | cons c calls ih =>
    rw [List.cons_append, run_cons, run_cons, ih]
    rfl

/-- Every call is answered. -/
theorem length_run (e : Embedding) (calls : List Call) : (e.run calls).1.length = calls.length := by
  induction calls generalizing e with
  | nil => rfl
  | cons c calls ih => rw [run_cons, List.length_cons, ih, List.length_cons]

/-- The answer to a call is given by the converter as the calls before it have left it. -/
theorem answer_run (e : Embedding) (calls : List Call) (c : Call) (later : List Call) :
    (e.run (calls ++ c :: later)).1[calls.length]? = some ((e.run calls).2.call c).1 := by
  rw [run_append, run_cons, List.getElem?_append_right (Nat.le_of_eq (e.length_run calls)),
    e.length_run, Nat.sub_self]
  rfl

/-- Calls that give no configuration leave the converter as it was. -/
theorem run_of_not_configures (e : Embedding) {calls : List Call}
    (h : ∀ c ∈ calls, ∀ layer, ¬ c.Configures layer) : (e.run calls).2 = e := by
  induction calls with
  | nil => rfl
  | cons c calls ih =>
    rw [run_cons, e.call_of_not_configures (h c List.mem_cons_self)]
    exact ih fun later hlater => h later (List.mem_cons_of_mem c hlater)

/-- Some layer is in force at any time, be it the empty one.  Induction on the calls, the last one
first: either it gives a configuration, or the one before stays `InForce`. -/
theorem exists_inForce (calls : List Call) : ∃ layer, InForce calls layer := by
  induction calls using List.reverseRecOn with
  | nil => exact ⟨.empty, .standard fun c hc => absurd hc List.not_mem_nil⟩
  | append_singleton calls c ih =>
    by_cases hc : ∃ layer, c.Configures layer
    · obtain ⟨layer, hlayer⟩ := hc
      exact ⟨layer, .last hlayer fun later hlater => absurd hlater List.not_mem_nil⟩
    · have hkeeps : ∀ layer, ¬ c.Configures layer := fun layer hlayer => hc ⟨layer, hlayer⟩
      have hextend : ∀ {calls : List Call}, (∀ d ∈ calls, ∀ layer, ¬ d.Configures layer) →
          ∀ d ∈ calls ++ [c], ∀ layer, ¬ d.Configures layer := by
        intro calls hcalls d hd
        rcases List.mem_append.mp hd with hd | hd
        · exact hcalls d hd
        · exact List.mem_singleton.mp hd ▸ hkeeps
      -- the last call gives no configuration, so the layer in force is the one before it
      obtain ⟨layer, hlayer⟩ := ih
      cases hlayer with
      | standard hnone => exact ⟨.empty, .standard (hextend hnone)⟩
      | last hd hafter =>
        rw [List.append_assoc]
        exact ⟨layer, .last hd (hextend hafter)⟩

/-- **The configuration is the standard one under the layer in force.** -/
theorem config_of_inForce {calls : List Call} {layer : Overrides} (h : InForce calls layer) :
    (start.run calls).2.converter.config = Config.standard.overlay layer := by
  cases h with
  | standard hnone => rw [start.run_of_not_configures hnone]; rfl
  | last hc hafter =>
    rw [run_append, run_cons, call_of_configures _ hc]
    exact congrArg (·.converter.config) (run_of_not_configures _ hafter)

/-- **Calls that fail change nothing, and only the last configuration counts.** After any calls on a
new converter, the next call is answered from the state that they have left.  It fails exactly if
its options hold something that is neither missing nor of the kind of its parameter, names the first
parameter, in their order, for which that is so, and leaves the state as it was.  The configuration
is the standard one under the layer of the last call that gave one, and a conversion is made with
its own options laid over that configuration, which stays what it is. -/
theorem run_transactional (calls later : List Call) (c : Call) :
    (start.run (calls ++ c :: later)).1[calls.length]? =
      some ((start.run calls).2.call c).1 ∧
    (((start.run calls).2.call c).1.failure?.isSome = true ↔
      ∃ o, c.options? = some o ∧ ∃ k : Key, ¬ k.kind.Accepts (o.get k)) ∧
    (∀ message, ((start.run calls).2.call c).1.failure? = some message ↔
      ∃ o k, c.options? = some o ∧ o.FirstRejected k ∧
        "Invalid value for " ++ k.propertyName = message) ∧
    (((start.run calls).2.call c).1.failure?.isSome = true →
      ((start.run calls).2.call c).2 = (start.run calls).2) ∧
    (∃ layer, InForce calls layer) ∧
    (∀ layer, InForce calls layer →
      (start.run calls).2.converter.config = Config.standard.overlay layer) ∧
    ∀ source options layer, c = .convert source options → Gives options layer →
      (start.run calls).2.call c =
        (.markup ((Converter.mk ((start.run calls).2.converter.config.overlay layer)).convert source),
          (start.run calls).2) := by
  refine ⟨start.answer_run calls c later, ?_, fun message => failure_call _, fun hfails => ?_,
    exists_inForce calls, fun layer => config_of_inForce, ?_⟩
  · -- a call fails exactly if some property is not accepted, since then one is the first
    rw [Option.isSome_iff_exists]
    constructor
    · rintro ⟨message, hmessage⟩
      obtain ⟨o, k, ho, hk, _⟩ := (failure_call _).mp hmessage
      obtain ⟨_, _, _, _, hrejected⟩ := hk
      exact ⟨o, ho, k, hrejected⟩
    · rintro ⟨o, ho, k, hrejected⟩
      rcases o.accepted_or_firstRejected with haccepted | ⟨first, hfirst⟩
      · exact absurd (haccepted k) hrejected
      · exact ⟨_, (failure_call _).mpr ⟨o, first, ho, hfirst, rfl⟩⟩
  · -- a call that fails gives no configuration, and so it leaves the converter as it was
    exact call_of_not_configures _ (not_configures_of_failure _ hfails)
  · -- a conversion has its own options for this one time
    rintro source options layer rfl hgives
    exact call_convert_of_gives _ hgives source

/-- An object that sets a width and leaves the alignment of numerators out. -/
def widerQuad : Options := ⟨[("quad", .number 3.0), ("fracNumAlign", .null)]⟩

/-- An object with two wrong properties, the later parameter first. -/
def twiceWrong : Options := ⟨[("thinSpace", .text "wide"), ("fracNumAlign", .text "middle")]⟩

/-- A converter is configured and then asked for something it refuses, twice. -/
theorem run_transactional_refused :
    ((start.run [.create (some widerQuad), .convert "x".toList (some twiceWrong)]).2.call
        (.configure twiceWrong)).1.failure? = some "Invalid value for fracNumAlign" ∧
    ((start.run [.create (some widerQuad), .convert "x".toList (some twiceWrong)]).2.call
        (.configure twiceWrong)).2 =
      (start.run [.create (some widerQuad), .convert "x".toList (some twiceWrong)]).2 ∧
    (start.run [.create (some widerQuad), .convert "x".toList (some twiceWrong)]).2.converter.config
      = Config.standard.overlay ⟨fun k => (widerQuad.reading k).value?⟩ := by
  -- the seventh parameter is the first that is rejected, though its property is the second one
  have hfirst : twiceWrong.FirstRejected .fracNumAlign := by
    have hbefore : ∀ k ∈ Key.all.take 6, (twiceWrong.reading k).isWrong = false := by decide
    have hwrong : (twiceWrong.reading .fracNumAlign).isWrong = true := by decide
    refine ⟨Key.all.take 6, Key.all.drop 7, rfl, fun earlier hearlier => ?_, fun haccepts => ?_⟩
    · exact Options.isWrong_reading_iff.mp (hbefore earlier hearlier)
    · exact absurd (Options.isWrong_reading_iff.mpr haccepts) (by rw [hwrong]; decide)
  -- the first call gives a configuration, which stays in force
  have hgives : Gives (some widerQuad) ⟨fun k => (widerQuad.reading k).value?⟩ := by
    refine .object (fun k => ?_) (Options.describes_iff.mpr rfl)
    exact Options.isWrong_reading_iff.mp (by cases k <;> rfl)
  obtain ⟨_, _, hmessage, hunchanged, _, hconfig, _⟩ := run_transactional
    [.create (some widerQuad), .convert "x".toList (some twiceWrong)] [] (.configure twiceWrong)
  have hfails := (hmessage _).mpr ⟨twiceWrong, .fracNumAlign, rfl, hfirst, rfl⟩
  refine ⟨hfails, hunchanged (by rw [hfails]; rfl), hconfig _ ?_⟩
  refine @InForce.last [] _ _ _ (.create hgives) fun later hlater layer hlayer => ?_
  obtain rfl := List.mem_singleton.mp hlater
  cases hlayer

end Embedding

end FormulaMarkup
