import FormulaMarkup.Proofs.Embedding.Options
import FormulaMarkup.Proofs.Markup.FiniteNumbers

/-!
# FormulaMarkup — what a page gets back from a converter

A page can read the configuration of a converter as an object and hand the object to another one.
Nothing is lost on the way, because no call can bring a number into a configuration that could not
be read from an object.

The invariant is that all numbers of the configuration are finite.  It holds of a new converter,
every call keeps it, and so it holds after any calls; what follows from it is about one state only.

* **`Embedding.Finite`** — the numbers of the configuration are finite.
* **`Embedding.finite_call`**, **`Embedding.finite_run`** — calls keep it so.
* **`Embedding.reset_ofConfig`** — the object of a configuration gives the configuration back.
* **`Embedding.config_roundTrip`** — the main statement.
-/

namespace FormulaMarkup.Embedding

open Markup

/-- The numbers of the configuration are finite. -/
def Finite (e : Embedding) : Prop := e.converter.config.Finite

theorem finite_start : start.Finite := Config.finite_standard

/-- Options that can be read have finite numbers, and so has the empty layer. -/
theorem finite_of_overridesOf {options : Option Options} {layer : Overrides}
    (h : overridesOf options = .ok layer) : layer.Finite := by
  cases options with
  | none =>
    cases h
    -- the empty layer sets nothing
    intro k value hvalue
    cases hvalue
  | some options => exact Options.finite_overrides h

/-- A converter that is given a configuration has finite numbers, and one that refuses it keeps its
own. -/
theorem finite_reset {e : Embedding} (he : e.Finite) (options : Option Options) :
    (e.reset options).2.Finite := by
  unfold reset
  split
  · next layer hlayer => exact Config.finite_standard.overlay (finite_of_overridesOf hlayer)
  · exact he

/-- **No call brings in a number that is not finite**, whether it succeeds or fails. -/
theorem finite_call {e : Embedding} (he : e.Finite) (c : Call) : (e.call c).2.Finite := by
  cases c with
  | create options => exact finite_reset he options
  | configure options => exact finite_reset he (some options)
  | convert source options =>
    unfold call
    dsimp only
    split <;> exact he
  | config => exact he

theorem run_cons (e : Embedding) (c : Call) (calls : List Call) :
    e.run (c :: calls)
      = ((e.call c).1 :: ((e.call c).2.run calls).1, ((e.call c).2.run calls).2) := rfl

/-- **No calls bring in a number that is not finite**, by induction on the calls. -/
theorem finite_run {e : Embedding} (he : e.Finite) (calls : List Call) :
    (e.run calls).2.Finite := by
  induction calls generalizing e with
  | nil => exact he
  | cons c calls ih =>
    rw [run_cons]
    exact ih (finite_call he c)

/-- Being given a configuration is not answered with markup. -/
theorem reset_ne_markup (e : Embedding) (options : Option Options) (text : List Char) :
    (e.reset options).1 ≠ .markup text := by
  unfold reset
  split <;> rintro ⟨⟩

/-- The markup of a single call shows finite numbers only.  Only `convert` answers with markup, and
the configuration under its options is finite, so this is `clean_convert` for that configuration. -/
theorem clean_call {e : Embedding} (he : e.Finite) {c : Call} {text : List Char}
    (h : (e.call c).1 = .markup text) :
    ∀ p ∈ pieces text, p.isTag = true → Clean p.characters := by
  cases c with
  | convert source options =>
    unfold call at h
    dsimp only at h
    split at h
    · next layer hlayer =>
      obtain rfl := Answer.markup.inj h
      exact clean_convert (he.overlay (finite_of_overridesOf hlayer)) source
    · cases h
  | create options => exact absurd h (reset_ne_markup e options text)
  | configure options => exact absurd h (reset_ne_markup e (some options) text)
  | config => cases h

/-- The markup of any number of calls shows finite numbers only. -/
theorem clean_run {e : Embedding} (he : e.Finite) {calls : List Call} {text : List Char}
    (h : .markup text ∈ (e.run calls).1) :
    ∀ p ∈ pieces text, p.isTag = true → Clean p.characters := by
  -- the answers of a run are those of its calls, each from the state that it finds
  induction calls generalizing e with
  | nil => cases h
  | cons c calls ih =>
    rw [run_cons] at h
    rcases List.mem_cons.mp h with hfirst | hothers
    · exact clean_call he hfirst.symm
    · exact ih (finite_call he c) hothers

/-- **The object of a configuration gives the configuration back**, whatever was there before. -/
theorem reset_ofConfig {e : Embedding} (he : e.Finite) (other : Embedding) :
    other.reset (some (.ofConfig e.converter.config)) = (.done, e) := by
  have hlayer : overridesOf (some (.ofConfig e.converter.config)) = .ok _ :=
    Options.overrides_ofConfig he
  rw [reset, hlayer]
  rfl

/-- **Whatever a page does, the configuration can be read as an object and set from it.**  After any
calls, successful or not, all numbers of the configuration are finite; the object that describes the
configuration is accepted by every converter, new or not, and gives exactly this configuration; and
no markup that was answered has a tag with `NaN` or `inf` in it. -/
theorem config_roundTrip (calls : List Call) :
    (∀ k : Key, k.kind.Finite ((start.run calls).2.converter.config.get k)) ∧
    (∃ object, (start.run calls).2.call .config = (.options object, (start.run calls).2) ∧
      ∀ other : Embedding,
        other.call (.create (some object)) = (.done, (start.run calls).2) ∧
        other.call (.configure object) = (.done, (start.run calls).2)) ∧
    ∀ text, .markup text ∈ (start.run calls).1 → ∀ p ∈ pieces text, p.isTag = true →
      ¬ "NaN".toList <:+: p.characters ∧ ¬ "inf".toList <:+: p.characters := by
  have hfinite := finite_run finite_start calls
  refine ⟨hfinite, ⟨_, rfl, fun other => ?_⟩, fun text htext p hp htag => ?_⟩
  · exact ⟨reset_ofConfig hfinite other, reset_ofConfig hfinite other⟩
  · have hclean := clean_run finite_start htext p hp htag
    exact ⟨hclean _ (by decide), hclean _ (by decide)⟩

/-- A converter without alignment of numerators, an object that is refused, and a source with a
space. -/
def visit : List Call :=
  [.create (some ⟨[("fracNumAlign", .null)]⟩), .configure ⟨[("quad", .other)]⟩,
    .convert "\\quad".toList none]

/-- The statement after three calls, of which one leaves an alignment out and one is refused. -/
theorem config_roundTrip_visit :
    (start.run visit).2.converter.config.fracNumAlign = none ∧
    (∃ object, (start.run visit).2.call .config = (.options object, (start.run visit).2) ∧
      start.call (.create (some object)) = (.done, (start.run visit).2)) ∧
    ∃ text, .markup text ∈ (start.run visit).1 ∧ ∀ p ∈ pieces text, p.isTag = true →
      ¬ "NaN".toList <:+: p.characters ∧ ¬ "inf".toList <:+: p.characters := by
  obtain ⟨-, ⟨object, hobject, hother⟩, htexts⟩ := config_roundTrip visit
  have htext : .markup ((start.run visit).2.converter.convert "\\quad".toList)
      ∈ (start.run visit).1 :=
    -- the last of three answers, from the state in which the others leave the converter
    List.mem_cons_of_mem _ (List.mem_cons_of_mem _ List.mem_cons_self)
  exact ⟨by decide +kernel, ⟨object, hobject, (hother start).1⟩, _, htext, htexts _ htext⟩

end FormulaMarkup.Embedding
