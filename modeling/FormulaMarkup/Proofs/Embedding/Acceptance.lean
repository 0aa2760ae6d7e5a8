import FormulaMarkup.Proofs.Embedding.Options

/-!
# FormulaMarkup — which options objects are accepted

Reading an object property by property is a test of the whole object: it is accepted if each of its
properties is missing or of the kind of its parameter, and otherwise the first parameter whose
property is neither is named.

`Kind.Holds` lists the pairs of a property and a value without any reading.  That `Kind.read`
decides it is what connects the test with the properties as a page sees them.

* **`Kind.Holds`** — the property that gives a parameter of a kind a value.
* **`Options.Accepted`**, **`Options.Describes`** — what is accepted, and the layer it stands for.
* **`Options.FirstRejected`** — the parameter that is to blame for the rest.
* **`Options.overrides_eq_ok_iff_accepted`**, **`Options.overrides_eq_error_iff`** — reading an
  object decides between them.
-/

namespace FormulaMarkup

/-- The property that gives a parameter of a kind a value: a finite number, a text, a flag, or a
text that is one of the keywords.  An alignment is left out by null. -/
inductive Kind.Holds : (kind : Kind) → PropertyValue → kind.Value → Prop where
  | number (x : Float) (hx : x.isFinite = true) : Holds .number (.number x) x
  | text (s : String) : Holds .text (.text s) s
  | flag (b : Bool) : Holds .flag (.flag b) b
  | noAlignment : Holds .alignment .null none
  | alignment (a : Alignment) : Holds .alignment (.text a.name) (some a)
  | prettyPrint (p : PrettyPrint) : Holds .prettyPrint (.text p.name) p

/-- The properties that a parameter of a kind can have. -/
def Kind.Accepts (kind : Kind) (property : PropertyValue) : Prop :=
  property = .undefined ∨ property = .null ∨ ∃ value, kind.Holds property value

namespace Options

/-- Every property is missing or of the kind of its parameter. -/
def Accepted (o : Options) : Prop := ∀ k : Key, k.kind.Accepts (o.get k)

/-- The layer sets exactly the parameters that have a property, to what it holds. -/
def Describes (o : Options) (layer : Overrides) : Prop :=
  ∀ (k : Key) (value : k.Value), layer.get k = some value ↔ k.kind.Holds (o.get k) value

/-- The first parameter, in their order, whose property is neither missing nor of its kind. -/
def FirstRejected (o : Options) (k : Key) : Prop :=
  ∃ before after, Key.all = before ++ k :: after ∧
    (∀ earlier ∈ before, earlier.kind.Accepts (o.get earlier)) ∧ ¬ k.kind.Accepts (o.get k)

end Options

/-! ## Single properties

One case for each kind of parameter and each kind of property.  Keywords are shared by two kinds of
parameters, of which only the alignment takes null for a value. -/

/-- An alignment is found by its name and by no other. -/
theorem Alignment.ofName?_eq_some_iff {name : String} {a : Alignment} :
    ofName? name = some a ↔ a.name = name := by
  constructor
  · intro h
    simpa using List.find?_some h
  · rintro rfl
    exact a.ofName?_name

/-- A way of printing is found by its name and by no other. -/
theorem PrettyPrint.ofName?_eq_some_iff {name : String} {p : PrettyPrint} :
    ofName? name = some p ↔ p.name = name := by
  constructor
  · intro h
    simpa using List.find?_some h
  · rintro rfl
    exact p.ofName?_name

section Keywords

variable {α : Type} {ofName? : String → Option α} {property : PropertyValue} {keyword : α}

/-- A keyword that is read stands in a text. -/
theorem exists_of_readKeyword_eq_value (h : readKeyword ofName? property = .value keyword) :
    ∃ name, property = .text name ∧ ofName? name = some keyword := by
  cases property with
  | text name =>
    cases hname : ofName? name with
    | none => simp [readKeyword, hname] at h
    | some found =>
      obtain rfl : found = keyword := by simpa [readKeyword, hname] using h
      exact ⟨name, rfl, hname⟩
  | _ => cases h

/-- Where no keyword is read the property is missing or null. -/
theorem readKeyword_eq_unset (h : readKeyword ofName? property = .unset) :
    property = .undefined ∨ property = .null := by
  cases property with
  | undefined => exact .inl rfl
  | null => exact .inr rfl
  | text name => cases hname : ofName? name <;> simp [readKeyword, hname] at h
  | _ => cases h

end Keywords

/-- A value that is read under a condition satisfies it. -/
theorem PropertyReading.ite_eq_value {α : Type} {p : Prop} [Decidable p] {a b : α}
    (h : (if p then PropertyReading.value a else .wrong) = .value b) : p ∧ a = b := by
  split at h
  · next hp => exact ⟨hp, PropertyReading.value.inj h⟩
  · cases h

/-- **A value is read exactly where a property holds it.** For one direction the kinds and the forms
of properties are gone through as `Kind.read` does; for the other one every way to hold a value is
read back, keywords by `Kind.read_write`. -/
theorem Kind.read_eq_value_iff (kind : Kind) {property : PropertyValue} {value : kind.Value} :
    kind.read property = .value value ↔ kind.Holds property value := by
  constructor
  · intro hread
    cases kind with
    | number =>
      cases property with
      | number x =>
        -- a number is read if it is finite
        obtain ⟨hfinite, rfl⟩ := PropertyReading.ite_eq_value hread
        exact .number x hfinite
      | _ => cases hread
    | text =>
      cases property with
      | text s =>
        cases hread
        exact .text value
      | _ => cases hread
    | flag =>
      cases property with
      | flag b =>
        cases hread
        exact .flag value
      | _ => cases hread
    | alignment =>
      cases property with
      | null =>
        -- an alignment is left out by null, which is a value here
        cases hread
        exact .noAlignment
      | text name =>
        -- a text is an alignment if it is the name of one
        cases hname : Alignment.ofName? name with
        | none => simp [Kind.read, readKeyword, hname] at hread
        | some a =>
          obtain rfl : some a = value := by simpa [Kind.read, readKeyword, hname] using hread
          rw [← Alignment.ofName?_eq_some_iff.mp hname]
          exact .alignment a
      | _ => cases hread
    | prettyPrint =>
      obtain ⟨name, rfl, hname⟩ := exists_of_readKeyword_eq_value hread
      rw [← PrettyPrint.ofName?_eq_some_iff.mp hname]
      exact .prettyPrint value
  · -- what holds a value is read as this value
    intro hholds
    cases hholds with
    | number x hx => exact if_pos hx
    | text s => rfl
    | flag b => rfl
    | noAlignment => rfl
    | alignment a => exact @Kind.read_write .alignment (some a) trivial
    | prettyPrint p => exact @Kind.read_write .prettyPrint p trivial

/-- Where nothing is read the property is missing or null, whatever the kind.  For an alignment null
is a value, so there the property is missing. -/
theorem Kind.read_eq_unset (kind : Kind) {property : PropertyValue}
    (h : kind.read property = .unset) : property = .undefined ∨ property = .null := by
  cases kind with
  | alignment =>
    cases property with
    | undefined => exact .inl rfl
    | text name =>
      -- a text is a keyword or wrong, but never nothing
      cases hname : Alignment.ofName? name <;> simp [Kind.read, readKeyword, hname] at h
    | _ => cases h
  | prettyPrint => exact readKeyword_eq_unset h
  | number =>
    cases property with
    | undefined => exact .inl rfl
    | null => exact .inr rfl
    | number x =>
      -- neither is a number, finite or not
      have hx : (if x.isFinite then PropertyReading.value x else .wrong) = .unset := h
      split at hx <;> cases hx
    | _ => cases h
  | text | flag =>
    cases property with
    | undefined => exact .inl rfl
    | null => exact .inr rfl
    | _ => cases h

/-- **What is wrong is exactly what is not accepted.** This joins `Kind.read_eq_unset` and
`Kind.read_eq_value_iff`: a property that is not wrong is unset or a value. -/
theorem Kind.isWrong_read_iff (kind : Kind) (property : PropertyValue) :
    (kind.read property).isWrong = false ↔ kind.Accepts property := by
  constructor
  · intro hright
    cases hread : kind.read property with
    | unset => exact (kind.read_eq_unset hread).imp_right .inl
    | value value => exact .inr (.inr ⟨value, kind.read_eq_value_iff.mp hread⟩)
    | wrong =>
      rw [hread] at hright
      cases hright
  · rintro (rfl | rfl | ⟨value, hvalue⟩)
    · cases kind <;> rfl
    · cases kind <;> rfl
    · rw [kind.read_eq_value_iff.mpr hvalue]
      rfl

/-! ## Whole objects

All keys are asked, and the answer of each is known from the lemmas on single properties. -/

namespace Options

variable {o : Options} {layer : Overrides} {k : Key}

/-- A property is not wrong just if it is accepted. -/
theorem isWrong_reading_iff : (o.reading k).isWrong = false ↔ k.kind.Accepts (o.get k) :=
  k.kind.isWrong_read_iff (o.get k)

/-- An object describes one layer, which sets what its properties say: a layer is determined by what
it sets each `Key` to. -/
theorem describes_iff : o.Describes layer ↔ layer = ⟨fun k => (o.reading k).value?⟩ := by
  -- for a single key, what is read is what the property holds
  have hholds : ∀ (k : Key) (value : k.Value),
      (o.reading k).value? = some value ↔ k.kind.Holds (o.get k) value := by
    intro k value
    rw [← k.kind.read_eq_value_iff, reading]
    cases k.kind.read (o.get k) <;> simp [PropertyReading.value?]
  constructor
  · intro h
    ext1
    funext k
    refine Option.ext fun value => ?_
    exact (h k value).trans (hholds k value).symm
  · rintro rfl k value
    exact hholds k value

/-- **An object is read exactly if it is accepted**, and as the layer that it describes. -/
theorem overrides_eq_ok_iff_accepted :
    o.overrides = .ok layer ↔ o.Accepted ∧ o.Describes layer := by
  rw [overrides_eq_ok_iff, describes_iff]
  exact and_congr_left' (forall_congr' fun k => isWrong_reading_iff)

/-- Every object is accepted, or one of its properties is the first that is not. -/
theorem accepted_or_firstRejected (o : Options) : o.Accepted ∨ ∃ k, o.FirstRejected k := by
  rcases o.right_or_firstWrong with hright | ⟨k, before, after, hall, hbefore, hwrong⟩
  · exact .inl fun k => isWrong_reading_iff.mp (hright k)
  · refine .inr ⟨k, before, after, hall, fun earlier hearlier => ?_, fun haccepts => ?_⟩
    · exact isWrong_reading_iff.mp (hbefore earlier hearlier)
    · rw [isWrong_reading_iff.mpr haccepts] at hwrong
      cases hwrong

/-- The first property that is not accepted is reported. -/
theorem overrides_of_firstRejected (h : o.FirstRejected k) : o.overrides = .error k := by
  obtain ⟨before, after, hall, hbefore, hk⟩ := h
  rw [overrides, hall]
  refine addKeys_wrong (fun earlier hearlier => isWrong_reading_iff.mpr (hbefore earlier hearlier))
    ?_ .empty
  cases hwrong : (o.reading k).isWrong with
  | true => rfl
  | false => exact absurd (isWrong_reading_iff.mp hwrong) hk

/-- **An object that is not accepted is an error**, which names the first parameter to blame. -/
theorem overrides_eq_error_iff : o.overrides = .error k ↔ o.FirstRejected k := by
  refine ⟨fun herror => ?_, overrides_of_firstRejected⟩
  rcases o.accepted_or_firstRejected with haccepted | ⟨other, hother⟩
  · have hok := overrides_eq_ok_iff_accepted.mpr ⟨haccepted, describes_iff.mpr rfl⟩
    rw [herror] at hok
    cases hok
  · have hsame := (overrides_of_firstRejected hother).symm.trans herror
    obtain rfl := Except.error.inj hsame
    exact hother

end Options

end FormulaMarkup
