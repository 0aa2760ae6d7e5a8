import FormulaMarkup.Options

/-!
# FormulaMarkup — what options objects say

Reading an object is reading its properties one by one, and describing a configuration is writing
its values one by one.  The two are inverse for values that can be read at all, which are those with
finite numbers.

The properties are read in the order of the keys, and the first wrong one ends the reading.  Which
one it is shows in the error, and so the lemmas on `addKeys` follow a list of keys from its front.

* **`Kind.Finite`** — values that are no number or a finite one.
* **`Kind.read_write`** — what is written is read back.
* **`Options.overrides_eq_ok_iff`** — an object without wrong properties sets what its properties
  say, and any other is an error.
* **`Options.overrides_ofConfig`** — the object of a configuration describes all of it.
-/

namespace FormulaMarkup

/-- A value that is finite if it is a number. -/
def Kind.Finite : (kind : Kind) → kind.Value → Prop
  | .number, x => x.isFinite = true
  | .text, _ | .flag, _ | .alignment, _ | .prettyPrint, _ => True

/-- All numbers of a configuration are finite. -/
def Config.Finite (c : Config) : Prop := ∀ k : Key, k.kind.Finite (c.get k)

/-- All numbers of a layer are finite. -/
def Overrides.Finite (o : Overrides) : Prop :=
  ∀ (k : Key) (value : k.Value), o.get k = some value → k.kind.Finite value

/-- The numbers of the standard configuration are finite. -/
theorem Config.finite_standard : Config.standard.Finite := by
  intro k
  -- keys of the other kinds ask for nothing
  cases k <;> first | exact trivial | exact rfl

/-- A configuration stays finite under a layer whose numbers are finite. -/
theorem Config.Finite.overlay {c : Config} (hc : c.Finite) {o : Overrides} (ho : o.Finite) :
    (c.overlay o).Finite := by
  intro k
  show k.kind.Finite ((o.get k).getD (c.get k))
  cases hk : o.get k with
  | none => exact hc k
  | some value => exact ho k value hk

/-! ## Single properties

What can be read of a property depends on the kind of its parameter alone. -/

namespace PropertyReading

variable {α : Type}

/-- The value that was read, if there is one. -/
def value? : PropertyReading α → Option α
  | .value a => some a
  | .unset | .wrong => none

/-- Whether the property is of another kind than the parameter. -/
def isWrong : PropertyReading α → Bool
  | .wrong => true
  | .unset | .value _ => false

end PropertyReading

theorem readKeyword_name {α : Type} {ofName? : String → Option α} {name : String} {keyword : α}
    (h : ofName? name = some keyword) : readKeyword ofName? (.text name) = .value keyword := by
  rw [readKeyword, h]

/-- **What is written is read back**, as long as it is finite.  Keywords are found again by their
names (`readKeyword_name`), and an alignment that is missing is written as null. -/
theorem Kind.read_write (kind : Kind) {value : kind.Value} (h : kind.Finite value) :
    kind.read (kind.write value) = .value value := by
  cases kind with
  | number => exact if_pos h
  | text => rfl
  | flag => rfl
  | alignment =>
    -- null leaves an alignment out
    cases value with
    | none => rfl
    | some a => simp only [Kind.write, Kind.read, readKeyword_name a.ofName?_name]
  | prettyPrint => exact readKeyword_name (PrettyPrint.ofName?_name value)

/-- **Only finite numbers are read.** Whatever is no number counts as finite, so only the kind
`number` has something to prove. -/
theorem Kind.finite_of_read (kind : Kind) {property : PropertyValue} {value : kind.Value}
    (h : kind.read property = .value value) : kind.Finite value := by
  cases kind with
  | number =>
    cases property with
    | number x =>
      have hread : (if x.isFinite then PropertyReading.value x else .wrong) = .value value := h
      split at hread
      · next hx =>
        cases hread
        exact hx
      · cases hread
    | _ => cases h
  | text | flag | alignment | prettyPrint => trivial

/-! ## Whole objects

An object is read key by key.  What a key gets does not depend on the other keys, as long as none of
them is wrong. -/

namespace Options

/-- What an object says about a parameter. -/
def reading (o : Options) (k : Key) : PropertyReading k.Value := k.kind.read (o.get k)

/-- **An object sets what its properties say.**  If none of the properties is wrong, the keys that
have a value get it, and all others stay as they are. -/
theorem addKeys_ok {o : Options} {keys : List Key}
    (h : ∀ k ∈ keys, (o.reading k).isWrong = false) (layer : Overrides) :
    ∃ result, o.addKeys layer keys = .ok result ∧ ∀ k, result.get k =
      if k ∈ keys then (o.reading k).value?.or (layer.get k) else layer.get k := by
  induction keys generalizing layer with
  | nil => exact ⟨layer, rfl, fun k => (if_neg List.not_mem_nil).symm⟩
  | cons first keys ih =>
    have hfirst := h first List.mem_cons_self
    have hothers := fun k hk => h k (List.mem_cons_of_mem first hk)
    unfold addKeys
    cases hread : o.reading first with
    | wrong =>
      rw [hread] at hfirst
      cases hfirst
    | unset =>
      -- a property that is missing leaves what the layer has
      obtain ⟨result, hresult, hget⟩ := ih hothers layer
      refine ⟨result, ?_, fun k => ?_⟩
      · rw [show first.kind.read (o.get first) = _ from hread]
        exact hresult
      · rw [hget]
        by_cases hk : k = first
        · subst hk
          simp [hread, PropertyReading.value?]
        · simp [hk]
    | value value =>
      -- a property with a value is set in the layer, and the other keys do not see it
      obtain ⟨result, hresult, hget⟩ := ih hothers (layer.set first value)
      refine ⟨result, ?_, fun k => ?_⟩
      · rw [show first.kind.read (o.get first) = _ from hread]
        exact hresult
      · rw [hget]
        by_cases hk : k = first
        · subst hk
          simp [hread, PropertyReading.value?]
        · simp [hk, Overrides.get_set_of_ne layer (Ne.symm hk)]

/-- The layer of an object without wrong properties. -/
theorem overrides_ok {o : Options} (h : ∀ k, (o.reading k).isWrong = false) :
    o.overrides = .ok ⟨fun k => (o.reading k).value?⟩ := by
  obtain ⟨result, hresult, hget⟩ := addKeys_ok (fun k (_ : k ∈ Key.all) => h k) .empty
  rw [overrides, hresult]
  congr 1
  ext1
  funext k
  rw [hget, if_pos k.mem_all]
  exact Option.or_none

/-- A wrong property is an error, and the first one is reported.  Induction on the parameters before
it, which are all right, for the layer that they have built up. -/
theorem addKeys_wrong {o : Options} {before after : List Key} {k : Key}
    (hbefore : ∀ k ∈ before, (o.reading k).isWrong = false)
    (hk : (o.reading k).isWrong = true) (layer : Overrides) :
    o.addKeys layer (before ++ k :: after) = .error k := by
  induction before generalizing layer with
  | nil =>
    rw [List.nil_append, addKeys]
    cases hread : o.reading k with
    -- the wrong property ends the loop with its key
    | wrong => rw [show k.kind.read (o.get k) = _ from hread]
    | unset | value _ =>
      rw [hread] at hk
      cases hk
  | cons first before ih =>
    -- the earlier ones only change the layer
    have hothers := ih fun k hk => hbefore k (List.mem_cons_of_mem first hk)
    have hfirst := hbefore first List.mem_cons_self
    rw [List.cons_append, addKeys]
    cases hread : o.reading first with
    | wrong =>
      rw [hread] at hfirst
      cases hfirst
    | unset =>
      rw [show first.kind.read (o.get first) = _ from hread]
      exact hothers layer
    | value value =>
      rw [show first.kind.read (o.get first) = _ from hread]
      exact hothers _

/-- Unless all properties of an object are right, one of them is the first that is wrong. -/
theorem right_or_firstWrong (o : Options) :
    (∀ k, (o.reading k).isWrong = false) ∨
      ∃ k before after, Key.all = before ++ k :: after ∧
        (∀ earlier ∈ before, (o.reading earlier).isWrong = false) ∧
        (o.reading k).isWrong = true := by
  cases hfind : Key.all.find? fun k => (o.reading k).isWrong with
  | none => exact .inl fun k => by simpa using List.find?_eq_none.mp hfind k k.mem_all
  | some k =>
    obtain ⟨hwrong, before, after, hall, hbefore⟩ := List.find?_eq_some_iff_append.mp hfind
    exact .inr ⟨k, before, after, hall,
      fun earlier hearlier => by simpa using hbefore earlier hearlier, hwrong⟩

/-- **When an object describes a layer.**  It does so if none of its properties is wrong, and the
layer sets what the properties say. -/
theorem overrides_eq_ok_iff {o : Options} {layer : Overrides} :
    o.overrides = .ok layer ↔
      (∀ k, (o.reading k).isWrong = false) ∧ layer = ⟨fun k => (o.reading k).value?⟩ := by
  constructor
  · intro hlayer
    rcases o.right_or_firstWrong with hright | ⟨k, before, after, hall, hbefore, hwrong⟩
    · rw [overrides_ok hright] at hlayer
      exact ⟨hright, (Except.ok.inj hlayer).symm⟩
    · -- the first wrong property would have been reported
      have herror : o.addKeys .empty Key.all = .error k :=
        hall ▸ addKeys_wrong hbefore hwrong .empty
      rw [overrides, herror] at hlayer
      cases hlayer
  · rintro ⟨hright, rfl⟩
    exact overrides_ok hright

/-- **The layer of an object has finite numbers**, because `Kind.read` takes no others. -/
theorem finite_overrides {o : Options} {layer : Overrides} (h : o.overrides = .ok layer) :
    layer.Finite := by
  obtain ⟨-, rfl⟩ := overrides_eq_ok_iff.mp h
  intro k value hvalue
  have hread : (o.reading k).value? = some value := hvalue
  cases hk : o.reading k with
  | value read =>
    rw [hk] at hread
    cases hread
    exact k.kind.finite_of_read hk
  | unset | wrong =>
    rw [hk] at hread
    cases hread

/-! ## The object of a configuration

Each key is written under a name of its own, so that a lookup finds its value and no other. -/

/-- No two parameters have properties of the same name. -/
theorem eq_of_propertyName_eq {k k' : Key} (h : k.propertyName = k'.propertyName) : k = k' := by
  have hall : ∀ k ∈ Key.all, ∀ k' ∈ Key.all, k.propertyName = k'.propertyName → k = k' := by
    decide
  exact hall k k.mem_all k' k'.mem_all h

/-- Every parameter has one property in `ofConfig`, the one with its name, since no two parameters
have the same name (`eq_of_propertyName_eq`). -/
theorem get_ofConfig (c : Config) (k : Key) : (ofConfig c).get k = k.kind.write (c.get k) := by
  -- induction on the keys: the first one with this name is this key
  have hlookup : ∀ keys : List Key, k ∈ keys →
      (keys.map fun k => (k.propertyName, k.kind.write (c.get k))).lookup k.propertyName
        = some (k.kind.write (c.get k)) := by
    intro keys hk
    induction keys with
    | nil => cases hk
    | cons first keys ih =>
      rw [List.map_cons, List.lookup_cons]
      by_cases hname : k.propertyName = first.propertyName
      · obtain rfl := eq_of_propertyName_eq hname
        rw [beq_self_eq_true]
      · have hne : (k.propertyName == first.propertyName) = false := by simpa using hname
        have hother : k ∈ keys := by
          rcases List.mem_cons.mp hk with rfl | hk
          · exact absurd rfl hname
          · exact hk
        rw [hne]
        exact ih hother
  rw [get, ofConfig, hlookup Key.all k.mem_all]
  rfl

/-- **The object of a configuration describes all of it.** -/
theorem overrides_ofConfig {c : Config} (h : c.Finite) :
    (ofConfig c).overrides = .ok ⟨fun k => some (c.get k)⟩ := by
  have hreading : ∀ k, (ofConfig c).reading k = .value (c.get k) := by
    intro k
    rw [reading, get_ofConfig, k.kind.read_write (h k)]
  refine overrides_eq_ok_iff.mpr ⟨fun k => ?_, ?_⟩
  · rw [hreading]
    rfl
  · simp only [hreading, PropertyReading.value?]

end Options

end FormulaMarkup
