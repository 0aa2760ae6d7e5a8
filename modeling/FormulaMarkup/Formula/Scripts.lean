import FormulaMarkup.Formula.Reading

/-!
# FormulaMarkup — scripts

A base may be followed by a subscript and a superscript, in any order and with blanks anywhere
around their markers.

* **`Scripts`** — the scripts of a base, at most one of each kind.
* **`readScripts`** — the scripts that follow; a second one of a kind is left alone.
* **`readScripted`** — a base together with them.
-/

namespace FormulaMarkup.Formula

open Text

/-- The two kinds of scripts. -/
inductive ScriptKind where
  | sub | sup
  deriving DecidableEq, Repr

/-- The kind of script that a character announces. -/
def ScriptKind.ofMarker? (c : Char) : Option ScriptKind :=
  if c = '_' then some .sub else if c = '^' then some .sup else none

/-- A marker is no blank. -/
theorem isBlank_eq_false_of_ofMarker? {c : Char} {kind : ScriptKind}
    (h : ScriptKind.ofMarker? c = some kind) : isBlank c = false := by
  unfold ScriptKind.ofMarker? at h
  split at h
  · next hc => subst hc; decide
  · split at h
    · next hc => subst hc; decide
    · simp at h

/-- The scripts of a base, at most one of each `ScriptKind`. -/
structure Scripts where
  sub : Option Formula
  sup : Option Formula

namespace Scripts

/-- No script has been found. -/
def none : Scripts := ⟨.none, .none⟩

/-- The script of a kind, if it has been found. -/
def get (scripts : Scripts) : ScriptKind → Option Formula
  | .sub => scripts.sub
  | .sup => scripts.sup

/-- The scripts with one more. -/
def set (scripts : Scripts) (kind : ScriptKind) (script : Formula) : Scripts :=
  match kind with
  | .sub => ⟨some script, scripts.sup⟩
  | .sup => ⟨scripts.sub, some script⟩

/-- The base with its scripts; without any it stands for itself. -/
def attach (scripts : Scripts) (base : Formula) : Formula :=
  match scripts.sub, scripts.sup with
  | .none, .none => base
  | sub, sup => .scripted base sub sup ()

end Scripts

/-- Reads the scripts that follow, of each kind the first one.  A marker of a kind that is there
already is left in the input, as is everything else; blanks are gone in any case. -/
def readScripts (a : AtomReader) (found : Scripts) (s : List Char) : Reading Scripts :=
  match _h : skipBlank s with
  | [] => ⟨found, [], []⟩
  | c :: t =>
    match ScriptKind.ofMarker? c with
    | none => ⟨found, c :: t, []⟩
    | some kind =>
      if (found.get kind).isSome then ⟨found, c :: t, []⟩
      else
        let script := readArgument a t
        (readScripts a (found.set kind script.value) script.rest).after script.log
termination_by s.length
decreasing_by
  have h₁ := (readArgument_suffix a t).length_le
  have h₂ := (skipBlank_suffix s).length_le
  simp only [_h, List.length_cons] at h₂
  omega

/-- What is left behind scripts is a suffix. -/
theorem readScripts_suffix (a : AtomReader) (found : Scripts) (s : List Char) :
    (readScripts a found s).rest <:+ s := by
  fun_induction readScripts a found s with
  | case1 => exact List.nil_suffix
  | case2 _ s c t h => exact h ▸ skipBlank_suffix s
  | case3 _ s c t h => exact h ▸ skipBlank_suffix s
  | case4 _ s c t h _ _ _ script ih =>
    exact ih.trans ((readArgument_suffix a t).trans
      ((List.suffix_cons c t).trans (h ▸ skipBlank_suffix s)))

/-- `readScripts` consumes a marker at the front if it has found no script yet, and so does
`readStray`, which hands it over. -/
theorem readScripts_length_lt (a : AtomReader) {c : Char} {kind : ScriptKind}
    (hc : ScriptKind.ofMarker? c = some kind) (hb : isBlank c = false) (t : List Char) :
    (readScripts a .none (c :: t)).rest.length < (c :: t).length := by
  have hskip : skipBlank (c :: t) = c :: t := by simp [skipBlank, hb]
  have hnone : (Scripts.none.get kind).isSome = false := by cases kind <;> rfl
  have h := ((readScripts_suffix a (Scripts.none.set kind (readArgument a t).value)
    (readArgument a t).rest).trans (readArgument_suffix a t)).length_le
  rw [readScripts]
  split
  · simp
  · next c' t' h' =>
    obtain ⟨rfl, rfl⟩ : c = c' ∧ t = t' := by simpa [hskip] using h'
    simp only [hc, hnone, Bool.false_eq_true, if_false, Reading.rest_after, List.length_cons]
    omega

/-- A base that has been read, with the scripts that follow it. -/
def readScripted (a : AtomReader) (base : Formula) (s : List Char) : Reading Formula :=
  (readScripts a .none s).map (·.attach base)

end FormulaMarkup.Formula
