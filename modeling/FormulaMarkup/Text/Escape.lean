/-!
# FormulaMarkup — escaping of character data

Text that is written between tags must not be taken for a tag or for an entity.  Three characters
are therefore written as entities and all others as they are; reading the entities back gives the
text again.

* **`escape`** — the written form of a text, character by character.
* **`appendEscaped`** — the same at the end of an output, run by run.
* **`unescape`** — the text of a written form, reading entities from the left.
* **`unescape_escape`** — nothing is lost on the way.
-/

namespace FormulaMarkup.Text

/-- The written form of one character. -/
def escapeChar (c : Char) : List Char :=
  if c = '&' then "&amp;".toList
  else if c = '<' then "&lt;".toList
  else if c = '>' then "&gt;".toList
  else [c]

/-- The written form of a text: `&`, `<` and `>` as entities, every other character unchanged. -/
def escape (s : List Char) : List Char :=
  s.flatMap escapeChar

/-- Whether a character is written as an entity. -/
def isReserved (c : Char) : Bool := c == '&' || c == '<' || c == '>'

/-- Appends the written form of a text to an output that is given with its last character first, and
returns it so.  The characters up to the next one that has to be written as an entity are copied in
one go. -/
def appendRuns (written text : List Char) : List Char :=
  match _h : text.dropWhile (!isReserved ·) with
  | [] => text.reverse ++ written
  | c :: rest =>
    let run := text.takeWhile (!isReserved ·)
    appendRuns ((escapeChar c).reverse ++ (run.reverse ++ written)) rest
termination_by text.length
decreasing_by
  have h := (List.dropWhile_suffix (l := text) (!isReserved ·)).length_le
  rw [_h, List.length_cons] at h
  omega

/-- Appends the written form of a text to an output, as `appendRuns` does. -/
def appendEscaped (out text : List Char) : List Char :=
  (appendRuns out.reverse text).reverse

/-- Reads the three entities back into their characters, from left to right.  An ampersand that
starts none of them stands for itself. -/
def unescape : List Char → List Char
  | '&' :: 'a' :: 'm' :: 'p' :: ';' :: s => '&' :: unescape s
  | '&' :: 'l' :: 't' :: ';' :: s => '<' :: unescape s
  | '&' :: 'g' :: 't' :: ';' :: s => '>' :: unescape s
  | c :: s => c :: unescape s
  | [] => []

@[simp] theorem escape_nil : escape [] = [] := rfl

@[simp] theorem escape_cons (c : Char) (s : List Char) :
    escape (c :: s) = escapeChar c ++ escape s := rfl

/-- Escaping a concatenation is concatenating the escaped parts. -/
@[simp] theorem escape_append (s t : List Char) : escape (s ++ t) = escape s ++ escape t := by
  simp [escape, List.flatMap_append]

theorem escapeChar_of_not_isReserved {c : Char} (h : isReserved c = false) :
    escapeChar c = [c] := by
  simp only [isReserved, Bool.or_eq_false_iff, beq_eq_false_iff_ne] at h
  simp [escapeChar, h]

/-- What stands behind the ampersand of an entity. -/
def entityNames : List (List Char) := ["amp;".toList, "lt;".toList, "gt;".toList]

/-- A character is written as one of the entities or, if it is not reserved, as itself. -/
theorem escapeChar_cases (c : Char) :
    (∃ name ∈ entityNames, escapeChar c = '&' :: name) ∨
      isReserved c = false ∧ escapeChar c = [c] := by
  cases hc : isReserved c with
  | false => exact .inr ⟨rfl, escapeChar_of_not_isReserved hc⟩
  | true =>
    simp only [isReserved, Bool.or_eq_true, beq_iff_eq] at hc
    rcases hc with (rfl | rfl) | rfl
    · exact .inl ⟨"amp;".toList, by simp [entityNames], rfl⟩
    · exact .inl ⟨"lt;".toList, by simp [entityNames], rfl⟩
    · exact .inl ⟨"gt;".toList, by simp [entityNames], rfl⟩

/-- The name of an entity has no reserved character in it. -/
theorem not_isReserved_of_mem_entityName {name : List Char} (h : name ∈ entityNames) {c : Char}
    (hc : c ∈ name) : isReserved c = false := by
  simp only [entityNames, List.mem_cons, List.not_mem_nil, or_false] at h
  rcases h with rfl | rfl | rfl
  · simp at hc
    rcases hc with rfl | rfl | rfl | rfl <;> rfl
  · simp at hc
    rcases hc with rfl | rfl | rfl <;> rfl
  · simp at hc
    rcases hc with rfl | rfl | rfl <;> rfl

/-- Of the reserved characters only the ampersand is left in a written form. -/
theorem eq_ampersand_of_mem_escape {c : Char} {s : List Char} (hc : isReserved c = true)
    (h : c ∈ escape s) : c = '&' := by
  obtain ⟨d, -, hd⟩ := List.mem_flatMap.mp h
  rcases escapeChar_cases d with ⟨name, hname, heq⟩ | ⟨hd', heq⟩
  · rw [heq] at hd
    rcases List.mem_cons.mp hd with rfl | hmem
    · rfl
    · rw [not_isReserved_of_mem_entityName hname hmem] at hc
      cases hc
  · rw [heq] at hd
    rw [List.mem_singleton.mp hd, hd'] at hc
    cases hc

/-- A run without reserved characters is its own written form. -/
theorem escape_takeWhile (s : List Char) :
    escape (s.takeWhile (!isReserved ·)) = s.takeWhile (!isReserved ·) := by
  induction s with
  | nil => rfl
  | cons c s ih =>
    by_cases hc : isReserved c
    · simp [hc]
    · have hc' : isReserved c = false := by simpa using hc
      simp [hc', ih, escapeChar_of_not_isReserved hc']

/-- `appendRuns` comes to the same as escaping character by character. -/
theorem appendRuns_eq (written text : List Char) :
    appendRuns written text = (escape text).reverse ++ written := by
  fun_induction appendRuns written text with
  | case1 written text h =>
    have hw : text.takeWhile (!isReserved ·) = text := by
      have := List.takeWhile_append_dropWhile (p := (!isReserved ·)) (l := text)
      rwa [h, List.append_nil] at this
    rw [← hw, escape_takeWhile]
  | case2 written text c rest h run ih =>
    have hs : text = run ++ c :: rest := by
      rw [← h, List.takeWhile_append_dropWhile]
    have hr : escape run = run := escape_takeWhile text
    rw [ih]
    conv => rhs; rw [hs, escape_append, escape_cons, hr]
    simp only [List.reverse_append, List.append_assoc]

/-- What `appendEscaped` appends is the written form of the text, and the output before it stays. -/
theorem appendEscaped_eq (out text : List Char) :
    appendEscaped out text = out ++ escape text := by
  simp [appendEscaped, appendRuns_eq]

theorem unescape_cons_of_ne {c : Char} (h : c ≠ '&') (s : List Char) :
    unescape (c :: s) = c :: unescape s := by
  rw [unescape] <;> simp_all

/-- The written form of a character is read as that character. -/
theorem unescape_escapeChar_append (c : Char) (s : List Char) :
    unescape (escapeChar c ++ s) = c :: unescape s := by
  unfold escapeChar
  split
  · next h => subst h; rfl
  · split
    · next h => subst h; rfl
    · split
      · next h => subst h; rfl
      · next h _ _ => exact unescape_cons_of_ne h s

/-- **`unescape` gives back what `escape` has been given**, whatever the text, and also where it
spells out entities itself. -/
theorem unescape_escape (s : List Char) : unescape (escape s) = s := by
  induction s with
  | nil => rfl
  | cons c s ih => rw [escape_cons, unescape_escapeChar_append, ih]

end FormulaMarkup.Text
