import FormulaMarkup.Proofs.Text.Bytes
import FormulaMarkup.Text.Escape

/-!
# FormulaMarkup — escaping by searching bytes

The written form of a text can be found without looking at its characters one by one: the bytes of
the text are searched for the next reserved one, the text is divided there, and everything in front
is copied in one go.

* **`FindsFirst`** — what is asked of the search.
* **`copyRuns`** — the loop; it fails where a text would be divided inside a character.
* **`search_utf8`** — what is found is the end of the run without reserved characters.
* **`copyRuns_eq`** — the loop writes the text character by character.
* **`escaped_by_runs`** — the loop, and what written forms are like.
-/

namespace FormulaMarkup.Text

/-- A search for the first place of one of three bytes, which are given first.  There is no place if
none of them occurs.  `FindsFirst` says what is asked of it. -/
abbrev ByteSearch := UInt8 → UInt8 → UInt8 → List UInt8 → Option Nat

/-- **The search finds the first place where one of the three bytes stands.** This is all that is
asked of it, so any implementation of the search can be put in. -/
def FindsFirst (search : ByteSearch) : Prop :=
  ∀ x y z bytes, search x y z bytes = bytes.findIdx? fun b => b == x || b == y || b == z

/-- The entity of a reserved byte. -/
def byteEntity (b : UInt8) : List Char :=
  if b = 38 then "&amp;".toList
  else if b = 60 then "&lt;".toList
  else "&gt;".toList

/-- Appends the written form of `text` to `out`, run by run.  There is no result if a text is
divided at a place that is not between two characters. -/
def copyRuns (search : ByteSearch) (out text : List Char) : Option (List Char) :=
  match search 38 60 62 (utf8 text) with
  | none => some (out ++ text)
  | some index =>
    match _h : splitAtByte? index text with
    | none => none
    | some (before, after) =>
      match utf8 after with
      | [] => some (out ++ before ++ text)
      | b :: _ =>
        match _h' : splitAtByte? 1 after with
        | none => none
        | some (_, rest) => copyRuns search (out ++ before ++ byteEntity b) rest
termination_by text.length
decreasing_by
  obtain ⟨rfl, -⟩ := splitAtByte?_eq_some_iff.mp _h
  obtain ⟨rfl, hlength⟩ := splitAtByte?_eq_some_iff.mp _h'
  have hne := mt byteLength_eq_zero_iff.mpr (by rw [hlength]; exact Nat.one_ne_zero)
  have hpos := List.length_pos_iff.mpr hne
  simp only [List.length_append]
  omega

/-! ## Reserved bytes

Searching bytes finds characters because the three reserved characters are single bytes, and these
bytes are not part of any other character. -/

/-- The bytes that are searched for. -/
def isReservedByte (b : UInt8) : Bool := b == 38 || b == 60 || b == 62

/-- `isReserved` holds of the ampersand and the two angle brackets, told by their numbers. -/
theorem isReserved_iff {c : Char} :
    isReserved c = true ↔ c.toNat = 38 ∨ c.toNat = 60 ∨ c.toNat = 62 := by
  have hchar : ∀ d : Char, c = d ↔ c.toNat = d.toNat := fun d => Char.toNat_inj.symm
  simp only [isReserved, Bool.or_eq_true, beq_iff_eq, hchar, or_assoc]
  rfl

theorem isReservedByte_iff {b : UInt8} :
    isReservedByte b = true ↔ b.toNat = 38 ∨ b.toNat = 60 ∨ b.toNat = 62 := by
  simp only [isReservedByte, Bool.or_eq_true, beq_iff_eq, ← UInt8.toNat_inj, or_assoc]
  rfl

/-- The byte of a reserved character is reserved (`isReservedByte`), and `byteEntity` gives the
entity of the character. -/
theorem utf8EncodeChar_of_isReserved {c : Char} (h : isReserved c = true) :
    ∃ b, String.utf8EncodeChar c = [b] ∧ isReservedByte b = true ∧ byteEntity b = escapeChar c := by
  simp only [isReserved, Bool.or_eq_true, beq_iff_eq] at h
  rcases h with (rfl | rfl) | rfl
  · exact ⟨38, by decide, by decide, rfl⟩
  · exact ⟨60, by decide, by decide, rfl⟩
  · exact ⟨62, by decide, by decide, rfl⟩

/-- **A reserved byte is nowhere part of another character**, because it is an ASCII byte, and these
stand for themselves. -/
theorem not_isReservedByte_of_mem {c : Char} (h : isReserved c = false) {b : UInt8}
    (hb : b ∈ String.utf8EncodeChar c) : isReservedByte b = false := by
  cases hreserved : isReservedByte b with
  | false => rfl
  | true =>
    have hb' := isReservedByte_iff.mp hreserved
    have hascii := utf8EncodeChar_of_mem_ascii hb (by omega)
    -- the byte is the character itself
    rw [utf8EncodeChar_ascii hascii, List.mem_singleton] at hb
    have hnat : b.toNat = c.toNat := by
      rw [hb, UInt8.toNat_ofNat_of_lt' (Nat.lt_trans hascii (by decide))]
    rw [hnat, ← isReserved_iff, h] at hb'
    cases hb'

/-- The first reserved byte of a text is behind the run without reserved characters, so the place
that is found is one between characters (`splitAtByte?`). -/
theorem search_utf8 {search : ByteSearch} (h : FindsFirst search) (text : List Char) :
    search 38 60 62 (utf8 text) =
      match text.dropWhile (!isReserved ·) with
      | [] => none
      | _ :: _ => some (byteLength (text.takeWhile (!isReserved ·))) := by
  rw [h]
  show (utf8 text).findIdx? isReservedByte = _
  -- induction on the text, one character at a time
  induction text with
  | nil => rfl
  | cons c text ih =>
    rw [utf8, List.flatMap_cons, List.findIdx?_append, ← utf8, ih]
    cases hc : isReserved c with
    | true =>
      obtain ⟨b, hb, hreserved, -⟩ := utf8EncodeChar_of_isReserved hc
      simp [hb, hc, hreserved, List.findIdx?_cons]
    | false =>
      have hnone : (String.utf8EncodeChar c).findIdx? isReservedByte = none :=
        List.findIdx?_eq_none_iff.mpr fun b hb => by simp [not_isReservedByte_of_mem hc hb]
      rw [hnone, Option.none_or, List.dropWhile_cons_of_pos (by simp [hc]),
        List.takeWhile_cons_of_pos (by simp [hc])]
      cases text.dropWhile (!isReserved ·) with
      | nil => rfl
      | cons d rest =>
        simp [Nat.add_comm]

/-! ## The loop

Each turn copies a run, writes an entity and goes on behind the reserved character.  The two lemmas
about one turn say that both of its slices are at places between characters, and `copyRuns_eq`
follows by induction on the length of what is left. -/

section Loop

variable {search : ByteSearch}

/-- Where the search finds nothing, `copyRuns` copies the rest of the text and ends. -/
theorem copyRuns_of_none (out : List Char) {text : List Char}
    (h : search 38 60 62 (utf8 text) = none) : copyRuns search out text = some (out ++ text) := by
  rw [copyRuns]
  simp only [h]

/-- Where the search finds a reserved character, `copyRuns` copies the run in front of it and goes
on behind it.  Both places lie between characters. -/
theorem copyRuns_of_found (out : List Char) {before rest : List Char} {c : Char}
    (hc : isReserved c = true)
    (h : search 38 60 62 (utf8 (before ++ c :: rest)) = some (byteLength before)) :
    copyRuns search out (before ++ c :: rest)
      = copyRuns search (out ++ before ++ escapeChar c) rest := by
  obtain ⟨b, hb, -, hentity⟩ := utf8EncodeChar_of_isReserved hc
  have hbytes : utf8 (c :: rest) = b :: utf8 rest := by
    rw [utf8, List.flatMap_cons, hb]
    rfl
  have hreserved : splitAtByte? 1 (c :: rest) = some ([c], rest) := by
    refine splitAtByte?_eq_some_iff.mpr ⟨rfl, ?_⟩
    rw [byteLength, utf8, List.flatMap_singleton, hb]
    rfl
  -- neither slice fails, and what they leave is known
  rw [copyRuns]
  simp only [h]
  split
  · next hsplit =>
    rw [splitAtByte?_append] at hsplit
    cases hsplit
  · next x y hsplit =>
    rw [splitAtByte?_append] at hsplit
    obtain ⟨rfl, rfl⟩ := Prod.mk.inj (Option.some.inj hsplit)
    simp only [hbytes]
    split
    · next hsplit' =>
      rw [hreserved] at hsplit'
      cases hsplit'
    · next hsplit' =>
      rw [hreserved] at hsplit'
      obtain ⟨-, rfl⟩ := Prod.mk.inj (Option.some.inj hsplit')
      rw [hentity]

/-- **Copying runs comes to an end and writes every character of the text.** Nowhere is a text
divided inside a character.  Strong induction on the length, because the loop goes on behind a whole
run. -/
theorem copyRuns_eq (h : FindsFirst search) (out text : List Char) :
    copyRuns search out text = some (out ++ escape text) := by
  induction hn : text.length using Nat.strongRecOn generalizing out text with
  | ind n ih =>
    subst hn
    have hsearch := search_utf8 h text
    -- what is found divides the text into a run and the rest behind the reserved character
    have hsplit := List.takeWhile_append_dropWhile (p := (!isReserved ·)) (l := text)
    have hrun := escape_takeWhile text
    cases hdrop : text.dropWhile (!isReserved ·) with
    | nil =>
      -- no character is reserved
      rw [hdrop] at hsearch hsplit
      rw [List.append_nil] at hsplit
      rw [copyRuns_of_none out hsearch, ← hsplit, hrun]
    | cons c rest =>
      -- the run ends at `c`, and the rest is shorter than the text
      have hc : isReserved c = true := by
        have hhead := List.head_dropWhile_not (!isReserved ·) (l := text) (by simp [hdrop])
        simpa [hdrop] using hhead
      rw [hdrop] at hsearch hsplit
      generalize text.takeWhile (!isReserved ·) = run at hsearch hsplit hrun
      subst hsplit
      have hlt : rest.length < (run ++ c :: rest).length := by
        rw [List.length_append, List.length_cons]
        omega
      rw [copyRuns_of_found out hc hsearch, ih _ hlt _ rest rfl, escape_append, escape_cons, hrun]
      simp only [List.append_assoc]

end Loop

/-! ## Written forms

What a written form is like follows from the way it is put together character by character, without
another look at the loop. -/

/-- **Every ampersand of a written form begins an entity.** Induction on the text that `escape`
writes: the ampersand is in the entity of the first character, where it can only come first, or in
what is written behind it. -/
theorem entity_of_ampersand {s front back : List Char} (h : escape s = front ++ '&' :: back) :
    ∃ name ∈ entityNames, name <+: back := by
  induction s generalizing front with
  | nil =>
    rw [escape_nil] at h
    simp at h
  | cons c s ih =>
    rw [escape_cons] at h
    rcases List.append_eq_append_iff.mp h with ⟨front', -, htail⟩ | ⟨behind, hchar, htail⟩
    · -- the ampersand is behind the first character
      exact ih htail
    · cases behind with
      | nil => exact @ih [] htail.symm
      | cons d behind =>
        obtain ⟨rfl, rfl⟩ := List.cons.inj htail
        -- an entity has no ampersand but its first character
        rcases escapeChar_cases c with ⟨name, hname, heq⟩ | ⟨hc, heq⟩
        · rw [heq] at hchar
          cases front with
          | nil =>
            obtain rfl := (List.cons.inj hchar).2
            exact ⟨name, hname, List.prefix_append _ _⟩
          | cons e front =>
            have hmem : '&' ∈ name := by simp [(List.cons.inj hchar).2]
            exact absurd (not_isReserved_of_mem_entityName hname hmem) (by decide)
        · have hmem : '&' ∈ escapeChar c := by simp [hchar]
          rw [heq] at hmem
          rw [← List.mem_singleton.mp hmem] at hc
          cases hc

/-- **Copying a text run by run writes it character by character.** With a search for the first of
three bytes, the loop comes to an end on every text and never divides one inside a character; what
it appends to an output is the written form of the text, as it is of two texts one after the other.
In a written form there are no angle brackets, every ampersand begins an entity, and reading the
entities from left to right gives the text back. -/
theorem escaped_by_runs {search : ByteSearch} (h : FindsFirst search) (out text more : List Char) :
    copyRuns search out text = some (out ++ text.flatMap escapeChar) ∧
    copyRuns search out text = some (appendEscaped out text) ∧
    copyRuns search out (text ++ more)
      = (copyRuns search out text).bind (copyRuns search · more) ∧
    ('<' ∉ escape text ∧ '>' ∉ escape text) ∧
    (∀ front back, escape text = front ++ '&' :: back → ∃ name ∈ entityNames, name <+: back) ∧
    unescape (escape text) = text := by
  refine ⟨copyRuns_eq h out text, ?_, ?_, ⟨fun hmem => ?_, fun hmem => ?_⟩,
    fun front back => entity_of_ampersand, unescape_escape text⟩
  · rw [copyRuns_eq h, appendEscaped_eq]
  · rw [copyRuns_eq h, copyRuns_eq h, Option.bind_some, copyRuns_eq h, escape_append,
      List.append_assoc]
  · exact absurd (eq_ampersand_of_mem_escape rfl hmem) (by decide)
  · exact absurd (eq_ampersand_of_mem_escape rfl hmem) (by decide)

/-- A search that goes through the bytes one by one. -/
def scanBytes (x y z : UInt8) : List UInt8 → Option Nat
  | [] => none
  | b :: bytes => if b == x || b == y || b == z then some 0 else (scanBytes x y z bytes).map (· + 1)

/-- The search byte by byte finds the first place. -/
theorem findsFirst_scanBytes : FindsFirst scanBytes := by
  intro x y z bytes
  induction bytes with
  | nil => rfl
  | cons b bytes ih => rw [scanBytes, List.findIdx?_cons, ih]

/-- A run with a character of two bytes in front of the reserved one, and one of three bytes behind
it. -/
theorem escaped_by_runs_multibyte :
    FindsFirst scanBytes ∧
    copyRuns scanBytes "<mtext>".toList "α<β".toList = some "<mtext>α&lt;β".toList ∧
    copyRuns scanBytes "<mtext>".toList ("α<β".toList ++ "&∑".toList)
      = (copyRuns scanBytes "<mtext>".toList "α<β".toList).bind (copyRuns scanBytes · "&∑".toList) ∧
    unescape (escape "α<β".toList) = "α<β".toList := by
  obtain ⟨hwritten, -, happend, -, -, hback⟩ :=
    escaped_by_runs findsFirst_scanBytes "<mtext>".toList "α<β".toList "&∑".toList
  refine ⟨findsFirst_scanBytes, ?_, happend, hback⟩
  rw [hwritten]
  decide

end FormulaMarkup.Text
