import FormulaMarkup.Convert
import FormulaMarkup.Proofs.Isolation.Lockstep
import FormulaMarkup.Proofs.Notation.Tokens

/-!
# FormulaMarkup — constructs isolate their content

A content between delimiters is read as it would be read alone, even if it is malformed.  Nothing
in it takes the closing delimiter for an argument, and nothing of what follows gets into it.

The simulation of `Lockstep` is used with a content that is a whole source on one side and is
followed by a delimiter on the other.  What is left to say for each construct is that its delimiter
closes a content and is not found in it.

* **`readExpression_content`** — a content is read up to its delimiter.
* **`readBraced_content`**, **`readFenced_content`**, **`readEnvironment_content`** — the three
  kinds of delimiters.
* **`content_isolated`** — what the constructs have in common.
-/

namespace FormulaMarkup.Isolation

open Source Text Formula

/-! ## The content

A whole source waits for nothing, and a construct waits for its delimiter.  Both expressions end at
the same place if the delimiter does not occur in the content. -/

/-- If no place in a content is one at which an expression with this stop ends, but what follows is
one, the stops agree with none at all: the content alone is read to its end. -/
theorem StopsAgree.content {x t : List Char} {stop : Stop}
    (hwithin : ∀ c u, Contained 0 (c :: u) → stop.isAt (c :: (u ++ x)) = false)
    (hlast : stop.isAt x = true) : StopsAgree x 0 [] [stop] t where
  within c u _ hrest := by
    show (stop.isAt (c :: (u ++ x)) || false) = false
    rw [hwithin c u hrest, Bool.or_false]
  brace u hrest := by
    obtain ⟨_, hdepth, _⟩ := hrest.closed
    cases hdepth
  last _ := .inr (by
    show (stop.isAt x || false) = true
    rw [hlast, Bool.true_or])

/-- **A content is read up to its delimiter** as if it were the whole source.  This is
`matches_readExpression` with the reading of the content alone on the left. -/
theorem readExpression_content {levels : Nat} (hlevels : levels ≤ maxNesting) {t x : List Char}
    (ht : SelfContained t) (hx : Closing x) {stops : List Stop}
    (hstops : StopsAgree x 0 [] stops t)
    (hlimit : WithinLimit (readExpression (atomReader levels) stops (t ++ x)).log) :
    readExpression (atomReader levels) stops (t ++ x) = ⟨(read t).value, x, (read t).log⟩ := by
  have hagree := agree_atomReader hx hlevels
  obtain ⟨heq, _⟩ := matches_readExpression hx hagree ht.contained hstops hlimit
  have hend : (readExpression (atomReader maxNesting) [] t).rest = [] := rest_read t
  rw [heq, followed, hend]
  rfl

/-! ## The delimiters

A brace, the command that closes a fence and the end of an environment.  The first one may stand in
the content with the group that it closes; the other two are paired commands and do not. -/

/-- The end of the input closes a content. -/
theorem closing_nil : Closing [] := ⟨rfl, by rintro c u ⟨⟩⟩

/-- A closing brace closes a content. -/
theorem closing_brace (r : List Char) : Closing ('}' :: r) :=
  ⟨rfl, by rintro c u ⟨⟩; rfl⟩

/-- The stop `.groupEnd`: the first brace that closes no group of the content is the one behind
it. -/
theorem StopsAgree.braced (t r : List Char) : StopsAgree ('}' :: r) 0 [] [.groupEnd] t := by
  refine .content (fun c u hrest => ?_) rfl
  refine beq_eq_false_iff_ne.mpr fun hc => ?_
  obtain rfl : c = '}' := Option.some.inj hc
  obtain ⟨_, hdepth, _⟩ := hrest.closed
  cases hdepth

/-- The end of an environment, with what follows it. -/
def environmentEnd (name r : List Char) : List Char := "\\end\x7b".toList ++ (name ++ '}' :: r)

/-- The end of an environment closes a content, is the stop that is waited for, and
`skipEnvironmentEnd` consumes it with the name. -/
theorem closing_environmentEnd {name : List Char} (hname : Balanced name) (r : List Char) :
    Closing (environmentEnd name r) ∧
      (Stop.environmentEnd name).isAt (environmentEnd name r) = true ∧
      skipEnvironmentEnd (environmentEnd name r) = r := by
  have hat : atCommand "end".toList (environmentEnd name r) = true :=
    atCommand_iff.mpr ⟨'{' :: (name ++ '}' :: r), rfl, rfl⟩
  have hread : readCommand (environmentEnd name r) = ("end".toList, '{' :: (name ++ '}' :: r)) :=
    readCommand_end rfl
  have hgroup : readGroup ('{' :: (name ++ '}' :: r)) = (name, r) := groupText_balanced hname r
  refine ⟨⟨rfl, by rintro c u ⟨⟩; rfl⟩, ?_, ?_⟩
  · rw [Stop.isAt, Stop.atEnvironmentEnd, hat, hread, hgroup]
    exact beq_self_eq_true name
  · rw [skipEnvironmentEnd, if_pos hat, hread, hgroup]

section Delimiters

variable {levels : Nat} (hlevels : levels ≤ maxNesting) {t : List Char} (ht : SelfContained t)
  (r : List Char)
include hlevels ht

/-- `readBraced` reads a group up to its own brace, which it consumes. -/
theorem readBraced_content
    (hlimit : WithinLimit (readBraced (atomReader levels) (t ++ '}' :: r)).log) :
    readBraced (atomReader levels) (t ++ '}' :: r) = ⟨(read t).value, r, (read t).log⟩ := by
  have hcontent := readExpression_content hlevels ht (closing_brace r) (.braced t r) hlimit
  rw [readBraced, hcontent]
  rfl

/-- A fence is read up to the command `right` that closes it, with the closing glyph behind this
command. -/
theorem readFenced_content
    (hlimit : WithinLimit (readFenced (atomReader levels)
      ('(' :: (t ++ ("\\right".toList ++ ')' :: r)))).log) :
    readFenced (atomReader levels) ('(' :: (t ++ ("\\right".toList ++ ')' :: r))) =
      ⟨.fenced "(" ")" (read t).value, r, (read t).log⟩ := by
  have hat : atCommand "right".toList ("\\right".toList ++ ')' :: r) = true :=
    atCommand_iff.mpr ⟨')' :: r, rfl, rfl⟩
  have hx : Closing ("\\right".toList ++ ')' :: r) := ⟨rfl, by rintro c u ⟨⟩; rfl⟩
  -- a content has no paired command, so the first `right` is the one behind it
  have hstops : StopsAgree ("\\right".toList ++ ')' :: r) 0 [] [.right] t := by
    refine .content (fun c u hrest => ?_) hat
    show atCommand "right".toList (c :: (u ++ ("\\right".toList ++ ')' :: r))) = false
    rw [hx.atCommand_append "right".toList (by decide) (by decide) hrest,
      hrest.atCommand_eq_false (by decide)]
  have hcontent := readExpression_content hlevels ht hx hstops hlimit
  -- both glyphs are parentheses
  have hopening : readDelimiter ('(' :: (t ++ ("\\right".toList ++ ')' :: r))) =
      ("(", t ++ ("\\right".toList ++ ')' :: r)) := rfl
  have hread : readCommand ("\\right".toList ++ ')' :: r) = ("right".toList, ')' :: r) :=
    readCommand_letters (by decide) (by decide) rfl
  simp only [readFenced, hopening, hcontent, hat, hread, if_true]
  rfl

/-- An environment is read up to its end, which is consumed with the name; the name is reported,
since it is that of no table. -/
theorem readEnvironment_content {name : List Char} (hne : name ≠ []) (hname : Balanced name)
    (hplain : Environment.ofName? (String.ofList name) = none)
    (hlimit : WithinLimit (readEnvironment (atomReader levels)
      ('{' :: (name ++ '}' :: (t ++ environmentEnd name r)))).log) :
    readEnvironment (atomReader levels) ('{' :: (name ++ '}' :: (t ++ environmentEnd name r))) =
      ⟨(read t).value, r, .unknownEnvironment name :: (read t).log⟩ := by
  obtain ⟨hx, hat, hskip⟩ := closing_environmentEnd hname r
  have hgroup : ∀ u, readGroup ('{' :: (name ++ '}' :: u)) = (name, u) :=
    groupText_balanced hname
  -- no command `end` stands in a content, whatever name follows it
  have hstops : StopsAgree (environmentEnd name r) 0 [] [.environmentEnd name] t := by
    refine .content (fun c u hrest => ?_) hat
    rw [Stop.isAt, Stop.atEnvironmentEnd,
      hx.atCommand_append "end".toList (by decide) (by decide) hrest,
      hrest.atCommand_eq_false (by decide), Bool.false_and]
  simp only [readEnvironment, hgroup, hne, if_false, hplain] at hlimit ⊢
  -- the name has been reported before the body is read, so the log of the body is shorter
  have hbody : WithinLimit (readExpression (atomReader levels) [.environmentEnd name]
      (t ++ environmentEnd name r)).log :=
    fun n hn => hlimit n (List.mem_cons_of_mem _ hn)
  rw [readExpression_content hlevels ht hx hstops hbody]
  simp only [hskip]

end Delimiters

/-! ## The constructs

With its delimiters a content is an atom.  It is read at any depth of nesting, and as long as the
limit is not reached the result is that of the content alone. -/

/-- A content in braces, with what follows the construct. -/
def inBraces (t r : List Char) : List Char := '{' :: (t ++ '}' :: r)

/-- A content between fences, with what follows the construct. -/
def inFence (t r : List Char) : List Char := "\\left(".toList ++ (t ++ ("\\right)".toList ++ r))

/-- A content in an environment, with what follows the construct. -/
def inEnvironment (name t r : List Char) : List Char :=
  "\\begin\x7b".toList ++ (name ++ '}' :: (t ++ ("\\end\x7b".toList ++ (name ++ '}' :: r))))

/-- Where an atom starts one is read, and if it stays within the limit there was a level for it, so
that `readAtomBody` has read it. -/
theorem read_within (config : Config) {levels : Nat} (hlevels : levels ≤ maxNesting) {s : List Char}
    (hs : startsAtom s = true) (result : Reading Formula)
    (hbody : ∀ l ≤ maxNesting, WithinLimit (readAtomBody (atomReader l) s).log →
      readAtomBody (atomReader l) s = result) :
    ∃ atom, (atomReader levels).read s = some atom ∧
      (WithinLimit atom.log → atom.map (layOut config) = result.map (layOut config)) := by
  cases levels with
  | zero => exact ⟨readVerbatim s, if_pos hs, fun hlimit => absurd List.mem_cons_self (hlimit _)⟩
  | succ l =>
    refine ⟨_, read_atomReader_succ l hs, fun hlimit => ?_⟩
    rw [hbody l (Nat.le_of_succ_le hlevels) hlimit]

/-- **Constructs isolate their content**, even if it is malformed.  At every depth of nesting, a
`SelfContained` content in braces, between fences or in an environment that is no table is read as
the tree of the content alone, and exactly what follows the construct is left, as long as the limit
on nesting is not reached. -/
theorem content_isolated (config : Config) (depth : Nat) {t : List Char} (ht : SelfContained t)
    (r : List Char) :
    (∃ atom, (atomReader (maxNesting - depth)).read (inBraces t r) = some atom ∧
      (WithinLimit atom.log → atom.map (layOut config) =
        ⟨(parse config t).value, r, (parse config t).log⟩)) ∧
    (∃ atom, (atomReader (maxNesting - depth)).read (inFence t r) = some atom ∧
      (WithinLimit atom.log → atom.map (layOut config) =
        ⟨.fenced "(" ")" (parse config t).value, r, (parse config t).log⟩)) ∧
    (∀ name, name ≠ [] → Balanced name → Environment.ofName? (String.ofList name) = none →
      ∃ atom, (atomReader (maxNesting - depth)).read (inEnvironment name t r) = some atom ∧
        (WithinLimit atom.log → atom.map (layOut config) =
          ⟨(parse config t).value, r, .unknownEnvironment name :: (parse config t).log⟩)) := by
  have hlevels : maxNesting - depth ≤ maxNesting := Nat.sub_le _ _
  -- one case for each kind of delimiters
  refine ⟨?_, ?_, fun name hne hname hplain => ?_⟩
  · have hbody (a : AtomReader) :
        readAtomBody a (inBraces t r) = readBraced a (t ++ '}' :: r) := rfl
    refine read_within config hlevels ?_ ⟨(read t).value, r, (read t).log⟩ fun l hl => ?_
    · rfl
    rw [hbody]
    exact readBraced_content hl ht r
  · have hsource : inFence t r =
        '\\' :: ("left".toList ++ '(' :: (t ++ ("\\right".toList ++ ')' :: r))) := rfl
    rw [hsource]
    refine read_within config hlevels ?_ ⟨.fenced "(" ")" (read t).value, r, (read t).log⟩
      fun l hl => ?_
    · rfl
    rw [readAtomBody_letters (atomReader l) "left" (by decide) (by decide) rfl]
    exact readFenced_content hl ht r
  · have hsource : inEnvironment name t r =
        '\\' :: ("begin".toList ++ '{' :: (name ++ '}' :: (t ++ environmentEnd name r))) := rfl
    rw [hsource]
    refine read_within config hlevels ?_
      ⟨(read t).value, r, .unknownEnvironment name :: (read t).log⟩ fun l hl => ?_
    · rfl
    rw [readAtomBody_letters (atomReader l) "begin" (by decide) (by decide) rfl]
    exact readEnvironment_content hl ht r hne hname hplain

/-- A script without an argument, stray separators, an unknown command and two commands whose
arguments are missing. -/
def malformedContent : List Char := "a^&\\frac\x7bb_\x7d\\\\\\foo^^ \\text".toList

/-- All three constructs around a malformed content, with a script marker behind them that the
content does not see. -/
theorem content_isolated_malformed :
    SelfContained malformedContent ∧
    (∃ atom, (atomReader (maxNesting - 3)).read (inBraces malformedContent "^2".toList) =
        some atom ∧
      atom.map (layOut .standard) =
        ⟨(parse .standard malformedContent).value, "^2".toList,
          (parse .standard malformedContent).log⟩) ∧
    (∃ atom, (atomReader (maxNesting - 3)).read (inFence malformedContent "^2".toList) =
        some atom ∧
      atom.map (layOut .standard) =
        ⟨.fenced "(" ")" (parse .standard malformedContent).value, "^2".toList,
          (parse .standard malformedContent).log⟩) ∧
    ∃ atom, (atomReader (maxNesting - 3)).read
        (inEnvironment "proof".toList malformedContent "^2".toList) = some atom ∧
      atom.map (layOut .standard) =
        ⟨(parse .standard malformedContent).value, "^2".toList,
          .unknownEnvironment "proof".toList :: (parse .standard malformedContent).log⟩ := by
  have hcontent : SelfContained malformedContent := by decide +kernel
  obtain ⟨⟨group, hgroup, hisGroup⟩, ⟨fence, hfence, hisFence⟩, henvironments⟩ :=
    content_isolated .standard 3 hcontent "^2".toList
  obtain ⟨body, hbody, hisBody⟩ :=
    henvironments "proof".toList (by decide) (by decide) (by decide)
  -- none of the three readings gets near the limit
  have hlimits : ∀ source ∈ [inBraces malformedContent "^2".toList,
      inFence malformedContent "^2".toList,
      inEnvironment "proof".toList malformedContent "^2".toList],
      ∀ atom ∈ (atomReader (maxNesting - 3)).read source, WithinLimit atom.log := by
    decide +kernel
  exact ⟨hcontent, ⟨group, hgroup, hisGroup (hlimits _ (by simp) _ hgroup)⟩,
    ⟨fence, hfence, hisFence (hlimits _ (by simp) _ hfence)⟩,
    ⟨body, hbody, hisBody (hlimits _ (by simp) _ hbody)⟩⟩

end FormulaMarkup.Isolation
