import FormulaMarkup.Node

/-!
# FormulaMarkup — what commands stand for

A command is a backslash and a name.  Some names are words of the language and take arguments; the
others are looked up in the tables of this module.  Names are case-sensitive, and a name is in at
most one of the tables of symbols.

* **`Symbol.ofName?`** — letters, operators, large operators and functions.
* **`namedDelimiter?`** and **`literalDelimiter`** — the glyphs of fences.
* **`accent?`** and **`variant?`** — commands that change their argument.
-/

namespace FormulaMarkup.Source

/-- What a command that takes no argument stands for. -/
inductive Symbol where
  | letter (glyph : String)
  /-- An operator or a relation. -/
  | operator (glyph : String)
  /-- An operator that takes limits. -/
  | largeOperator (glyph : String)
  /-- A function, which is shown under its own name. -/
  | function
  deriving DecidableEq, Repr

/-- The commands that stand for letters. -/
def letters : List (String × String) :=
  [("alpha", "α"), ("beta", "β"), ("gamma", "γ"), ("delta", "δ"), ("epsilon", "ε"),
   ("varepsilon", "ϵ"), ("zeta", "ζ"), ("eta", "η"), ("theta", "θ"), ("vartheta", "ϑ"),
   ("iota", "ι"), ("kappa", "κ"), ("lambda", "λ"), ("mu", "μ"), ("nu", "ν"), ("xi", "ξ"),
   ("omicron", "ο"), ("pi", "π"), ("varpi", "ϖ"), ("rho", "ρ"), ("varrho", "ϱ"), ("sigma", "σ"),
   ("varsigma", "ς"), ("tau", "τ"), ("upsilon", "υ"), ("phi", "φ"), ("varphi", "ϕ"), ("chi", "χ"),
   ("psi", "ψ"), ("omega", "ω"), ("Gamma", "Γ"), ("Delta", "Δ"), ("Theta", "Θ"), ("Lambda", "Λ"),
   ("Xi", "Ξ"), ("Pi", "Π"), ("Sigma", "Σ"), ("Upsilon", "Υ"), ("Phi", "Φ"), ("Psi", "Ψ"),
   ("Omega", "Ω")]

/-- The commands that stand for operators. -/
def operators : List (String × String) :=
  [("times", "×"), ("cdot", "·"), ("pm", "±"), ("mp", "∓"), ("div", "÷"), ("le", "≤"), ("leq", "≤"),
   ("ge", "≥"), ("geq", "≥"), ("neq", "≠"), ("approx", "≈"), ("sim", "∼"), ("simeq", "≃"),
   ("equiv", "≡"), ("propto", "∝"), ("to", "→"), ("rightarrow", "→"), ("leftarrow", "←"),
   ("leftrightarrow", "↔"), ("Rightarrow", "⇒"), ("Leftarrow", "⇐"), ("Leftrightarrow", "⇔"),
   ("mapsto", "↦"), ("in", "∈"), ("notin", "∉"), ("subset", "⊂"), ("subseteq", "⊆"),
   ("supset", "⊃"), ("supseteq", "⊇"), ("cap", "∩"), ("cup", "∪"), ("setminus", "∖"),
   ("forall", "∀"), ("exists", "∃"), ("nabla", "∇"), ("partial", "∂"), ("infty", "∞"),
   ("angle", "∠"), ("cdots", "⋯"), ("ldots", "…"), ("vdots", "⋮"), ("ddots", "⋱"), ("perp", "⟂"),
   ("parallel", "∥"), ("mid", "∣"), ("neg", "¬"), ("land", "∧"), ("lor", "∨"), ("oplus", "⊕"),
   ("otimes", "⊗"), ("oslash", "⊘"), ("circ", "∘"), ("bullet", "•")]

/-- The commands that stand for large operators, which may take their scripts as limits. -/
def largeOperators : List (String × String) :=
  [("sum", "∑"), ("prod", "∏"), ("coprod", "∐"), ("int", "∫"), ("oint", "∮"), ("iint", "∬"),
   ("iiint", "∭"), ("oiint", "∯"), ("oiiint", "∰"), ("bigcup", "⋃"), ("bigcap", "⋂"),
   ("bigsqcup", "⨆"), ("bigvee", "⋁"), ("bigwedge", "⋀"), ("bigodot", "⨀"), ("bigotimes", "⨂"),
   ("bigoplus", "⨁")]

/-- The commands that stand for the names of functions. -/
def functions : List String :=
  ["sin", "cos", "tan", "cot", "sec", "csc", "arcsin", "arccos", "arctan", "sinh", "cosh", "tanh",
   "log", "ln", "exp", "lim", "max", "min", "sup", "inf", "det", "gcd", "lcm"]

/-- The symbol of this name.  The tables are looked up in their order. -/
def Symbol.ofName? (name : String) : Option Symbol :=
  match letters.lookup name with
  | some glyph => some (.letter glyph)
  | none =>
    match operators.lookup name with
    | some glyph => some (.operator glyph)
    | none =>
      match largeOperators.lookup name with
      | some glyph => some (.largeOperator glyph)
      | none => if name ∈ functions then some .function else none

/-- The characters that stand for themselves after a backslash. -/
def escapedLiterals : List String := ["\x7b", "\x7d", "#", "%", "$"]

/-- Whether a backslash and `name` stand for `name` itself. -/
def isEscapedLiteral (name : String) : Bool :=
  escapedLiterals.contains name

/-- The fences that are given by a command. -/
def namedDelimiters : List (String × String) :=
  [("(", "("), (")", ")"), ("[", "["), ("]", "]"), ("\x7b", "\x7b"), ("\x7d", "\x7d"), ("|", "|"),
   ("lbrace", "\x7b"), ("rbrace", "\x7d"), ("langle", "⟨"), ("rangle", "⟩"), ("lceil", "⌈"),
   ("rceil", "⌉"), ("lfloor", "⌊"), ("rfloor", "⌋"), ("vert", "|"), ("lvert", "|"), ("rvert", "|"),
   ("Vert", "‖"), ("lVert", "‖"), ("rVert", "‖")]

/-- The glyph of a fence that is given by a command. -/
def namedDelimiter? (name : String) : Option String :=
  namedDelimiters.lookup name

/-- The glyph of a fence that is given by a character: the character itself, but a period stands
for no fence. -/
def literalDelimiter (text : String) : String :=
  if text = "." then "" else text

/-- The commands that put an accent on their argument. -/
def accents : List (String × (String × AccentPosition)) :=
  [("overline", ("¯", .over)),
   ("bar", ("¯", .over)),
   ("underline", ("_", .under)),
   ("vec", ("→", .over)),
   ("hat", ("^", .over)),
   ("tilde", ("~", .over)),
   ("dot", ("˙", .over)),
   ("ddot", ("¨", .over))]

/-- The accent of this name. -/
def accent? (name : String) : Option (String × AccentPosition) :=
  accents.lookup name

/-- The commands that choose a letter form. -/
def variants : List (String × MathVariant) :=
  [("mathrm", .normal), ("mathit", .italic), ("mathbb", .doubleStruck), ("mathbf", .bold),
   ("mathtt", .monospace), ("mathcal", .script), ("mathfrak", .fraktur)]

/-- The style of this name. -/
def variant? (name : String) : Option MathVariant :=
  variants.lookup name

end FormulaMarkup.Source
