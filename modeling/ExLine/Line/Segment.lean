import ExLine.Error
import ExLine.Text.Bytes

/-!
Contract: where the arguments of a sub-command end.

Owns:
- `TailMode`, how much of a line a command claims for its arguments;
- `Segment.split`, which cuts the arguments off at the first separating bar
  and recognises a background marker at their end.

Does not own: cutting the arguments into words (`ExLine.Line.Arguments`).
-/

set_option autoImplicit false

namespace ExLine

/-- What counts as syntax in the arguments of a command. -/
inductive TailMode where
  /-- Only backslashes protect bars. -/
  | plain
  /-- Quotes protect bars too. -/
  | quoted
  /-- As quoted, and doubled bars and ampersands are operators. -/
  | expression
  /-- The rest of the line is the arguments, bars included. -/
  | raw (detectsBackground : Bool)
  deriving DecidableEq, Repr

namespace TailMode

/-- Whether quotes protect what stands between them. -/
def hasQuotes : TailMode → Bool
  | .quoted => true
  | .expression => true
  | _ => false

/-- Whether a doubled bar or ampersand is an operator. -/
def hasOperators : TailMode → Bool
  | .expression => true
  | _ => false

/-- Whether a bar ends the arguments. -/
def hasSeparator : TailMode → Bool
  | .raw _ => false
  | _ => true

/-- Whether a final ampersand is a background marker. -/
def hasBackground : TailMode → Bool
  | .raw detectsBackground => detectsBackground
  | _ => true

end TailMode

/-- The arguments of a sub-command. -/
structure Segment where
  /-- The text of the arguments, without the background marker. -/
  body : Bytes
  background : Bool
  /-- What follows the separator, if there is one. -/
  rest : Option Bytes
  deriving DecidableEq, Repr

namespace Segment

/-- The text up to the separator, scanned from a place on. -/
structure Cut where
  /-- Everything before the separator. -/
  text : Bytes
  /-- What stands before the last ampersand, if only blanks follow that. -/
  beforeMarker : Option Bytes
  rest : Option Bytes
  deriving DecidableEq, Repr

namespace Cut

/-- The end of the arguments. -/
def stop (rest : Option Bytes) : Cut := ⟨[], none, rest⟩

/-- Puts a byte in front that is no background marker. -/
def cons (byte : UInt8) (cut : Cut) : Cut :=
  { cut with text := byte :: cut.text, beforeMarker := cut.beforeMarker.map (byte :: ·) }

/-- Puts an ampersand in front. It is the marker if only blanks follow it. -/
def consAmpersand (byte : UInt8) (cut : Cut) : Cut :=
  if cut.text.all Byte.isBlank then
    { cut with text := byte :: cut.text, beforeMarker := some [] }
  else cut.cons byte

@[simp]
theorem rest_cons (byte : UInt8) (cut : Cut) : (cut.cons byte).rest = cut.rest :=
  rfl

@[simp]
theorem rest_consAmpersand (byte : UInt8) (cut : Cut) :
    (cut.consAmpersand byte).rest = cut.rest := by
  unfold consAmpersand
  split <;> rfl

end Cut

/-- Scans the arguments from a place on, inside `quote` if there is one, and
past the next byte whatever it is if `literal` is set. A backslash makes the
byte after it literal, except between single quotes; so does the first sign of
a doubled operator. The error is the quote that is still open at the end. -/
def scan (mode : TailMode) (quote : Option UInt8) (literal : Bool) :
    Bytes → Except UInt8 Cut
  | [] =>
    match quote with
    | some opening => .error opening
    | none => .ok (Cut.stop none)
  | byte :: rest =>
    if literal then return (← scan mode quote false rest).cons byte
    else match quote with
      | some opening =>
        if byte = opening then return (← scan mode none false rest).cons byte
        else
          let escapes := byte == Byte.backslash && opening == Byte.doubleQuote
          return (← scan mode (some opening) escapes rest).cons byte
      | none =>
        if byte = Byte.backslash then return (← scan mode none true rest).cons byte
        else if mode.hasQuotes && (byte == Byte.singleQuote || byte == Byte.doubleQuote) then
          return (← scan mode (some byte) false rest).cons byte
        else if mode.hasOperators && (byte == Byte.bar || byte == Byte.ampersand)
            && rest.head? == some byte then
          return (← scan mode none true rest).cons byte
        else if mode.hasSeparator && byte == Byte.bar then .ok (Cut.stop (some rest))
        else if byte = Byte.ampersand then
          return (← scan mode none false rest).consAmpersand byte
        else return (← scan mode none false rest).cons byte

/-- Cuts the arguments off a tail. -/
def split (mode : TailMode) (tail : Bytes) : Except CommandError Segment :=
  match scan mode none false tail with
  | .error quote => .error (.unterminatedQuote (Byte.toChar quote))
  | .ok cut =>
    match cut.beforeMarker with
    | some body =>
      if mode.hasBackground then .ok ⟨body, true, cut.rest⟩ else .ok ⟨cut.text, false, cut.rest⟩
    | none => .ok ⟨cut.text, false, cut.rest⟩

/-! ## What follows a separator is shorter -/

theorem length_lt_of_scan
    {mode : TailMode}
    {quote : Option UInt8}
    {literal : Bool}
    {bytes rest : Bytes}
    {cut : Cut}
    (scanned : scan mode quote literal bytes = .ok cut)
    (left : cut.rest = some rest) :
    rest.length < bytes.length := by
  fun_induction scan mode quote literal bytes generalizing cut with
  | case1 => cases scanned
  | case2 =>
    cases scanned
    cases left
  | case9 =>
    cases scanned
    cases left
    simp
  | _ =>
    rename_i inductionHypothesis
    simp only [bind, Except.bind, pure, Except.pure] at scanned
    split at scanned
    · cases scanned
    · rename_i later found
      cases scanned
      have shorter := inductionHypothesis found (by simpa using left)
      simp only [List.length_cons]
      omega

theorem length_lt_of_split
    {mode : TailMode}
    {tail rest : Bytes}
    {segment : Segment}
    (cutOff : split mode tail = .ok segment)
    (left : segment.rest = some rest) :
    rest.length < tail.length := by
  unfold split at cutOff
  split at cutOff
  · cases cutOff
  · rename_i cut scanned
    have restOfCut : segment.rest = cut.rest := by
      split at cutOff
      · split at cutOff <;> cases cutOff <;> rfl
      · cases cutOff
        rfl
    exact length_lt_of_scan scanned (restOfCut ▸ left)

end Segment

end ExLine
