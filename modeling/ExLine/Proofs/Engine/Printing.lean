import ExLine.Proofs.Engine.Recovery
import ExLine.Proofs.Expr.Assignments
import ExLine.Proofs.Expr.Literals
import ExLine.Proofs.Expr.Separators

/-!
Contract: lines with expressions, and texts that go through them unchanged.

Owns:
- `Engine.runLine_expression`: a text that the lexer accepts reaches the action of
  its command with all of its tokens;
- `Engine.runLine_echo` and `Engine.runLine_let`, the two commands at hand, and
  `Engine.execute_let`, what a line with an assignment stores, whatever its target;
- `Engine.literals_come_back`.

Does not own: how a literal is written (`ExLine.Proofs.Expr.Literals`).

A literal may hold bars, ampersands, line breaks and blanks at either end. The
scan for the end of the sub-command passes over it, the trim stops at its last
quote, and the lexer decodes it.
-/

set_option autoImplicit false

namespace ExLine

namespace Engine

/-! ## Lines with expressions -/

/-- The call of a command with an expression, by what stands after its name. -/
def expressionCall (name : String) (tail : List Char) : Invocation where
  name
  args :=
    let text := String.ofList (Chars.trimBlanks tail)
    if text.isEmpty then [] else [text]
  text := String.ofList (Chars.trimBlanks tail)
  background := false
  bang := false
  range := none

section Expressions

variable {engine : Engine} {tail : List Char} {tokens : List Token}
  (orderly : engine.Orderly)
  (running : engine.scope.isFinished = false)
  (active : engine.isActive)
  (ends : Chars.endsWord tail)
  (lexed : Token.lex tail = .ok tokens)

include orderly running active ends lexed

theorem runLine_expression
    {command : Command}
    {action : Builtin}
    {word : List Char}
    (builtin : command ∈ Command.builtins)
    (named : String.ofList word ∈ command.names)
    (isWord : Chars.isWord word)
    (flags : command.flags = Command.expressionFlags)
    (handler : command.handler = .builtin action)
    (accepts : command.accepts (expressionCall command.name tail).args.length)
    (call : UserCall)
    (site : Site) :
    engine.runLine call site (Utf8.encode (word ++ tail))
      = engine.runBuiltin action site (expressionCall command.name tail) := by
  have asks : Head.read (Utf8.encode (word ++ tail))
      = .ok (.command ⟨none, String.ofList word, false,
          Utf8.encode (tail.dropWhile Chars.isBlank)⟩) :=
    @Head.read_encode [] word tail rfl isWord ends
  have whole : Segment.split command.flags.tailMode (Utf8.encode (tail.dropWhile Chars.isBlank))
      = .ok ⟨Utf8.encode (tail.dropWhile Chars.isBlank), false, none⟩ := by
    rw [flags]
    exact (Token.passes_of_lex ((Token.lex_dropWhile tail).trans lexed)).split
  have decoded : Arguments.decode (Arguments.trim (Utf8.encode (tail.dropWhile Chars.isBlank)))
      = .ok (String.ofList (Chars.trimBlanks tail)) := by
    unfold Arguments.decode
    rw [Arguments.trim_encode, Utf8.decode_encode]
    rfl
  have taken : Invocation.arguments command.flags engine.env
      (Arguments.trim (Utf8.encode (tail.dropWhile Chars.isBlank)))
      (String.ofList (Chars.trimBlanks tail)) = .ok (expressionCall command.name tail).args := by
    rw [flags]
    rfl
  have valid : command.validate (expressionCall command.name tail) = .ok () :=
    validate_bare accepts
  rw [runLine_call running active asks (Chars.isEmpty_of_isWord isWord)
    (orderly.resolve_builtin builtin named) whole decoded taken]
  show engine.dispatch call site command (expressionCall command.name tail) = _
  unfold dispatch
  rw [valid, handler]

theorem runLine_echo (call : UserCall) (site : Site) :
    engine.runLine call site (Utf8.encode ("echo".toList ++ tail))
      = engine.echo (expressionCall "echo" tail) := by
  have isBuiltin : (Registry.builtins.get? "echo").get rfl ∈ Command.builtins :=
    List.mem_of_find?_eq_some (Option.some_get _).symm
  exact runLine_expression orderly running active ends lexed isBuiltin List.mem_cons_self rfl rfl
    rfl rfl call site

/-- An assignment needs a text. -/
theorem runLine_let
    (nonempty : tokens ≠ [])
    (call : UserCall)
    (site : Site) :
    engine.runLine call site (Utf8.encode ("let".toList ++ tail))
      = engine.assign (expressionCall "let" tail) := by
  have isBuiltin : (Registry.builtins.get? "let").get rfl ∈ Command.builtins :=
    List.mem_of_find?_eq_some (Option.some_get _).symm
  have someText : (String.ofList (Chars.trimBlanks tail)).isEmpty = false := by
    rw [Bool.eq_false_iff]
    intro noText
    have nothing : Chars.trimBlanks tail = [] := by
      simpa using noText
    have trimmed := Token.lex_trimBlanks lexed
    rw [nothing, Token.lex] at trimmed
    cases trimmed
    exact nonempty rfl
  have oneArgument : (expressionCall "let" tail).args.length = 1 := by
    simp only [expressionCall, someText, Bool.false_eq_true, if_false, List.length_singleton]
  have accepts : ((Registry.builtins.get? "let").get rfl).accepts
      (expressionCall "let" tail).args.length := by
    rw [oneArgument]
    rfl
  exact runLine_expression orderly running active ends lexed isBuiltin List.mem_cons_self rfl rfl
    rfl accepts call site

end Expressions

/-! ## Assignments in lines -/

/-- The line that carries out an assignment. -/
def assignmentLine (text : List Char) : Bytes :=
  Utf8.encode ("let".toList ++ ' ' :: text)

/-- A fixed command would run here. -/
structure IsOpen (engine : Engine) : Prop where
  orderly : engine.Orderly
  running : engine.scope.isFinished = false
  active : engine.isActive

/-- What an assignment stores in its target, by what follows the target. -/
def newValue (engine : Engine) (target : Target) (tail : List Token) : Except ExprError Value := do
  let (op, expr) ← Assignment.readTail tail
  let value ← expr.eval engine.bindings
  op.combine (nameOf target) (engine.held target) value

/-- Stores the value of an assignment, if it has one. -/
def assignTo (engine : Engine) (target : Target) (tail : List Token) : Reply × Engine :=
  match engine.newValue target tail with
  | .ok value => (engine.store target value).done
  | .error error => engine.refuse (.expression error)

theorem IsOpen.store
    {engine : Engine}
    (isOpen : engine.IsOpen)
    (target : Target)
    (value : Value) :
    (engine.store target value).IsOpen := by
  cases target <;>
    exact ⟨isOpen.orderly.of_grows (.congr rfl rfl), isOpen.running, isOpen.active⟩

theorem IsOpen.assignTo
    {engine : Engine}
    (isOpen : engine.IsOpen)
    (target : Target)
    (tail : List Token) :
    (engine.assignTo target tail).2.IsOpen := by
  unfold Engine.assignTo
  split
  · exact isOpen.store target _
  · exact isOpen

theorem assign_eq_assignTo
    {engine : Engine}
    {invocation : Invocation}
    {chars : List Char}
    {first : Token}
    {tail : List Token}
    {target : Target}
    (text : invocation.text = String.ofList chars)
    (lexed : Token.lex chars = .ok (first :: tail))
    (names : Target.ofToken? first = some target) :
    engine.assign invocation = engine.assignTo target tail := by
  unfold assign assignTo assigned newValue
  rw [text, Assignment.parse_of_lex lexed names]
  cases Assignment.readTail tail with
  | error error => rfl
  | ok assignment =>
    obtain ⟨op, expr⟩ := assignment
    simp only [bind, Except.bind, pure, Except.pure]
    cases expr.eval engine.bindings with
    | error error => rfl
    | ok value =>
      simp only
      cases op.combine (nameOf target) (engine.held target) value <;> rfl

theorem execute_let
    {engine : Engine}
    {text : List Char}
    {first : Token}
    {tail : List Token}
    {target : Target}
    (isOpen : engine.IsOpen)
    (lexed : Token.lex text = .ok (first :: tail))
    (names : Target.ofToken? first = some target)
    (source : Source) :
    engine.execute source (assignmentLine text) = engine.assignTo target tail := by
  have lexedTail : Token.lex (' ' :: text) = .ok (first :: tail) :=
    (Token.lex_of_blank rfl).trans lexed
  have ran : engine.runTop source (assignmentLine text) = _ :=
    runLine_let isOpen.orderly isOpen.running isOpen.active rfl lexedTail (List.cons_ne_nil _ _) _ _
  rw [assign_eq_assignTo rfl (Token.lex_trimBlanks lexedTail) names] at ran
  exact execute_eq_runTop ran (isOpen.assignTo target tail).running

/-! ## Literals -/

theorem evalAll_strings (bindings : Bindings) (texts : List String) :
    Expr.evalAll bindings (texts.map .str) = .ok (texts.map .str) := by
  induction texts with
  | nil => rfl
  | cons text others inductionHypothesis =>
    rw [List.map_cons, List.map_cons, Expr.evalAll, inductionHypothesis]
    rfl

/-- The line that prints literals. -/
def echoLine (literals : List Literal.Placed) : Bytes :=
  Utf8.encode ("echo".toList ++ Literal.written literals)

/-- The line that assigns a literal. -/
def letLine (name : String) (literal : Literal) : Bytes :=
  assignmentLine (name.toList ++ ' ' :: '=' :: ' ' :: literal.chars)

theorem echo_literals (engine : Engine) (literals : List Literal.Placed) :
    engine.echo (expressionCall "echo" (Literal.written literals))
      = (.ok (Outcome.success (Text.join " " (literals.map fun placed => placed.literal.text))),
          engine) := by
  have values : engine.valuesOf (expressionCall "echo" (Literal.written literals)).text
      = .ok ((literals.map fun placed => placed.literal.text).map .str) := by
    have trimmed := Token.lex_trimBlanks (Literal.lex_written literals)
    have exprs := Expr.readAll_literals (literals.map fun placed => placed.literal) 0
    rw [List.map_map, List.map_map] at exprs
    unfold valuesOf Expr.parseList expressionCall
    rw [Token.ofSource_of_lex trimmed]
    refine bind_eq_ok_iff.mpr ⟨_, exprs, ?_⟩
    have evaluated := evalAll_strings engine.bindings
      (literals.map fun placed => placed.literal.text)
    rw [List.map_map, List.map_map] at evaluated
    rw [List.map_map]
    exact evaluated
  unfold echo
  rw [values]
  simp only [List.map_map]
  rfl

theorem lex_assignment
    {name : String}
    (isVariable : Chars.isVariable name.toList)
    (literal : Literal) :
    Token.lex (name.toList ++ ' ' :: '=' :: ' ' :: literal.chars)
      = .ok [.ident name, .assign, literal.token] := by
  have last : Token.lex literal.chars = .ok [literal.token] := by
    have alone := @Literal.lex_chars literal [] [] (by simp) (by rw [Token.lex])
    rwa [List.append_nil] at alone
  have value : Token.lex ('=' :: ' ' :: literal.chars) = .ok [.assign, literal.token] :=
    Token.lex_of_read rfl rfl ((Token.lex_of_blank rfl).trans last)
  have whole := Token.lex_name isVariable value
  rwa [String.ofList_toList] at whole

theorem assignTo_literal (engine : Engine) (name : String) (literal : Literal) :
    engine.assignTo (.var name) [.assign, literal.token]
      = (.ok Outcome.done, { engine with scope := engine.scope.set name (.str literal.text) }) := by
  have value := @Rule.run_atom _ _ [] literal.atom?_token (fun next none => nomatch none) 0
  have read : Assignment.readTail [.assign, literal.token] = .ok (.set, .str literal.text) := by
    simp only [Assignment.readTail, AssignOp.ofToken?, bind, Except.bind, value]
    rfl
  unfold assignTo newValue
  rw [read]
  rfl

/-- **Texts written as literals come back.** Where commands run, in every state
that a session comes by: printing literals of any texts, each in single quotes
with every single quote doubled or in double quotes with a backslash before every
double quote and backslash, succeeds, prints these texts with a space between
each two, and changes nothing. Assigning such a literal sets the variable in the
innermost frame to the text, and changes nothing else. -/
theorem literals_come_back
    {engine : Engine}
    (occurs : engine.Occurs)
    (running : engine.scope.isFinished = false)
    (active : engine.isActive)
    (source : Source) :
    (∀ literals : List Literal.Placed,
      engine.execute source (echoLine literals)
        = (.ok ⟨0, Text.join " " (literals.map fun placed => placed.literal.text), ""⟩, engine))
    ∧ ∀ (name : String) (literal : Literal), Chars.isVariable name.toList →
      engine.execute source (letLine name literal)
        = (.ok Outcome.done,
            { engine with scope := engine.scope.set name (.str literal.text) }) := by
  have orderly := occurs.orderly
  constructor
  · intro literals
    have ends : Chars.endsWord (Literal.written literals) := by
      unfold Chars.endsWord
      rw [Option.all_eq_true]
      exact fun char first => Literal.isBlank_of_head?_written first
    have ran : engine.runTop source (echoLine literals) = _ :=
      (runLine_echo orderly running active ends (Literal.lex_written literals) _ _).trans
        (echo_literals engine literals)
    exact execute_eq_runTop ran running
  · intro name literal isVariable
    have isOpen : engine.IsOpen := ⟨orderly, running, active⟩
    exact (execute_let isOpen (lex_assignment isVariable literal) rfl source).trans
      (assignTo_literal engine name literal)

/-- A text of quotes, a bar and a last backslash, and a text with blanks and a
line break around quotes, a backslash and an ampersand. -/
def awkward : List Literal.Placed :=
  [⟨['\t'], ⟨.single, "''|\\"⟩, by decide, by simp [Chars.isBlank]⟩,
    ⟨[' ', '\t'], ⟨.double, " \"\\&\n "⟩, by decide, by simp [Chars.isBlank]⟩]

theorem literals_come_back_awkward :
    echoLine awkward = Utf8.ofString "echo\t'''''|\\' \t\" \\\"\\\\&\n \""
    ∧ Engine.execute {} .typed (echoLine awkward)
      = (.ok ⟨0, "''|\\  \"\\&\n ", ""⟩, {})
    ∧ letLine "x" ⟨.single, "''|\\"⟩ = Utf8.ofString "let x = '''''|\\'"
    ∧ Engine.execute {} .typed (letLine "x" ⟨.single, "''|\\"⟩)
      = (.ok Outcome.done, { scope := { innermost := { vars := ⟨[("x", .str "''|\\")]⟩ } } }) := by
  obtain ⟨printed, assigned⟩ := literals_come_back
    (Occurs.afterAll {} {} {} (Launcher.ofList []) []) rfl rfl .typed
  refine ⟨by decide, ?_, by decide, ?_⟩
  · exact (printed awkward).trans rfl
  · exact (assigned "x" ⟨.single, "''|\\"⟩ rfl).trans rfl

end Engine

end ExLine
