import ExLine.Directory
import ExLine.Shell.Tree
import ExLine.Shell.Utility
import ExLine.Table

/-!
Contract: running shell texts.

Owns:
- `State`, a shell while it runs;
- `State.expand`, the words that a written word stands for;
- `Tree.run`, which runs a text that has been taken apart;
- `runText`, what a shell prints for a text and how it ends.

Does not own: finding a shell by its path (`ExLine.Shell.Spawn`).

Running a tree is parametric in how shells inside it run; `runText` closes the
knot by recursion on how deep shells may start each other. What is written to
a file is not kept, and no file can be read.
-/

set_option autoImplicit false

namespace ExLine.Shell

/-- How a program ends. -/
inductive Ending where
  | exited (code : Nat)
  | killed
  deriving DecidableEq, Repr

/-- The code that a shell sees for an ending. -/
def Ending.code : Ending → Nat
  | .exited code => code
  | .killed => 137

/-! ## Redirections -/

/-- Where the two streams of a command go; a stream that goes nowhere is
lost. -/
structure Targets where
  output : Option Stream := some .output
  error : Option Stream := some .error

/-- Where a stream goes by its number. -/
def Targets.get (targets : Targets) (stream : Nat) : Option Stream :=
  if stream = 1 then targets.output else if stream = 2 then targets.error else none

/-- Sends a stream elsewhere. -/
def Targets.set (targets : Targets) (stream : Nat) (target : Option Stream) : Targets :=
  if stream = 1 then { targets with output := target }
  else if stream = 2 then { targets with error := target }
  else targets

/-- The streams after one redirection. -/
def Targets.redirect (targets : Targets) (stream : Nat) (way : Redirect) (word : String) :
    Targets :=
  match way with
  | .fromFile => targets
  | .toStream => targets.set stream (targets.get (Chars.decimalValue word.toList))
  | .toFile =>
    targets.set stream
      (if word = "/dev/stdout" then targets.output
       else if word = "/dev/stderr" then targets.error
       else none)

/-- Sends what was printed where the streams go. -/
def Targets.send (targets : Targets) (chunks : List Chunk) : List Chunk :=
  chunks.filterMap fun chunk =>
    (match chunk.stream with
      | .output => targets.output
      | .error => targets.error).map fun stream => { chunk with stream }

/-! ## The shell -/

/-- A shell while it runs. -/
structure State where
  vars : Table String
  cwd : String
  /-- The name that the shell was started by. -/
  name : String
  status : Nat := 0
  /-- The shell has ended. -/
  ended : Option Ending := none

/-- The names of shells. -/
def shells : List String := ["sh", "dash", "bash"]

/-- The name of a program by its path, or as the search path finds it. -/
def programName (path : String) : Option String :=
  let chars := path.toList
  if !chars.contains '/' then some path
  else
    match (Chars.splitOn '/' chars).map String.ofList with
    | ["", "bin", name] => some name
    | ["", "usr", "bin", name] => some name
    | _ => none

/-- How a shell inside a text runs: its state and its text. -/
abbrev Nested := State → String → List Chunk × Ending

namespace State

/-- How the shell ends if nothing more runs. -/
def ending (state : State) : Ending :=
  state.ended.getD (.exited state.status)

/-- The state with the code of the last command. -/
def withStatus (state : State) (status : Nat) : State :=
  { state with status }

/-- The state after a part of the text that ran in a shell of its own. Only a
signal reaches the shell around it. -/
def afterPart (state part : State) : State :=
  { state with
    status := part.ending.code
    ended := if part.ended == some .killed then some .killed else none }

/-- Whether the shell is one whose messages and `echo` follow the second of
the two common manners. -/
def isVerbose (state : State) : Bool :=
  ((Chars.splitOn '/' state.name.toList).getLast?.map String.ofList) == some "bash"

/-- How the shell calls the place of an error. -/
def place (state : State) : String :=
  state.name ++ if state.isVerbose then ": line 1: " else ": 1: "

/-- A message of the shell. -/
def complaint (state : State) (message : String) : Chunk :=
  ⟨.error, state.place ++ message ++ "\n"⟩

/-! ## Words -/

/-- The value of a parameter. -/
def parameter (state : State) (name : String) : String :=
  match name with
  | "?" => toString state.status
  | "$" => "$"
  | "0" => state.name
  | "#" => "0"
  | "PWD" => state.cwd
  | _ => (state.vars.get? name).getD ""

/-- The text of a piece. -/
def partText (state : State) : Part → List Char
  | .text chars _ => chars
  | .parameter name _ => (state.parameter name).toList

/-- The text of a written word that is not cut into several. -/
def joined (state : State) (parts : List Part) : String :=
  String.ofList (parts.flatMap state.partText)

/-- A tilde at the front of a word stands for the home directory. -/
def tilde (parts : List Part) : List Part :=
  match parts with
  | [.text ['~'] false] => [.parameter "HOME" true]
  | .text ['~'] false :: .text ['/'] false :: rest =>
    .parameter "HOME" true :: .text ['/'] false :: rest
  | _ => parts

/-- A character that cuts the value of a parameter outside quotes. -/
def cuts (char : Char) : Bool := Chars.isBlank char || char == '\n'

/-- Cuts characters into words. The first word continues one that is begun if
`begun` is set; then it may be empty. -/
def cutValue (begun : Bool) : List Char → List (List Char)
  | [] => if begun then [[]] else []
  | char :: rest =>
    if cuts char then
      if begun then [] :: cutValue false rest else cutValue false rest
    else
      match cutValue true rest with
      | [] => [[char]]
      | word :: words => (char :: word) :: words

/-- The words that written pieces stand for. The first continues a word that
is begun if `begun` is set. -/
def expandParts (state : State) (begun : Bool) : List Part → List (List Char)
  | [] => if begun then [[]] else []
  | .parameter name false :: rest =>
    let value := (state.parameter name).toList
    let found := cutValue begun value
    let continues := if value.isEmpty then begun else !(value.getLast?.any cuts)
    if continues then
      match found.getLast?, state.expandParts true rest with
      | some last, word :: words => found.dropLast ++ (last ++ word) :: words
      | _, words => found ++ words
    else found ++ state.expandParts false rest
  | part :: rest =>
    match state.expandParts true rest with
    | [] => [state.partText part]
    | word :: words => (state.partText part ++ word) :: words

/-- The words that a written word stands for. -/
def expand (state : State) (parts : List Part) : List String :=
  (state.expandParts false (tilde parts)).map String.ofList

/-- The name that a written word assigns to and the pieces of the value, if the
word is an assignment. -/
def assignment? (parts : List Part) : Option (String × List Part) :=
  let isBare : Part → Bool := fun part => match part with
    | .text _ quoted => !quoted
    | .parameter _ _ => false
  let bare := parts.takeWhile fun part => isBare part && part != .text ['='] false
  let name := bare.flatMap fun part => match part with
    | .text chars _ => chars
    | .parameter _ _ => []
  match parts.drop bare.length with
  | .text ['='] false :: value =>
    if name.head?.any Chars.isNameStart && name.all Chars.isNameChar then
      some (String.ofList name, value)
    else none
  | _ => none

/-! ## Commands -/

/-- Ends the shell. -/
def exit (state : State) (args : List String) : List Chunk × State :=
  match args.head? with
  | none => ([], { state with ended := some (.exited state.status) })
  | some word =>
    match integer? word with
    | some code =>
      if 0 ≤ code then ([], { state with ended := some (.exited (code.toNat % 256)) })
      else illegal word
    | none => illegal word
where
  /-- A code that is no number. -/
  illegal (word : String) : List Chunk × State :=
    ([state.complaint ("exit: Illegal number: " ++ word)],
      { state with ended := some (.exited 2) })

/-- Changes the directory of the shell. -/
def changeDirectory (state : State) (target : String) : List Chunk × State :=
  let path := Directory.resolve state.cwd target
  if directories.contains path || path == state.cwd then
    ([], { state with cwd := path, status := 0 })
  else ([state.complaint ("cd: can't cd to " ++ target)], state.withStatus 2)

/-- Runs a shell inside the shell, by the words after its name. -/
def runShell (state : State) (nested : Nested) (name : String) (args : List String)
    (input : String) : List Chunk × State :=
  let inner (name text : String) : List Chunk × State :=
    let (chunks, ending) := nested { state with name, status := 0 } text
    (chunks, state.withStatus ending.code)
  match args with
  | "-c" :: text :: given => inner (given.headD name) text
  | [] => inner name input
  | file :: _ =>
    ([⟨.error, name ++ ": 0: cannot open " ++ file ++ ": No such file\n"⟩], state.withStatus 2)

/-- Runs a program. The shell has its own form of one that is called by name,
unless `outside` is set. -/
def runProgram (state : State) (nested : Nested) (outside : Bool) (path : String)
    (args : List String) (input : String) : List Chunk × State :=
  let name := (programName path).getD ""
  let own := !outside && path == name
  let speaker := if own then state.place ++ name else path
  if shells.contains name then state.runShell nested path args input
  else
    match utility (own && !state.isVerbose) speaker state.cwd name args input with
    | some result => (result.chunks, state.withStatus result.code)
    | none =>
      if directories.contains path then
        ([state.complaint (path ++ ": Permission denied")], state.withStatus 126)
      else
        let message := if state.isVerbose then ": command not found" else ": not found"
        ([state.complaint (path ++ message)], state.withStatus 127)

/-- Runs a command that changes the shell itself, or any other. -/
def runWords (state : State) (nested : Nested) (words : List String) (input : String) :
    List Chunk × State :=
  match words with
  | [] => ([], state.withStatus 0)
  | ":" :: _ => ([], state.withStatus 0)
  | "exit" :: args => state.exit args
  | "wait" :: _ => ([], state.withStatus 0)
  | ["cd"] => state.changeDirectory (state.parameter "HOME")
  | "cd" :: target :: _ => state.changeDirectory target
  | "unset" :: names =>
    ([], { state with vars := names.foldl (fun vars name => vars.erase name) state.vars
                      status := 0 })
  | "kill" :: args =>
    if args.getLast? == some "$" then ([], { state with ended := some .killed })
    else ([], state.withStatus 1)
  | "exec" :: path :: args =>
    let (chunks, after) := state.runProgram nested true path args input
    (chunks, { after with ended := some after.ending })
  | path :: args => state.runProgram nested false path args input

/-- Assigns to a variable. -/
def assign (state : State) (binding : String × List Part) : State :=
  { state with vars := state.vars.insert binding.1 (state.joined binding.2) }

/-! ## One command with its redirections -/

/-- The streams after the redirections among some symbols. -/
def targets (state : State) (current : Targets) : List Symbol → Targets
  | .redirect stream way :: .word parts :: rest =>
    state.targets (current.redirect stream way (state.joined parts)) rest
  | _ :: rest => state.targets current rest
  | [] => current

/-- The file that cannot be read, if a redirection asks for one. -/
def unreadable? (state : State) : List Symbol → Option String
  | .redirect _ .fromFile :: .word parts :: rest =>
    let path := state.joined parts
    if path = "/dev/null" then state.unreadable? rest else some path
  | _ :: rest => state.unreadable? rest
  | [] => none

/-- The written words among some symbols, without the targets of
redirections. -/
def wordsOf : List Symbol → List (List Part)
  | .redirect _ _ :: _ :: rest => wordsOf rest
  | .word parts :: rest => parts :: wordsOf rest
  | _ :: rest => wordsOf rest
  | [] => []

/-- The assignments in front of the first other word. -/
def leadingAssignments : List (List Part) → List (String × List Part)
  | [] => []
  | parts :: rest =>
    match assignment? parts with
    | some binding => binding :: leadingAssignments rest
    | none => []

/-- Runs one command: assignments in front, the words, and redirections. An
assignment lasts if there is no other word. -/
def runSimple (state : State) (nested : Nested) (symbols : List Symbol) (input : String) :
    List Chunk × State :=
  match state.unreadable? symbols with
  | some path =>
    ([state.complaint ("cannot open " ++ path ++ ": No such file")], state.withStatus 2)
  | none =>
    let written := wordsOf symbols
    let bindings := leadingAssignments written
    let assigned := bindings.foldl assign state
    let words := (written.drop bindings.length).flatMap state.expand
    match words with
    | [] => ([], assigned.withStatus 0)
    | "export" :: _ =>
      let exported := ((written.drop (bindings.length + 1)).filterMap assignment?).foldl assign state
      ([], exported.withStatus 0)
    | _ =>
      let (chunks, after) := assigned.runWords nested words input
      ((state.targets {} symbols).send chunks,
        { after with vars := if words.head? == some "unset" then after.vars else state.vars })

end State

/-! ## Trees -/

namespace Tree

/-- Runs a text that has been taken apart. -/
def run (nested : Nested) (input : String) : Tree → State → List Chunk × State
  | .skip, state => ([], state)
  | .simple symbols, state => state.runSimple nested symbols input
  | .invert body, state =>
    let (chunks, after) := body.run nested input state
    (chunks, after.withStatus (if after.status = 0 then 1 else 0))
  | .pipe first second, state =>
    let (sent, afterFirst) := first.run nested input state
    let (shown, afterSecond) := second.run nested (textOf .output sent) state
    (sent.filter (fun chunk => chunk.stream == .error) ++ shown,
      if afterFirst.ended == some .killed then state.afterPart afterFirst
      else state.afterPart afterSecond)
  | .both first second, state =>
    let (chunks, after) := first.run nested input state
    if after.ended.isSome || after.status != 0 then (chunks, after)
    else
      let (later, last) := second.run nested input after
      (chunks ++ later, last)
  | .either first second, state =>
    let (chunks, after) := first.run nested input state
    if after.ended.isSome || after.status = 0 then (chunks, after)
    else
      let (later, last) := second.run nested input after
      (chunks ++ later, last)
  | .sequence first second, state =>
    let (chunks, after) := first.run nested input state
    if after.ended.isSome then (chunks, after)
    else
      let (later, last) := second.run nested input after
      (chunks ++ later, last)
  | .background body, state =>
    let (chunks, _) := body.run nested "" state
    (chunks, state.withStatus 0)
  | .subshell body, state =>
    let (chunks, after) := body.run nested input state
    (chunks, state.afterPart after)
  | .redirected body redirections, state =>
    let (chunks, after) := body.run nested input state
    ((state.targets {} redirections).send chunks, after)

end Tree

/-- How deep shells may start each other. -/
def maxShells : Nat := 16

/-- What a shell prints for a text and how it ends, within a number of levels
of shells inside it. -/
def runTextWithin : Nat → Nested
  | 0 => fun state _ => ([], state.ending)
  | levels + 1 => fun state text =>
    match Tree.parse text with
    | .error fault => ([state.complaint fault.message], .exited 2)
    | .ok tree =>
      let (chunks, after) := tree.run (runTextWithin levels) "" state
      (chunks, after.ending)

/-- What a shell prints for a text and how it ends. -/
def runText (state : State) (text : String) : List Chunk × Ending :=
  runTextWithin maxShells state text

end ExLine.Shell
