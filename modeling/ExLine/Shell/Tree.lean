import ExLine.Shell.Word

/-!
Contract: the structure of a shell text.

Owns: `Tree`, a text taken apart into commands and what joins them, and
`Tree.parse`.

Does not own: running a tree (`ExLine.Shell.Run`).

Lists are separated by semicolons, ampersands and line ends. `&&` and `||`
bind alike and to the left, pipelines bind closer, and an exclamation mark
inverts a whole pipeline. Parentheses and braces group lists.
-/

set_option autoImplicit false

namespace ExLine.Shell

/-- A shell text taken apart. -/
inductive Tree where
  | skip
  /-- One command with its words and redirections. -/
  | simple (symbols : List Symbol)
  | invert (body : Tree)
  /-- The output of the first is the input of the second. -/
  | pipe (first second : Tree)
  | both (first second : Tree)
  | either (first second : Tree)
  | sequence (first second : Tree)
  | background (body : Tree)
  | subshell (body : Tree)
  | redirected (body : Tree) (redirections : List Symbol)
  deriving Repr

namespace Tree

/-- Whether a symbol belongs to a simple command. -/
def isPlain : Symbol → Bool
  | .sign _ => false
  | _ => true

/-- Checks that a word follows every redirection. -/
def checkTargets (following : List Symbol) : List Symbol → Except Fault Unit
  | [] => .ok ()
  | [.redirect _ _] => .error (missing following)
  | .redirect _ _ :: .word _ :: rest => checkTargets following rest
  | .redirect _ _ :: other :: _ => .error (.unexpected other)
  | _ :: rest => checkTargets following rest
where
  /-- The fault of a redirection that no word follows. -/
  missing : List Symbol → Fault
    | [] => .unexpectedEnd none
    | next :: _ => .unexpected next

/-- The redirections at the front of some symbols, and the symbols after
them. -/
def splitRedirections : List Symbol → List Symbol × List Symbol
  | .redirect stream way :: target :: rest =>
    let (redirections, after) := splitRedirections rest
    (.redirect stream way :: target :: redirections, after)
  | symbols => ([], symbols)

/-- The symbols after the line ends at their front. -/
def skipLineEnds (symbols : List Symbol) : List Symbol :=
  symbols.dropWhile (· == .sign "\n")

/-- A body with the redirections that follow it. -/
def withRedirections (body : Tree) (symbols : List Symbol) :
    Except Fault (Tree × List Symbol) := do
  checkTargets [] (symbols.takeWhile isPlain)
  let (redirections, after) := splitRedirections symbols
  return (if redirections.isEmpty then body else .redirected body redirections, after)

mutual

/-- Lists up to a closing symbol, which stays, or to the end of the text. -/
def readLists : Nat → Option Symbol → List Symbol → Except Fault (Tree × List Symbol)
  | 0, _, _ => .error (.unexpectedEnd none)
  | fuel + 1, closing, symbols =>
    match skipLineEnds symbols with
    | [] => finish closing
    | first :: rest =>
      if closing == some first then .ok (.skip, first :: rest)
      else do
        let (tree, after) ← readChain fuel (first :: rest)
        match after with
        | [] => do
          let (_, left) ← finish closing
          return (tree, left)
        | next :: later =>
          if next == .sign ";" || next == .sign "\n" then do
            let (others, left) ← readLists fuel closing later
            return (.sequence tree others, left)
          else if next == .sign "&" then do
            let (others, left) ← readLists fuel closing later
            return (.sequence (.background tree) others, left)
          else if closing == some next then .ok (tree, next :: later)
          else .error (.unexpected next)
where
  /-- The end of the text, where nothing has to be closed. -/
  finish : Option Symbol → Except Fault (Tree × List Symbol)
    | none => .ok (.skip, [])
    | some (.sign text) => .error (.unexpectedEnd (some text))
    | some _ => .error (.unexpectedEnd (some "\x7d"))

/-- Pipelines joined by `&&` and `||`. -/
def readChain : Nat → List Symbol → Except Fault (Tree × List Symbol)
  | 0, _ => .error (.unexpectedEnd none)
  | fuel + 1, symbols => do
    let (first, after) ← readPipeline fuel symbols
    extendChain fuel first after

/-- The rest of a chain after its first part. -/
def extendChain : Nat → Tree → List Symbol → Except Fault (Tree × List Symbol)
  | 0, _, _ => .error (.unexpectedEnd none)
  | fuel + 1, first, symbols =>
    match symbols with
    | .sign "&&" :: rest => do
      let (second, after) ← readPipeline fuel (skipLineEnds rest)
      extendChain fuel (.both first second) after
    | .sign "||" :: rest => do
      let (second, after) ← readPipeline fuel (skipLineEnds rest)
      extendChain fuel (.either first second) after
    | _ => .ok (first, symbols)

/-- A pipeline, inverted if an exclamation mark stands in front of it. -/
def readPipeline : Nat → List Symbol → Except Fault (Tree × List Symbol)
  | 0, _ => .error (.unexpectedEnd none)
  | fuel + 1, symbols =>
    if symbols.head? == some (.literal '!') then do
      let (body, after) ← readStages fuel symbols.tail
      return (.invert body, after)
    else readStages fuel symbols

/-- Commands joined by bars. -/
def readStages : Nat → List Symbol → Except Fault (Tree × List Symbol)
  | 0, _ => .error (.unexpectedEnd none)
  | fuel + 1, symbols => do
    let (command, after) ← readCommand fuel symbols
    match after with
    | .sign "|" :: later => do
      let (others, left) ← readStages fuel (skipLineEnds later)
      return (.pipe command others, left)
    | _ => .ok (command, after)

/-- One command or group. -/
def readCommand : Nat → List Symbol → Except Fault (Tree × List Symbol)
  | 0, _ => .error (.unexpectedEnd none)
  | fuel + 1, symbols =>
    match symbols with
    | [] => .error (.unexpectedEnd none)
    | first :: rest =>
      if first == .sign "(" then do
        let (body, after) ← readGroup fuel (.sign ")") rest
        withRedirections (.subshell body) after
      else if first == .literal '\x7b' then do
        let (body, after) ← readGroup fuel (.literal '\x7d') rest
        withRedirections body after
      else if isPlain first && first != .literal '\x7d' && first != .literal '!' then do
        let command := symbols.takeWhile isPlain
        let after := symbols.dropWhile isPlain
        checkTargets after command
        return (.simple command, after)
      else .error (.unexpected first)

/-- A list that is not empty, up to a closing symbol. -/
def readGroup : Nat → Symbol → List Symbol → Except Fault (Tree × List Symbol)
  | 0, _, _ => .error (.unexpectedEnd none)
  | fuel + 1, closing, symbols => do
    let (body, after) ← readLists fuel (some closing) symbols
    match body, after with
    | .skip, next :: _ => .error (.unexpected next)
    | _, _ :: later => .ok (body, later)
    | _, [] => .error (.unexpectedEnd none)

end

/-- The tree of a text. -/
def parse (text : String) : Except Fault Tree := do
  let found ← symbols text
  let (tree, _) ← readLists (8 * found.length + 8) none found
  return tree

end Tree

end ExLine.Shell
