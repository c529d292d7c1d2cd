import ExLine.Engine.Basic
import ExLine.Text.Utf8
import ExLine.Toml.Document

/-!
Contract: the settings file of an engine.

Owns: `ConfigFile.load`, the settings that a file gives, and the two ways in
which it can fail.

Does not own: the format of the file (`ExLine.Toml`).
-/

set_option autoImplicit false

namespace ExLine.ConfigFile

/-- Why a settings file gives no settings. -/
inductive ConfigError where
  /-- There is no such file, or it is no text. -/
  | unreadable (path : String)
  /-- The text is no document, or a setting has a value of the wrong kind. -/
  | malformed (path : String)
  deriving DecidableEq, Repr

/-- The wording of a settings error. -/
def ConfigError.message : ConfigError → String
  | .unreadable path => "failed to read config " ++ path
  | .malformed path => "failed to parse config " ++ path

/-- A setting that is a text; absent, it keeps its default. -/
def textSetting (tree : Toml.Tree) (name fallback : String) : Option String :=
  match tree.get? [.name name] with
  | none => some fallback
  | some (.value (.string text)) => some text
  | some _ => none

/-- A setting that is a count; absent, it keeps its default. -/
def countSetting (tree : Toml.Tree) (name : String) (fallback : Nat) : Option Nat :=
  match tree.get? [.name name] with
  | none => some fallback
  | some (.value (.integer value)) => if value < 0 then none else some value.toNat
  | some _ => none

/-- The settings that a document gives. Other keys do not matter. -/
def ofTree (tree : Toml.Tree) : Option Config := do
  let defaults : Config := {}
  let shell ← textSetting tree "shell" defaults.shell
  let shellFlag ← textSetting tree "shell_flag" defaults.shellFlag
  let maxDepth ← countSetting tree "max_depth" defaults.maxDepth
  return { shell, shellFlag, maxDepth }

/-- The settings that a file gives. -/
def load (path : String) (content : Option Bytes) : Except ConfigError Config :=
  match content.map Utf8.decode with
  | some (.ok text) =>
    match (Toml.parse text).bind ofTree with
    | some config => .ok config
    | none => .error (.malformed path)
  | _ => .error (.unreadable path)

end ExLine.ConfigFile
