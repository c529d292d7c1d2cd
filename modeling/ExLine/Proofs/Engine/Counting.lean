import ExLine.Proofs.Engine.Printing

/-!
Contract: the same assignments to an environment variable and to a scope variable.

Owns:
- `Twin`, one assignment written for each of two variables, and
  `Engine.runBoth`, a run of each of the two versions;
- `Engine.Mirrors`, what the two runs have in common from step to step;
- `Engine.variables_count_alike_iff`.

Does not own: what a line with an assignment stores (`ExLine.Proofs.Engine.Printing`),
and integers as text (`ExLine.Proofs.Expr.Decimal`).

The environment keeps texts and a scope keeps values. The least integer is the
one value that reads differently once it has become a text, so the runs stay
together as long as the scope variable does not hold it.
-/

set_option autoImplicit false

namespace ExLine

/-- One assignment, written for an environment variable and for a scope variable.
Its right-hand side mentions neither of them. -/
structure Twin (envName varName : String) where
  source : Source := .typed
  envText : List Char
  varText : List Char
  /-- What follows the target. -/
  tail : List Token
  envLexes : Token.lex envText = .ok (.envVar envName :: tail)
  varLexes : Token.lex varText = .ok (.ident varName :: tail)
  apart : ∀ op expr, Assignment.readTail tail = .ok (op, expr) →
    expr.mentions (.env envName) = false ∧ expr.mentions (.var varName) = false

namespace Engine

variable {envName varName : String}

/-- Carries out an assignment to the environment variable in one engine. -/
def executeEnv (engine : Engine) (twin : Twin envName varName) : Reply × Engine :=
  engine.execute twin.source (assignmentLine twin.envText)

/-- Carries out the same assignment to the scope variable. -/
def executeVar (engine : Engine) (twin : Twin envName varName) : Reply × Engine :=
  engine.execute twin.source (assignmentLine twin.varText)

/-- Two engines, each after its own version of an assignment. -/
def stepBoth (runs : Engine × Engine) (twin : Twin envName varName) : Engine × Engine :=
  ((runs.1.executeEnv twin).2, (runs.2.executeVar twin).2)

/-- The engine after assignments to the environment variable, and the same engine
after these assignments to the scope variable. -/
def runBoth (engine : Engine) (twins : List (Twin envName varName)) : Engine × Engine :=
  twins.foldl stepBoth (engine, engine)

/-- Both variables are unset, or they have the same text and the same integer. -/
def ReadAlike (envName varName : String) (runs : Engine × Engine) : Prop :=
  Option.Rel Value.SameReadings (runs.1.held (.env envName)) (runs.2.held (.var varName))

/-- The first engine holds the text of what the second one holds. -/
def Written (envName varName : String) (runs : Engine × Engine) : Prop :=
  runs.1.env.get? envName = (runs.2.scope.get? varName).map Value.text

theorem Written.readAlike
    {runs : Engine × Engine}
    (written : Written envName varName runs)
    (notLeast : runs.2.scope.get? varName ≠ some (.int Int64.minValue)) :
    ReadAlike envName varName runs := by
  show Option.Rel _ ((runs.1.env.get? envName).map Value.str) (runs.2.scope.get? varName)
  rw [show runs.1.env.get? envName = _ from written]
  cases holds : runs.2.scope.get? varName with
  | none => exact .none
  | some value =>
    rw [holds] at notLeast
    exact .some (Value.sameReadings_text_iff.mpr fun isLeast => notLeast (congrArg some isLeast))

/-- No text reads as the least integer. -/
theorem ReadAlike.ne_least
    {runs : Engine × Engine}
    (alike : ReadAlike envName varName runs) :
    runs.2.scope.get? varName ≠ some (.int Int64.minValue) := by
  intro isLeast
  change Option.Rel _ ((runs.1.env.get? envName).map Value.str) (runs.2.scope.get? varName) at alike
  rw [isLeast] at alike
  cases holds : runs.1.env.get? envName with
  | none =>
    rw [holds] at alike
    cases alike
  | some text =>
    rw [holds] at alike
    obtain ⟨sameText, sameInt⟩ := alike
    have isText : text = (Value.int Int64.minValue).text := sameText
    subst isText
    exact Value.sameReadings_text_iff.mp ⟨rfl, sameInt⟩ rfl

/-- Both engines run commands and hold the same variables, but for the two at hand,
which both are set or both unset. -/
structure Mirrors (envName varName : String) (runs : Engine × Engine) : Prop where
  firstOpen : runs.1.IsOpen
  secondOpen : runs.2.IsOpen
  env : ∀ name, name ≠ envName → runs.1.env.get? name = runs.2.env.get? name
  vars : ∀ name, name ≠ varName → runs.1.scope.get? name = runs.2.scope.get? name
  set : (runs.1.held (.env envName)).isSome = (runs.2.held (.var varName)).isSome

namespace Mirrors

variable {runs : Engine × Engine}

theorem eval_eq
    (mirrors : Mirrors envName varName runs)
    {expr : Expr}
    (noEnv : expr.mentions (.env envName) = false)
    (noVar : expr.mentions (.var varName) = false) :
    expr.eval runs.1.bindings = expr.eval runs.2.bindings := by
  apply Expr.eval_congr
  · intro name mentioned
    apply mirrors.vars
    rintro rfl
    rw [noVar] at mentioned
    cases mentioned
  · intro name mentioned
    apply congrArg (Option.getD · "")
    apply mirrors.env
    rintro rfl
    rw [noEnv] at mentioned
    cases mentioned

/-- An assignment stores a value in both or is refused in both, and stores the same
value if the variables read alike. -/
theorem newValue_alike (mirrors : Mirrors envName varName runs) (twin : Twin envName varName) :
    (∃ value otherValue, runs.1.newValue (.env envName) twin.tail = .ok value
        ∧ runs.2.newValue (.var varName) twin.tail = .ok otherValue
        ∧ (ReadAlike envName varName runs → value = otherValue))
      ∨ ∃ error otherError, runs.1.newValue (.env envName) twin.tail = .error error
        ∧ runs.2.newValue (.var varName) twin.tail = .error otherError := by
  unfold newValue
  cases parsed : Assignment.readTail twin.tail with
  | error error => exact .inr ⟨error, error, rfl, rfl⟩
  | ok assignment =>
    obtain ⟨op, expr⟩ := assignment
    obtain ⟨noEnv, noVar⟩ := twin.apart op expr parsed
    simp only [bind, Except.bind, mirrors.eval_eq noEnv noVar]
    cases expr.eval runs.2.bindings with
    | error error => exact .inr ⟨error, error, rfl, rfl⟩
    | ok value => exact AssignOp.combine_alike mirrors.set op _ _ value

theorem store
    (mirrors : Mirrors envName varName runs)
    (value otherValue : Value) :
    Mirrors envName varName
      (runs.1.store (.env envName) value, runs.2.store (.var varName) otherValue) where
  firstOpen := mirrors.firstOpen.store (.env envName) value
  secondOpen := mirrors.secondOpen.store (.var varName) otherValue
  env name other := by
    show (runs.1.env.insert envName value.text).get? name = _
    rw [Table.get?_insert_other _ other]
    exact mirrors.env name other
  vars name other := by
    show _ = (runs.2.scope.set varName otherValue).get? name
    rw [Scope.get?_set, if_neg other]
    exact mirrors.vars name other
  set := by
    show (((runs.1.env.insert envName value.text).get? envName).map Value.str).isSome
      = ((runs.2.scope.set varName otherValue).get? varName).isSome
    rw [Table.get?_insert_same, Scope.get?_set, if_pos rfl]
    rfl

/-- One step is taken alike in both engines. Variables that read alike get the same
value, one of them as text. -/
theorem step (mirrors : Mirrors envName varName runs) (twin : Twin envName varName) :
    (runs.1.executeEnv twin).1.isOk = (runs.2.executeVar twin).1.isOk
      ∧ Mirrors envName varName (stepBoth runs twin)
      ∧ (Written envName varName runs → ReadAlike envName varName runs →
        Written envName varName (stepBoth runs twin)) := by
  unfold stepBoth executeEnv executeVar
  rw [execute_let mirrors.firstOpen twin.envLexes rfl,
    execute_let mirrors.secondOpen twin.varLexes rfl]
  unfold assignTo
  rcases mirrors.newValue_alike twin with ⟨value, other, env, var, same⟩ | ⟨error, other, env, var⟩
  · rw [env, var]
    refine ⟨rfl, mirrors.store value other, fun _ alike => ?_⟩
    rw [same alike]
    -- The environment takes the text of the value, the scope the value itself.
    show (runs.1.env.insert envName other.text).get? envName
      = ((runs.2.scope.set varName other).get? varName).map Value.text
    rw [Table.get?_insert_same, Scope.get?_set, if_pos rfl]
    rfl
  · rw [env, var]
    exact ⟨rfl, mirrors, fun written _ => written⟩

theorem runBoth
    {engine : Engine}
    (mirrors : Mirrors envName varName (engine, engine))
    (twins : List (Twin envName varName)) :
    Mirrors envName varName (engine.runBoth twins) :=
  along_history mirrors (fun _ twin _ _ together => (together.step twin).2.1)
    (List.append_nil twins).symm

end Mirrors

/-- **Environment and scope variables count alike, short of the least integer.**
An integer comes back from its decimal text exactly if it is not the least one.
From every state that a session comes by, with commands running and both
variables unset, the same assignments made to an environment variable and to a
scope variable succeed or fail alike at every step. Both variables have the same
text and the same integer all the way exactly if the scope variable never comes
to hold the least integer. -/
theorem variables_count_alike_iff
    {engine : Engine}
    (occurs : engine.Occurs)
    (running : engine.scope.isFinished = false)
    (active : engine.isActive)
    (envUnset : engine.env.get? envName = none)
    (varUnset : engine.scope.get? varName = none) :
    (∀ number : Int64, (Value.str (Value.int number).text).toInt = number
      ↔ number ≠ Int64.minValue)
    ∧ ∀ twins : List (Twin envName varName),
      (∀ earlier twin later, twins = earlier ++ twin :: later →
        ((engine.runBoth earlier).1.executeEnv twin).1.isOk
          = ((engine.runBoth earlier).2.executeVar twin).1.isOk)
      ∧ ((∀ earlier later, twins = earlier ++ later →
          ReadAlike envName varName (engine.runBoth earlier))
        ↔ ∀ earlier later, twins = earlier ++ later →
          (engine.runBoth earlier).2.scope.get? varName ≠ some (.int Int64.minValue)) := by
  have isOpen : engine.IsOpen := ⟨occurs.orderly, running, active⟩
  have mirrors : Mirrors envName varName (engine, engine) := by
    refine ⟨isOpen, isOpen, fun _ _ => rfl, fun _ _ => rfl, ?_⟩
    show ((engine.env.get? envName).map Value.str).isSome = (engine.scope.get? varName).isSome
    rw [envUnset, varUnset]
    rfl
  have written : Written envName varName (engine, engine) := by
    unfold Written
    rw [envUnset, varUnset]
    rfl
  constructor
  · intro number
    have readings := @Value.sameReadings_text_iff (.int number)
    constructor
    · intro back isLeast
      exact readings.mp ⟨rfl, back⟩ (congrArg Value.int isLeast)
    · intro notLeast
      exact (readings.mpr fun isLeast => notLeast (Value.int.inj isLeast)).toInt
  intro twins
  refine ⟨fun earlier twin later _ => ((mirrors.runBoth earlier).step twin).1, ?_, ?_⟩
  · intro alike earlier later split
    exact (alike earlier later split).ne_least
  · intro notLeast earlier later split
    -- Until the least integer comes up, the text reads as the value it was written
    -- for, so the next step stores one value in both.
    have writtenHere : Written envName varName (engine.runBoth earlier) := by
      refine along_history written (fun earlier twin later splitHere writtenBefore => ?_) split
      have alike := writtenBefore.readAlike (notLeast earlier (twin :: later) splitHere)
      exact ((mirrors.runBoth earlier).step twin).2.2 writtenBefore alike
    exact writtenHere.readAlike (notLeast earlier later split)

/-- Sets a variable to the greatest integer. -/
def toGreatest : Twin "V" "v" where
  envText := "$V = 9223372036854775807".toList
  varText := "v = 9223372036854775807".toList
  tail := [.assign, .int Int64.maxValue]
  envLexes := by decide +kernel
  varLexes := by decide +kernel
  apart op expr parsed := by
    have reads : Assignment.readTail [.assign, .int Int64.maxValue]
        = .ok (.set, .int Int64.maxValue) := by decide +kernel
    rw [reads] at parsed
    cases parsed
    exact ⟨rfl, rfl⟩

/-- Adds one to a variable. -/
def addOne : Twin "V" "v" where
  envText := "$V += 1".toList
  varText := "v += 1".toList
  tail := [.addAssign, .int 1]
  envLexes := by decide +kernel
  varLexes := by decide +kernel
  apart op expr parsed := by
    have reads : Assignment.readTail [.addAssign, .int 1] = .ok (.add, .int 1) := by decide +kernel
    rw [reads] at parsed
    cases parsed
    exact ⟨rfl, rfl⟩

/-- Adding to unset variables fails in both, and both take the greatest integer.
One more is the least integer in both, and the next addition sets them apart. -/
theorem variables_count_alike_iff_past_the_greatest :
    (∀ earlier later, [addOne, toGreatest] = earlier ++ later →
      ReadAlike "V" "v" (runBoth {} earlier))
    ∧ (executeEnv {} addOne).1.isOk = (executeVar {} addOne).1.isOk
    ∧ (¬ ∀ earlier later, [toGreatest, addOne] = earlier ++ later →
      ReadAlike "V" "v" (runBoth {} earlier))
    ∧ (runBoth {} [toGreatest, addOne, addOne]).1.env.get? "V" = some "-9223372036854775806"
    ∧ (runBoth {} [toGreatest, addOne, addOne]).2.scope.get? "v"
      = some (.int (-9223372036854775807)) := by
  obtain ⟨-, counts⟩ := variables_count_alike_iff
    (Occurs.afterAll {} {} {} (Launcher.ofList []) []) rfl rfl
    (rfl : _ = none) (rfl : _ = none)
  obtain ⟨replies, alike_iff⟩ := counts [addOne, toGreatest]
  refine ⟨alike_iff.mpr ?_, replies [] addOne [toGreatest] rfl, fun alike => ?_,
    by decide +kernel, by decide +kernel⟩
  · have unset : (runBoth {} [addOne]).2.scope.get? "v" = none := by decide +kernel
    have greatest : (runBoth {} [addOne, toGreatest]).2.scope.get? "v"
        = some (.int 9223372036854775807) := by decide +kernel
    intro earlier later split isLeast
    rcases List.cons_eq_append_iff.mp split with ⟨rfl, -⟩ | ⟨rest, rfl, splitRest⟩
    · cases isLeast
    rcases List.cons_eq_append_iff.mp splitRest with ⟨rfl, -⟩ | ⟨empty, rfl, splitEmpty⟩
    · cases unset.symm.trans isLeast
    · obtain ⟨rfl, -⟩ := List.nil_eq_append_iff.mp splitEmpty
      exact absurd (greatest.symm.trans isLeast) (by decide)
  · exact (counts [toGreatest, addOne]).2.mp alike [toGreatest, addOne] [] rfl (by decide +kernel)

end Engine

end ExLine
