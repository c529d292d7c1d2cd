import ExLine.Proofs.Expr.Bounds

/-!
Contract: reading expressions step by step, with a counter of what is open.

Owns:
- `Stepwise.State`, a moment of reading: what is done next, what waits for the
  result, and a counter that goes up at a parenthesis or a unary operator and down
  when its reading ends, well or badly;
- `State.step`, which takes such a state to the next one;
- `reaches_done`: the steps from the tokens of a source end with the result of
  reading it;
- `State.Balanced`, what holds at every moment on the way, and
  `reading_is_bounded`.

Does not own: what is read (`ExLine.Expr.Parser`).

The rules of the reader take the nesting that is left as an argument, so there is
no counter in them that could go wrong. The steps keep a counter on its own, beside
the frames that wait, and refuse to go deeper by looking at nothing else. That both
give the same results ties the counter to the rules; that it tells how many frames
are open is an invariant of the steps.
-/

set_option autoImplicit false

namespace ExLine

namespace Stratum

/-- The stratum that the operands of a stratum are phrases of. -/
def operand : Stratum → Stratum
  | .disjunction => .conjunction
  | .conjunction => .comparison
  | .comparison => .sum
  | .sum | .unary | .primary => .unary

/-- Whether a phrase of the stratum may have any number of operators. -/
def chains : Stratum → Bool
  | .disjunction | .conjunction | .sum => true
  | .comparison | .unary | .primary => false

end Stratum

namespace Stepwise

/-! ## Moments -/

/-- What waits for an expression that is being read. -/
inductive Frame where
  /-- A source of exactly one expression. -/
  | whole
  /-- A source of several, after those that have been read. -/
  | item (before : List Expr)
  /-- A phrase of a stratum, for its first operand. -/
  | first (stratum : Stratum)
  /-- An operator of a stratum, for its right operand. -/
  | right (stratum : Stratum) (op : BinaryOp) (left : Expr)
  /-- A unary operator, for its operand. -/
  | signed (op : UnaryOp)
  /-- An opening parenthesis, for what is inside. -/
  | parens
  deriving DecidableEq, Repr

/-- Parentheses and unary operators are open as long as they wait. -/
def Frame.isOpen : Frame → Bool
  | .signed _ | .parens => true
  | .whole | .item _ | .first _ | .right _ _ _ => false

inductive Task where
  /-- Read a phrase of a stratum. -/
  | read (stratum : Stratum) (cursor : Cursor)
  /-- Look for an operator of a stratum behind its left operand. -/
  | extend (stratum : Stratum) (left : Expr) (cursor : Cursor)
  /-- Hand a result to what waits for it. -/
  | back (result : Except ExprError (Expr × Cursor))
  /-- The source is read. -/
  | done (result : Except ExprError (List Expr))

structure State where
  task : Task
  /-- What waits, the innermost first. -/
  frames : List Frame
  /-- The counter of what is open. -/
  nesting : Nat

namespace State

/-- How many parentheses and unary operators are open. -/
def opened (state : State) : Nat :=
  state.frames.countP Frame.isOpen

/-! ## Steps -/

/-- Goes on with another task. -/
def turn (state : State) (task : Task) : State :=
  { state with task }

/-- Goes on with a task whose result `frame` waits for. -/
def await (state : State) (frame : Frame) (task : Task) : State :=
  { state with task, frames := frame :: state.frames }

/-- Opens a parenthesis or a unary operator, unless the counter is used up. -/
def enter (state : State) (frame : Frame) (task : Task) : State :=
  if state.nesting < maxNesting then
    { task, frames := frame :: state.frames, nesting := state.nesting + 1 }
  else state.turn (.back (.error .tooDeep))

/-- Goes on after a parenthesis or a unary operator. -/
def leave (state : State) (task : Task) : State :=
  { state with task, nesting := state.nesting - 1 }

def readUnary (state : State) (cursor : Cursor) : State :=
  match cursor.tokens with
  | [] => state.turn (.back (.error .unexpectedEnd))
  | token :: rest =>
    match Rule.atom? token, Rule.unaryOperator? token with
    | some expr, _ => state.turn (.back (.ok (expr, cursor.at rest)))
    | none, some op => state.enter (.signed op) (.read .unary (cursor.at rest))
    | none, none =>
      if token = .leftParen then state.enter .parens (.read .disjunction (cursor.at rest))
      else state.turn (.back (.error (.unexpected token)))

def read (state : State) (stratum : Stratum) (cursor : Cursor) : State :=
  match stratum with
  | .unary | .primary => state.readUnary cursor
  | .disjunction | .conjunction | .comparison | .sum =>
    state.await (.first stratum) (.read stratum.operand cursor)

def extend (state : State) (stratum : Stratum) (left : Expr) (cursor : Cursor) : State :=
  match cursor.tokens with
  | [] => state.turn (.back (.ok (left, cursor)))
  | token :: rest =>
    match stratum.operator? token with
    | none => state.turn (.back (.ok (left, cursor)))
    | some op => state.await (.right stratum op left) (.read stratum.operand (cursor.at rest))

/-- Goes on behind the items of a list that have been read. -/
def nextItem (state : State) (items : List Expr) (cursor : Cursor) : State :=
  match cursor.tokens with
  | [] => state.turn (.done (.ok items))
  | _ :: _ => state.await (.item items) (.read .disjunction cursor)

/-- What a unary operator makes of its operand. -/
def operate (op : UnaryOp) (result : Except ExprError (Expr × Cursor)) :
    Except ExprError (Expr × Cursor) :=
  match result with
  | .error error => .error error
  | .ok (operand, cursor) => .ok (.unary op operand, cursor)

/-- What parentheses make of what is inside them. -/
def close (result : Except ExprError (Expr × Cursor)) : Except ExprError (Expr × Cursor) :=
  match result with
  | .error error => .error error
  | .ok (expr, cursor) =>
    match cursor.tokens with
    | .rightParen :: rest => .ok (expr, cursor.at rest)
    | _ => .error (.expected .rightParen)

/-- Hands a result to a frame, which has been taken off the others. Whatever the
result, an open frame takes one off the counter. -/
def resume (state : State) (frame : Frame) (result : Except ExprError (Expr × Cursor)) : State :=
  match frame, result with
  | .whole, .error error | .item _, .error error => state.turn (.done (.error error))
  | .whole, .ok (expr, cursor) =>
    state.turn (.done (do
      cursor.finish
      return [expr]))
  | .item before, .ok (expr, cursor) => state.nextItem (before ++ [expr]) cursor
  | .first _, .error error | .right _ _ _, .error error => state.turn (.back (.error error))
  | .first stratum, .ok (expr, cursor) => state.turn (.extend stratum expr cursor)
  | .right stratum op left, .ok (right, cursor) =>
    match Rule.join op left right cursor with
    | .error error => state.turn (.back (.error error))
    | .ok (expr, after) =>
      if stratum.chains then state.turn (.extend stratum expr after)
      else state.turn (.back (.ok (expr, after)))
  | .signed op, result => state.leave (.back (operate op result))
  | .parens, result => state.leave (.back (close result))

/-- The next moment, unless the source is read. -/
def step (state : State) : Option State :=
  match state.task with
  | .read stratum cursor => some (state.read stratum cursor)
  | .extend stratum left cursor => some (state.extend stratum left cursor)
  | .back result =>
    match state.frames with
    | [] => none
    | frame :: frames => some ({ state with frames }.resume frame result)
  | .done _ => none

/-- The first moment with the tokens of a source. Target and operator of an
assignment are taken off before. -/
def start (kind : SourceKind) (tokens : List Token) : State :=
  match kind with
  | .expression => ⟨.read .disjunction { tokens }, [.whole], 0⟩
  | .list => nextItem ⟨.done (.ok []), [], 0⟩ [] { tokens }
  | .assignment =>
    match tokens with
    | [] => ⟨.done (.error .unexpectedEnd), [], 0⟩
    | first :: afterFirst =>
      match Target.ofToken? first with
      | none => ⟨.done (.error (.badTarget first)), [], 0⟩
      | some _ =>
        match afterFirst with
        | [] => ⟨.done (.error (.expected .assignmentOperator)), [], 0⟩
        | second :: tokens =>
          match AssignOp.ofToken? second with
          | none => ⟨.done (.error (.expected .assignmentOperator)), [], 0⟩
          | some _ => ⟨.read .disjunction { tokens }, [.whole], 0⟩

/-- Some moment at or after another one. -/
def Reaches : State → State → Prop :=
  Relation.ReflTransGen fun before after => before.step = some after

/-! ## What every moment keeps -/

/-- The counter tells how much is open, and is within its bound. -/
structure Balanced (state : State) : Prop where
  counted : state.nesting = state.opened
  bounded : state.nesting ≤ maxNesting

namespace Balanced

variable {state : State} {frame : Frame} {task : Task}

theorem turn (balanced : state.Balanced) (task : Task) : (state.turn task).Balanced :=
  ⟨balanced.counted, balanced.bounded⟩

theorem await
    (balanced : state.Balanced)
    (closed : frame.isOpen = false) :
    (state.await frame task).Balanced := by
  refine ⟨?_, balanced.bounded⟩
  show state.nesting = (frame :: state.frames).countP Frame.isOpen
  rw [List.countP_cons, closed]
  exact balanced.counted

theorem enter
    (balanced : state.Balanced)
    (opens : frame.isOpen) :
    (state.enter frame task).Balanced := by
  unfold State.enter
  split
  · rename_i within
    refine ⟨?_, within⟩
    show state.nesting + 1 = (frame :: state.frames).countP Frame.isOpen
    rw [List.countP_cons, opens, balanced.counted]
    rfl
  · exact balanced.turn _

/-- Taking off a frame that was not open changes nothing. -/
theorem of_closed
    {frames : List Frame}
    (balanced : state.Balanced)
    (shape : state.frames = frame :: frames)
    (closed : frame.isOpen = false) :
    Balanced { state with frames } := by
  refine ⟨?_, balanced.bounded⟩
  have counted := balanced.counted
  unfold opened at counted
  rw [shape, List.countP_cons, closed] at counted
  exact counted

/-- Taking off a frame that was open takes one off the counter. -/
theorem leave
    {frames : List Frame}
    (balanced : state.Balanced)
    (shape : state.frames = frame :: frames)
    (opened : frame.isOpen) :
    (State.leave { state with frames } task).Balanced := by
  have counted := balanced.counted
  have bounded := balanced.bounded
  unfold State.opened at counted
  rw [shape, List.countP_cons, opened] at counted
  constructor
  · show state.nesting - 1 = frames.countP Frame.isOpen
    rw [counted]
    exact Nat.add_sub_cancel _ 1
  · show state.nesting - 1 ≤ maxNesting
    omega

theorem readUnary (balanced : state.Balanced) (cursor : Cursor) :
    (state.readUnary cursor).Balanced := by
  unfold State.readUnary
  split
  · exact balanced.turn _
  split
  · exact balanced.turn _
  · exact balanced.enter rfl
  split
  · exact balanced.enter rfl
  · exact balanced.turn _

theorem read (balanced : state.Balanced) (stratum : Stratum) (cursor : Cursor) :
    (state.read stratum cursor).Balanced := by
  cases stratum with
  | unary | primary => exact balanced.readUnary cursor
  | disjunction | conjunction | comparison | sum => exact balanced.await rfl

theorem extend
    (balanced : state.Balanced)
    (stratum : Stratum)
    (left : Expr)
    (cursor : Cursor) :
    (state.extend stratum left cursor).Balanced := by
  unfold State.extend
  split
  · exact balanced.turn _
  split
  · exact balanced.turn _
  · exact balanced.await rfl

theorem nextItem (balanced : state.Balanced) (items : List Expr) (cursor : Cursor) :
    (state.nextItem items cursor).Balanced := by
  unfold State.nextItem
  split
  · exact balanced.turn _
  · exact balanced.await rfl

theorem resume
    {frames : List Frame}
    (balanced : state.Balanced)
    (shape : state.frames = frame :: frames)
    (result : Except ExprError (Expr × Cursor)) :
    (State.resume { state with frames } frame result).Balanced := by
  cases frame with
  | whole =>
    have popped := balanced.of_closed shape rfl
    cases result <;> exact popped.turn _
  | item before =>
    have popped := balanced.of_closed shape rfl
    cases result with
    | error error => exact popped.turn _
    | ok read => exact popped.nextItem _ _
  | first stratum =>
    have popped := balanced.of_closed shape rfl
    cases result <;> exact popped.turn _
  | right stratum op left =>
    have popped := balanced.of_closed shape rfl
    cases result with
    | error error => exact popped.turn _
    | ok read =>
      unfold State.resume
      simp only
      split
      · exact popped.turn _
      split
      · exact popped.turn _
      · exact popped.turn _
  | signed op => exact balanced.leave shape rfl
  | parens => exact balanced.leave shape rfl

/-- One step keeps the counter. -/
theorem step
    {after : State}
    (balanced : state.Balanced)
    (stepped : state.step = some after) :
    after.Balanced := by
  unfold State.step at stepped
  split at stepped
  · cases stepped
    exact balanced.read _ _
  · cases stepped
    exact balanced.extend _ _ _
  · split at stepped
    · cases stepped
    · rename_i shape
      cases stepped
      exact balanced.resume shape _
  · cases stepped

theorem start (kind : SourceKind) (tokens : List Token) : (State.start kind tokens).Balanced := by
  have atRest (task : Task) : Balanced ⟨task, [], 0⟩ := ⟨rfl, Nat.zero_le _⟩
  have waiting (task : Task) : Balanced ⟨task, [.whole], 0⟩ := ⟨rfl, Nat.zero_le _⟩
  cases kind with
  | expression => exact waiting _
  | list => exact (atRest _).nextItem _ _
  | assignment =>
    unfold State.start
    simp only
    split
    · exact atRest _
    split
    · exact atRest _
    split
    · exact atRest _
    split
    · exact atRest _
    · exact waiting _

/-- Whatever is reached keeps the counter. -/
theorem of_reaches
    {after : State}
    (balanced : state.Balanced)
    (reaches : state.Reaches after) :
    after.Balanced := by
  induction reaches with
  | refl => exact balanced
  | tail _ stepped inductionHypothesis => exact inductionHypothesis.step stepped

end Balanced

end State

/-! ## The steps read what the rules read -/

open State

/-- From a moment of reading a phrase of the stratum, the steps come to the moment
that hands back what the rule reads. -/
def Reads (stratum : Stratum) (rule : Rule) (nesting : Nat) : Prop :=
  ∀ (cursor : Cursor) (frames : List Frame),
    Reaches ⟨.read stratum cursor, frames, nesting⟩ ⟨.back (rule.run cursor), frames, nesting⟩

section Combinators

variable {stratum : Stratum} {rule : Rule} {nesting : Nat}

/-- The right operand of an operator is read, and its result handed back. -/
theorem reaches_right
    {cursor : Cursor}
    {token : Token}
    {rest : List Token}
    {op : BinaryOp}
    (reads : Reads stratum.operand rule nesting)
    (tokens : cursor.tokens = token :: rest)
    (isOperator : stratum.operator? token = some op)
    (left : Expr)
    (frames : List Frame) :
    Reaches ⟨.extend stratum left cursor, frames, nesting⟩
      (State.resume ⟨.back (rule.run (cursor.at rest)), frames, nesting⟩
        (.right stratum op left) (rule.run (cursor.at rest))) := by
  have stepped : State.step ⟨.extend stratum left cursor, frames, nesting⟩
      = some ⟨.read stratum.operand (cursor.at rest), .right stratum op left :: frames,
          nesting⟩ := by
    simp only [State.step, State.extend, tokens, isOperator, State.await]
  exact .head stepped ((reads _ _).tail rfl)

theorem reaches_back_of_stop
    {cursor : Cursor}
    (stops : ∀ token ∈ cursor.tokens.head?, stratum.operator? token = none)
    (left : Expr)
    (frames : List Frame) :
    Reaches ⟨.extend stratum left cursor, frames, nesting⟩
      ⟨.back (.ok (left, cursor)), frames, nesting⟩ := by
  refine .single ?_
  simp only [State.step, State.extend]
  cases tokens : cursor.tokens with
  | nil => rfl
  | cons token rest => simp only [stops token (by rw [tokens]; rfl), State.turn]

theorem reaches_chainFrom
    (chains : stratum.chains)
    (reads : Reads stratum.operand rule nesting)
    (left : Expr)
    (cursor : Cursor)
    (frames : List Frame) :
    Reaches ⟨.extend stratum left cursor, frames, nesting⟩
      ⟨.back (Rule.chainFrom stratum.operator? rule left cursor), frames, nesting⟩ := by
  fun_induction Rule.chainFrom stratum.operator? rule left cursor with
  | case1 left cursor noTokens =>
    exact reaches_back_of_stop (by rw [noTokens]; rintro _ ⟨⟩) left frames
  | case2 left cursor token rest tokens noOperator =>
    exact reaches_back_of_stop (by rw [tokens]; rintro _ ⟨⟩; exact noOperator) left frames
  | case3 left cursor token rest tokens op isOperator error failed =>
    have reaches := reaches_right reads tokens isOperator left frames
    rw [failed] at reaches
    exact reaches
  | case4 left cursor token rest tokens op isOperator right afterRight ran error failed =>
    have reaches := reaches_right reads tokens isOperator left frames
    rw [ran] at reaches
    simp only [State.resume, failed] at reaches
    exact reaches
  | case5 left cursor token rest tokens op isOperator right afterRight ran expr after joined
      inductionHypothesis =>
    have reaches := reaches_right reads tokens isOperator left frames
    rw [ran] at reaches
    simp only [State.resume, joined, chains, if_true] at reaches
    exact reaches.trans inductionHypothesis

/-- The first operand of a phrase is read, and its result handed back. -/
theorem reaches_first
    {cursor : Cursor}
    {frames : List Frame}
    (stepped : State.step ⟨.read stratum cursor, frames, nesting⟩
      = some ⟨.read stratum.operand cursor, .first stratum :: frames, nesting⟩)
    (reads : Reads stratum.operand rule nesting) :
    Reaches ⟨.read stratum cursor, frames, nesting⟩
      (State.resume ⟨.back (rule.run cursor), frames, nesting⟩ (.first stratum)
        (rule.run cursor)) :=
  .head stepped ((reads _ _).tail rfl)

theorem reads_chain
    (chains : stratum.chains)
    (reads : Reads stratum.operand rule nesting) :
    Reads stratum (Rule.chain stratum.operator? rule) nesting := by
  intro cursor frames
  have stepped : State.step ⟨.read stratum cursor, frames, nesting⟩
      = some ⟨.read stratum.operand cursor, .first stratum :: frames, nesting⟩ := by
    cases stratum with
    | disjunction | conjunction | sum => rfl
    | comparison | unary | primary => cases chains
  have reaches := reaches_first stepped reads
  simp only [Rule.chain]
  cases ran : rule.run cursor with
  | error error =>
    rw [ran] at reaches
    exact reaches
  | ok result =>
    obtain ⟨expr, after⟩ := result
    rw [ran] at reaches
    exact reaches.trans (reaches_chainFrom chains reads expr after frames)

theorem reads_atMostOne (reads : Reads .sum rule nesting) :
    Reads .comparison (Rule.atMostOne Rule.comparisonOperator? rule) nesting := by
  intro cursor frames
  have reaches := @reaches_first .comparison _ _ cursor frames rfl reads
  simp only [Rule.atMostOne]
  cases ran : rule.run cursor with
  | error error =>
    rw [ran] at reaches
    exact reaches
  | ok result =>
    obtain ⟨left, afterLeft⟩ := result
    rw [ran] at reaches
    refine reaches.trans ?_
    simp only
    split
    · rename_i noTokens
      exact reaches_back_of_stop (by rw [noTokens]; rintro _ ⟨⟩) left frames
    rename_i token rest tokens
    split
    · rename_i noOperator
      exact reaches_back_of_stop (by rw [tokens]; rintro _ ⟨⟩; exact noOperator) left frames
    rename_i op isOperator
    have reachesRight := @reaches_right .comparison _ _ _ _ _ _ reads tokens isOperator left frames
    cases ranRight : rule.run (afterLeft.at rest) with
    | error error =>
      rw [ranRight] at reachesRight
      exact reachesRight
    | ok result =>
      obtain ⟨right, afterRight⟩ := result
      rw [ranRight] at reachesRight
      cases joined : Rule.join op left right afterRight with
      | error error =>
        simp only [State.resume, joined] at reachesRight ⊢
        exact reachesRight
      | ok result =>
        simp only [State.resume, joined] at reachesRight ⊢
        exact reachesRight

theorem reads_disjunction (reads : Reads .unary rule nesting) :
    Reads .disjunction (Rule.disjunction rule) nesting :=
  reads_chain rfl (reads_chain rfl (reads_atMostOne (reads_chain rfl reads)))

end Combinators

/-! ## Parentheses and unary operators -/

/-- The rule for what stands inside, if there is one, is read by the steps one
deeper. Without one the counter is used up. -/
def ReadsInside (inner : Option Rule) (nesting : Nat) : Prop :=
  match inner with
  | none => nesting = maxNesting
  | some rule => nesting < maxNesting ∧ Reads .unary rule (nesting + 1)

section Inner

variable {inner : Option Rule} {nesting : Nat} {frames : List Frame} {cursor : Cursor}

theorem operated_some (op : UnaryOp) (rule : Rule) (cursor : Cursor) :
    Rule.operated op (some rule) cursor = operate op (rule.run cursor) :=
  rfl

theorem parenthesised_some (rule : Rule) (cursor : Cursor) :
    Rule.parenthesised (some rule) cursor = close ((Rule.disjunction rule).run cursor) :=
  rfl

/-- Whatever the operand is read as, the counter is back when it is. -/
theorem reaches_operated (reads : ReadsInside inner nesting) (op : UnaryOp) (task : Task) :
    Reaches (State.enter ⟨task, frames, nesting⟩ (.signed op) (.read .unary cursor))
      ⟨.back (Rule.operated op inner cursor), frames, nesting⟩ := by
  cases inner with
  | none =>
    obtain rfl : nesting = maxNesting := reads
    rw [State.enter, if_neg (Nat.lt_irrefl _)]
    exact .refl
  | some rule =>
    obtain ⟨within, reads⟩ := reads
    rw [State.enter, if_pos within, operated_some]
    exact (reads cursor (.signed op :: frames)).tail rfl

theorem reaches_parenthesised (reads : ReadsInside inner nesting) (task : Task) :
    Reaches (State.enter ⟨task, frames, nesting⟩ .parens (.read .disjunction cursor))
      ⟨.back (Rule.parenthesised inner cursor), frames, nesting⟩ := by
  cases inner with
  | none =>
    obtain rfl : nesting = maxNesting := reads
    rw [State.enter, if_neg (Nat.lt_irrefl _)]
    exact .refl
  | some rule =>
    obtain ⟨within, reads⟩ := reads
    rw [State.enter, if_pos within, parenthesised_some]
    exact (reads_disjunction reads cursor (.parens :: frames)).tail rfl

theorem reads_unaryOver (reads : ReadsInside inner nesting) :
    Reads .unary (Rule.unaryOver inner) nesting := by
  intro cursor frames
  refine .head rfl ?_
  simp only [State.read, State.readUnary, Rule.unaryOver]
  cases cursor.tokens with
  | nil => exact .refl
  | cons token rest =>
    dsimp only
    cases Rule.atom? token with
    | some expr => exact .refl
    | none =>
      cases Rule.unaryOperator? token with
      | some op => exact reaches_operated reads op _
      | none =>
        dsimp only
        by_cases isParen : token = .leftParen
        · rw [if_pos isParen, if_pos isParen]
          exact reaches_parenthesised reads _
        · rw [if_neg isParen, if_neg isParen]
          exact .refl

end Inner

theorem reads_unary {nesting left : Nat} (total : nesting + left = maxNesting) :
    Reads .unary (Rule.unary left) nesting := by
  induction left generalizing nesting with
  | zero => exact reads_unaryOver total
  | succ left inductionHypothesis =>
    have within : nesting < maxNesting := by omega
    exact reads_unaryOver ⟨within, inductionHypothesis (by omega)⟩

theorem reads_expression : Reads .disjunction Rule.expression 0 :=
  reads_disjunction (reads_unary (Nat.zero_add _))

/-! ## Whole sources -/

/-- A source of one expression is read to its end or to its first fault, whatever
is made of the expression. -/
theorem reaches_whole
    {α : Type}
    {make : Expr → α}
    {value : α → Expr}
    (same : ∀ expr, value (make expr) = expr)
    (tokens : List Token) :
    Reaches ⟨.read .disjunction { tokens }, [.whole], 0⟩
      ⟨.done (Except.map (fun made => [value made]) do
        let (expr, after) ← Rule.expression.run { tokens }
        after.finish
        return make expr), [], 0⟩ := by
  have reaches := (reads_expression { tokens } [.whole]).tail rfl
  cases ran : Rule.expression.run { tokens } with
  | error error =>
    rw [ran] at reaches
    exact reaches
  | ok result =>
    obtain ⟨expr, after⟩ := result
    rw [ran] at reaches
    dsimp only [bind, Except.bind, State.resume] at reaches ⊢
    cases finished : after.finish with
    | error error =>
      rw [finished] at reaches
      exact reaches
    | ok done =>
      rw [finished] at reaches
      dsimp only [pure, Except.pure, Except.map]
      rw [same]
      exact reaches

/-- The items of a list are read one after the other. -/
theorem reaches_items (task : Task) (items : List Expr) (cursor : Cursor) :
    Reaches (State.nextItem ⟨task, [], 0⟩ items cursor)
      ⟨.done ((Expr.readAll cursor).map (items ++ ·)), [], 0⟩ := by
  fun_induction Expr.readAll cursor generalizing task items with
  | case1 cursor noTokens =>
    simp only [State.nextItem, noTokens, Except.map, List.append_nil]
    exact .refl
  | case2 cursor token rest tokens error failed =>
    have reaches := (reads_expression cursor [.item items]).tail rfl
    rw [failed] at reaches
    simp only [State.nextItem, tokens]
    exact reaches
  | case3 cursor token rest tokens expr after ran inductionHypothesis =>
    have reaches := (reads_expression cursor [.item items]).tail rfl
    rw [ran] at reaches
    have goesOn := inductionHypothesis (.back (.ok (expr, after))) (items ++ [expr])
    simp only [State.nextItem, tokens]
    refine reaches.trans (goesOn.trans ?_)
    cases Expr.readAll after with
    | error error => exact .refl
    | ok others =>
      simp only [Except.map, bind, Except.bind, pure, Except.pure, List.append_assoc,
        List.singleton_append]
      exact .refl

/-- The steps from the tokens of a source end with what the source is read as. -/
theorem reaches_done
    {source : String}
    {tokens : List Token}
    (lexed : Token.ofSource source = .ok tokens)
    (kind : SourceKind) :
    Reaches (State.start kind tokens) ⟨.done (kind.trees source), [], 0⟩ := by
  cases kind with
  | expression =>
    unfold SourceKind.trees Expr.parse
    rw [lexed]
    exact @reaches_whole Expr id id (fun _ => rfl) tokens
  | list =>
    have reaches := reaches_items (.done (.ok [])) [] { tokens }
    have same : SourceKind.list.trees source = (Expr.readAll { tokens }).map ([] ++ ·) := by
      unfold SourceKind.trees Expr.parseList
      rw [lexed]
      exact (congrFun Except.map_id _).symm
    rw [same]
    exact reaches
  | assignment =>
    unfold SourceKind.trees Assignment.parse State.start
    rw [lexed]
    dsimp only [bind, Except.bind]
    cases tokens with
    | nil => exact .refl
    | cons first afterFirst =>
      dsimp only
      cases Target.ofToken? first with
      | none => exact .refl
      | some target =>
        cases afterFirst with
        | nil => exact .refl
        | cons second tokens =>
          dsimp only
          cases AssignOp.ofToken? second with
          | none => exact .refl
          | some op => exact reaches_whole (fun _ => rfl) tokens

/-- **Reading is bounded.** Whatever the source: the trees that come out of it hold
at most 512 binary operators together, and on every way from a root to a leaf are at
most 64 unary operators and 577 nodes. Reading it step by step ends with its trees or
its error and with nothing open, and at every moment on the way the counter is the
number of parentheses and unary operators that are open, and at most 64. A source
that the lexer refuses is not read at all. -/
theorem reading_is_bounded (kind : SourceKind) (source : String) :
    (∀ trees, kind.trees source = .ok trees →
        (trees.map Expr.operators).sum ≤ 512
          ∧ ∀ tree ∈ trees, tree.unaryDepth ≤ 64 ∧ tree.height ≤ 577)
      ∧ (∀ error, Token.ofSource source = .error error → kind.trees source = .error error)
      ∧ ∀ tokens, Token.ofSource source = .ok tokens →
          Reaches (State.start kind tokens) ⟨.done (kind.trees source), [], 0⟩
            ∧ ∀ state, Reaches (State.start kind tokens) state →
              state.nesting = state.opened ∧ state.nesting ≤ 64 := by
  refine ⟨fun trees read => ?_, fun error failed => ?_, fun tokens lexed => ⟨?_, ?_⟩⟩
  · have moderate := SourceKind.moderate_of_trees read
    exact ⟨moderate.operators, fun tree member =>
      ⟨moderate.unaryDepth tree member, moderate.height member⟩⟩
  · cases kind <;> simp [SourceKind.trees, Expr.parse, Expr.parseList, Assignment.parse, failed,
      bind, Except.bind, Except.map]
  · exact reaches_done lexed kind
  · intro state reaches
    have balanced := (Balanced.start kind tokens).of_reaches reaches
    exact ⟨balanced.counted, balanced.bounded⟩

end Stepwise

end ExLine
