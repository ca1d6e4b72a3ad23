import LenSyntax.Proofs.Machine.Basic

/-! The parser with a cursor. The machine sees nothing but the tokens in front of the end of the
input. Here the parser holds all tokens that it is given, without the comments; it looks ahead from
a cursor, wherever that leads, and moves the cursor token by token. Nothing but its steps keeps the
cursor where it should be: to move it past the end of the input or past the last token is a misstep,
and a run does not go on behind one. -/
namespace LenSyntax.Machine

open SyntaxTree ExpressionParser

/-- What is wrong with a move of the cursor. -/
inductive Misstep where
  | atEnd
  | pastEnd
  deriving DecidableEq, Repr

/-- The tokens that have been skipped for a reason. -/
structure Skip where
  fault : SyntaxFault
  passed : List Token

/-- In the state `rest` holds all tokens from the cursor on. `last` is the last token of all.
`skips` tells what has been skipped so far, which no step looks at. -/
structure Cursor extends State where
  last : Token
  skips : List Skip

namespace Cursor
variable (x : Cursor)

/-- The token so far ahead of the cursor; past the last token it is the last one. -/
def peek (offset : Nat) : Token := x.rest[offset]?.getD x.last

def atEnd : Bool := (x.peek 0).kind = .endOfInput

/-- Whether the cursor is in front of a synchronization point. -/
def atSync : Bool :=
  (x.peek 0).kind ∈ [.semicolon, .endOfInput] || (x.peek 0).kind ∈ x.closers

/-- Whether the cursor is in front of a name with a mark behind it. -/
def atNamed (mark : TokenKind) : Bool :=
  (x.peek 0).kind = .identifier && (x.peek 1).kind = mark

/-- What stands where something else was expected. -/
def found : Found := if x.atEnd then .endOfInput else .token (x.peek 0).raw

/-- Takes the token at the cursor. -/
def advance : Except Misstep (Token × Cursor) :=
  match x.rest with
  | [] => .error .pastEnd
  | t :: more => if t.kind = .endOfInput then .error .atEnd else .ok (t, { x with rest := more })

theorem length_lt_of_advance {x y : Cursor} {t : Token} (h : x.advance = .ok (t, y)) :
    y.rest.length < x.rest.length := by
  unfold advance at h
  split at h
  · cases h
  · next hrest =>
    split at h
    · cases h
    · cases h
      rw [hrest]
      exact Nat.lt_succ_self _

/-- Takes a name and the mark behind it, and keeps the name. -/
def advanceNamed : Except Misstep (Token × Cursor) := do
  let (name, y) ← x.advance
  let (_, z) ← y.advance
  return (name, z)

/-- Takes tokens up to a synchronization point outside the brackets opened on the way; tells where
the last of them ends, and which they are. -/
def skip (x : Cursor) (nesting : Nat) (stop : Position) (passed : List Token) :
    Except Misstep (Position × List Token × Cursor) :=
  if x.atEnd ∨ (x.peek 0).kind = .semicolon ∨ nesting = 0 ∧ (x.peek 0).kind ∈ x.closers then
    .ok (stop, passed, x)
  else
    match _h : x.advance with
    | .error misstep => .error misstep
    | .ok (t, y) =>
      y.skip (Surroundings.nestBehind nesting t.kind) t.span.stop (passed ++ [t])
  termination_by x.rest.length
  decreasing_by exact length_lt_of_advance _h

/-- Turns to a task. -/
def turns (task : Task) : Cursor := { x with task }

/-- Returns a tree to the innermost frame. -/
def returns (t : SyntaxTree) : Cursor := x.turns (.value t)

/-- Leaves a frame behind and turns to a task. -/
def enters (frame : Frame) (task : Task) : Cursor :=
  { x with task, frames := frame :: x.frames }

/-- Adds statements to those that have been read. -/
def states (ts : List SyntaxTree) : Cursor := { x with statements := x.statements ++ ts }

def reports (d : Diagnostic) : Cursor := { x with diagnostics := x.diagnostics ++ [d] }

/-- Something is missing in front of a synchronization point; nothing is skipped. -/
def missing (fault : SyntaxFault) : Cursor :=
  let here := (x.peek 0).span
  (x.reports (.error fault.message here)).returns (node .error fault.message (.point here.start) [])

/-- The token at the cursor does not fit; tokens are skipped up to a synchronization point. -/
def recover (fault : SyntaxFault) : Except Misstep (SyntaxTree × Cursor) := do
  let here := (x.peek 0).span
  let (stop, passed, y) ← (x.reports (.error fault.message here)).skip 0 here.start []
  return (node .error fault.message ⟨here.start, stop⟩ [],
    { y with skips := y.skips ++ [⟨fault, passed⟩] })

/-- Takes one token and returns a node for it. -/
def leaf (kind : NodeKind) (text : Text) : Except Misstep Cursor := do
  let (t, y) ← x.advance
  return y.returns (node kind text t.span [])

/-- Returns a bracket, whose closer is no longer waited for. -/
def closes (b : Bracket) (opening : Token) (trees : List SyntaxTree) : Except Misstep Cursor := do
  let outside : Cursor := { x with closers := x.closers.drop b.awaited.length }
  if (outside.peek 0).kind = b.closer then
    let (closer, y) ← outside.advance
    return y.returns (node b.node [] ⟨opening.span.start, closer.span.stop⟩ trees)
  else
    let fault := b.unclosed opening.span.start
    return (outside.reports (.error fault.message (outside.peek 0).span)).returns
      (bracket b opening trees)

section Steps
variable (limit : Nat)

/-- Between statements. There is no step behind the last one. -/
def stepProgram : Except Misstep (Option Cursor) := do
  if x.atEnd then
    return none
  else if (x.peek 0).kind = .semicolon then
    let (_, y) ← x.advance
    return some y
  else
    return some (x.turns .statement)

def stepStatement : Except Misstep Cursor := do
  if x.atNamed .bind then
    let (name, y) ← x.advanceNamed
    return y.enters (.binding name) (.expression lowestPrecedence)
  else
    return x.turns (.expression lowestPrecedence)

def stepExpression (least : Nat) : Except Misstep Cursor := do
  if limit ≤ x.depth then
    let (skipped, y) ← x.recover (.tooDeep limit)
    return y.returns skipped
  else
    return { x.enters (.operations least) .unary with depth := x.depth + 1 }

def stepUnary : Except Misstep Cursor := do
  if (x.peek 0).isUnaryOperator then
    let (operator, y) ← x.advance
    return y.enters (.negate operator) .unary
  else
    return x.enters .calls .operand

def stepOperand : Except Misstep Cursor := do
  let t := x.peek 0
  match t.kind with
  | .number => x.leaf .number t.value
  | .string => x.leaf .string t.value
  | .keyword => x.leaf .boolean t.value
  | .identifier =>
    if (x.peek 1).kind = .arrow then
      let (parameter, y) ← x.advanceNamed
      return y.enters (.lambda parameter) (.expression lowestPrecedence)
    else
      x.leaf .identifier t.value
  | .openParen =>
    let (opening, y) ← x.advance
    let inside : Cursor := { y with closers := Bracket.paren.awaited ++ y.closers }
    return inside.enters (.group opening) (.expression lowestPrecedence)
  | .openBrace =>
    let (opening, y) ← x.advance
    let inside : Cursor := { y with closers := Bracket.brace.awaited ++ y.closers }
    return inside.turns (.fields opening [])
  | .error => x.leaf .error (SyntaxFault.invalidToken t.raw).message
  | _ =>
    if x.atSync then
      return x.missing .missingExpression
    else
      let (skipped, y) ← x.recover (.unexpected x.found)
      return y.returns skipped

def stepFields (opening : Token) (trees : List SyntaxTree) : Except Misstep Cursor := do
  if (x.peek 0).kind = .closeBrace ∨ x.atSync ∧ (x.peek 0).kind ≠ .comma then
    x.closes .brace opening trees
  else
    return x.enters (.product opening trees) (.field trees)

def stepField (before : List SyntaxTree) : Except Misstep Cursor := do
  if x.atNamed .colon then
    let (name, y) ← x.advanceNamed
    return y.enters (.field before name) (.expression lowestPrecedence)
  else if x.atSync then
    return x.missing .missingFieldName
  else
    let (skipped, y) ← x.recover (.notFieldName x.found)
    return y.returns skipped

/-- Behind an operand of an expression: the expression goes on with an operator, or it is left. -/
def resumeOperations (least : Nat) (t : SyntaxTree) : Except Misstep Cursor := do
  let left : Cursor := { x.returns t with depth := x.depth - 1 }
  match (x.peek 0).binaryOperator? with
  | none => return left
  | some operator =>
    if operator.precedence < least then
      return left
    else
      let (u, y) ← x.advance
      return y.enters (.operation least t u) (.expression operator.rightLeast)

/-- Behind the expression inside a group. -/
def resumeGroup (opening : Token) (t : SyntaxTree) : Except Misstep Cursor := do
  if x.atSync then
    x.closes .paren opening [t]
  else
    let (skipped, y) ← x.recover (.unexpected x.found)
    y.closes .paren opening [t, skipped]

/-- Behind a field of a product, the last of the given trees. -/
def resumeProduct (opening : Token) (trees : List SyntaxTree) : Except Misstep Cursor := do
  if (x.peek 0).kind = .comma then
    let (_, y) ← x.advance
    return y.turns (.fields opening trees)
  else if x.atSync then
    return x.turns (.fields opening trees)
  else
    let (skipped, y) ← x.recover (.afterField x.found)
    return y.turns (.fields opening (trees ++ [skipped]))

/-- Behind the value of a field. -/
def resumeField (before : List SyntaxTree) (name : Token) (t : SyntaxTree) : Cursor :=
  let field := node .field name.value (.cover name.span t.span) [t]
  if hasField name.value before then
    (x.reports (.warning (SyntaxFault.duplicateField name.value).message name.span)).returns field
  else
    x.returns field

/-- Returns a value to a frame, which has been taken off. -/
def resume (t : SyntaxTree) : Frame → Except Misstep Cursor
  | .binding name =>
    return x.returns (node .binding name.value (.cover name.span t.span) [t])
  | .operations least => x.resumeOperations least t
  | .operation least left u =>
    return x.enters (.operations least)
      (.value (node .binary u.value (.cover left.span t.span) [left, t]))
  | .negate u => return x.returns (negate u t)
  | .calls =>
    if (x.peek 0).kind.startsOperand then return x.enters (.call t) .operand else return x.returns t
  | .call function =>
    return x.enters .calls (.value (node .call [] (.cover function.span t.span) [function, t]))
  | .lambda parameter =>
    return x.returns (node .lambda parameter.value (.cover parameter.span t.span) [t])
  | .group opening => x.resumeGroup opening t
  | .product opening before => x.resumeProduct opening (before ++ [t])
  | .field before name => return x.resumeField before name t

/-- Behind a statement. -/
def finish (t : SyntaxTree) : Except Misstep Cursor := do
  let behind := (x.turns .program).states [t]
  if (x.peek 0).kind = .semicolon then
    let (_, y) ← behind.advance
    return y
  else if x.atEnd then
    return behind
  else
    let (skipped, y) ← behind.recover (.afterStatement x.found)
    return y.states [skipped]

/-- One step, unless it is a misstep. -/
def step : Except Misstep (Option Cursor) :=
  match x.task with
  | .program => x.stepProgram
  | .statement => some <$> x.stepStatement
  | .expression least => some <$> x.stepExpression limit least
  | .unary => some <$> x.stepUnary
  | .operand => some <$> x.stepOperand
  | .fields opening trees => some <$> x.stepFields opening trees
  | .field before => some <$> x.stepField before
  | .value t =>
    match x.frames with
    | [] => some <$> x.finish t
    | f :: frames => some <$> ({ x with frames } : Cursor).resume t f

/-- The program of a state in which nothing is left to do. -/
def program : Program :=
  ⟨.node .program [] ⟨.origin, (x.peek 0).span.stop⟩ x.statements, x.diagnostics⟩

end Steps

/-- All tokens that the parser holds: no comments, and an end of the input at the end. -/
def input (tokens : List Token) : List Token :=
  let seen := tokens.filter (·.kind ≠ .comment)
  match seen.getLast? with
  | none => [.endAt .origin]
  | some t => if t.kind = .endOfInput then seen else seen ++ [.endAt t.span.stop]

/-- In front of the first of some tokens. -/
def start (tokens : List Token) : Cursor where
  toState := Machine.start (input tokens)
  last := (input tokens).getLastD (.endAt .origin)
  skips := []

/-- What comes next, if the cursor is not moved in error. -/
def Next (limit : Nat) (x y : Cursor) : Prop := x.step limit = .ok (some y)

/-- What comes after any number of steps. -/
def Reaches (limit : Nat) : Cursor → Cursor → Prop := Relation.ReflTransGen (Next limit)

/-- From the first of some tokens the parser comes to an end with a program. -/
def Yields (limit : Nat) (tokens : List Token) (p : Program) : Prop :=
  ∃ x, Reaches limit (start tokens) x ∧ x.step limit = .ok none ∧ x.program = p

end Cursor

end LenSyntax.Machine
