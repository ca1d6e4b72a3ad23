import LenSyntax.Arena.Basic
import LenSyntax.Proofs.Machine.Basic

/-! The parser as it fills an arena. A node is added as soon as all below it is there, and from then
on the parser knows it by its index; when it needs the span of a node or the name of a field, it
looks at the node again. Nothing but its steps keeps the indices right: to name a child or to look
at a node that is not there is a misstep, and a run does not go on behind one. -/
namespace LenSyntax

open Machine ExpressionParser

namespace Filling

/-- What is wrong with the use of an index. -/
inductive Misstep where
  | child (e : NoSuchChild)
  | node (index : Nat)
  deriving DecidableEq

/-- What is done next. `seen` holds the names of the fields of a product so far. -/
inductive Task where
  | program
  | statement
  | expression (least : Nat)
  | unary
  | operand
  | fields (opening : Token) (indices : List Nat) (seen : List Text)
  | field (seen : List Text)
  | value (index : Nat)

/-- What waits for a value. -/
inductive Frame where
  | binding (name : Token)
  | operations (least : Nat)
  | operation (least : Nat) (left : Nat) (operator : Token)
  | negate (operator : Token)
  | calls
  | call (function : Nat)
  | lambda (parameter : Token)
  | group (opening : Token)
  | product (opening : Token) (before : List Nat) (seen : List Text)
  | field (seen : List Text) (name : Token)

end Filling

/-- `statements` holds the indices of the statements that have been read, and `arena` all nodes that
have been made. -/
structure Filling where
  task : Filling.Task
  frames : List Filling.Frame
  depth : Nat
  closers : List TokenKind
  rest : List Token
  diagnostics : List Diagnostic
  statements : List Nat
  arena : Arena

namespace Filling
variable (limit : Nat) (ending : Span) (x : Filling)

def surroundings : Surroundings := ⟨limit, ending, x.closers⟩

/-- The node at an index. -/
def node (index : Nat) : Except Misstep ArenaNode :=
  match x.arena.nodes[index]? with
  | some n => .ok n
  | none => .error (.node index)

/-- Adds a node to the arena and tells its index. -/
def add (kind : NodeKind) (text : Text) (span : Span) (children : List Nat) :
    Except Misstep (Nat × Filling) :=
  match x.arena.add kind text span (children.map Int.ofNat) with
  | .ok arena => .ok (x.arena.size, { x with arena })
  | .error e => .error (.child e)

/-- Adds a node and returns it to the innermost frame. -/
def makes (kind : NodeKind) (text : Text) (span : Span) (children : List Nat) :
    Except Misstep Filling := do
  let (index, y) ← x.add kind text span children
  return { y with task := .value index }

/-- Leaves a frame behind and turns to a task in front of some tokens. -/
def enters (frame : Frame) (task : Task) (rest : List Token) : Filling :=
  { x with task, frames := frame :: x.frames, rest }

def reports (d : Diagnostic) : Filling := { x with diagnostics := x.diagnostics ++ [d] }

/-- Something is missing in front of a synchronization point; nothing is skipped. -/
def missing (fault : SyntaxFault) : Except Misstep Filling :=
  let here := (x.surroundings limit ending).here x.rest
  (x.reports (.error fault.message here)).makes .error fault.message (.point here.start) []

/-- The next token does not fit; tokens are skipped up to a synchronization point. -/
def recover (fault : SyntaxFault) : Except Misstep (Nat × Filling) :=
  let s := x.surroundings limit ending
  let here := s.here x.rest
  let (stop, rest) := s.skip 0 here.start x.rest
  ({ x with rest }.reports (.error fault.message here)).add .error fault.message ⟨here.start, stop⟩
    []

/-- Skips tokens and returns what stands for them. -/
def skips (fault : SyntaxFault) : Except Misstep Filling := do
  let (index, y) ← x.recover limit ending fault
  return { y with task := .value index }

/-- Takes one token and returns a node for it. -/
def leaf (kind : NodeKind) (text : Text) (t : Token) (rest : List Token) : Except Misstep Filling :=
  { x with rest }.makes kind text t.span []

/-- Where a bracket ends that has no closer: behind the last of its nodes. -/
def lastStop (opening : Token) (indices : List Nat) : Except Misstep Position :=
  match indices.getLast? with
  | none => .ok opening.span.stop
  | some index => do
    let n ← x.node index
    return n.span.stop

/-- Returns a bracket, whose closer is no longer waited for. -/
def closes (b : Bracket) (opening : Token) (indices : List Nat) : Except Misstep Filling := do
  let outside := { x with closers := x.closers.drop b.awaited.length }
  let last ← x.lastStop opening indices
  let stop := close (outside.surroundings limit ending) b.closer (b.unclosed opening.span.start)
    last x.rest
  { outside with
    diagnostics := x.diagnostics ++ stop.diagnostics
    rest := stop.rest }.makes b.node [] ⟨opening.span.start, stop.value⟩ indices

/-- In front of a statement. -/
def stepStatement : Filling :=
  match named? .bind x.rest with
  | some (name, more) => x.enters (.binding name) (.expression lowestPrecedence) more
  | none => { x with task := .expression lowestPrecedence }

/-- In front of an expression: where the depth limit is reached, none is entered. -/
def stepExpression (least : Nat) : Except Misstep Filling :=
  if limit ≤ x.depth then x.skips limit ending (.tooDeep limit)
  else .ok { x.enters (.operations least) .unary x.rest with depth := x.depth + 1 }

def stepUnary : Filling :=
  match x.rest with
  | [] => x.enters .calls .operand []
  | t :: more =>
    if t.isUnaryOperator then x.enters (.negate t) .unary more
    else x.enters .calls .operand (t :: more)

def stepOperand : Except Misstep Filling :=
  match x.rest with
  | [] => x.missing limit ending .missingExpression
  | t :: more =>
    match t.kind with
    | .number => x.leaf .number t.value t more
    | .string => x.leaf .string t.value t more
    | .keyword => x.leaf .boolean t.value t more
    | .identifier =>
      match named? .arrow (t :: more) with
      | some (parameter, body) =>
        .ok (x.enters (.lambda parameter) (.expression lowestPrecedence) body)
      | none => x.leaf .identifier t.value t more
    | .openParen =>
      let inside := { x with closers := Bracket.paren.awaited ++ x.closers }
      .ok (inside.enters (.group t) (.expression lowestPrecedence) more)
    | .openBrace =>
      .ok { x with
        task := .fields t [] []
        closers := Bracket.brace.awaited ++ x.closers
        rest := more }
    | .error => x.leaf .error (SyntaxFault.invalidToken t.raw).message t more
    | _ =>
      if (x.surroundings limit ending).awaits t then x.missing limit ending .missingExpression
      else x.skips limit ending (.unexpected (.token t.raw))

/-- In front of the fields of a product that have not been read. -/
def stepFields (opening : Token) (indices : List Nat) (seen : List Text) :
    Except Misstep Filling :=
  if (x.surroundings limit ending).endsFields x.rest then
    x.closes limit ending .brace opening indices
  else .ok (x.enters (.product opening indices seen) (.field seen) x.rest)

def stepField (seen : List Text) : Except Misstep Filling :=
  match named? .colon x.rest with
  | some (name, more) => .ok (x.enters (.field seen name) (.expression lowestPrecedence) more)
  | none =>
    if (x.surroundings limit ending).atSync x.rest then x.missing limit ending .missingFieldName
    else x.skips limit ending (.notFieldName (.ofHead x.rest))

/-- Behind an operand of an expression: the expression goes on with an operator, or it is left. -/
def resumeOperations (least index : Nat) : Filling :=
  let left := { x with task := .value index, depth := x.depth - 1 }
  match x.rest with
  | [] => left
  | u :: more =>
    match u.binaryOperator? with
    | none => left
    | some operator =>
      if operator.precedence < least then left
      else x.enters (.operation least index u) (.expression operator.rightLeast) more

/-- Behind the expression inside a group. -/
def resumeGroup (opening : Token) (index : Nat) : Except Misstep Filling :=
  if (x.surroundings limit ending).atSync x.rest then x.closes limit ending .paren opening [index]
  else do
    let (skipped, y) ← x.recover limit ending (.unexpected (.ofHead x.rest))
    y.closes limit ending .paren opening [index, skipped]

/-- Behind a field of a product, the last of the given ones. -/
def resumeProduct (opening : Token) (indices : List Nat) (seen : List Text) :
    Except Misstep Filling :=
  if headKind? x.rest = some .comma then
    .ok { x with task := .fields opening indices seen, rest := x.rest.tail }
  else if (x.surroundings limit ending).atSync x.rest then
    .ok { x with task := .fields opening indices seen }
  else do
    let (skipped, y) ← x.recover limit ending (.afterField (.ofHead x.rest))
    return { y with task := .fields opening (indices ++ [skipped]) seen }

/-- The name of a field. -/
def fieldName? (kind : NodeKind) (text : Text) : Option Text :=
  if kind = .field then some text else none

/-- Returns a value to a frame, which has been taken off. -/
def resume (index : Nat) : Frame → Except Misstep Filling
  | .binding name => do
    let n ← x.node index
    x.makes .binding name.value (.cover name.span n.span) [index]
  | .operations least => .ok (x.resumeOperations least index)
  | .operation least left u => do
    let l ← x.node left
    let n ← x.node index
    let (both, y) ← x.add .binary u.value (.cover l.span n.span) [left, index]
    return y.enters (.operations least) (.value both) x.rest
  | .negate u => do
    let n ← x.node index
    x.makes .unary u.value (.cover u.span n.span) [index]
  | .calls =>
    .ok (if startsOperand x.rest then x.enters (.call index) .operand x.rest
      else { x with task := .value index })
  | .call function => do
    let f ← x.node function
    let n ← x.node index
    let (call, y) ← x.add .call [] (.cover f.span n.span) [function, index]
    return y.enters .calls (.value call) x.rest
  | .lambda parameter => do
    let n ← x.node index
    x.makes .lambda parameter.value (.cover parameter.span n.span) [index]
  | .group opening => x.resumeGroup limit ending opening index
  | .product opening before seen => do
    let n ← x.node index
    x.resumeProduct limit ending opening (before ++ [index])
      (seen ++ (fieldName? n.kind n.text).toList)
  | .field seen name => do
    let duplicate : List Diagnostic :=
      if name.value ∈ seen then
        [.warning (SyntaxFault.duplicateField name.value).message name.span]
      else []
    let n ← x.node index
    { x with diagnostics := x.diagnostics ++ duplicate }.makes .field name.value
      (.cover name.span n.span) [index]

/-- Behind one more statement. -/
def states (index : Nat) : Filling :=
  { x with task := .program, statements := x.statements ++ [index] }

/-- Behind a statement. -/
def finish (index : Nat) : Except Misstep Filling :=
  let behind := x.states index
  match x.rest with
  | [] => .ok behind
  | u :: more =>
    if u.kind = .semicolon then .ok { behind with rest := more }
    else do
      let (skipped, y) ← behind.recover limit ending (.afterStatement (.token u.raw))
      return y.states skipped

/-- One step, unless it is a misstep. There is none behind the last statement. -/
def step : Except Misstep (Option Filling) :=
  match x.task with
  | .program =>
    match x.rest with
    | [] => .ok none
    | t :: more =>
      .ok (some (if t.kind = .semicolon then { x with rest := more }
        else { x with task := .statement }))
  | .statement => .ok (some x.stepStatement)
  | .expression least => some <$> x.stepExpression limit ending least
  | .unary => .ok (some x.stepUnary)
  | .operand => some <$> x.stepOperand limit ending
  | .fields opening indices seen => some <$> x.stepFields limit ending opening indices seen
  | .field seen => some <$> x.stepField limit ending seen
  | .value index =>
    match x.frames with
    | [] => some <$> x.finish limit ending index
    | f :: frames => some <$> { x with frames }.resume limit ending index f

/-- The arena of a program, once all its statements have been read. -/
def complete : Except Misstep Arena := do
  let (index, y) ← x.add .program [] ⟨.origin, ending.stop⟩ x.statements
  return y.arena.withRoot index

/-- What comes after any number of steps. -/
def Reaches (limit : Nat) (ending : Span) : Filling → Filling → Prop :=
  Relation.ReflTransGen fun x y => x.step limit ending = .ok (some y)

/-- In front of a program. -/
def start (ts : List Token) : Filling := ⟨.program, [], 0, [], ts, [], [], .empty⟩

end Filling
end LenSyntax
