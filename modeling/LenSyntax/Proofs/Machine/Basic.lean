import LenSyntax.Proofs.Grammar.Agreement
import Mathlib.Logic.Relation

/-! The parser as a machine. One step does what the parser does up to its next call or return;
what is left to do after a return stands in a frame. How deeply expressions are nested is counted,
and the closers that open brackets wait for are held on a stack of their own, so nothing but the
steps says that the two agree with the frames. -/
namespace LenSyntax.Machine

open SyntaxTree ExpressionParser

/-- What is done next. A `value` has been read and is returned to the innermost frame. -/
inductive Task where
  | program
  | statement
  | expression (least : Nat)
  | unary
  | operand
  | fields (opening : Token) (trees : List SyntaxTree)
  | field (before : List SyntaxTree)
  | value (t : SyntaxTree)

/-- What waits for a value. An expression waits for its first operand or the result of its operators
so far in `operations`, and for a right operand in `operation`; an application waits for its
function or the result of its calls so far in `calls`, and for an argument in `call`. -/
inductive Frame where
  | binding (name : Token)
  | operations (least : Nat)
  | operation (least : Nat) (left : SyntaxTree) (operator : Token)
  | negate (operator : Token)
  | calls
  | call (function : SyntaxTree)
  | lambda (parameter : Token)
  | group (opening : Token)
  | product (opening : Token) (before : List SyntaxTree)
  | field (before : List SyntaxTree) (name : Token)

/-- `statements` and `diagnostics` hold what has been read and reported so far. -/
structure State where
  task : Task
  frames : List Frame
  depth : Nat
  closers : List TokenKind
  rest : List Token
  diagnostics : List Diagnostic
  statements : List SyntaxTree

/-- A name with a mark behind it, and the tokens behind the mark. -/
def named? (mark : TokenKind) : List Token → Option (Token × List Token)
  | name :: t :: ts => if name.kind = .identifier ∧ t.kind = mark then some (name, ts) else none
  | _ => none

/-- A bracket that holds given trees and ends behind the last of them. -/
def bracket (b : Bracket) (opening : Token) (trees : List SyntaxTree) : SyntaxTree :=
  node b.node []
    ⟨opening.span.start, (trees.getLast?.map (·.span.stop)).getD opening.span.stop⟩ trees

namespace State
variable (limit : Nat) (ending : Span) (x : State)

/-- The surroundings of a state, under a depth limit and in an input with a given end. -/
def surroundings : Surroundings := ⟨limit, ending, x.closers⟩

/-- Returns what has been read at once. -/
def reads (p : Parsed SyntaxTree) : State :=
  { x with
    task := .value p.value
    diagnostics := x.diagnostics ++ p.diagnostics
    rest := p.rest }

/-- Leaves a frame behind and turns to a task in front of some tokens. -/
def enters (frame : Frame) (task : Task) (rest : List Token) : State :=
  { x with task, frames := frame :: x.frames, rest }

/-- Returns a bracket, whose closer is no longer waited for. -/
def closes (b : Bracket) (opening : Token) (trees : List SyntaxTree) : State :=
  let outside := { x with closers := x.closers.drop b.awaited.length }
  outside.reads
    (Parsed.closing (outside.surroundings limit ending) b ⟨bracket b opening trees, [], x.rest⟩)

/-- In front of a statement. -/
def stepStatement : State :=
  match named? .bind x.rest with
  | some (name, more) => x.enters (.binding name) (.expression lowestPrecedence) more
  | none => { x with task := .expression lowestPrecedence }

/-- In front of an expression: where the depth limit is reached, none is entered. -/
def stepExpression (least : Nat) : State :=
  if limit ≤ x.depth then x.reads ((x.surroundings limit ending).recover (.tooDeep limit) x.rest)
  else { x.enters (.operations least) .unary x.rest with depth := x.depth + 1 }

def stepUnary : State :=
  match x.rest with
  | [] => x.enters .calls .operand []
  | t :: more =>
    if t.isUnaryOperator then x.enters (.negate t) .unary more
    else x.enters .calls .operand (t :: more)

def stepOperand : State :=
  let s := x.surroundings limit ending
  match x.rest with
  | [] => x.reads (s.missing .missingExpression [])
  | t :: more =>
    match t.kind with
    | .number => x.reads (leaf .number t more)
    | .string => x.reads (leaf .string t more)
    | .keyword => x.reads (leaf .boolean t more)
    | .identifier =>
      match named? .arrow (t :: more) with
      | some (parameter, body) => x.enters (.lambda parameter) (.expression lowestPrecedence) body
      | none => x.reads (leaf .identifier t more)
    | .openParen =>
      let inside := { x with closers := Bracket.paren.awaited ++ x.closers }
      inside.enters (.group t) (.expression lowestPrecedence) more
    | .openBrace =>
      { x with
        task := .fields t []
        closers := Bracket.brace.awaited ++ x.closers
        rest := more }
    | .error => x.reads ⟨node .error (SyntaxFault.invalidToken t.raw).message t.span [], [], more⟩
    | _ =>
      if s.awaits t then x.reads (s.missing .missingExpression (t :: more))
      else x.reads (s.recover (.unexpected (.token t.raw)) (t :: more))

/-- In front of the fields of a product that have not been read. -/
def stepFields (opening : Token) (trees : List SyntaxTree) : State :=
  if (x.surroundings limit ending).endsFields x.rest then x.closes limit ending .brace opening trees
  else x.enters (.product opening trees) (.field trees) x.rest

def stepField (before : List SyntaxTree) : State :=
  match named? .colon x.rest with
  | some (name, more) => x.enters (.field before name) (.expression lowestPrecedence) more
  | none => x.reads (noField (x.surroundings limit ending) x.rest)

/-- Behind an operand of an expression: the expression goes on with an operator, or it is left. -/
def resumeOperations (least : Nat) (t : SyntaxTree) : State :=
  let left := { x with task := .value t, depth := x.depth - 1 }
  match x.rest with
  | [] => left
  | u :: more =>
    match u.binaryOperator? with
    | none => left
    | some operator =>
      if operator.precedence < least then left
      else x.enters (.operation least t u) (.expression operator.rightLeast) more

/-- Behind a field of a product, the last of the given trees. -/
def resumeProduct (opening : Token) (trees : List SyntaxTree) : State :=
  if headKind? x.rest = some .comma then
    { x with task := .fields opening trees, rest := x.rest.tail }
  else if (x.surroundings limit ending).atSync x.rest then { x with task := .fields opening trees }
  else
    let skipped := (x.surroundings limit ending).recover (.afterField (.ofHead x.rest)) x.rest
    { x with
      task := .fields opening (trees ++ [skipped.value])
      diagnostics := x.diagnostics ++ skipped.diagnostics
      rest := skipped.rest }

/-- Returns a value to a frame, which has been taken off. -/
def resume (t : SyntaxTree) : Frame → State
  | .binding name =>
    { x with task := .value (node .binding name.value (.cover name.span t.span) [t]) }
  | .operations least => x.resumeOperations least t
  | .operation least left u =>
    x.enters (.operations least) (.value (node .binary u.value (.cover left.span t.span) [left, t]))
      x.rest
  | .negate u => { x with task := .value (negate u t) }
  | .calls =>
    if startsOperand x.rest then x.enters (.call t) .operand x.rest else { x with task := .value t }
  | .call function =>
    x.enters .calls (.value (node .call [] (.cover function.span t.span) [function, t])) x.rest
  | .lambda parameter =>
    { x with task := .value (node .lambda parameter.value (.cover parameter.span t.span) [t]) }
  | .group opening =>
    let more := leftover (x.surroundings limit ending) x.rest
    let behind := { x with diagnostics := x.diagnostics ++ more.diagnostics, rest := more.rest }
    behind.closes limit ending .paren opening (t :: more.value)
  | .product opening before => x.resumeProduct limit ending opening (before ++ [t])
  | .field before name =>
    let duplicate : List Diagnostic :=
      if hasField name.value before then
        [.warning (SyntaxFault.duplicateField name.value).message name.span]
      else []
    { x with
      task := .value (node .field name.value (.cover name.span t.span) [t])
      diagnostics := x.diagnostics ++ duplicate }

/-- Behind a statement. -/
def finish (t : SyntaxTree) : State :=
  match x.rest with
  | [] => { x with task := .program, statements := x.statements ++ [t] }
  | u :: more =>
    if u.kind = .semicolon then
      { x with task := .program, rest := more, statements := x.statements ++ [t] }
    else
      let skipped :=
        (x.surroundings limit ending).recover (.afterStatement (.token u.raw)) (u :: more)
      { x with
        task := .program
        diagnostics := x.diagnostics ++ skipped.diagnostics
        rest := skipped.rest
        statements := x.statements ++ [t, skipped.value] }

/-- One step. There is none behind the last statement. -/
def step : Option State :=
  match x.task with
  | .program =>
    match x.rest with
    | [] => none
    | t :: more =>
      some (if t.kind = .semicolon then { x with rest := more } else { x with task := .statement })
  | .statement => some x.stepStatement
  | .expression least => some (x.stepExpression limit ending least)
  | .unary => some x.stepUnary
  | .operand => some (x.stepOperand limit ending)
  | .fields opening trees => some (x.stepFields limit ending opening trees)
  | .field before => some (x.stepField limit ending before)
  | .value t =>
    match x.frames with
    | [] => some (x.finish limit ending t)
    | f :: frames => some ({ x with frames }.resume limit ending t f)

end State

/-- What comes after any number of steps. -/
def Reaches (limit : Nat) (ending : Span) : State → State → Prop :=
  Relation.ReflTransGen fun x y => x.step limit ending = some y

/-- In front of a program. -/
def start (ts : List Token) : State := ⟨.program, [], 0, [], ts, [], []⟩

end LenSyntax.Machine
