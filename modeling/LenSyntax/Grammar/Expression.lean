import LenSyntax.Grammar.Operator
import LenSyntax.Grammar.Recovery

/-! Parsing of expressions. Each construct is parsed with a parser for the expressions inside it as
an argument, so nesting is bounded by recursion on the depth that is left and every loop by the
number of tokens: a construct never adds tokens, and a loop takes at least one in each round. -/
namespace LenSyntax

/-- A parser of expressions all of whose operators have at least a given precedence. -/
structure ExpressionParser where
  run : Surroundings → (least : Nat) → List Token → Parsed SyntaxTree
  run_suffix : ∀ s least ts, (run s least ts).rest <:+ ts

namespace ExpressionParser

open SyntaxTree

/-- Any expression. -/
def expression (e : ExpressionParser) (s : Surroundings) (ts : List Token) : Parsed SyntaxTree :=
  e.run s lowestPrecedence ts

theorem expression_suffix (e : ExpressionParser) (s : Surroundings) (ts : List Token) :
    (e.expression s ts).rest <:+ ts := e.run_suffix s _ ts

/-- The body of a lambda, behind its arrow. -/
def lambda (e : ExpressionParser) (s : Surroundings) (parameter : Token) (ts : List Token) :
    Parsed SyntaxTree :=
  let body := e.expression s ts
  { body with
    value := node .lambda parameter.value (.cover parameter.span body.value.span) [body.value] }

/-- Takes a closer, and tells where it ends; without it the construct ends at `stop`. -/
def close (s : Surroundings) (closer : TokenKind) (fault : SyntaxFault) (stop : Position) :
    List Token → Parsed Position
  | [] => ⟨stop, [.error fault.message s.ending], []⟩
  | t :: ts =>
    if t.kind = closer then ⟨t.span.stop, [], ts⟩
    else ⟨stop, [.error fault.message t.span], t :: ts⟩

theorem close_suffix (s : Surroundings) (closer : TokenKind) (fault : SyntaxFault)
    (stop : Position) (ts : List Token) : (close s closer fault stop ts).rest <:+ ts := by
  cases ts with
  | nil => exact List.suffix_rfl
  | cons t ts =>
    simp only [close]
    split
    · exact List.suffix_cons t ts
    · exact List.suffix_rfl

/-- What stands between an expression and the closer of its group. -/
def leftover (s : Surroundings) (ts : List Token) : Parsed (List SyntaxTree) :=
  if s.atSync ts then ⟨[], [], ts⟩
  else
    let skipped := s.recover (.unexpected (.ofHead ts)) ts
    { skipped with value := [skipped.value] }

theorem leftover_suffix (s : Surroundings) (ts : List Token) : (leftover s ts).rest <:+ ts := by
  unfold leftover
  split
  · exact List.suffix_rfl
  · exact s.recover_suffix (.unexpected (.ofHead ts)) ts

/-- The inside of a group and its closer, behind its opening parenthesis. -/
def group (e : ExpressionParser) (s : Surroundings) (opening : Token) (ts : List Token) :
    Parsed SyntaxTree :=
  let inner := s.within [.closeParen]
  let body := e.expression inner ts
  let more := leftover inner body.rest
  let last := more.value.getLastD body.value
  let stop := close s .closeParen (.openGroup opening.span.start) last.span.stop more.rest
  { value := node .group [] ⟨opening.span.start, stop.value⟩ (body.value :: more.value)
    diagnostics := body.diagnostics ++ more.diagnostics ++ stop.diagnostics
    rest := stop.rest }

theorem group_suffix (e : ExpressionParser) (s : Surroundings) (opening : Token)
    (ts : List Token) : (e.group s opening ts).rest <:+ ts :=
  (close_suffix _ _ _ _ _).trans ((leftover_suffix _ _).trans (e.expression_suffix _ ts))

/-- Whether a field of a given name is among the trees. -/
def hasField (name : Text) (trees : List SyntaxTree) : Bool :=
  trees.any fun t => t.kind = .field && t.text = name

/-- A field behind its colon; `before` holds the fields in front of it in any order. -/
def fieldValue (e : ExpressionParser) (s : Surroundings) (before : List SyntaxTree) (name : Token)
    (ts : List Token) : Parsed SyntaxTree :=
  let body := e.expression s ts
  let duplicate : List Diagnostic :=
    if hasField name.value before then
      [.warning (SyntaxFault.duplicateField name.value).message name.span]
    else []
  { value := node .field name.value (.cover name.span body.value.span) [body.value]
    diagnostics := body.diagnostics ++ duplicate
    rest := body.rest }

/-- No field starts here. -/
def noField (s : Surroundings) (ts : List Token) : Parsed SyntaxTree :=
  if s.atSync ts then s.missing .missingFieldName ts
  else s.recover (.notFieldName (.ofHead ts)) ts

theorem noField_suffix (s : Surroundings) (ts : List Token) : (noField s ts).rest <:+ ts := by
  unfold noField
  split
  · exact List.suffix_rfl
  · exact s.recover_suffix _ ts

/-- A field, or what stands in its place. -/
def field (e : ExpressionParser) (s : Surroundings) (before : List SyntaxTree) (ts : List Token) :
    Parsed SyntaxTree :=
  match ts with
  | name :: colon :: more =>
    if name.kind = .identifier ∧ colon.kind = .colon then e.fieldValue s before name more
    else noField s ts
  | _ => noField s ts

theorem field_suffix (e : ExpressionParser) (s : Surroundings) (before : List SyntaxTree)
    (ts : List Token) : (e.field s before ts).rest <:+ ts := by
  unfold field
  split
  · split
    · exact (e.expression_suffix s _).trans
        ((List.suffix_cons _ _).trans (List.suffix_cons _ _))
    · exact noField_suffix s _
  · exact noField_suffix s _

/-- The fields of a product up to its closer or to where an enclosing construct goes on; `before`
holds the fields already read, latest first. -/
def fields (e : ExpressionParser) (s : Surroundings) (before : List SyntaxTree)
    (ts : List Token) : Parsed (List SyntaxTree) :=
  match ts with
  | [] => ⟨[], [], []⟩
  | t :: more =>
    if t.kind = .closeBrace ∨ (s.awaits t ∧ t.kind ≠ .comma) then ⟨[], [], t :: more⟩
    else
      let one := e.field s before (t :: more)
      match _h : one.rest with
      | [] => ⟨[one.value], one.diagnostics, []⟩
      | u :: behind =>
        if u.kind = .comma then
          let others := fields e s (one.value :: before) behind
          ⟨one.value :: others.value, one.diagnostics ++ others.diagnostics, others.rest⟩
        else if s.awaits u then ⟨[one.value], one.diagnostics, u :: behind⟩
        else
          let skipped := s.recover (.afterField (.token u.raw)) (u :: behind)
          let others := fields e s (one.value :: before) skipped.rest
          ⟨one.value :: skipped.value :: others.value,
            one.diagnostics ++ skipped.diagnostics ++ others.diagnostics, others.rest⟩
  termination_by ts.length
  decreasing_by
  · have := (e.field_suffix s before (t :: more)).length_le
    rw [show (e.field s before (t :: more)).rest = u :: behind from _h] at this
    simp only [List.length_cons] at this ⊢
    omega
  · next hu =>
    have h1 := (e.field_suffix s before (t :: more)).length_le
    have h2 := (Surroundings.recover_suffix_tail (.afterField (.token u.raw)) behind hu).length_le
    rw [show (e.field s before (t :: more)).rest = u :: behind from _h] at h1
    simp only [List.length_cons] at h1 ⊢
    exact Nat.lt_of_le_of_lt h2 (by omega)

theorem fields_suffix (e : ExpressionParser) (s : Surroundings) (before : List SyntaxTree)
    (ts : List Token) : (e.fields s before ts).rest <:+ ts := by
  fun_induction fields e s before ts with
  | case1 => exact List.suffix_rfl
  | case2 => exact List.suffix_rfl
  | case3 => exact List.nil_suffix
  | case4 before t more _ one u behind h _ others ih =>
    have h1 : u :: behind <:+ t :: more := h ▸ e.field_suffix s before (t :: more)
    exact (ih.trans (List.suffix_cons _ _)).trans h1
  | case5 before t more _ one u behind h _ _ =>
    exact h ▸ e.field_suffix s before (t :: more)
  | case6 before t more _ one u behind h _ _ skipped others ih =>
    have h1 : u :: behind <:+ t :: more := h ▸ e.field_suffix s before (t :: more)
    exact (ih.trans (s.recover_suffix _ _)).trans h1

/-- The inside of a product and its closer, behind its opening brace. -/
def product (e : ExpressionParser) (s : Surroundings) (opening : Token) (ts : List Token) :
    Parsed SyntaxTree :=
  let inside := e.fields (s.within [.closeBrace, .comma]) [] ts
  let last := (inside.value.getLast?.map (·.span.stop)).getD opening.span.stop
  let stop := close s .closeBrace (.openProduct opening.span.start) last inside.rest
  { value := node .product [] ⟨opening.span.start, stop.value⟩ inside.value
    diagnostics := inside.diagnostics ++ stop.diagnostics
    rest := stop.rest }

theorem product_suffix (e : ExpressionParser) (s : Surroundings) (opening : Token)
    (ts : List Token) : (e.product s opening ts).rest <:+ ts :=
  (close_suffix _ _ _ _ _).trans (e.fields_suffix _ _ ts)

/-- A node for one token. -/
def leaf (kind : NodeKind) (t : Token) (ts : List Token) : Parsed SyntaxTree :=
  ⟨node kind t.value t.span [], [], ts⟩

/-- The operand that starts with a token, if one can start with it. An error token has been reported
when it was read. -/
def operandFrom? (e : ExpressionParser) (s : Surroundings) (t : Token) (ts : List Token) :
    Option (Parsed SyntaxTree) :=
  match t.kind with
  | .number => some (leaf .number t ts)
  | .string => some (leaf .string t ts)
  | .keyword => some (leaf .boolean t ts)
  | .identifier =>
    match ts with
    | [] => some (leaf .identifier t ts)
    | u :: more =>
      if u.kind = .arrow then some (e.lambda s t more) else some (leaf .identifier t ts)
  | .openParen => some (e.group s t ts)
  | .openBrace => some (e.product s t ts)
  | .error => some ⟨node .error (SyntaxFault.invalidToken t.raw).message t.span [], [], ts⟩
  | _ => none

theorem operandFrom?_suffix {e : ExpressionParser} {s : Surroundings} {t : Token}
    {ts : List Token} {p : Parsed SyntaxTree} (h : e.operandFrom? s t ts = some p) :
    p.rest <:+ ts := by
  unfold operandFrom? at h
  split at h
  · cases h; exact List.suffix_rfl
  · cases h; exact List.suffix_rfl
  · cases h; exact List.suffix_rfl
  · split at h
    · cases h; exact List.suffix_rfl
    · split at h
      · cases h; exact (e.expression_suffix s _).trans (List.suffix_cons _ _)
      · cases h; exact List.suffix_rfl
  · cases h; exact e.group_suffix s t ts
  · cases h; exact e.product_suffix s t ts
  · cases h; exact List.suffix_rfl
  · cases h

/-- An operand, or what stands in its place. -/
def operand (e : ExpressionParser) (s : Surroundings) (ts : List Token) : Parsed SyntaxTree :=
  match ts with
  | [] => s.missing .missingExpression []
  | t :: more =>
    match e.operandFrom? s t more with
    | some p => p
    | none =>
      if s.awaits t then s.missing .missingExpression (t :: more)
      else s.recover (.unexpected (.token t.raw)) (t :: more)

theorem operand_suffix (e : ExpressionParser) (s : Surroundings) (ts : List Token) :
    (e.operand s ts).rest <:+ ts := by
  unfold operand
  split
  · exact List.suffix_rfl
  · split
    · next h => exact (operandFrom?_suffix h).trans (List.suffix_cons _ _)
    · split
      · exact List.suffix_rfl
      · exact s.recover_suffix _ _

/-- The arguments that a function is called with, one after another. -/
def arguments (e : ExpressionParser) (s : Surroundings) (function : SyntaxTree)
    (ts : List Token) : Parsed SyntaxTree :=
  match ts with
  | [] => ⟨function, [], []⟩
  | t :: more =>
    match _h : e.operandFrom? s t more with
    | none => ⟨function, [], t :: more⟩
    | some argument =>
      let call := node .call [] (.cover function.span argument.value.span)
        [function, argument.value]
      let others := arguments e s call argument.rest
      { others with diagnostics := argument.diagnostics ++ others.diagnostics }
  termination_by ts.length
  decreasing_by
    have := (operandFrom?_suffix _h).length_le
    simp only [List.length_cons]
    omega

theorem arguments_suffix (e : ExpressionParser) (s : Surroundings) (function : SyntaxTree)
    (ts : List Token) : (e.arguments s function ts).rest <:+ ts := by
  fun_induction arguments e s function ts with
  | case1 => exact List.suffix_rfl
  | case2 => exact List.suffix_rfl
  | case3 function t more argument h call others ih =>
    exact (ih.trans (operandFrom?_suffix h)).trans (List.suffix_cons _ _)

/-- An operand and its arguments. -/
def application (e : ExpressionParser) (s : Surroundings) (ts : List Token) :
    Parsed SyntaxTree :=
  let function := e.operand s ts
  let called := e.arguments s function.value function.rest
  { called with diagnostics := function.diagnostics ++ called.diagnostics }

theorem application_suffix (e : ExpressionParser) (s : Surroundings) (ts : List Token) :
    (e.application s ts).rest <:+ ts :=
  (e.arguments_suffix s _ _).trans (e.operand_suffix s ts)

/-- An operator in front of an operand. -/
def negate (operator : Token) (operand : SyntaxTree) : SyntaxTree :=
  node .unary operator.value (.cover operator.span operand.span) [operand]

/-- An application and the operators in front of it. -/
def unary (e : ExpressionParser) (s : Surroundings) (ts : List Token) : Parsed SyntaxTree :=
  let inner := e.application s (ts.dropWhile Token.isUnaryOperator)
  { inner with value := (ts.takeWhile Token.isUnaryOperator).foldr negate inner.value }

theorem unary_suffix (e : ExpressionParser) (s : Surroundings) (ts : List Token) :
    (e.unary s ts).rest <:+ ts :=
  (e.application_suffix s _).trans (List.dropWhile_suffix _)

/-- The operators of at least a given precedence behind a left operand, with their operands. -/
def operations (e : ExpressionParser) (s : Surroundings) (least : Nat) (left : SyntaxTree)
    (ts : List Token) : Parsed SyntaxTree :=
  match ts with
  | [] => ⟨left, [], []⟩
  | t :: more =>
    match t.binaryOperator? with
    | none => ⟨left, [], t :: more⟩
    | some operator =>
      if operator.precedence < least then ⟨left, [], t :: more⟩
      else
        let right := e.run s operator.rightLeast more
        let both := node .binary t.value (.cover left.span right.value.span) [left, right.value]
        let others := operations e s least both right.rest
        { others with diagnostics := right.diagnostics ++ others.diagnostics }
  termination_by ts.length
  decreasing_by
    have := (e.run_suffix s operator.rightLeast more).length_le
    simp only [List.length_cons]
    omega

theorem operations_suffix (e : ExpressionParser) (s : Surroundings) (least : Nat)
    (left : SyntaxTree) (ts : List Token) : (e.operations s least left ts).rest <:+ ts := by
  fun_induction operations e s least left ts with
  | case1 => exact List.suffix_rfl
  | case2 => exact List.suffix_rfl
  | case3 => exact List.suffix_rfl
  | case4 left t more operator _ _ right both others ih =>
    exact (ih.trans (e.run_suffix s _ more)).trans (List.suffix_cons _ _)

/-- An expression whose operands may hold the expressions that `e` parses. -/
def binary (e : ExpressionParser) (s : Surroundings) (least : Nat) (ts : List Token) :
    Parsed SyntaxTree :=
  let left := e.unary s ts
  let whole := e.operations s least left.value left.rest
  { whole with diagnostics := left.diagnostics ++ whole.diagnostics }

theorem binary_suffix (e : ExpressionParser) (s : Surroundings) (least : Nat)
    (ts : List Token) : (e.binary s least ts).rest <:+ ts :=
  (e.operations_suffix s least _ _).trans (e.unary_suffix s ts)

/-- The parser of expressions nested at most so deep; what lies deeper is skipped. -/
def nested : (depth : Nat) → ExpressionParser
  | 0 => ⟨fun s _ ts => s.recover (.tooDeep s.limit) ts, fun s _ ts => s.recover_suffix _ ts⟩
  | depth + 1 => ⟨(nested depth).binary, (nested depth).binary_suffix⟩

end ExpressionParser
end LenSyntax
