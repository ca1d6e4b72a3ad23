import LenSyntax.Config
import LenSyntax.Grammar.Expression

/-! Parsing of programs: statements with semicolons between them. A broken statement ends at the
next semicolon, and what follows is parsed as if nothing had happened. -/
namespace LenSyntax

/-- A syntax tree of a whole source and what is wrong with its syntax. -/
structure Program where
  tree : SyntaxTree
  diagnostics : List Diagnostic

namespace Program

/-- What the parser sees of some tokens: no comments, and nothing from the first end of input on. -/
def significant (tokens : List Token) : List Token :=
  (tokens.filter (·.kind ≠ .comment)).takeWhile (·.kind ≠ .endOfInput)

/-- Where the input ends: at its first end of input, or else behind its last token. -/
def ending (tokens : List Token) : Span :=
  let seen := tokens.filter (·.kind ≠ .comment)
  match seen.find? (·.kind = .endOfInput), seen.getLast? with
  | some t, _ => t.span
  | none, some t => .point t.span.stop
  | none, none => .point .origin

/-- A binding of a name, or an expression. -/
def statement (e : ExpressionParser) (s : Surroundings) (ts : List Token) : Parsed SyntaxTree :=
  match ts with
  | name :: equals :: more =>
    if name.kind = .identifier ∧ equals.kind = .bind then
      let value := e.expression s more
      { value with
        value := .node .binding name.value (.cover name.span value.value.span) [value.value] }
    else e.expression s ts
  | _ => e.expression s ts

theorem statement_suffix (e : ExpressionParser) (s : Surroundings) (ts : List Token) :
    (statement e s ts).rest <:+ ts := by
  unfold statement
  split
  · split
    · exact (e.expression_suffix s _).trans
        ((List.suffix_cons _ _).trans (List.suffix_cons _ _))
    · exact e.expression_suffix s _
  · exact e.expression_suffix s _

/-- The statements of a program. No closer is awaited between them. -/
def statements (e : ExpressionParser) (limit : Nat) (ending : Span) (ts : List Token) :
    Parsed (List SyntaxTree) :=
  match ts with
  | [] => ⟨[], [], []⟩
  | t :: more =>
    if t.kind = .semicolon then statements e limit ending more
    else
      let one := statement e ⟨limit, ending, []⟩ (t :: more)
      match _h : one.rest with
      | [] => ⟨[one.value], one.diagnostics, []⟩
      | u :: behind =>
        if u.kind = .semicolon then
          let others := statements e limit ending behind
          ⟨one.value :: others.value, one.diagnostics ++ others.diagnostics, others.rest⟩
        else
          let skipped := Surroundings.recover ⟨limit, ending, []⟩ (.afterStatement (.token u.raw))
            (u :: behind)
          let others := statements e limit ending skipped.rest
          ⟨one.value :: skipped.value :: others.value,
            one.diagnostics ++ skipped.diagnostics ++ others.diagnostics, others.rest⟩
  termination_by ts.length
  decreasing_by
  · simp
  · have h := (statement_suffix e ⟨limit, ending, []⟩ (t :: more)).length_le
    rw [show (statement e ⟨limit, ending, []⟩ (t :: more)).rest = u :: behind from _h] at h
    simp only [List.length_cons] at h ⊢
    omega
  · next hu =>
    have h1 := (statement_suffix e ⟨limit, ending, []⟩ (t :: more)).length_le
    have h2 := (Surroundings.recover_suffix_tail (s := ⟨limit, ending, []⟩)
      (.afterStatement (.token u.raw)) behind (by simpa [Surroundings.awaits] using hu)).length_le
    rw [show (statement e ⟨limit, ending, []⟩ (t :: more)).rest = u :: behind from _h] at h1
    simp only [List.length_cons] at h1 ⊢
    exact Nat.lt_of_le_of_lt h2 (by omega)

/-- Parses tokens. -/
def parse (config : Config) (tokens : List Token) : Program :=
  let parsed := statements (.nested config.maxDepth) config.maxDepth (ending tokens)
    (significant tokens)
  ⟨.node .program [] ⟨.origin, (ending tokens).stop⟩ parsed.value, parsed.diagnostics⟩

end Program
end LenSyntax
