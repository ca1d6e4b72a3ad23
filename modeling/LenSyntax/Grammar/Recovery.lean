import LenSyntax.Diagnostic.Basic
import LenSyntax.Grammar.Fault
import LenSyntax.Tree.Basic

/-! Recovery from syntax errors. Tokens are skipped up to a synchronization point: a semicolon, the
end of the input, or a closer that an enclosing group or product waits for. -/
namespace LenSyntax

/-- What a parser knows besides the tokens in front of it: the depth limit, where the input ends,
and the closers that enclosing groups and products wait for. -/
structure Surroundings where
  limit : Nat
  ending : Span
  closers : List TokenKind

/-- A part of a source that has been read, what is wrong with it, and the tokens behind it. -/
structure Parsed (α : Type) where
  value : α
  diagnostics : List Diagnostic
  rest : List Token

namespace Surroundings

def within (s : Surroundings) (closers : List TokenKind) : Surroundings :=
  ⟨s.limit, s.ending, closers ++ s.closers⟩

/-- The span of the next token, or of the end of the input. -/
def here (s : Surroundings) : List Token → Span
  | [] => s.ending
  | t :: _ => t.span

def awaits (s : Surroundings) (t : Token) : Bool := t.kind = .semicolon || t.kind ∈ s.closers

/-- Whether the remaining tokens start with a synchronization point. -/
def atSync (s : Surroundings) : List Token → Bool
  | [] => true
  | t :: _ => s.awaits t

/-- The number of open brackets behind a token; a closer too many changes nothing. -/
def nestBehind (nesting : Nat) : TokenKind → Nat
  | .openParen => nesting + 1
  | .openBrace => nesting + 1
  | .closeParen => nesting - 1
  | .closeBrace => nesting - 1
  | _ => nesting

/-- Passes tokens up to a synchronization point outside the brackets opened on the way, and tells
where the last token passed ends. -/
def skip (s : Surroundings) (nesting : Nat) (stop : Position) :
    List Token → Position × List Token
  | [] => (stop, [])
  | t :: ts =>
    if t.kind = .semicolon ∨ (nesting = 0 ∧ t.kind ∈ s.closers) then (stop, t :: ts)
    else skip s (nestBehind nesting t.kind) t.span.stop ts

theorem skip_suffix (s : Surroundings) (nesting : Nat) (stop : Position) (ts : List Token) :
    (s.skip nesting stop ts).2 <:+ ts := by
  induction ts generalizing nesting stop with
  | nil => exact List.suffix_rfl
  | cons t ts ih =>
    simp only [skip]
    split
    · exact List.suffix_rfl
    · exact (ih _ _).trans (List.suffix_cons t ts)

/-- Something is missing in front of a synchronization point; nothing is skipped. -/
def missing (s : Surroundings) (fault : SyntaxFault) (ts : List Token) : Parsed SyntaxTree where
  value := .node .error fault.message (.point (s.here ts).start) []
  diagnostics := [.error fault.message (s.here ts)]
  rest := ts

/-- The next token does not fit; tokens are skipped up to a synchronization point. -/
def recover (s : Surroundings) (fault : SyntaxFault) (ts : List Token) : Parsed SyntaxTree where
  value := .node .error fault.message
    ⟨(s.here ts).start, (s.skip 0 (s.here ts).start ts).1⟩ []
  diagnostics := [.error fault.message (s.here ts)]
  rest := (s.skip 0 (s.here ts).start ts).2

theorem recover_suffix (s : Surroundings) (fault : SyntaxFault) (ts : List Token) :
    (s.recover fault ts).rest <:+ ts := skip_suffix s 0 _ ts

/-- Where the next token is no synchronization point, skipping passes it. -/
theorem recover_suffix_tail {s : Surroundings} {t : Token} (fault : SyntaxFault) (ts : List Token)
    (h : ¬ s.awaits t) : (s.recover fault (t :: ts)).rest <:+ ts := by
  simp only [awaits, Bool.or_eq_true, decide_eq_true_eq] at h
  simp only [recover, skip, true_and, if_neg h]
  exact skip_suffix s _ _ ts

end Surroundings
end LenSyntax
