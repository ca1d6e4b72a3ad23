import LenSyntax.Config
import LenSyntax.Lexeme.Scan

/-! The tokens of a source. A source is a row of lexemes; each stands at the position that the text
in front of it leads to, and makes at most one token. -/
namespace LenSyntax

/-- A lexeme and the position at which it starts. -/
structure Placed where
  start : Position
  lexeme : Lexeme

namespace Placed

def span (l : Placed) : Span := ⟨l.start, l.start.after l.lexeme.raw⟩

def token? (keepComments : Bool) (l : Placed) : Option Token :=
  l.lexeme.token? keepComments l.span

def diagnostics (l : Placed) : List Diagnostic := l.lexeme.diagnostics l.start

end Placed

namespace Text

def lexemesAux (read : List Placed) (p : Position) : Text → List Placed
  | [] => read.reverse
  | c :: t =>
    let s := Lexeme.scan c t
    lexemesAux (⟨p, s.1⟩ :: read) (p.after s.1.raw) s.2
  termination_by t => t.length
  decreasing_by exact Lexeme.scan_length_lt c t

/-- The lexemes of a text that starts at `p`, each in its place. -/
def lexemes (p : Position) (t : Text) : List Placed := lexemesAux [] p t

theorem lexemesAux_eq (read : List Placed) (p : Position) (t : Text) :
    lexemesAux read p t = read.reverse ++ lexemes p t := by
  match t with
  | [] => simp [lexemes, lexemesAux]
  | c :: t =>
    rw [lexemes, lexemesAux, lexemesAux, lexemesAux_eq (_ :: read), lexemesAux_eq [_]]
    simp
  termination_by t.length
  decreasing_by all_goals exact Lexeme.scan_length_lt c t

@[simp] theorem lexemes_nil (p : Position) : lexemes p [] = [] := by simp [lexemes, lexemesAux]

theorem lexemes_cons (p : Position) (c : CodePoint) (t : Text) :
    lexemes p (c :: t) =
      ⟨p, (Lexeme.scan c t).1⟩ ::
        lexemes (p.after (Lexeme.scan c t).1.raw) (Lexeme.scan c t).2 := by
  rw [lexemes, lexemesAux, lexemesAux_eq]
  rfl

/-- The lexemes of a text tile it. -/
theorem lexemes_flatMap_raw (p : Position) (t : Text) :
    (lexemes p t).flatMap (·.lexeme.raw) = t := by
  match t with
  | [] => simp
  | c :: t =>
    rw [lexemes_cons, List.flatMap_cons, lexemes_flatMap_raw]
    exact Lexeme.scan_append c t
  termination_by t.length
  decreasing_by exact Lexeme.scan_length_lt c t

end Text

/-- Tokens in order, the last of which ends the input, and what is wrong with them. -/
structure TokenStream where
  tokens : List Token
  diagnostics : List Diagnostic

/-- Reads a source. -/
def Text.tokenStream (config : Config) (source : Text) : TokenStream :=
  let placed := source.lexemes .origin
  ⟨placed.filterMap (·.token? config.keepComments) ++ [.endAt (Position.origin.after source)],
    placed.flatMap (·.diagnostics)⟩

end LenSyntax
