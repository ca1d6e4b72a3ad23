import LenSyntax.Proofs.Token.Concatenation
import LenSyntax.Proofs.Token.Extension

/-! Tokens can be read one by one. Each source text of a token is read as this token alone, and with
line feeds between them all of them are read as the same tokens again. -/
namespace LenSyntax

/-- What a token is apart from its place. -/
def Token.content (t : Token) : TokenKind × Text × Text := (t.kind, t.value, t.raw)

/-- What a diagnostic says apart from its place. -/
def Diagnostic.content (d : Diagnostic) : Severity × Text := (d.severity, d.message)

namespace Lexeme

/-- What the token that a lexeme makes is apart from its place. -/
def content? (keepComments : Bool) (l : Lexeme) : Option (TokenKind × Text × Text) :=
  (l.token? keepComments (.point .origin)).map (·.content)

theorem token?_content (keepComments : Bool) (span : Span) (l : Lexeme) :
    (l.token? keepComments span).map (·.content) = l.content? keepComments := by
  cases l with
  | comment raw => cases keepComments <;> rfl
  | _ => rfl

/-- What the diagnostics of a lexeme say apart from their places. -/
def findings (l : Lexeme) : List (Severity × Text) := (l.diagnostics .origin).map (·.content)

theorem bodyDiagnostics_content (p q : Position) (body : List Piece) :
    (bodyDiagnostics p body).map (·.content) = (bodyDiagnostics q body).map (·.content) := by
  induction body generalizing p q with
  | nil => rfl
  | cons piece body ih =>
    simp only [bodyDiagnostics]
    split
    · exact ih _ _
    · rw [List.map_cons, List.map_cons, ih _ (q.after piece.raw)]
      rfl

theorem diagnostics_content (p : Position) (l : Lexeme) :
    (l.diagnostics p).map (·.content) = l.findings := by
  cases l with
  | string body => exact bodyDiagnostics_content _ _ body
  | _ => rfl

theorem findings_of_content?_eq_none {keepComments : Bool} {l : Lexeme}
    (h : l.content? keepComments = none) : l.findings = [] := by
  cases l with
  | blank raw => rfl
  | comment raw => rfl
  | _ => cases h

/-- Whether a lexeme is the first one of some text. -/
def Scanned (l : Lexeme) : Prop := ∃ c t, (scan c t).1 = l

/-- A lexeme is the only one of its own text. -/
theorem Scanned.lexemes_raw {l : Lexeme} (hl : l.Scanned) (p : Position) :
    l.raw.lexemes p = [⟨p, l⟩] := by
  obtain ⟨c, t, rfl⟩ := hl
  obtain ⟨w, hraw, -⟩ := exists_raw_cons c t
  rw [hraw, Text.lexemes_cons, scan_raw hraw, Text.lexemes_nil]

end Lexeme

namespace Text

/-- Only behind the last lexeme nothing stands, so only this can be an open comment. -/
theorem lexemes_pairwise_isOpenComment (p : Position) (t : Text) :
    (t.lexemes p).Pairwise fun l _ => l.lexeme.isOpenComment = false := by
  match t with
  | [] => simp
  | c :: t =>
    rw [lexemes_cons, List.pairwise_cons]
    refine ⟨fun l hl => ?_, lexemes_pairwise_isOpenComment _ _⟩
    by_contra hopen
    rw [Lexeme.scan_snd_of_isOpenComment (by simpa using hopen), lexemes_nil] at hl
    cases hl
  termination_by t.length
  decreasing_by exact Lexeme.scan_length_lt c t

theorem joinWith_lineFeed (t u : Text) (ts : List Text) :
    joinWith "\n" (t :: u :: ts) = t ++ CodePoint.ofChar '\n' :: joinWith "\n" (u :: ts) :=
  List.append_assoc t _ _

/-- Lexemes that are put on lines of their own are read as they are. -/
theorem visible_joinWith (p : Position) {ls : List Lexeme} (hscan : ∀ l ∈ ls, l.Scanned)
    (hblank : ∀ l ∈ ls, l.isBlank = false)
    (hopen : ls.Pairwise fun l _ => l.isOpenComment = false) :
    (visible p (joinWith "\n" (ls.map Lexeme.raw))).map (·.lexeme) = ls := by
  induction ls generalizing p with
  | nil => rw [List.map_nil, joinWith, visible_nil, List.map_nil]
  | cons l ls ih =>
    rw [List.forall_mem_cons] at hscan hblank
    rw [List.pairwise_cons] at hopen
    have hfirst : visible p l.raw = [⟨p, l⟩] := by
      rw [visible, hscan.1.lexemes_raw]
      exact List.filter_cons_of_pos (by simp [hblank.1])
    cases ls with
    | nil =>
      rw [List.map_singleton, joinWith, hfirst]
      rfl
    | cons m ls =>
      have hclosed : ∀ k ∈ l.raw.lexemes p, k.lexeme.isOpenComment = false := by
        rw [hscan.1.lexemes_raw, List.forall_mem_singleton]
        exact hopen.1 m List.mem_cons_self
      have hmore := ih (p.after (l.raw ++ "\n")) hscan.2 hblank.2 hopen.2
      have hjoined := visible_append_lineFeed p l.raw
        (joinWith "\n" ((m :: ls).map Lexeme.raw)) hclosed
      rw [List.map_cons, List.map_cons, joinWith_lineFeed, ← List.map_cons, hjoined,
        List.map_append, hmore, hfirst]
      rfl

/-- The lexemes of a source that are no blanks, without their places. -/
def lexemesSeen (source : Text) : List Lexeme := (visible .origin source).map (·.lexeme)

theorem tokens_content (config : Config) (source : Text) :
    (source.tokenStream config).tokens.map (·.content) =
      (lexemesSeen source).filterMap (·.content? config.keepComments) ++
        [(.endOfInput, [], [])] := by
  rw [tokenStream_eq_visible, List.map_append, List.map_filterMap, lexemesSeen, List.filterMap_map]
  simp only [Placed.token?, Lexeme.token?_content]
  rfl

theorem diagnostics_content (config : Config) (source : Text) :
    (source.tokenStream config).diagnostics.map (·.content) =
      (lexemesSeen source).flatMap Lexeme.findings := by
  rw [tokenStream_eq_visible, List.map_flatMap, lexemesSeen, List.flatMap_map]
  simp only [Placed.diagnostics, Lexeme.diagnostics_content]

/-- The lexemes of a source that make tokens, without their places. -/
def lexemesKept (keepComments : Bool) (source : Text) : List Lexeme :=
  (lexemesSeen source).filter fun l => (l.content? keepComments).isSome

theorem tokens_raw (config : Config) (source : Text) :
    (source.tokenStream config).tokens.dropLast.map (·.raw) =
      (lexemesKept config.keepComments source).map Lexeme.raw := by
  rw [tokenStream_eq_visible, List.dropLast_concat, lexemesKept, lexemesSeen, List.filter_map,
    List.map_map, List.map_filterMap, ← List.filterMap_eq_map, List.filterMap_filter]
  refine List.filterMap_congr fun l _ => ?_
  simp only [Function.comp_apply, ← Lexeme.token?_content config.keepComments l.span]
  cases htoken : l.token? config.keepComments with
  | none => simp [show l.lexeme.token? _ l.span = none from htoken]
  | some t =>
    rw [show l.lexeme.token? _ l.span = some t from htoken]
    simp [Lexeme.token?_raw htoken]

theorem lexemesKept_scanned (keepComments : Bool) (source : Text) :
    (∀ l ∈ lexemesKept keepComments source, l.Scanned ∧ l.isBlank = false) ∧
      (lexemesKept keepComments source).Pairwise fun l _ => l.isOpenComment = false := by
  constructor
  · intro l hl
    obtain ⟨m, hm, rfl⟩ := List.mem_map.1 (List.mem_filter.1 hl).1
    obtain ⟨hm, hblank⟩ := List.mem_filter.1 hm
    exact ⟨forall_mem_lexemes (P := Lexeme.Scanned) (fun c t => ⟨c, t, rfl⟩) _ _ m hm,
      by simpa using hblank⟩
  · have hopen := lexemes_pairwise_isOpenComment .origin source
    exact (List.pairwise_map.2 (hopen.sublist List.filter_sublist)).sublist List.filter_sublist

/-- The tokens of a source on lines of their own are the same tokens with the same complaints. -/
theorem tokenStream_joinWith_raw (config : Config) (source : Text) :
    let stream := source.tokenStream config
    let again := (joinWith "\n" (stream.tokens.dropLast.map (·.raw))).tokenStream config
    again.tokens.map (·.content) = stream.tokens.map (·.content) ∧
      again.diagnostics.map (·.content) = stream.diagnostics.map (·.content) := by
  intro stream again
  have hseen : lexemesSeen (joinWith "\n" (stream.tokens.dropLast.map (·.raw))) =
      lexemesKept config.keepComments source := by
    obtain ⟨hscan, hopen⟩ := lexemesKept_scanned config.keepComments source
    rw [tokens_raw]
    exact visible_joinWith _ (fun l hl => (hscan l hl).1) (fun l hl => (hscan l hl).2) hopen
  constructor
  · rw [tokens_content, tokens_content, hseen, lexemesKept, List.filterMap_filter]
    congr 1
    refine List.filterMap_congr fun l _ => ?_
    cases l.content? config.keepComments <;> rfl
  · rw [diagnostics_content, diagnostics_content, hseen, lexemesKept]
    exact flatMap_filter_of_eq_nil fun l _ hl =>
      Lexeme.findings_of_content?_eq_none (by simpa using hl)

end Text

end LenSyntax
