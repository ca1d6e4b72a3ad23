import LenSyntax.Lexeme.Basic

/-! Cutting a text into lexemes. Every scan takes the longest lexeme at the start of a text, and
the lexemes of a text tile it. -/
namespace LenSyntax

namespace Text

/-- Cuts off the longest run of code points with a property. -/
def splitWhile (p : CodePoint → Bool) (t : Text) : Text × Text := (t.takeWhile p, t.dropWhile p)

@[simp] theorem splitWhile_append (p : CodePoint → Bool) (t : Text) :
    (splitWhile p t).1 ++ (splitWhile p t).2 = t := List.takeWhile_append_dropWhile

/-- Whether a blank, a string, a number, a word, a symbol or a comment starts a text. -/
def startsLexeme : Text → Bool
  | [] => false
  | c :: t =>
    c.isBlank || c = '"' || c.isDigit || c.startsWord || (symbol? (c :: t)).isSome

end Text

namespace Lexeme

/-- A comment of slash and star, the text behind which is given. -/
def scanBlock (t : Text) : Lexeme × Text :=
  let s := t.splitBefore (Text.ofString "*/").isPrefixOf
  if s.2 = [] then (.malformed .openComment ("/*" ++ s.1), [])
  else (.comment ("/*" ++ s.1 ++ "*/"), s.2.drop 2)

/-- A string literal, the text behind whose opening quote is given; without a closing quote it
reaches to the end of the line. -/
def scanString (t : Text) : Lexeme × Text :=
  match Literal.body t with
  | some (body, rest) => (.string body, rest)
  | none =>
    let s := t.splitWhile (· ≠ CodePoint.ofChar '\n')
    (.malformed .openString (CodePoint.ofChar '"' :: s.1), s.2)

def scanNumber (t : Text) : Lexeme × Text :=
  match Number.cut t with
  | ⟨raw, none, rest⟩ => (.number raw, rest)
  | ⟨raw, some fault, rest⟩ => (.malformed fault raw, rest)

/-- A code point that starts nothing, with all behind it up to the next start of a lexeme. -/
def scanUnexpected (c : CodePoint) (t : Text) : Lexeme × Text :=
  let s := t.splitBefore Text.startsLexeme
  (.malformed (.unexpected (c :: s.1)) (c :: s.1), s.2)

/-- The first lexeme of a text and what is behind it. -/
def scan (c : CodePoint) (t : Text) : Lexeme × Text :=
  if c.isBlank then
    let s := Text.splitWhile CodePoint.isBlank (c :: t)
    (.blank s.1, s.2)
  else if c = '/' ∧ t.head? = some (CodePoint.ofChar '/') then
    let s := Text.splitWhile (· ≠ CodePoint.ofChar '\n') (c :: t)
    (.comment s.1, s.2)
  else if c = '/' ∧ t.head? = some (CodePoint.ofChar '*') then scanBlock t.tail
  else if c = '"' then scanString t
  else if c.isDigit then scanNumber (c :: t)
  else if c.startsWord then
    let s := Text.splitWhile CodePoint.continuesWord (c :: t)
    (.word s.1, s.2)
  else
    match Text.symbol? (c :: t) with
    | some (raw, kind) => (.symbol kind raw, (c :: t).drop raw.length)
    | none => scanUnexpected c t

theorem scanBlock_append (t : Text) :
    (scanBlock t).1.raw ++ (scanBlock t).2 = "/*" ++ t := by
  have h := Text.splitBefore_append (Text.ofString "*/").isPrefixOf t
  unfold scanBlock
  generalize hs : t.splitBefore (Text.ofString "*/").isPrefixOf = s at h
  obtain ⟨s1, s2⟩ := s
  by_cases h2 : s2 = []
  · subst h2
    simp only [List.append_nil] at h
    simp [raw, h]
  · have hp : (Text.ofString "*/").isPrefixOf s2 := by
      have := Text.splitBefore_snd (Text.ofString "*/").isPrefixOf t
      rw [hs] at this
      exact this.resolve_left h2
    obtain ⟨u, hu⟩ := List.isPrefixOf_iff_prefix.1 hp
    subst hu
    simp only [h2, if_false, raw, ← h, List.append_assoc]
    rfl

theorem scanString_append (t : Text) :
    (scanString t).1.raw ++ (scanString t).2 = CodePoint.ofChar '"' :: t := by
  unfold scanString
  split
  · next h => simp [raw, ← Literal.body_raw_append h]; rfl
  · simp [raw]

theorem scanNumber_append (t : Text) : (scanNumber t).1.raw ++ (scanNumber t).2 = t := by
  have h := Number.cut_append t
  unfold scanNumber
  split <;> simp_all [raw]

theorem scan_append (c : CodePoint) (t : Text) :
    (scan c t).1.raw ++ (scan c t).2 = c :: t := by
  unfold scan
  split
  · simp [raw]
  split
  · simp [raw]
  split
  · next h =>
    obtain ⟨rfl, h⟩ := h
    cases t with
    | nil => simp at h
    | cons d t =>
      obtain rfl := Option.some.inj h
      exact scanBlock_append t
  split
  · next h => subst h; exact scanString_append t
  split
  · exact scanNumber_append _
  split
  · simp [raw]
  split
  · next raw kind h =>
    obtain ⟨u, hu⟩ := Text.symbol?_raw_le h
    simp [Lexeme.raw, ← hu]
  · simp [scanUnexpected, raw]

theorem scanNumber_raw_ne_nil {c : CodePoint} (t : Text) (h : c.isDigit) :
    (scanNumber (c :: t)).1.raw ≠ [] := by
  have hc : (Number.cut (c :: t)).taken ≠ [] := by simp [Number.cut, h]
  unfold scanNumber
  split <;> simp_all [raw]

theorem scan_raw_ne_nil (c : CodePoint) (t : Text) : (scan c t).1.raw ≠ [] := by
  unfold scan
  split
  · next h => simp [raw, Text.splitWhile, h]
  split
  · next h => simp [raw, Text.splitWhile, h.1]
  split
  · simp only [scanBlock]; split <;> simp [raw, Text.ofString]
  split
  · simp only [scanString]; split <;> simp [raw]
  split
  · next h => exact scanNumber_raw_ne_nil t h
  split
  · next h =>
    simp [raw, Text.splitWhile, CodePoint.continuesWord_of_startsWord h]
  split
  · next raw kind h =>
    intro hr
    have hk := Text.symbol?_kind h
    simp only [Lexeme.raw] at hr
    subst hr
    simp at hk
  · simp [scanUnexpected, raw]

theorem scan_length_lt (c : CodePoint) (t : Text) :
    (scan c t).2.length < (c :: t).length := by
  have h := congrArg List.length (scan_append c t)
  have h1 := List.length_pos_iff.2 (scan_raw_ne_nil c t)
  simp only [List.length_append] at h
  omega

end Lexeme
end LenSyntax
