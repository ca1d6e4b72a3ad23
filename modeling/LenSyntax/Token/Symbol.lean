import LenSyntax.Token.Basic

/-! Keywords, operators and punctuation. -/
namespace LenSyntax

def keywords : List Text := ["true", "false"]

def operators : List Text :=
  ["==", "!=", "<=", ">=", "&&", "||", "++",
    "+", "-", "*", "/", "%", "^", "<", ">", "!", "$"]

def punctuation : List (Text × TokenKind) :=
  [("=>", .arrow), ("=", .bind), ("(", .openParen), (")", .closeParen), ("\x7b", .openBrace),
    ("\x7d", .closeBrace), (":", .colon), (",", .comma), (";", .semicolon)]

/-- The length of the longest operator or punctuation mark. -/
def longestSymbol : Nat := 2

/-- Whether some operator or punctuation mark begins with the code point. -/
def CodePoint.startsSymbol (c : CodePoint) : Bool :=
  (operators ++ punctuation.map (·.1)).any (·.head? = some c)

namespace Text

/-- The kind of token that an operator or punctuation mark makes. -/
def symbolKind? (t : Text) : Option TokenKind :=
  if t ∈ operators then some .symbol else punctuation.lookup t

/-- The longest operator or punctuation mark at the start of a text, of at most `length` code
points. -/
def symbolUpTo? (t : Text) : (length : Nat) → Option (Text × TokenKind)
  | 0 => none
  | length + 1 =>
    match symbolKind? (t.take (length + 1)) with
    | some kind => some (t.take (length + 1), kind)
    | none => symbolUpTo? t length

/-- The longest operator or punctuation mark at the start of a text. -/
def symbol? (t : Text) : Option (Text × TokenKind) :=
  if t.head?.any CodePoint.startsSymbol then symbolUpTo? t longestSymbol else none

theorem symbolUpTo?_eq_some {t raw : Text} {length : Nat} {kind : TokenKind}
    (h : symbolUpTo? t length = some (raw, kind)) :
    raw <+: t ∧ symbolKind? raw = some kind := by
  induction length with
  | zero => simp [symbolUpTo?] at h
  | succ length ih =>
    unfold symbolUpTo? at h
    split at h
    · next hk =>
      obtain ⟨rfl, rfl⟩ := h
      exact ⟨List.take_prefix _ _, hk⟩
    · exact ih h

@[simp] theorem symbolKind?_nil : symbolKind? [] = none := by decide

theorem startsSymbol_of_symbolKind? {c : CodePoint} {t : Text} {kind : TokenKind}
    (h : symbolKind? (c :: t) = some kind) : c.startsSymbol := by
  have hmem : c :: t ∈ operators ++ punctuation.map (·.1) := by
    unfold symbolKind? at h
    split at h
    · next ho => exact List.mem_append_left _ ho
    · obtain ⟨before, behind, hlist, -⟩ := List.lookup_eq_some_iff.1 h
      refine List.mem_append_right _ (List.mem_map.2 ⟨(c :: t, kind), ?_, rfl⟩)
      rw [hlist]
      exact List.mem_append_right _ List.mem_cons_self
  exact List.any_eq_true.2 ⟨_, hmem, by simp⟩

/-- What no symbol starts with is not looked at any further, and nothing is missed by that. -/
theorem symbol?_eq (t : Text) : symbol? t = symbolUpTo? t longestSymbol := by
  rw [symbol?]
  split
  · rfl
  · next hstarts =>
    cases h : symbolUpTo? t longestSymbol with
    | none => rfl
    | some found =>
      obtain ⟨⟨u, rfl⟩, hkind⟩ := symbolUpTo?_eq_some h
      cases hraw : found.1 with
      | nil => simp [hraw] at hkind
      | cons c raw =>
        rw [hraw] at hkind hstarts
        exact absurd (startsSymbol_of_symbolKind? hkind) (by simpa using hstarts)

theorem symbol?_raw_le {t raw : Text} {kind : TokenKind} (h : symbol? t = some (raw, kind)) :
    raw <+: t := (symbolUpTo?_eq_some (symbol?_eq t ▸ h)).1

theorem symbol?_kind {t raw : Text} {kind : TokenKind} (h : symbol? t = some (raw, kind)) :
    symbolKind? raw = some kind := (symbolUpTo?_eq_some (symbol?_eq t ▸ h)).2

end Text
end LenSyntax
