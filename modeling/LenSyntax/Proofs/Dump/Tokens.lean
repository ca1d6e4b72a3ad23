import LenSyntax.Dump.Tokens
import LenSyntax.Proofs.Text.Quoted
import Mathlib.Data.List.Forall2

/-! The dump of tokens tells all of them but where they stand in the text: their kinds, their texts,
their values and the lines and columns of their spans can be read off. -/
namespace LenSyntax

theorem TokenKind.ofName?_name (k : TokenKind) : ofName? k.name = some k := by
  cases k <;> decide

theorem TokenKind.name_injective : Function.Injective name := by
  intro k l h
  have hread := ofName?_name k
  rw [h, ofName?_name] at hread
  exact (Option.some.inj hread).symm

theorem TokenKind.printable_name (k : TokenKind) : k.name.Printable := by
  cases k <;> exact Text.printable_of_ascii (by decide)

theorem TokenKind.space_notMem_name (k : TokenKind) : CodePoint.ofChar ' ' ∉ k.name := by
  cases k <;> decide

theorem Text.Printable.padRight {t : Text} (h : t.Printable) (width : Nat) :
    (t.padRight width).Printable := h.append (Text.printable_spaces _)

namespace Token

/-- A token whose span shows no offsets. -/
def withoutOffsets (t : Token) : Token := { t with span := t.span.withoutOffsets }

/-- What the line of a token shows behind its source text. -/
def dumpValue (t : Token) : Text := if t.value = t.raw then [] else " -> " ++ t.value.quoted

theorem dumpLine_eq (t : Token) :
    t.dumpLine = t.span.label.padRight 11 ++ " " ++
      (t.kind.name.padRight 10 ++ " " ++ (t.raw.quoted ++ t.dumpValue)) := by
  simp only [dumpLine, dumpValue, List.append_assoc]

/-- Whatever a token holds, its line holds nothing unprintable. -/
theorem printable_dumpLine (t : Token) : t.dumpLine.Printable := by
  have hspace : Text.Printable " " := Text.printable_of_ascii (by decide)
  have hvalue : t.dumpValue.Printable := by
    unfold dumpValue
    split
    · simp [Text.Printable]
    · exact .ascii_append (by decide) (Text.printable_quoted t.value)
  rw [dumpLine_eq]
  exact ((t.span.printable_label.padRight 11).append hspace).append
    (((t.kind.printable_name.padRight 10).append hspace).append
      ((Text.printable_quoted t.raw).append hvalue))

/-- Of tokens with one source text the lines show the value. -/
theorem value_eq_of_dumpValue_eq {t u : Token} (hraw : t.raw = u.raw)
    (h : t.dumpValue = u.dumpValue) : t.value = u.value := by
  unfold dumpValue at h
  split at h
  · next ht =>
    split at h
    · next hu => rw [ht, hu, hraw]
    · simp [Text.ofString] at h
  · split at h
    · simp [Text.ofString] at h
    · exact Text.prefixFree_quoted.injective (List.append_cancel_left h)

/-- The line of a token shows all of it but the offsets. -/
theorem dumpLine_eq_iff {t u : Token} :
    t.dumpLine = u.dumpLine ↔ t.withoutOffsets = u.withoutOffsets := by
  constructor
  · intro h
    rw [dumpLine_eq, dumpLine_eq] at h
    obtain ⟨hspan, h⟩ := Text.padRight_append_inj t.span.space_notMem_label
      u.span.space_notMem_label h
    obtain ⟨hkind, h⟩ := Text.padRight_append_inj t.kind.space_notMem_name
      u.kind.space_notMem_name h
    obtain ⟨hraw, h⟩ := Text.prefixFree_quoted h
    have hvalue := value_eq_of_dumpValue_eq hraw h
    rw [withoutOffsets, withoutOffsets, TokenKind.name_injective hkind, hraw, hvalue,
      Span.label_eq_iff.1 hspan]
  · intro h
    have hline (t : Token) : t.dumpLine = t.withoutOffsets.dumpLine := rfl
    rw [hline, h, ← hline]

end Token

namespace Dump

/-- The dumps of tokens are the same exactly if the tokens are the same but for their offsets. The
tokens are any, also such that no source has. -/
theorem tokens_eq_iff (ts us : List Token) :
    tokens ts = tokens us ↔ ts.map Token.withoutOffsets = us.map Token.withoutOffsets := by
  have hlines (ts : List Token) : ∀ line ∈ ts.map Token.dumpLine, CodePoint.ofChar '\n' ∉ line := by
    intro line hline
    obtain ⟨t, -, rfl⟩ := List.mem_map.1 hline
    exact t.printable_dumpLine.lineFeed_notMem
  rw [tokens, tokens, Text.unlines_inj (hlines ts) (hlines us),
    ← List.forall₂_eq_eq_eq (α := Text), ← List.forall₂_eq_eq_eq (α := Token)]
  simp only [List.forall₂_map_left_iff, List.forall₂_map_right_iff, Token.dumpLine_eq_iff]

end Dump

end LenSyntax
