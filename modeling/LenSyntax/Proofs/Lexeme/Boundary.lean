import LenSyntax.Lexeme.Scan
import Mathlib.Data.List.Basic
import Mathlib.Data.List.TakeWhile

/-! What stands behind a lexeme. A scan looks past the piece that it cuts off only to see that this
ends there, so it cuts off the same piece in front of nothing, a line feed or a longer text. -/
namespace LenSyntax

namespace Text

/-- No run of code points with a property goes on into a text. -/
def EndsRun (p : CodePoint → Bool) (t : Text) : Prop := ∀ c ∈ t.head?, p c = false

/-- The second text starts like the first one or with a line feed, or it is empty. -/
def StartsLike (t u : Text) : Prop := ∀ c ∈ u.head?, c = CodePoint.ofChar '\n' ∨ c ∈ t.head?

section
variable {p : CodePoint → Bool} {w t u : Text}

theorem endsRun_iff_any_eq_false : t.EndsRun p ↔ t.head?.any p = false := by
  rw [EndsRun, Option.any_eq_false_iff_get]
  cases t <;> simp

theorem endsRun_dropWhile (p : CodePoint → Bool) (t : Text) : EndsRun p (t.dropWhile p) := by
  intro c hc
  have hstop := List.head?_dropWhile_not p t
  rw [Option.mem_def.1 hc] at hstop
  simpa using hstop

namespace EndsRun

theorem takeWhile_eq_nil (ht : t.EndsRun p) : t.takeWhile p = [] := by
  cases t with
  | nil => rfl
  | cons c t => exact List.takeWhile_cons_of_neg (by simp [ht c rfl])

theorem dropWhile_eq_self (ht : t.EndsRun p) : t.dropWhile p = t := by
  cases t with
  | nil => rfl
  | cons c t => exact List.dropWhile_cons_of_neg (by simp [ht c rfl])

end EndsRun

/-- A run is cut off in front of what does not go on with it. -/
theorem splitWhile_append_eq_iff :
    splitWhile p (w ++ t) = (w, t) ↔ (∀ c ∈ w, p c) ∧ t.EndsRun p := by
  constructor
  · intro h
    obtain ⟨hw, ht⟩ := Prod.mk.inj h
    refine ⟨fun c hc => List.mem_takeWhile_imp (hw ▸ hc), ?_⟩
    rw [← ht]
    exact endsRun_dropWhile p (w ++ t)
  · rintro ⟨hw, ht⟩
    rw [splitWhile, List.takeWhile_append_of_pos hw, List.dropWhile_append_of_pos hw,
      ht.takeWhile_eq_nil, ht.dropWhile_eq_self, List.append_nil]

/-- Two cuts of a text that leave the same rest are one. -/
theorem cut_eq {s : Text × Text} (h : s.1 ++ s.2 = w ++ t) (hs : s.2 = t) : s = (w, t) := by
  subst hs
  exact Prod.ext (List.append_cancel_right h) rfl

namespace StartsLike

theorem append_left (h : t.StartsLike u) (w : Text) : (w ++ t).StartsLike (w ++ u) := by
  cases w with
  | nil => exact h
  | cons d w => exact fun c hc => .inr hc

theorem endsRun (h : t.StartsLike u) (hp : p '\n' = false) (ht : t.EndsRun p) : u.EndsRun p := by
  intro c hc
  obtain rfl | hc := h c hc
  · exact hp
  · exact ht c hc

theorem splitWhile_eq (h : t.StartsLike u) (hp : p '\n' = false)
    (hw : splitWhile p (w ++ t) = (w, t)) : splitWhile p (w ++ u) = (w, u) := by
  obtain ⟨hall, ht⟩ := splitWhile_append_eq_iff.1 hw
  exact splitWhile_append_eq_iff.2 ⟨hall, h.endsRun hp ht⟩

end StartsLike

/-- A cut in front of a property, which fails in what is passed whatever stands behind. -/
theorem splitBefore_append_eq {p : Text → Bool}
    (hp : ∀ c v, p (c :: (v ++ t)) = false → p (c :: (v ++ u)) = false) (hu : u = [] ∨ p u)
    (hw : splitBefore p (w ++ t) = (w, t)) : splitBefore p (w ++ u) = (w, u) := by
  induction w with
  | nil =>
    cases u with
    | nil => rfl
    | cons c u => rw [List.nil_append, splitBefore_cons, if_pos (hu.resolve_left (by simp))]
  | cons c w ih =>
    rw [List.cons_append, splitBefore_cons] at hw ⊢
    split at hw
    · cases hw
    · next hc =>
      obtain ⟨hfst, hsnd⟩ := Prod.mk.inj hw
      rw [if_neg (by simp [hp c w (by simpa using hc)]),
        ih (Prod.ext (List.cons.inj hfst).2 hsnd)]

end

/-! ### Symbols -/

theorem symbolKind?_eq_none_of_mem {t : Text} (h : CodePoint.ofChar '\n' ∈ t) :
    symbolKind? t = none := by
  have hsymbols : ∀ s ∈ operators ++ punctuation.map (·.1), CodePoint.ofChar '\n' ∉ s := by decide
  unfold symbolKind?
  rw [if_neg fun ht => hsymbols t (List.mem_append_left _ ht) h, List.lookup_eq_none_iff]
  intro s hs
  rw [bne_iff_ne]
  rintro rfl
  exact hsymbols _ (List.mem_append_right _ (List.mem_map_of_mem hs)) h

/-- Two code points decide which symbol starts a text. -/
theorem symbol?_cons_cons (c d : CodePoint) (t : Text) :
    symbol? (c :: d :: t) =
      match symbolKind? [c, d] with
      | some kind => some ([c, d], kind)
      | none => symbol? [c] := by
  simp only [symbol?_eq, longestSymbol, symbolUpTo?, List.take_succ_cons, List.take_zero,
    List.take_nil]
  cases symbolKind? [c] <;> rfl

/-- A symbol that starts a text has two code points or is the symbol of the first one. -/
theorem symbol?_cons (c : CodePoint) (t : Text) :
    (∃ d kind, symbol? (c :: t) = some ([c, d], kind)) ∨ symbol? (c :: t) = symbol? [c] := by
  cases t with
  | nil => exact .inr rfl
  | cons d t =>
    rw [symbol?_cons_cons]
    cases symbolKind? [c, d] with
    | none => exact .inr rfl
    | some kind => exact .inl ⟨d, kind, rfl⟩

section
variable {c : CodePoint} {v t u : Text}

/-- A symbol of one code point, or none, stands in front of whatever starts alike. -/
theorem StartsLike.symbol?_eq (h : t.StartsLike u)
    (hsingle : ∀ d kind, symbol? (c :: t) ≠ some ([c, d], kind)) :
    symbol? (c :: u) = symbol? (c :: t) := by
  have hfirst : symbol? (c :: t) = symbol? [c] := by
    refine (symbol?_cons c t).resolve_left ?_
    rintro ⟨d, kind, hpair⟩
    exact hsingle d kind hpair
  cases u with
  | nil => exact hfirst.symm
  | cons d u =>
    obtain rfl | hd := h d rfl
    · rw [hfirst, symbol?_cons_cons, symbolKind?_eq_none_of_mem (by simp)]
    · obtain ⟨t, rfl⟩ := List.head?_eq_some_iff.1 hd
      rw [symbol?_cons_cons, symbol?_cons_cons]

theorem StartsLike.symbol?_eq_none (h : t.StartsLike u) (hc : symbol? (c :: t) = none) :
    symbol? (c :: u) = none := by
  rw [h.symbol?_eq (by simp [hc]), hc]

theorem StartsLike.symbol?_eq_some {kind : TokenKind} (h : t.StartsLike u)
    (hv : symbol? (c :: (v ++ t)) = some (c :: v, kind)) :
    symbol? (c :: (v ++ u)) = some (c :: v, kind) := by
  cases v with
  | nil =>
    rw [List.nil_append] at hv ⊢
    rw [h.symbol?_eq (by simp [hv]), hv]
  | cons d v =>
    rw [List.cons_append, symbol?_cons_cons] at hv ⊢
    exact hv

theorem symbol?_append_isSome (h : (symbol? (c :: t)).isSome) (u : Text) :
    (symbol? (c :: (t ++ u))).isSome := by
  cases t with
  | nil =>
    obtain ⟨d, kind, hpair⟩ | hsingle := symbol?_cons c u
    · rw [List.nil_append, hpair]
      rfl
    · rwa [List.nil_append, hsingle]
  | cons d t =>
    rw [symbol?_cons_cons] at h
    rw [List.cons_append, symbol?_cons_cons]
    exact h

theorem StartsLike.startsLexeme_eq_false (h : t.StartsLike u)
    (hc : startsLexeme (c :: t) = false) : startsLexeme (c :: u) = false := by
  simp only [startsLexeme, Bool.or_eq_false_iff, Option.isSome_eq_false_iff,
    Option.isNone_iff_eq_none] at hc ⊢
  exact ⟨hc.1, h.symbol?_eq_none hc.2⟩

theorem startsLexeme_append (ht : startsLexeme t) (u : Text) : startsLexeme (t ++ u) := by
  cases t with
  | nil => cases ht
  | cons c t =>
    simp only [startsLexeme, List.cons_append, Bool.or_eq_true] at ht ⊢
    exact ht.imp_right fun h => symbol?_append_isSome h u

end

end Text

namespace Lexeme

def isBlank : Lexeme → Bool
  | blank _ => true
  | _ => false

/-- Whether a lexeme is a comment that nothing closes. -/
def isOpenComment : Lexeme → Bool
  | malformed .openComment _ => true
  | _ => false

/-- `l.GivesWay t u`: behind the lexeme `l`, the text `t` may be left out, may go on, or may make
room for a line feed, which ends every lexeme but a blank and an open comment. -/
inductive GivesWay (l : Lexeme) (t : Text) : Text → Prop
  | nothing : GivesWay l t []
  | lineFeed (hblank : l.isBlank = false) (hopen : l.isOpenComment = false) (u : Text) :
      GivesWay l t (CodePoint.ofChar '\n' :: u)
  | more (h : t ≠ []) (u : Text) : GivesWay l t (t ++ u)

namespace GivesWay
variable {l : Lexeme} {t u : Text}

theorem startsLike (h : l.GivesWay t u) : t.StartsLike u := by
  intro c hc
  cases h with
  | nothing => cases hc
  | lineFeed hblank hopen u => exact .inl (Option.some.inj hc).symm
  | more h u =>
    rw [List.head?_append_of_ne_nil _ h] at hc
    exact .inr hc

/-- What ends a line gives way only to what ends one. -/
theorem endsRun_line (h : l.GivesWay t u) (ht : t.EndsRun (· ≠ CodePoint.ofChar '\n')) :
    u.EndsRun (· ≠ CodePoint.ofChar '\n') := by
  intro c hc
  obtain rfl | hc := h.startsLike c hc
  · simp
  · exact ht c hc

/-- What starts a lexeme gives way only to what starts one. -/
theorem startsLexeme (h : l.GivesWay t u) (ht : t = [] ∨ t.startsLexeme) :
    u = [] ∨ u.startsLexeme := by
  cases h with
  | nothing => exact .inl rfl
  | lineFeed hblank hopen u =>
    exact .inr (by simp [Text.startsLexeme, show CodePoint.isBlank '\n' from by decide])
  | more h u => exact .inr (Text.startsLexeme_append (ht.resolve_left h) u)

end GivesWay

end Lexeme

end LenSyntax
