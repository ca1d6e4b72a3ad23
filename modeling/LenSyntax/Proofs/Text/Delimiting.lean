import LenSyntax.Proofs.Lexeme.Boundary
import LenSyntax.Proofs.Text.Printable
import LenSyntax.Text.Lines

/-! Texts that show where they end. Numbers, places and quoted texts can be told from what is
written behind them, so a row of them can be read back. -/
namespace LenSyntax

namespace Text

/-- A way of writing things down in which the text of one is told from whatever stands behind it. -/
def PrefixFree {α : Type} (write : α → Text) : Prop :=
  ∀ {a b : α} {t u : Text}, write a ++ t = write b ++ u → a = b ∧ t = u

theorem PrefixFree.injective {α : Type} {write : α → Text} (h : PrefixFree write) :
    Function.Injective write := by
  intro a b hab
  exact (h (congrArg (· ++ []) hab)).1

section Cut
variable {p : CodePoint → Bool} {c : CodePoint} {w v t u : Text}

/-- Two runs of code points with a property are the same if what ends them makes the same text. -/
theorem run_append_inj (hw : ∀ d ∈ w, p d) (hv : ∀ d ∈ v, p d) (ht : t.EndsRun p)
    (hu : u.EndsRun p) (h : w ++ t = v ++ u) : w = v ∧ t = u := by
  have hcut := splitWhile_append_eq_iff.2 ⟨hw, ht⟩
  rw [h, splitWhile_append_eq_iff.2 ⟨hv, hu⟩] at hcut
  exact ⟨(congrArg Prod.fst hcut).symm, (congrArg Prod.snd hcut).symm⟩

/-- A text is cut at its first code point of a kind in one way. -/
theorem append_cons_inj (hw : c ∉ w) (hv : c ∉ v) (h : w ++ c :: t = v ++ c :: u) :
    w = v ∧ t = u := by
  have hends (t : Text) : EndsRun (· ≠ c) (c :: t) := by simp [EndsRun]
  obtain ⟨hfront, hback⟩ := run_append_inj (p := (· ≠ c))
    (fun d hd => by simpa using ne_of_mem_of_not_mem hd hw)
    (fun d hd => by simpa using ne_of_mem_of_not_mem hd hv) (hends t) (hends u) h
  exact ⟨hfront, (List.cons.inj hback).2⟩

/-- A text is cut at its last code point of a kind in one way. -/
theorem append_cons_inj_last (ht : c ∉ t) (hu : c ∉ u) (h : w ++ c :: t = v ++ c :: u) :
    w = v ∧ t = u := by
  have hback := congrArg List.reverse h
  simp only [List.reverse_append, List.reverse_cons, List.append_assoc, List.singleton_append]
    at hback
  obtain ⟨hlast, hfirst⟩ := append_cons_inj (by simpa using ht) (by simpa using hu) hback
  exact ⟨List.reverse_inj.1 hfirst, List.reverse_inj.1 hlast⟩

end Cut

theorem linesAux_append {w : Text} (hw : CodePoint.ofChar '\n' ∉ w) (line t : Text) :
    linesAux line (w ++ t) = linesAux (w.reverse ++ line) t := by
  induction w generalizing line with
  | nil => rfl
  | cons c w ih =>
    rw [List.mem_cons, not_or] at hw
    rw [List.cons_append, linesAux, if_neg (Ne.symm hw.1), ih hw.2, List.reverse_cons,
      List.append_assoc, List.singleton_append]

/-- Texts on lines of their own are the lines of the whole, behind which there is an empty one. -/
theorem lines_unlines {ts : List Text} (h : ∀ t ∈ ts, CodePoint.ofChar '\n' ∉ t) :
    (unlines ts).lines = ts ++ [[]] := by
  induction ts with
  | nil => rfl
  | cons t ts ih =>
    rw [List.forall_mem_cons] at h
    have hcons : unlines (t :: ts) = t ++ CodePoint.ofChar '\n' :: unlines ts :=
      List.append_assoc t _ _
    rw [hcons, lines, linesAux_append h.1, linesAux, if_pos rfl, List.append_nil,
      List.reverse_reverse, ← lines, ih h.2, List.cons_append]

/-- Texts on lines of their own can be told apart. -/
theorem unlines_inj {ts us : List Text} (ht : ∀ t ∈ ts, CodePoint.ofChar '\n' ∉ t)
    (hu : ∀ u ∈ us, CodePoint.ofChar '\n' ∉ u) : unlines ts = unlines us ↔ ts = us := by
  refine ⟨fun h => ?_, congrArg unlines⟩
  have hlines := congrArg lines h
  rw [lines_unlines ht, lines_unlines hu] at hlines
  exact List.append_cancel_right hlines

/-- What is filled up with spaces can be told from what stands behind another space. -/
theorem padRight_append_inj {width : Nat} {w v t u : Text} (hw : CodePoint.ofChar ' ' ∉ w)
    (hv : CodePoint.ofChar ' ' ∉ v)
    (h : w.padRight width ++ " " ++ t = v.padRight width ++ " " ++ u) : w = v ∧ t = u := by
  have hspaces (n : Nat) (t : Text) :
      spaces n ++ CodePoint.ofChar ' ' :: t = CodePoint.ofChar ' ' :: (spaces n ++ t) := by
    rw [spaces, ← List.singleton_append, ← List.append_assoc, ← List.replicate_succ',
      List.replicate_succ]
    rfl
  have hpad (w t : Text) : w.padRight width ++ " " ++ t =
      w ++ CodePoint.ofChar ' ' :: (spaces (width - w.length) ++ t) := by
    rw [padRight, ← hspaces, List.append_assoc, List.append_assoc]
    rfl
  rw [hpad, hpad] at h
  obtain ⟨rfl, hback⟩ := append_cons_inj hw hv h
  exact ⟨rfl, List.append_cancel_left hback⟩

theorem ofNat_injective : Function.Injective ofNat := by
  intro n m h
  have hdigits : Nat.toDigits 10 n = Nat.toDigits 10 m :=
    List.map_injective_iff.2 (fun _ _ => CodePoint.ofChar_inj.1) h
  have hnumber := congrArg (fun ds => Nat.ofDigitChars 10 ds 0) hdigits
  simpa using hnumber

/-- A number ends in front of what is no digit. -/
theorem ofNat_append_inj {n m : Nat} {t u : Text} (ht : t.EndsRun CodePoint.isDigit)
    (hu : u.EndsRun CodePoint.isDigit) (h : ofNat n ++ t = ofNat m ++ u) : n = m ∧ t = u := by
  obtain ⟨hnumber, hback⟩ := run_append_inj (fun _ => isDigit_of_mem_ofNat)
    (fun _ => isDigit_of_mem_ofNat) ht hu h
  exact ⟨ofNat_injective hnumber, hback⟩

theorem exists_ofNat_cons (n : Nat) : ∃ c t, ofNat n = c :: t ∧ c.isDigit := by
  have hne : ofNat n ≠ [] := by simp [ofNat]
  obtain ⟨c, t, hcons⟩ := List.exists_cons_of_ne_nil hne
  exact ⟨c, t, hcons, isDigit_of_mem_ofNat (hcons ▸ List.mem_cons_self)⟩

theorem ofInt_append_inj {n m : Int} {t u : Text} (ht : t.EndsRun CodePoint.isDigit)
    (hu : u.EndsRun CodePoint.isDigit) (h : ofInt n ++ t = ofInt m ++ u) : n = m ∧ t = u := by
  have hsign (n m : Nat) (t u : Text) :
      ofNat n ++ t ≠ CodePoint.ofChar '-' :: (ofNat m ++ u) := by
    obtain ⟨c, digits, hcons, hc⟩ := exists_ofNat_cons n
    rw [hcons]
    intro hsame
    rw [(List.cons.inj hsame).1] at hc
    exact absurd hc (by decide)
  cases n with
  | ofNat n =>
    cases m with
    | ofNat m =>
      obtain ⟨rfl, hback⟩ := ofNat_append_inj ht hu h
      exact ⟨rfl, hback⟩
    | negSucc m => exact absurd h (hsign n (m + 1) t u)
  | negSucc n =>
    cases m with
    | ofNat m => exact absurd h.symm (hsign m (n + 1) u t)
    | negSucc m =>
      obtain ⟨hnumber, hback⟩ := ofNat_append_inj ht hu (List.cons.inj h).2
      exact ⟨by omega, hback⟩

theorem notMem_ofInt {c : CodePoint} (hc : ¬ c.isDigit) (hne : c ≠ CodePoint.ofChar '-') (n : Int) :
    c ∉ ofInt n := by
  cases n with
  | ofNat n => exact fun h => hc (isDigit_of_mem_ofNat h)
  | negSucc n =>
    intro h
    obtain h | h := List.mem_cons.1 h
    · exact hne h
    · exact hc (isDigit_of_mem_ofNat h)

end Text

section Places

/-- A position without its offset. -/
def Position.withoutOffset (p : Position) : Position := ⟨p.line, p.column, 0⟩

/-- A span without its offsets. -/
def Span.withoutOffsets (s : Span) : Span := ⟨s.start.withoutOffset, s.stop.withoutOffset⟩

theorem Position.label_append_inj {p q : Position} {t u : Text}
    (ht : t.EndsRun CodePoint.isDigit) (hu : u.EndsRun CodePoint.isDigit)
    (h : p.label ++ t = q.label ++ u) : p.withoutOffset = q.withoutOffset ∧ t = u := by
  have hcolon (p : Position) (t : Text) : p.label ++ t =
      Text.ofInt p.line ++ CodePoint.ofChar ':' :: (Text.ofInt p.column ++ t) := by
    rw [label, List.append_assoc, List.append_assoc]
    rfl
  rw [hcolon, hcolon] at h
  have hends (t : Text) : Text.EndsRun CodePoint.isDigit (CodePoint.ofChar ':' :: t) := by
    simp [Text.EndsRun, CodePoint.isDigit]
  obtain ⟨hline, hback⟩ := Text.ofInt_append_inj (hends _) (hends _) h
  obtain ⟨hcolumn, hrest⟩ := Text.ofInt_append_inj ht hu (List.cons.inj hback).2
  exact ⟨by rw [withoutOffset, withoutOffset, hline, hcolumn], hrest⟩

/-- A label shows the lines and the columns of a span, and no offsets. -/
theorem Span.label_eq_iff {s r : Span} :
    s.label = r.label ↔ s.withoutOffsets = r.withoutOffsets := by
  constructor
  · intro h
    have hhyphen (s : Span) :
        s.label = s.start.label ++ CodePoint.ofChar '-' :: (s.stop.label ++ []) := by
      rw [label, List.append_assoc, List.append_nil]
      rfl
    rw [hhyphen, hhyphen] at h
    have hends (t : Text) : Text.EndsRun CodePoint.isDigit (CodePoint.ofChar '-' :: t) := by
      simp [Text.EndsRun, CodePoint.isDigit]
    obtain ⟨hstart, hback⟩ := Position.label_append_inj (hends _) (hends _) h
    obtain ⟨hstop, -⟩ := Position.label_append_inj (by simp [Text.EndsRun])
      (by simp [Text.EndsRun]) (List.cons.inj hback).2
    rw [withoutOffsets, withoutOffsets, hstart, hstop]
  · intro h
    have hlabel (s : Span) : s.label = s.withoutOffsets.label := rfl
    rw [hlabel, h, ← hlabel]

theorem Span.space_notMem_label (s : Span) : CodePoint.ofChar ' ' ∉ s.label := by
  have hint (n : Int) : CodePoint.ofChar ' ' ∉ Text.ofInt n :=
    Text.notMem_ofInt (by decide) (by decide) n
  simp [label, Position.label, hint, Text.ofString]

end Places

end LenSyntax
