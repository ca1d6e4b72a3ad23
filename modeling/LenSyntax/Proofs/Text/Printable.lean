import LenSyntax.Grammar.Fault
import LenSyntax.Token.CharClass

/-! Printable texts. What is put between quotes is printable whatever it is, and so is all that is
said of a syntax fault; letters and numerals are printable as they are. -/
namespace LenSyntax

namespace Ranges

/-- Whether two lists of ranges have no number in common: ranges of the second list that end in
front of one of the first are dropped, and the next one has to start behind it. -/
def disjoint : Ranges → Ranges → Bool
  | [], _ => true
  | (first, last) :: rs, qs =>
    let behind := qs.dropWhile (·.2 < first)
    behind.head?.all (last < ·.1) && disjoint rs behind

theorem contains_dropWhile {n first : Nat} {qs : Ranges} (hn : first ≤ n) (h : qs.contains n) :
    contains n (qs.dropWhile (·.2 < first)) := by
  induction qs with
  | nil => exact h
  | cons q qs ih =>
    by_cases hq : q.2 < first
    · rw [List.dropWhile_cons_of_pos (by simpa using hq)]
      simp only [contains, Bool.and_eq_true, Bool.or_eq_true, decide_eq_true_eq] at h
      exact ih (h.2.resolve_left (by omega))
    · rwa [List.dropWhile_cons_of_neg (by simpa using hq)]

theorem not_contains_of_disjoint {n : Nat} {rs qs : Ranges} (h : rs.disjoint qs)
    (hn : rs.contains n) : ¬ qs.contains n := by
  intro hq
  induction rs generalizing qs with
  | nil => cases hn
  | cons r rs ih =>
    simp only [disjoint, Bool.and_eq_true] at h
    simp only [contains, Bool.and_eq_true, Bool.or_eq_true, decide_eq_true_eq] at hn
    have hbehind := contains_dropWhile hn.1 hq
    obtain hlast | hmore := hn.2
    · cases hdrop : qs.dropWhile (·.2 < r.1) with
      | nil => rw [hdrop] at hbehind; cases hbehind
      | cons q qs' =>
        rw [hdrop] at h hbehind
        simp only [List.head?_cons, Option.all_some, decide_eq_true_eq] at h
        simp only [contains, Bool.and_eq_true, decide_eq_true_eq] at hbehind
        omega
    · exact ih h.2 hmore hbehind

theorem lt_of_increasing {q r : Nat × Nat} {rs : Ranges} (h : Increasing (q :: rs)) (hr : r ∈ rs) :
    q.1 < r.1 := by
  induction rs generalizing q with
  | nil => cases hr
  | cons p rs ih =>
    obtain ⟨hq, hnext, hmore⟩ := h
    have hstep := hnext p rfl
    obtain rfl | hr := List.mem_cons.1 hr
    · omega
    · have hbehind := ih hmore hr
      omega

theorem contains_of_mem {n : Nat} {r : Nat × Nat} {rs : Ranges} (h : rs.Increasing) (hr : r ∈ rs)
    (hfirst : r.1 ≤ n) (hlast : n ≤ r.2) : rs.contains n := by
  induction rs with
  | nil => cases hr
  | cons q rs ih =>
    simp only [contains, Bool.and_eq_true, Bool.or_eq_true, decide_eq_true_eq]
    obtain rfl | hmem := List.mem_cons.1 hr
    · exact ⟨hfirst, .inl hlast⟩
    · have hlt := lt_of_increasing h hmem
      exact ⟨by omega, .inr (ih h.2.2 hmem)⟩

theorem increasing_unprintable : Ranges.unprintable.Increasing := by decide +kernel

end Ranges

namespace CodePoint

theorem isPrintable_of_mem {rs : Ranges} (h : rs.disjoint .unprintable) {c : CodePoint}
    (hc : rs.contains c.val) : c.isPrintable := by
  simpa [isPrintable] using Ranges.not_contains_of_disjoint h hc

theorem isPrintable_of_ascii {c : CodePoint} (hle : 0x20 ≤ c.val) (hlt : c.val < 0x7F) :
    c.isPrintable := by
  have hascii : Ranges.disjoint [(0x20, 0x7E)] .unprintable := by decide
  apply isPrintable_of_mem hascii
  simp only [Ranges.contains, Bool.and_eq_true, Bool.or_eq_true, decide_eq_true_eq]
  omega

/-- No surrogate is printable. -/
theorem not_isPrintable_of_surrogate {c : CodePoint} (h : c.isSurrogate) :
    ¬ c.isPrintable := by
  have hrange : (0xD7FC, 0xF8FF) ∈ Ranges.unprintable := by decide +kernel
  simp only [isSurrogate, Bool.and_eq_true, decide_eq_true_eq] at h
  have hcontains := Ranges.contains_of_mem (n := c.val) Ranges.increasing_unprintable hrange
    (by simp only; omega) (by simp only; omega)
  simp [isPrintable, hcontains]

theorem isPrintable_of_isDigit {c : CodePoint} (h : c.isDigit) : c.isPrintable := by
  simp only [isDigit, Bool.and_eq_true, decide_eq_true_eq] at h
  exact isPrintable_of_ascii (by omega) (by omega)

/-- No word holds anything unprintable. -/
theorem isPrintable_of_continuesWord {c : CodePoint} (h : c.continuesWord) : c.isPrintable := by
  simp only [continuesWord, isLetter, isNumeral, Bool.or_eq_true, decide_eq_true_eq] at h
  obtain (h | h) | rfl := h
  · exact isPrintable_of_mem (by decide +kernel) h
  · exact isPrintable_of_mem (by decide +kernel) h
  · exact isPrintable_of_ascii (by decide) (by decide)

theorem val_hexDigit {n : Nat} (h : n < 16) :
    (hexDigit n).val = if n < 10 then 0x30 + n else 0x57 + n := by
  unfold hexDigit
  split <;> exact val_ofNat (by omega)

end CodePoint

namespace Text

/-- Nothing in a text is unprintable. -/
def Printable (t : Text) : Prop := ∀ c ∈ t, c.isPrintable

instance (t : Text) : Decidable t.Printable := inferInstanceAs (Decidable (∀ c ∈ t, c.isPrintable))

theorem Printable.append {t u : Text} (ht : t.Printable) (hu : u.Printable) :
    (t ++ u).Printable := by
  intro c hc
  obtain hc | hc := List.mem_append.1 hc
  · exact ht c hc
  · exact hu c hc

theorem printable_of_ascii {t : Text} (h : ∀ c ∈ t, 0x20 ≤ c.val ∧ c.val < 0x7F) : t.Printable :=
  fun c hc => CodePoint.isPrintable_of_ascii (h c hc).1 (h c hc).2

theorem Printable.ascii_append {t u : Text} (ht : ∀ c ∈ t, 0x20 ≤ c.val ∧ c.val < 0x7F)
    (hu : u.Printable) : (t ++ u).Printable := (printable_of_ascii ht).append hu

/-- A printable text stays on one line. -/
theorem Printable.lineFeed_notMem {t : Text} (h : t.Printable) : CodePoint.ofChar '\n' ∉ t :=
  fun hc => absurd (h _ hc) (by decide)

theorem printable_spaces (n : Nat) : (spaces n).Printable := by
  intro c hc
  rw [List.eq_of_mem_replicate hc]
  exact CodePoint.isPrintable_of_ascii (by decide) (by decide)

theorem isDigit_of_mem_ofNat {n : Nat} {c : CodePoint} (h : c ∈ ofNat n) : c.isDigit := by
  obtain ⟨d, hd, rfl⟩ := List.mem_map.1 h
  have hdigit := Nat.isDigit_of_mem_toDigits (by decide) (by decide) hd
  simp only [Char.isDigit, Bool.and_eq_true, decide_eq_true_eq, UInt32.le_iff_toNat_le] at hdigit
  simp only [CodePoint.isDigit, CodePoint.val_ofChar, Bool.and_eq_true]
  exact ⟨decide_eq_true hdigit.1, decide_eq_true hdigit.2⟩

theorem printable_ofNat (n : Nat) : (ofNat n).Printable :=
  fun _ hc => CodePoint.isPrintable_of_isDigit (isDigit_of_mem_ofNat hc)

theorem printable_ofInt (n : Int) : (ofInt n).Printable := by
  cases n with
  | ofNat n => exact printable_ofNat n
  | negSucc n => exact .ascii_append (by decide) (printable_ofNat (n + 1))

theorem printable_hex (width n : Nat) : (hex width n).Printable := by
  induction width generalizing n with
  | zero => simp [hex, Printable]
  | succ width ih =>
    refine (ih (n / 16)).append ?_
    intro c hc
    rw [List.mem_singleton.1 hc]
    have hval := CodePoint.val_hexDigit (Nat.mod_lt n (by decide : 0 < 16))
    split at hval <;> exact CodePoint.isPrintable_of_ascii (by omega) (by omega)

theorem printable_escape {quote : CodePoint} (hq : quote.isPrintable) (c : CodePoint) :
    (escape quote c).Printable := by
  have hbackslash : (CodePoint.ofChar '\\').isPrintable :=
    CodePoint.isPrintable_of_ascii (by decide) (by decide)
  unfold escape
  split
  · next h =>
    have hc : c.isPrintable := by
      obtain rfl | rfl := h
      · exact hbackslash
      · exact hq
    simpa [Printable, hc] using hbackslash
  split
  · exact printable_of_ascii (by decide)
  split
  · exact printable_of_ascii (by decide)
  split
  · exact printable_of_ascii (by decide)
  split
  · next hc => simpa [Printable] using hc
  · unfold numericEscape
    split
    · exact .ascii_append (by decide) (printable_hex 2 c.val)
    split
    · exact .ascii_append (by decide) (printable_hex 4 c.val)
    · exact .ascii_append (by decide) (printable_hex 8 c.val)

theorem quoteFor_eq (t : Text) :
    quoteFor t = CodePoint.ofChar '"' ∨ quoteFor t = CodePoint.ofChar '\'' := by
  unfold quoteFor
  split
  · exact .inl rfl
  · exact .inr rfl

/-- A quoted text is printable. -/
theorem printable_quoted (t : Text) : t.quoted.Printable := by
  have hq : (quoteFor t).isPrintable := by
    obtain h | h := quoteFor_eq t <;> rw [h] <;>
      exact CodePoint.isPrintable_of_ascii (by decide) (by decide)
  intro c hc
  simp only [quoted, List.cons_append, List.mem_cons, List.mem_append, List.mem_flatMap,
    List.not_mem_nil, or_false] at hc
  obtain rfl | ⟨d, -, hd⟩ | rfl := hc
  · exact hq
  · exact printable_escape hq d c hd
  · exact hq

end Text

theorem Position.printable_label (p : Position) : p.label.Printable :=
  ((Text.printable_ofInt p.line).append (Text.printable_of_ascii (by decide))).append
    (Text.printable_ofInt p.column)

theorem Span.printable_label (s : Span) : s.label.Printable :=
  (s.start.printable_label.append (Text.printable_of_ascii (by decide))).append
    s.stop.printable_label

theorem Found.printable_text (found : Found) : found.text.Printable := by
  cases found with
  | endOfInput => exact Text.printable_of_ascii (by decide)
  | token raw => exact Text.printable_quoted raw

/-- What is said of a syntax fault is printable. -/
theorem SyntaxFault.printable_message (fault : SyntaxFault) : fault.message.Printable := by
  cases fault with
  | missingExpression => exact Text.printable_of_ascii (by decide)
  | missingFieldName => exact Text.printable_of_ascii (by decide)
  | unexpected found => exact .ascii_append (by decide) found.printable_text
  | afterStatement found => exact .ascii_append (by decide) found.printable_text
  | afterField found => exact .ascii_append (by decide) found.printable_text
  | notFieldName found => exact .ascii_append (by decide) found.printable_text
  | openGroup opening => exact .ascii_append (by decide) opening.printable_label
  | openProduct opening => exact .ascii_append (by decide) opening.printable_label
  | tooDeep limit =>
    have hlimit := Text.printable_ofNat limit
    exact .append (.ascii_append (by decide) hlimit) (Text.printable_of_ascii (by decide))
  | invalidToken raw => exact .ascii_append (by decide) (Text.printable_quoted raw)
  | duplicateField name => exact .ascii_append (by decide) (Text.printable_quoted name)

end LenSyntax
