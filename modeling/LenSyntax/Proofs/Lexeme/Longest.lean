import LenSyntax.Proofs.Lexeme.Numeral
import LenSyntax.Proofs.Token.Tiling

/-! The longest lexeme. A word is as long as word characters follow, a symbol is the longest entry
of the tables that fits, and what starts nothing goes on to the first place at which something
does. -/
namespace LenSyntax

open Number (Longest)

/-- A letter or an underscore, with word characters behind it. -/
def wordForms : Language CodePoint :=
  {w | (∃ c ∈ w.head?, c.startsWord) ∧ ∀ c ∈ w, c.continuesWord}

/-- The operators and the punctuation marks. -/
def symbolForms : Language CodePoint := {w | w ∈ operators ++ punctuation.map (·.1)}

namespace Text

/-- What stands at the start of a text: a blank, a string, a number, a word, a symbol or a
comment. -/
inductive Starts : Text → Prop
  | blank {c : CodePoint} {t : Text} (hc : c.isBlank) : Starts (c :: t)
  | string {t : Text} : Starts ('"' :: t)
  | number {c : CodePoint} {t : Text} (hc : c.isDigit) : Starts (c :: t)
  | word {c : CodePoint} {t : Text} (hc : c.startsWord) : Starts (c :: t)
  | symbol {s t : Text} (hs : s ∈ symbolForms) : Starts (s ++ t)
  | comment {mark t : Text} (hm : mark = "//" ∨ mark = "/*") : Starts (mark ++ t)

/-- `StrayRun rest t`: in front of `rest`, the text `t` holds something, nothing starts at any of
its code points, and it goes on until something starts or nothing is left. -/
structure StrayRun (rest t : Text) : Prop where
  ne_nil : t ≠ []
  stray : ∀ u v, t = u ++ v → v ≠ [] → ¬ Starts (v ++ rest)
  ends : rest = [] ∨ Starts rest

section
variable {t raw s : Text} {kind : TokenKind} {length : Nat}

theorem symbolKind?_isSome_iff : (symbolKind? t).isSome ↔ t ∈ symbolForms := by
  have hmem : t ∈ symbolForms ↔ t ∈ operators ∨ t ∈ punctuation.map (·.1) := List.mem_append
  rw [hmem, symbolKind?]
  split
  · next h => simp [h]
  · next h =>
    rw [or_iff_right h, Option.isSome_iff_ne_none, ne_eq, List.lookup_eq_none_iff, List.mem_map]
    constructor
    · intro hne
      by_contra hnone
      refine hne fun entry hentry => ?_
      simpa using fun heq : t = entry.1 => hnone ⟨entry, hentry, heq.symm⟩
    · rintro ⟨entry, hentry, rfl⟩ hnone
      simpa using hnone entry hentry

theorem length_le_longestSymbol (hs : s ∈ symbolForms) : s.length ≤ longestSymbol := by
  have hall : ∀ s ∈ operators ++ punctuation.map (·.1), s.length ≤ longestSymbol := by decide
  exact hall s hs

theorem length_pos_of_mem_symbolForms (hs : s ∈ symbolForms) : 0 < s.length := by
  have hall : ∀ s ∈ operators ++ punctuation.map (·.1), 0 < s.length := by decide
  exact hall s hs

/-- No longer entry fits that is within the length. -/
theorem length_le_of_symbolUpTo?_eq_some (h : symbolUpTo? t length = some (raw, kind))
    (hs : s ∈ symbolForms) (ht : s <+: t) (hle : s.length ≤ length) : s.length ≤ raw.length := by
  induction length with
  | zero => cases h
  | succ length ih =>
    unfold symbolUpTo? at h
    split at h
    · obtain ⟨rfl, rfl⟩ := h
      have hbound := ht.length_le
      rw [List.length_take]
      omega
    · next hnone =>
      refine ih h (Nat.le_of_lt_succ (Nat.lt_of_le_of_ne hle ?_))
      intro hfull
      rw [Nat.succ_eq_add_one] at hfull
      rw [← hfull, ← List.prefix_iff_eq_take.1 ht] at hnone
      simpa [hnone] using symbolKind?_isSome_iff.2 hs

theorem length_lt_of_symbolUpTo?_eq_none (h : symbolUpTo? t length = none)
    (hs : s ∈ symbolForms) (ht : s <+: t) : length < s.length := by
  induction length with
  | zero => exact length_pos_of_mem_symbolForms hs
  | succ length ih =>
    unfold symbolUpTo? at h
    split at h
    · cases h
    · next hnone =>
      refine Nat.lt_of_le_of_ne (ih h) ?_
      intro hfull
      rw [hfull, ← List.prefix_iff_eq_take.1 ht] at hnone
      simpa [hnone] using symbolKind?_isSome_iff.2 hs

/-- The symbol that is found at the start of a text is the longest one. -/
theorem longest_symbol (h : symbol? t = some (raw, kind)) : Longest symbolForms t raw where
  mem := symbolKind?_isSome_iff.1 (by rw [symbol?_kind h]; rfl)
  starts := symbol?_raw_le h
  length_le _ hs ht :=
    length_le_of_symbolUpTo?_eq_some (symbol?_eq t ▸ h) hs ht (length_le_longestSymbol hs)

theorem symbol?_isSome_iff : (symbol? t).isSome ↔ ∃ s ∈ symbolForms, s <+: t := by
  constructor
  · intro h
    obtain ⟨⟨raw, kind⟩, hfound⟩ := Option.isSome_iff_exists.1 h
    exact ⟨raw, (longest_symbol hfound).mem, (longest_symbol hfound).starts⟩
  · rintro ⟨s, hs, ht⟩
    rw [Option.isSome_iff_ne_none, symbol?_eq]
    intro hnone
    have hlt := length_lt_of_symbolUpTo?_eq_none hnone hs ht
    exact absurd (length_le_longestSymbol hs) (Nat.not_le.2 hlt)

end

/-- A comment starts with a symbol, so that what stops a run of strays need not look for one. -/
theorem exists_symbol_of_mark {mark : Text} (hm : mark = "//" ∨ mark = "/*") :
    ∃ s ∈ symbolForms, s <+: mark := by
  have hslash : Text.ofString "/" ∈ symbolForms := by
    change _ ∈ operators ++ punctuation.map (·.1)
    decide
  obtain rfl | rfl := hm
  · exact ⟨"/", hslash, ⟨"/", rfl⟩⟩
  · exact ⟨"/", hslash, ⟨"*", rfl⟩⟩

/-- Where a run of strays stops, something starts. -/
theorem startsLexeme_iff {t : Text} : t.startsLexeme ↔ t.Starts := by
  cases t with
  | nil =>
    refine iff_of_false (by simp [startsLexeme]) fun h => ?_
    generalize hu : ([] : Text) = u at h
    cases h with
    | symbol hs =>
      rw [(List.append_eq_nil_iff.1 hu.symm).1] at hs
      exact absurd (length_pos_of_mem_symbolForms hs) (Nat.lt_irrefl 0)
    | comment hm =>
      rw [(List.append_eq_nil_iff.1 hu.symm).1] at hm
      exact absurd hm (by decide)
    | _ => cases hu
  | cons c t =>
    simp only [startsLexeme, Bool.or_eq_true, decide_eq_true_eq, symbol?_isSome_iff]
    constructor
    · rintro ((((h | rfl) | h) | h) | ⟨s, hs, u, hu⟩)
      · exact .blank h
      · exact .string
      · exact .number h
      · exact .word h
      · exact hu ▸ .symbol hs
    · intro h
      generalize hu : c :: t = u at h
      cases h with
      | blank hc => obtain ⟨rfl, rfl⟩ := List.cons.inj hu; simp [hc]
      | string => obtain ⟨rfl, rfl⟩ := List.cons.inj hu; simp
      | number hc => obtain ⟨rfl, rfl⟩ := List.cons.inj hu; simp [hc]
      | word hc => obtain ⟨rfl, rfl⟩ := List.cons.inj hu; simp [hc]
      | symbol hs => exact .inr ⟨_, hs, List.prefix_append _ _⟩
      | comment hm =>
        obtain ⟨s, hs, hstarts⟩ := exists_symbol_of_mark hm
        exact .inr ⟨s, hs, hstarts.trans (List.prefix_append _ _)⟩

theorem longest_word {c : CodePoint} {t : Text} (hc : c.startsWord) :
    Longest wordForms (c :: t) ((c :: t).takeWhile CodePoint.continuesWord) where
  mem := by
    refine ⟨⟨c, ?_, hc⟩, fun d hd => List.mem_takeWhile_imp hd⟩
    rw [List.takeWhile_cons_of_pos (CodePoint.continuesWord_of_startsWord hc)]
    rfl
  starts := List.takeWhile_prefix _
  length_le v hv hstarts := by
    obtain ⟨u, hu⟩ := hstarts
    rw [← hu, List.takeWhile_append_of_pos hv.2, List.length_append]
    exact Nat.le_add_right _ _

/-- What starts nothing runs up to where something does. -/
theorem strayRun_splitBefore {c : CodePoint} {t : Text} (hc : ¬ Starts (c :: t)) :
    StrayRun (t.splitBefore startsLexeme).2 (c :: (t.splitBefore startsLexeme).1) where
  ne_nil := List.cons_ne_nil _ _
  stray u v huv hv := by
    cases u with
    | nil =>
      rw [List.nil_append] at huv
      rw [← huv, List.cons_append, splitBefore_append]
      exact hc
    | cons d u =>
      rw [← startsLexeme_iff]
      exact splitBefore_fst startsLexeme (List.cons.inj huv).2 hv
  ends := (splitBefore_snd startsLexeme t).imp_right startsLexeme_iff.1

end Text

namespace Lexeme

theorem pair_prefix_iff {a b c : CodePoint} {t : Text} :
    [a, b] <+: c :: t ↔ c = a ∧ t.head? = some b := by
  rw [List.cons_prefix_cons]
  cases t <;> simp [eq_comm]

/-- How far a lexeme reaches in front of the text behind it. What is malformed is a run of strays or
starts like a number, a string or a block comment. -/
def Reaches (rest : Text) : Lexeme → Prop
  | word raw => Longest wordForms (raw ++ rest) raw
  | symbol _ raw => Longest symbolForms (raw ++ rest) raw ∧
      ¬ Text.ofString "//" <+: raw ++ rest ∧ ¬ Text.ofString "/*" <+: raw ++ rest
  | comment raw => Text.Comment rest raw
  | malformed _ raw => Text.StrayRun rest raw ∨ (∃ c ∈ raw.head?, c.isDigit ∨ c = '"') ∨
      Text.ofString "/*" <+: raw
  | _ => True

theorem scanBlock_reaches (t : Text) : (scanBlock t).1.Reaches (scanBlock t).2 := by
  have hpass := scanBlock_passable t
  simp only [scanBlock] at hpass ⊢
  split
  · exact .inr (.inr (List.prefix_append _ _))
  · next h =>
    rw [if_neg h] at hpass
    exact hpass

theorem scanString_reaches (t : Text) : (scanString t).1.Reaches (scanString t).2 := by
  unfold scanString
  split
  · trivial
  · exact .inr (.inl ⟨_, rfl, .inr rfl⟩)

theorem scanNumber_reaches {c : CodePoint} (hc : c.isDigit) (t : Text) :
    (scanNumber (c :: t)).1.Reaches (scanNumber (c :: t)).2 := by
  have hraw := scanNumber_append (c :: t)
  have hne := scanNumber_raw_ne_nil t hc
  unfold scanNumber at hraw hne ⊢
  generalize Number.cut (c :: t) = s at hraw hne ⊢
  obtain ⟨raw, fault?, rest⟩ := s
  cases fault? with
  | none => trivial
  | some fault =>
    obtain ⟨d, w, rfl⟩ := List.exists_cons_of_ne_nil (show raw ≠ [] from hne)
    obtain ⟨rfl, -⟩ := List.cons.inj hraw
    exact .inr (.inl ⟨d, rfl, .inl hc⟩)

theorem scan_reaches (c : CodePoint) (t : Text) : (scan c t).1.Reaches (scan c t).2 := by
  have hpass := scan_passable c t
  unfold scan at hpass ⊢
  split
  · trivial
  next hblank =>
  rw [if_neg hblank] at hpass
  split
  · next h =>
    rw [if_pos h] at hpass
    exact hpass
  next hline =>
  split
  · exact scanBlock_reaches _
  next hblock =>
  split
  · exact scanString_reaches t
  next hquote =>
  split
  · next hdigit => exact scanNumber_reaches hdigit t
  next hdigit =>
  split
  · next hword =>
    change Longest wordForms (_ ++ _) _
    rw [Text.splitWhile_append]
    exact Text.longest_word hword
  next hword =>
  split
  · next raw kind h =>
    have hlongest := Text.longest_symbol h
    have happend : raw ++ (c :: t).drop raw.length = c :: t := by
      rw [List.prefix_iff_eq_append.1 hlongest.starts]
    change Longest symbolForms (raw ++ _) raw ∧ _
    rw [happend]
    exact ⟨hlongest, fun h => hline (pair_prefix_iff.1 h), fun h => hblock (pair_prefix_iff.1 h)⟩
  · next hsymbol =>
    refine .inl (Text.strayRun_splitBefore ?_)
    rw [← Text.startsLexeme_iff]
    simp [Text.startsLexeme, hblank, hquote, hdigit, hword, hsymbol]

end Lexeme

end LenSyntax
