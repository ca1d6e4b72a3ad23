import LenSyntax.Proofs.Lexeme.Literal
import LenSyntax.Proofs.Lexeme.Number

/-! Scanning is local. The lexeme that is cut off a text is cut off again when what stands behind it
gives way to something else. -/
namespace LenSyntax.Lexeme

section
variable {w t u : Text} {l : Lexeme}

theorem scanBlock_closed {body rest : Text}
    (h : t.splitBefore (Text.ofString "*/").isPrefixOf = (body, Text.ofString "*/" ++ rest)) :
    scanBlock t = (comment ("/*" ++ body ++ "*/"), rest) := by
  simp only [scanBlock, h]
  rfl

theorem scanBlock_givesWay (hu : l.GivesWay t u)
    (h : scanBlock (w ++ t) = (l, t)) : scanBlock (w ++ u) = (l, u) := by
  obtain ⟨body, behind, hsplit⟩ :
      ∃ a b, (w ++ t).splitBefore (Text.ofString "*/").isPrefixOf = (a, b) := ⟨_, _, rfl⟩
  have happend := Text.splitBefore_append (Text.ofString "*/").isPrefixOf (w ++ t)
  have hmark := Text.splitBefore_snd (Text.ofString "*/").isPrefixOf (w ++ t)
  rw [hsplit] at happend hmark
  obtain rfl | hmark := hmark
  · -- only nothing at all can stand behind a comment that is still open
    have hopen : scanBlock (w ++ t) = (malformed .openComment ("/*" ++ body), []) := by
      simp only [scanBlock, hsplit, if_true]
    obtain ⟨rfl, rfl⟩ := Prod.mk.inj (hopen.symm.trans h)
    cases hu with
    | nothing => exact h
    | lineFeed hblank hopen u => exact absurd hopen (by simp [isOpenComment])
    | more hne u => exact absurd rfl hne
  · obtain ⟨rest, rfl⟩ := List.isPrefixOf_iff_prefix.1 hmark
    obtain ⟨rfl, rfl⟩ := Prod.mk.inj ((scanBlock_closed hsplit).symm.trans h)
    have hw : w = body ++ Text.ofString "*/" := by
      have hsame : w ++ rest = (body ++ Text.ofString "*/") ++ rest := by
        rw [List.append_assoc, ← happend]
      exact List.append_cancel_right hsame
    rw [hw, List.append_assoc] at hsplit ⊢
    refine scanBlock_closed (Text.splitBefore_append_eq ?_ (.inr ?_) hsplit)
    · intro c v hc
      cases v <;> exact hc
    · exact List.isPrefixOf_iff_prefix.2 (List.prefix_append _ _)

theorem scanString_givesWay (hu : l.GivesWay t u) (h : scanString (w ++ t) = (l, t)) :
    scanString (w ++ u) = (l, u) := by
  cases hbody : Literal.body (w ++ t) with
  | some read =>
    obtain ⟨body, rest⟩ := read
    simp only [scanString, hbody] at h
    obtain ⟨rfl, rfl⟩ := Prod.mk.inj h
    obtain ⟨v, -, hv, hread⟩ := Literal.bodyAux_local hbody
    have hw : w = v ++ [CodePoint.ofChar '"'] := by
      have hsame : w ++ rest = (v ++ [CodePoint.ofChar '"']) ++ rest := by
        rw [hv, List.append_assoc]
        rfl
      exact List.append_cancel_right hsame
    have hread' : Literal.body (w ++ u) = some (body, u) := by
      rw [hw, List.append_assoc]
      exact hread u
    simp only [scanString, hread']
  | none =>
    simp only [scanString, hbody] at h
    obtain ⟨hline, hrest⟩ := Prod.mk.inj h
    have hsplit := Text.cut_eq (Text.splitWhile_append (· ≠ CodePoint.ofChar '\n') (w ++ t)) hrest
    obtain ⟨hw, ht⟩ := Text.splitWhile_append_eq_iff.1 hsplit
    have hsplit' := Text.splitWhile_append_eq_iff.2 ⟨hw, hu.endsRun_line ht⟩
    rw [hsplit] at hline
    simp only [scanString, Literal.body_eq_none (hu.endsRun_line ht) hbody, hsplit', ← hline]

theorem scanNumber_givesWay (hu : l.GivesWay t u) (h : scanNumber (w ++ t) = (l, t)) :
    scanNumber (w ++ u) = (l, u) := by
  obtain ⟨raw, fault?, rest, hcut⟩ : ∃ raw fault? rest, Number.cut (w ++ t) = ⟨raw, fault?, rest⟩ :=
    ⟨_, _, _, rfl⟩
  have happend := Number.cut_append (w ++ t)
  have hrest : rest = t := by
    cases fault? <;> simp only [scanNumber, hcut] at h <;> exact (Prod.mk.inj h).2
  subst hrest
  rw [hcut] at happend
  obtain rfl : raw = w := List.append_cancel_right happend
  have hcut' := Number.cut_startsLike hu.startsLike hcut
  cases fault? <;> simp only [scanNumber, hcut, hcut'] at h ⊢ <;> rw [(Prod.mk.inj h).1]

theorem scanUnexpected_givesWay {c : CodePoint} (hu : l.GivesWay t u)
    (h : scanUnexpected c (w ++ t) = (l, t)) : scanUnexpected c (w ++ u) = (l, u) := by
  simp only [scanUnexpected] at h ⊢
  obtain ⟨hl, hrest⟩ := Prod.mk.inj h
  have hsplit := Text.cut_eq (Text.splitBefore_append Text.startsLexeme (w ++ t)) hrest
  have hstop := Text.splitBefore_snd Text.startsLexeme (w ++ t)
  rw [hsplit] at hl hstop
  have hsplit' : (w ++ u).splitBefore Text.startsLexeme = (w, u) :=
    Text.splitBefore_append_eq (fun c v => (hu.startsLike.append_left v).startsLexeme_eq_false)
      (hu.startsLexeme hstop) hsplit
  rw [hsplit', ← hl]

theorem scanBlock_snd_length_le (t : Text) : (scanBlock t).2.length ≤ t.length := by
  have hle := t.splitBefore_snd_length_le (Text.ofString "*/").isPrefixOf
  simp only [scanBlock]
  split
  · exact Nat.zero_le _
  · rw [List.length_drop]
    omega

/-- A lexeme that is a run, in front of what does not go on with it. -/
theorem run_eq_iff {p : CodePoint → Bool} {f : Text → Lexeme} :
    (f (Text.splitWhile p (w ++ t)).1, (Text.splitWhile p (w ++ t)).2) = (l, t) ↔
      f w = l ∧ (∀ c ∈ w, p c) ∧ t.EndsRun p := by
  constructor
  · intro h
    have hsplit := Text.cut_eq (Text.splitWhile_append p (w ++ t)) (Prod.mk.inj h).2
    rw [hsplit] at h
    exact ⟨(Prod.mk.inj h).1, Text.splitWhile_append_eq_iff.1 hsplit⟩
  · rintro ⟨rfl, h⟩
    rw [Text.splitWhile_append_eq_iff.2 h]

theorem blanks_givesWay (hu : l.GivesWay t u)
    (h : (blank (Text.splitWhile CodePoint.isBlank (w ++ t)).1,
      (Text.splitWhile CodePoint.isBlank (w ++ t)).2) = (l, t)) :
    (blank (Text.splitWhile CodePoint.isBlank (w ++ u)).1,
      (Text.splitWhile CodePoint.isBlank (w ++ u)).2) = (l, u) := by
  obtain ⟨rfl, hw, ht⟩ := run_eq_iff.1 h
  refine run_eq_iff.2 ⟨rfl, hw, fun c hc => ?_⟩
  cases hu with
  | nothing => cases hc
  | lineFeed hblank hopen u => exact absurd hblank (by simp [isBlank])
  | more hne u =>
    rw [List.head?_append_of_ne_nil _ hne] at hc
    exact ht c hc

theorem symbol_givesWay {c : CodePoint} {raw : Text} {kind : TokenKind} (hu : l.GivesWay t u)
    (hsymbol : Text.symbol? (c :: (w ++ t)) = some (raw, kind))
    (hrest : (c :: (w ++ t)).drop raw.length = t) :
    raw = c :: w ∧ Text.symbol? (c :: (w ++ u)) = some (raw, kind) := by
  obtain ⟨rest, hraw⟩ := Text.symbol?_raw_le hsymbol
  rw [← hraw, List.drop_left] at hrest
  subst hrest
  obtain rfl : raw = c :: w := List.append_cancel_right hraw
  exact ⟨rfl, hu.startsLike.symbol?_eq_some hsymbol⟩

/-- A lexeme is cut off again in front of what the text behind it gives way to. -/
theorem scan_givesWay {c : CodePoint} (hu : l.GivesWay t u)
    (h : scan c (w ++ t) = (l, t)) : scan c (w ++ u) = (l, u) := by
  have hlike := hu.startsLike.append_left w
  have hhead : ∀ d, d ≠ CodePoint.ofChar '\n' →
      ¬ (c = CodePoint.ofChar '/' ∧ (w ++ t).head? = some d) →
      ¬ (c = CodePoint.ofChar '/' ∧ (w ++ u).head? = some d) :=
    fun d hd hno hyes => hno ⟨hyes.1, (hlike d hyes.2).resolve_left hd⟩
  unfold scan at h ⊢
  split at h
  · next hblank =>
    rw [if_pos hblank]
    exact blanks_givesWay (w := c :: w) hu h
  next hblank =>
  rw [if_neg hblank]
  split at h
  · next hslash =>
    obtain ⟨rfl, hw, ht⟩ := (run_eq_iff (f := comment) (w := c :: w)).1 h
    cases w with
    | nil => exact absurd (ht _ hslash.2) (by decide)
    | cons d w =>
      rw [if_pos ⟨hslash.1, hslash.2⟩]
      exact (run_eq_iff (f := comment) (w := c :: d :: w)).2 ⟨rfl, hw, hu.endsRun_line ht⟩
  next hslash =>
  rw [if_neg (hhead _ (by decide) hslash)]
  split at h
  · next hstar =>
    cases w with
    | nil =>
      obtain ⟨t, rfl⟩ := List.head?_eq_some_iff.1 hstar.2
      have hle := scanBlock_snd_length_le t
      rw [show scanBlock t = _ from h, List.length_cons] at hle
      omega
    | cons d w =>
      rw [if_pos ⟨hstar.1, hstar.2⟩]
      exact scanBlock_givesWay hu h
  next hstar =>
  rw [if_neg (hhead _ (by decide) hstar)]
  split at h
  · next hquote =>
    rw [if_pos hquote]
    exact scanString_givesWay hu h
  next hquote =>
  rw [if_neg hquote]
  split at h
  · next hdigit =>
    rw [if_pos hdigit]
    exact scanNumber_givesWay (w := c :: w) hu h
  next hdigit =>
  rw [if_neg hdigit]
  split at h
  · next hword =>
    obtain ⟨rfl, hw, ht⟩ := (run_eq_iff (f := word) (w := c :: w)).1 h
    rw [if_pos hword]
    exact (run_eq_iff (f := word) (w := c :: w)).2
      ⟨rfl, hw, hu.startsLike.endsRun (by decide) ht⟩
  next hword =>
  rw [if_neg hword]
  split at h
  · next raw kind hsymbol =>
    obtain ⟨rfl, hrest⟩ := Prod.mk.inj h
    obtain ⟨rfl, hsymbol'⟩ := symbol_givesWay hu hsymbol hrest
    rw [hsymbol']
    exact Prod.ext rfl List.drop_left
  · next hsymbol =>
    rw [hlike.symbol?_eq_none hsymbol]
    exact scanUnexpected_givesWay hu h

end

theorem exists_raw_cons (c : CodePoint) (t : Text) :
    ∃ w, (scan c t).1.raw = c :: w ∧ t = w ++ (scan c t).2 := by
  have happend := scan_append c t
  have hne := scan_raw_ne_nil c t
  cases hraw : (scan c t).1.raw with
  | nil => exact absurd hraw hne
  | cons d w =>
    rw [hraw, List.cons_append, List.cons.injEq] at happend
    exact ⟨w, by rw [happend.1], happend.2.symm⟩

section
variable {c : CodePoint} {t : Text}

/-- A lexeme behind which something stands is cut off a longer text too. -/
theorem scan_append_of_ne_nil (h : (scan c t).2 ≠ []) (u : Text) :
    scan c (t ++ u) = ((scan c t).1, (scan c t).2 ++ u) := by
  obtain ⟨w, -, ht⟩ := exists_raw_cons c t
  have hscan : scan c (w ++ (scan c t).2) = ((scan c t).1, (scan c t).2) := by rw [← ht]
  conv_lhs => rw [ht, List.append_assoc]
  exact scan_givesWay (.more h u) hscan

/-- A lexeme at the end of a text is cut off in front of a line feed too. -/
theorem scan_append_lineFeed (h : (scan c t).2 = []) (hblank : (scan c t).1.isBlank = false)
    (hopen : (scan c t).1.isOpenComment = false) (u : Text) :
    scan c (t ++ CodePoint.ofChar '\n' :: u) =
      ((scan c t).1, CodePoint.ofChar '\n' :: u) := by
  refine scan_givesWay (t := []) (.lineFeed hblank hopen u) ?_
  rw [List.append_nil, ← h]

theorem scanNumber_isOpenComment (t : Text) : (scanNumber t).1.isOpenComment = false := by
  have hne := Number.cut_fault?_ne t
  unfold scanNumber
  split
  · rfl
  · next raw fault rest hcut =>
    rw [hcut] at hne
    cases fault with
    | openComment => exact absurd rfl hne
    | _ => rfl

/-- Nothing stands behind a comment that nothing closes. -/
theorem scan_snd_of_isOpenComment (h : (scan c t).1.isOpenComment) : (scan c t).2 = [] := by
  unfold scan at h ⊢
  split at h
  · cases h
  split at h
  · cases h
  split at h
  · next hblank hslash hstar =>
    rw [if_neg hblank, if_neg hslash, if_pos hstar]
    simp only [scanBlock] at h ⊢
    split at h
    · next hopen => rw [if_pos hopen]
    · cases h
  split at h
  · unfold scanString at h
    split at h <;> cases h
  split at h
  · rw [scanNumber_isOpenComment] at h
    cases h
  split at h
  · cases h
  split at h <;> cases h

/-- A lexeme is the only one of its own text. -/
theorem scan_raw {w : Text} (h : (scan c t).1.raw = c :: w) : scan c w = ((scan c t).1, []) := by
  obtain ⟨v, hv, ht⟩ := exists_raw_cons c t
  obtain rfl : v = w := (List.cons.inj (hv.symm.trans h)).2
  have hscan : scan c (v ++ (scan c t).2) = ((scan c t).1, (scan c t).2) := by rw [← ht]
  have halone := scan_givesWay .nothing hscan
  rwa [List.append_nil] at halone

end

end LenSyntax.Lexeme
