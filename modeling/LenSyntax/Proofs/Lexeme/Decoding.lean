import LenSyntax.Lexeme.Basic
import LenSyntax.Proofs.Lexeme.Literal
import Mathlib.Algebra.Group.Nat.Even
import Mathlib.Data.List.Induction

/-! String literals as they are meant. The quote that closes a literal is the first one on its line
that is not escaped, which shows in the number of backslashes in front of it. The body in front of
it falls into plain code points and escapes, and each escape stands for something or is at fault. -/
namespace LenSyntax.Literal

section Closing
variable {w t body : Text}

/-- How many backslashes stand at the end of a text. -/
def finalBackslashes (t : Text) : Nat :=
  (t.reverse.takeWhile (· = CodePoint.ofChar '\\')).length

theorem finalBackslashes_concat (t : Text) (c : CodePoint) :
    finalBackslashes (t ++ [c]) = if c = '\\' then finalBackslashes t + 1 else 0 := by
  by_cases hc : c = CodePoint.ofChar '\\' <;> simp [finalBackslashes, hc]

theorem even_finalBackslashes_append (hw : Even (finalBackslashes w)) (t : Text) :
    Even (finalBackslashes (w ++ t)) ↔ Even (finalBackslashes t) := by
  induction t using List.reverseRecOn with
  | nil => simpa [finalBackslashes] using hw
  | append_singleton t c ih =>
    rw [← List.append_assoc, finalBackslashes_concat, finalBackslashes_concat]
    split
    · rw [Nat.even_add_one, Nat.even_add_one, ih]
    · rfl

/-- `Closes t body`: in the text `t` behind an opening quote, a quote stands behind `body` on the
same line, and an even number of backslashes in front of it. -/
structure Closes (t body : Text) : Prop where
  quote : body ++ [CodePoint.ofChar '"'] <+: t
  line : CodePoint.ofChar '\n' ∉ body
  even : Even (finalBackslashes body)

/-- The quote behind `body` is the first one that closes. -/
structure Encloses (t body : Text) : Prop extends Closes t body where
  first : ∀ other, Closes t other → body.length ≤ other.length

/-- A part of a body behind which nothing is escaped: it is on one line, and every quote in it has
an odd number of backslashes in front. -/
structure Settled (w : Text) : Prop where
  line : CodePoint.ofChar '\n' ∉ w
  even : Even (finalBackslashes w)
  escaped : ∀ v x, w = v ++ CodePoint.ofChar '"' :: x → ¬ Even (finalBackslashes v)

namespace Settled

theorem plain {c : CodePoint} (hquote : c ≠ '"') (hline : c ≠ '\n') (hslash : c ≠ '\\') :
    Settled [c] where
  line := by simpa using hline.symm
  even := by simp [finalBackslashes, hslash]
  escaped v x h := by
    have hmem : CodePoint.ofChar '"' ∈ [c] := by simp [h]
    exact absurd (List.mem_singleton.1 hmem).symm hquote

theorem escape {letter : CodePoint} {digits : Text} (hline : letter ≠ '\n')
    (hdigits : ∀ d ∈ digits, d.isHexDigit) :
    Settled (CodePoint.ofChar '\\' :: letter :: digits) where
  line := by
    have hnot : CodePoint.ofChar '\n' ∉ digits := fun h => absurd (hdigits _ h) (by decide)
    simpa [hnot] using hline.symm
  even := by
    obtain rfl | ⟨ds, d, rfl⟩ := List.eq_nil_or_concat' digits
    · by_cases hletter : letter = CodePoint.ofChar '\\'
      · subst hletter
        decide
      · simp [finalBackslashes, hletter]
    · have hd : d ≠ CodePoint.ofChar '\\' := by
        rintro rfl
        exact absurd (hdigits (CodePoint.ofChar '\\') (by simp)) (by decide)
      rw [← List.cons_append, ← List.cons_append, finalBackslashes_concat, if_neg hd]
      exact Even.zero
  escaped v x h := by
    match v, h with
    | [], h => exact absurd (List.cons.inj h).1 (by decide)
    | [_], h =>
      obtain ⟨rfl, -⟩ := List.cons.inj h
      decide
    | _ :: _ :: v, h =>
      have hmem : CodePoint.ofChar '"' ∈ digits := by
        rw [(List.cons.inj (List.cons.inj h).2).2]
        simp
      exact absurd (hdigits _ hmem) (by decide)

/-- What closes a literal stands behind all that is settled. -/
theorem closes_append_iff (hw : Settled w) :
    Closes (w ++ t) body ↔ ∃ rest, body = w ++ rest ∧ Closes t rest := by
  constructor
  · intro h
    obtain ⟨x, hx⟩ := h.quote
    rw [List.append_assoc, List.singleton_append] at hx
    obtain ⟨rest, rfl, hrest⟩ | ⟨rest, rfl, hrest⟩ := List.append_eq_append_iff.1 hx
    · cases rest with
      | nil =>
        exact ⟨[], by simp, ⟨⟨x, by simpa using hrest⟩, by simp, by simp [finalBackslashes]⟩⟩
      | cons c rest =>
        obtain ⟨rfl, -⟩ := List.cons.inj hrest
        exact absurd h.even (hw.escaped _ _ rfl)
    · refine ⟨rest, rfl, ⟨x, by simp [hrest]⟩, fun hmem => h.line ?_, ?_⟩
      · exact List.mem_append_right _ hmem
      · exact (even_finalBackslashes_append hw.even rest).1 h.even
  · rintro ⟨rest, rfl, h⟩
    obtain ⟨x, rfl⟩ := h.quote
    refine ⟨⟨x, by simp⟩, ?_, (even_finalBackslashes_append hw.even rest).2 h.even⟩
    simpa using ⟨hw.line, h.line⟩

end Settled

theorem Encloses.settled_append (hw : Settled w) (h : Encloses t body) :
    Encloses (w ++ t) (w ++ body) where
  toCloses := hw.closes_append_iff.2 ⟨body, rfl, h.toCloses⟩
  first other ho := by
    obtain ⟨rest, rfl, hrest⟩ := hw.closes_append_iff.1 ho
    have hfirst := h.first rest hrest
    simp only [List.length_append]
    omega

/-- Only one body is enclosed. -/
theorem Encloses.unique {other : Text} (h : Encloses t body) (ho : Encloses t other) :
    body = other := by
  have hlength := Nat.le_antisymm (h.first other ho.toCloses) (ho.first body h.toCloses)
  have hquoted : body ++ [CodePoint.ofChar '"'] = other ++ [CodePoint.ofChar '"'] := by
    have hstarts := List.prefix_of_prefix_length_le h.quote ho.quote (by simp [hlength])
    exact hstarts.eq_of_length (by simp [hlength])
  exact List.append_cancel_right hquoted

theorem encloses_nil (t : Text) : Encloses (CodePoint.ofChar '"' :: t) [] where
  quote := ⟨t, rfl⟩
  line := by simp
  even := Even.zero
  first other _ := Nat.zero_le _

theorem not_endsRun_line {x : Text} (hw : CodePoint.ofChar '\n' ∉ w) :
    ¬ (w ++ CodePoint.ofChar '"' :: x).EndsRun (· ≠ CodePoint.ofChar '\n') := by
  intro h
  cases w with
  | nil => exact absurd (h _ rfl) (by decide)
  | cons c w =>
    have hc : c = CodePoint.ofChar '\n' := by simpa using h c rfl
    exact hw (hc ▸ List.mem_cons_self)

/-- No literal is closed behind the end of its line. -/
theorem not_closes_of_endsRun (ht : t.EndsRun (· ≠ CodePoint.ofChar '\n')) : ¬ Closes t body := by
  intro h
  obtain ⟨x, rfl⟩ := h.quote
  rw [List.append_assoc] at ht
  exact not_endsRun_line h.line ht

/-- A backslash at the end of a line closes nothing. -/
theorem not_closes_backslash (ht : t.EndsRun (· ≠ CodePoint.ofChar '\n')) :
    ¬ Closes (CodePoint.ofChar '\\' :: t) body := by
  intro h
  obtain ⟨x, hx⟩ := h.quote
  cases body with
  | nil => exact absurd (List.cons.inj hx).1 (by decide)
  | cons c body =>
    rw [List.append_assoc, List.cons_append] at hx
    obtain ⟨-, rfl⟩ := List.cons.inj hx
    exact not_endsRun_line (fun hmem => h.line (List.mem_cons_of_mem c hmem)) ht

end Closing

section Escapes

/-- `Escape letter digits rest meaning fault?`: in front of `rest`, a backslash with a letter and
digits stands for `meaning`, and this is what is wrong with it. -/
inductive Escape (letter : CodePoint) : (digits rest meaning : Text) → Option EscapeFault → Prop
  | simple {rest : Text} {meaning : CodePoint} (h : (letter, meaning) ∈ simpleEscapes) :
      Escape letter [] rest [meaning] none
  | scalar {width : Nat} {digits rest : Text} (hw : (letter, width) ∈ numericEscapes)
      (hd : HexRun width digits rest) (hfull : digits.length = width)
      (hle : digits.hexNumber ≤ 0x10FFFF)
      (hs : ¬ (0xD800 ≤ digits.hexNumber ∧ digits.hexNumber ≤ 0xDFFF)) :
      Escape letter digits rest [.ofNat digits.hexNumber] none
  | outOfRange {width : Nat} {digits rest : Text} (hw : (letter, width) ∈ numericEscapes)
      (hd : HexRun width digits rest) (hfull : digits.length = width)
      (hn : 0x10FFFF < digits.hexNumber ∨
        (0xD800 ≤ digits.hexNumber ∧ digits.hexNumber ≤ 0xDFFF)) :
      Escape letter digits rest [.replacement] (some (.outOfRange digits))
  | incomplete {width : Nat} {digits rest : Text} (hw : (letter, width) ∈ numericEscapes)
      (hd : HexRun width digits rest) (hshort : digits.length < width) :
      Escape letter digits rest ('\\' :: letter :: digits)
        (some (.incomplete width digits.length))
  | unknown {rest : Text} (hs : letter ∉ simpleEscapes.map (·.1))
      (hn : letter ∉ numericEscapes.map (·.1)) :
      Escape letter [] rest ['\\', letter] (some (.unknown letter))

theorem Escape.isHexDigit {letter : CodePoint} {digits rest meaning : Text}
    {fault? : Option EscapeFault} (h : Escape letter digits rest meaning fault?) :
    ∀ d ∈ digits, d.isHexDigit := by
  cases h with
  | simple => simp
  | scalar hw hd => exact hd.hex
  | outOfRange hw hd => exact hd.hex
  | incomplete hw hd => exact hd.hex
  | unknown => simp

theorem escape_numeric {letter : CodePoint} {width : Nat} {digits rest : Text}
    (hw : (letter, width) ∈ numericEscapes) (hd : HexRun width digits rest) :
    Escape letter digits rest (Piece.numeric letter width digits).value
      (Piece.numeric letter width digits).fault? := by
  by_cases hshort : digits.length < width
  · simp only [Piece.value, Piece.fault?, if_pos hshort]
    exact .incomplete hw hd hshort
  · have hfull : digits.length = width := Nat.le_antisymm hd.length_le (Nat.le_of_not_lt hshort)
    by_cases hn : 0x10FFFF < digits.hexNumber ∨
        (0xD800 ≤ digits.hexNumber ∧ digits.hexNumber ≤ 0xDFFF)
    · simp only [Piece.value, Piece.fault?, if_neg hshort, if_pos hn]
      exact .outOfRange hw hd hfull hn
    · simp only [Piece.value, Piece.fault?, if_neg hshort, if_neg hn]
      rw [not_or, Nat.not_lt] at hn
      exact .scalar hw hd hfull hn.1 hn.2

theorem lookup_eq_none_iff {α : Type} {table : List (CodePoint × α)} {c : CodePoint} :
    table.lookup c = none ↔ c ∉ table.map (·.1) := by
  rw [List.lookup_eq_none_iff, List.mem_map]
  constructor
  · rintro h ⟨entry, hentry, rfl⟩
    simpa using h entry hentry
  · rintro h entry hentry
    simpa using fun heq : c = entry.1 => h ⟨entry, hentry, heq.symm⟩

/-- What is read behind a backslash is an escape. -/
theorem escape_spec (c : CodePoint) (t : Text) :
    ∃ digits, t = digits ++ (escape c t).2 ∧
      (escape c t).1.raw = CodePoint.ofChar '\\' :: c :: digits ∧
      Escape c digits (escape c t).2 (escape c t).1.value (escape c t).1.fault? := by
  unfold escape
  split
  · next meaning h =>
    obtain ⟨l, r, hl, -⟩ := List.lookup_eq_some_iff.1 h
    exact ⟨[], rfl, rfl, .simple (by simp [hl])⟩
  · next width _ h =>
    obtain ⟨l, r, hl, -⟩ := List.lookup_eq_some_iff.1 h
    obtain ⟨rest, ht, hrun⟩ := exists_hexRun width t
    simp only
    generalize (t.take width).takeWhile CodePoint.isHexDigit = digits at ht hrun
    subst ht
    rw [List.drop_left]
    exact ⟨digits, rfl, rfl, escape_numeric (by simp [hl]) hrun⟩
  · next hs hn =>
    exact ⟨[], rfl, rfl, .unknown (lookup_eq_none_iff.1 hs) (lookup_eq_none_iff.1 hn)⟩

end Escapes

section Bodies

/-- `Decodes p t value ds`: the body `t` of a literal that is read from `p` on stands for `value`,
and `ds` tells of the escapes in it that are at fault, each over its own text. -/
inductive Decodes : Position → Text → Text → List Diagnostic → Prop
  | nil {p : Position} : Decodes p [] [] []
  | plain {p : Position} {c : CodePoint} {t value : Text} {ds : List Diagnostic} (hc : c ≠ '\\')
      (more : Decodes (p.advance c) t value ds) : Decodes p (c :: t) (c :: value) ds
  | escape {p : Position} {letter : CodePoint} {digits t meaning value : Text}
      {fault? : Option EscapeFault} {ds : List Diagnostic}
      (h : Escape letter digits t meaning fault?)
      (more : Decodes (p.after ('\\' :: letter :: digits)) t value ds) :
      Decodes p ('\\' :: letter :: (digits ++ t)) (meaning ++ value)
        (fault?.toList.map (fun fault =>
          .error fault.message ⟨p, p.after ('\\' :: letter :: digits)⟩) ++ ds)

theorem Escape.of_append {letter : CodePoint} {digits rest more meaning : Text}
    {fault? : Option EscapeFault} (h : Escape letter digits (rest ++ more) meaning fault?) :
    Escape letter digits rest meaning fault? := by
  have hrun {width : Nat} (hd : HexRun width digits (rest ++ more)) : HexRun width digits rest := by
    refine hd.of_endsRun fun hend c hc => hend c ?_
    obtain ⟨rest, rfl⟩ := List.head?_eq_some_iff.1 hc
    rfl
  cases h with
  | simple h => exact .simple h
  | scalar hw hd hfull hle hs => exact .scalar hw (hrun hd) hfull hle hs
  | outOfRange hw hd hfull hn => exact .outOfRange hw (hrun hd) hfull hn
  | incomplete hw hd hshort => exact .incomplete hw (hrun hd) hshort
  | unknown hs hn => exact .unknown hs hn

/-- What is an escape is read as one. -/
theorem Escape.escape_eq {letter : CodePoint} {digits rest meaning : Text}
    {fault? : Option EscapeFault} (h : Escape letter digits rest meaning fault?) :
    ∃ piece, Literal.escape letter (digits ++ rest) = (piece, rest) ∧ piece.value = meaning ∧
      piece.fault? = fault? := by
  have hsimple : ∀ e ∈ simpleEscapes, simpleEscapes.lookup e.1 = some e.2 := by decide
  have hnumeric : ∀ e ∈ numericEscapes,
      simpleEscapes.lookup e.1 = none ∧ numericEscapes.lookup e.1 = some e.2 := by decide
  have hrun {width : Nat} (hw : (letter, width) ∈ numericEscapes) (hd : HexRun width digits rest) :
      Literal.escape letter (digits ++ rest) = (.numeric letter width digits, rest) := by
    have hdigits := hexRun_iff.2 hd
    obtain ⟨hs, hn⟩ := hnumeric _ hw
    simp only at hs hn
    simp [Literal.escape, hs, hn, hdigits]
  cases h with
  | simple h =>
    have hs := hsimple _ h
    simp only at hs
    exact ⟨.simple letter _, by simp only [Literal.escape, hs, List.nil_append], rfl, rfl⟩
  | scalar hw hd hfull hle hs =>
    refine ⟨_, hrun hw hd, ?_⟩
    have hn : ¬ (0x10FFFF < digits.hexNumber ∨
        (0xD800 ≤ digits.hexNumber ∧ digits.hexNumber ≤ 0xDFFF)) := by omega
    simp only [Piece.value, Piece.fault?, if_neg (Nat.not_lt.2 hfull.ge), if_neg hn, and_self]
  | outOfRange hw hd hfull hn =>
    refine ⟨_, hrun hw hd, ?_⟩
    simp only [Piece.value, Piece.fault?, if_neg (Nat.not_lt.2 hfull.ge), if_pos hn, and_self]
  | incomplete hw hd hshort =>
    refine ⟨_, hrun hw hd, ?_⟩
    simp only [Piece.value, Piece.fault?, if_pos hshort, and_self]
  | unknown hs hn =>
    rw [← lookup_eq_none_iff] at hs hn
    exact ⟨.unknown letter, by simp only [Literal.escape, hs, hn, List.nil_append], rfl, rfl⟩

/-- A body stands for one value, with one list of complaints. -/
theorem Decodes.unique {p : Position} {t value value' : Text} {ds ds' : List Diagnostic}
    (h : Decodes p t value ds) (h' : Decodes p t value' ds') : value = value' ∧ ds = ds' := by
  induction h generalizing value' ds' with
  | nil => cases h'; exact ⟨rfl, rfl⟩
  | plain hc more ih =>
    cases h' with
    | plain hc' more' =>
      obtain ⟨rfl, rfl⟩ := ih more'
      exact ⟨rfl, rfl⟩
    | escape => exact absurd rfl hc
  | @escape p letter digits t _ _ _ _ h more ih =>
    generalize hu : CodePoint.ofChar '\\' :: letter :: (digits ++ t) = u at h'
    cases h' with
    | nil => cases hu
    | plain hc' more' => exact absurd (List.cons.inj hu).1.symm hc'
    | @escape _ _ digits' t' _ _ _ _ h' more' =>
      simp only [List.cons.injEq, true_and] at hu
      obtain ⟨rfl, hrest⟩ := hu
      obtain ⟨piece, hread, rfl, rfl⟩ := h.escape_eq
      obtain ⟨piece', hread', rfl, rfl⟩ := h'.escape_eq
      rw [hrest, hread'] at hread
      obtain ⟨rfl, rfl⟩ := Prod.mk.inj hread
      obtain rfl := List.append_cancel_right hrest
      obtain ⟨rfl, rfl⟩ := ih more'
      exact ⟨rfl, rfl⟩

/-- Each complaint about a body is about an escape of it that is at fault, over its text. -/
theorem Decodes.exists_escape {p : Position} {t value : Text} {ds : List Diagnostic}
    (h : Decodes p t value ds) {d : Diagnostic} (hd : d ∈ ds) :
    ∃ (front : Text) (letter : CodePoint) (digits rest meaning : Text) (fault : EscapeFault),
      t = front ++ CodePoint.ofChar '\\' :: letter :: (digits ++ rest) ∧
      Escape letter digits rest meaning (some fault) ∧
      d = .error fault.message
        ⟨p.after front, p.after (front ++ CodePoint.ofChar '\\' :: letter :: digits)⟩ := by
  induction h with
  | nil => cases hd
  | @plain p c t value ds hc more ih =>
    obtain ⟨front, letter, digits, rest, meaning, fault, rfl, hescape, rfl⟩ := ih hd
    exact ⟨c :: front, letter, digits, rest, meaning, fault, rfl, hescape, rfl⟩
  | @escape p letter digits t meaning value fault? ds h more ih =>
    obtain hown | hmore := List.mem_append.1 hd
    · obtain ⟨fault, hfault, rfl⟩ := List.mem_map.1 hown
      obtain rfl := Option.mem_toList.1 hfault
      exact ⟨[], letter, digits, t, meaning, fault, rfl, h, rfl⟩
    · obtain ⟨front, other, es, rest, value, fault, rfl, hescape, rfl⟩ := ih hmore
      refine ⟨CodePoint.ofChar '\\' :: letter :: (digits ++ front), other, es, rest, value, fault,
        by simp, hescape, ?_⟩
      simp [Position.after_append]

/-- Where a literal cannot be read, no quote closes it. -/
theorem not_closes_of_bodyAux {read : List Piece} {t : Text} (h : bodyAux read t = none)
    (body : Text) : ¬ Closes t body := by
  fun_induction bodyAux read t generalizing body with
  | case1 => exact not_closes_of_endsRun (by simp [Text.EndsRun])
  | case2 => cases h
  | case3 => exact not_closes_of_endsRun (by simp [Text.EndsRun])
  | case4 => exact not_closes_backslash (by simp [Text.EndsRun])
  | case5 => exact not_closes_backslash (by simp [Text.EndsRun])
  | case6 read d u hd hquote hline ih =>
    obtain ⟨digits, hu, -, hescape⟩ := escape_spec d u
    rw [hu]
    intro hcloses
    obtain ⟨rest, -, hrest⟩ :=
      (Settled.escape hd hescape.isHexDigit).closes_append_iff.1 hcloses
    exact ih h rest hrest
  | case7 read c t hquote hline hslash ih =>
    intro hcloses
    obtain ⟨rest, -, hrest⟩ := (Settled.plain hquote hline hslash).closes_append_iff.1 hcloses
    exact ih h rest hrest

theorem bodyDiagnostics_cons (p : Position) (piece : Piece) (body : List Piece) :
    Lexeme.bodyDiagnostics p (piece :: body) =
      piece.fault?.toList.map (fun fault => .error fault.message ⟨p, p.after piece.raw⟩) ++
        Lexeme.bodyDiagnostics (p.after piece.raw) body := by
  rw [Lexeme.bodyDiagnostics]
  cases piece.fault? <;> rfl

/-- Where a literal is read, the first quote that closes it does so, and its pieces stand for what
its body does. -/
theorem exists_decodes_of_bodyAux {read pieces : List Piece} {t behind : Text}
    (h : bodyAux read t = some (pieces, behind)) :
    ∃ body, pieces = read.reverse ++ body ∧
      t = body.flatMap Piece.raw ++ CodePoint.ofChar '"' :: behind ∧
      Encloses t (body.flatMap Piece.raw) ∧
      ∀ p, Decodes p (body.flatMap Piece.raw) (body.flatMap Piece.value)
        (Lexeme.bodyDiagnostics p body) := by
  fun_induction bodyAux read t with
  | case1 => cases h
  | case2 read t =>
    obtain ⟨rfl, rfl⟩ := Prod.mk.inj (Option.some.inj h)
    exact ⟨[], by simp, rfl, encloses_nil t, fun p => .nil⟩
  | case3 => cases h
  | case4 => cases h
  | case5 => cases h
  | case6 read d u hd hquote hline ih =>
    obtain ⟨digits, hu, hraw, hescape⟩ := escape_spec d u
    obtain ⟨body, rfl, hbehind, hencloses, hdecodes⟩ := ih h
    generalize escape d u = s at hu hraw hescape hbehind hencloses
    obtain ⟨piece, rest⟩ := s
    simp only at hu hraw hescape hbehind hencloses
    subst hu hbehind
    refine ⟨piece :: body, by simp, by simp [hraw], ?_, fun p => ?_⟩
    · have hsettled := Settled.escape hd hescape.isHexDigit
      simpa [hraw] using hencloses.settled_append hsettled
    · rw [bodyDiagnostics_cons, List.flatMap_cons, List.flatMap_cons, hraw]
      exact .escape hescape.of_append (hdecodes _)
  | case7 read c t hquote hline hslash ih =>
    obtain ⟨body, rfl, rfl, hencloses, hdecodes⟩ := ih h
    refine ⟨.plain c :: body, by simp, rfl,
      hencloses.settled_append (.plain hquote hline hslash), fun p => ?_⟩
    exact .plain hslash (hdecodes (p.advance c))

end Bodies

end LenSyntax.Literal
