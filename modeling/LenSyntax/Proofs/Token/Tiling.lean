import LenSyntax.Proofs.Token.Order

/-! The tokens of a source tile it. In front of, between and behind them stand only blanks and,
where comments make no tokens, whole comments; tokens and gaps together give back the source. -/
namespace LenSyntax

namespace Text

/-- The part of a text between two offsets. -/
def slice (t : Text) (start stop : Int) : Text := (t.take stop.toNat).drop start.toNat

theorem slice_append (before t behind : Text) :
    (before ++ t ++ behind).slice before.length (before ++ t).length = t := by
  rw [slice, Int.toNat_natCast, Int.toNat_natCast, List.take_left, List.drop_left]

/-- The offsets between which no token stands, from a given offset on. -/
def gaps (source : Text) (start : Int) : List Token → List (Int × Int)
  | [] => [(start, source.length)]
  | t :: ts => (start, t.span.start.offset) :: source.gaps t.span.stop.offset ts

/-- The texts of two rows by turns, the first row first. -/
def interleave : List Text → List Text → Text
  | [], us => us.flatten
  | ts, [] => ts.flatten
  | t :: ts, u :: us => t ++ (u ++ interleave ts us)

/-- `Comment rest t`: in front of `rest` the text `t` is one whole comment. A line comment ends with
its line, and a block comment at the first mark for its end. -/
inductive Comment (rest : Text) : Text → Prop
  | line {body : Text} (hb : CodePoint.ofChar '\n' ∉ body)
      (hr : ∀ c ∈ rest.head?, c = CodePoint.ofChar '\n') : Comment rest ("//" ++ body)
  | block {body : Text} (hb : ¬ Text.ofString "*/" <:+: body) : Comment rest ("/*" ++ body ++ "*/")

/-- `Filler comments rest t`: in front of `rest` the text `t` is made of blanks and, if they are
allowed, of whole comments. -/
inductive Filler (comments : Bool) (rest : Text) : Text → Prop
  | nil : Filler comments rest []
  | blank {c : CodePoint} {t : Text} (hc : c.isBlank) (more : Filler comments rest t) :
      Filler comments rest (c :: t)
  | comment {u t : Text} (h : comments) (hu : Comment (t ++ rest) u)
      (more : Filler comments rest t) : Filler comments rest (u ++ t)

namespace Filler
variable {comments : Bool} {rest t u : Text}

theorem of_blanks (h : ∀ c ∈ t, c.isBlank) : Filler comments rest t := by
  induction t with
  | nil => exact .nil
  | cons c t ih =>
    rw [List.forall_mem_cons] at h
    exact .blank h.1 (ih h.2)

theorem append (ht : Filler comments (u ++ rest) t) (hu : Filler comments rest u) :
    Filler comments rest (t ++ u) := by
  induction ht with
  | nil => exact hu
  | blank hc more ih => exact .blank hc ih
  | comment h hw more ih =>
    rw [List.append_assoc]
    exact .comment h (by simpa using hw) ih

/-- Without comments there are only blanks. -/
theorem blanks (h : Filler false rest t) : ∀ c ∈ t, c.isBlank := by
  induction h with
  | nil => simp
  | blank hc more ih => exact List.forall_mem_cons.2 ⟨hc, ih⟩
  | comment h hw more ih => cases h

end Filler

/-- Behind no code point of the first part does the property hold. -/
theorem splitBefore_fst (p : Text → Bool) {t u v : Text} (h : (splitBefore p t).1 = u ++ v)
    (hv : v ≠ []) : ¬ p (v ++ (splitBefore p t).2) := by
  induction t generalizing u with
  | nil => simp_all
  | cons c t ih =>
    rw [splitBefore_cons] at h ⊢
    split
    · next hc => simp_all
    · next hc =>
      rw [if_neg hc] at h
      cases u with
      | nil =>
        rw [List.nil_append] at h
        simp only [← h, List.cons_append, splitBefore_append]
        exact hc
      | cons d u =>
        rw [List.cons_append, List.cons.injEq] at h
        exact ih h.2

end Text

namespace Lexeme

theorem token?_raw {keepComments : Bool} {span : Span} {l : Lexeme} {t : Token}
    (h : l.token? keepComments span = some t) : t.raw = l.raw := by
  cases l with
  | blank => cases h
  | comment raw =>
    simp only [token?] at h
    split at h <;> cases h
    rfl
  | _ => cases h; rfl

/-- What a lexeme that is no token may hold, in front of the text behind it. -/
def Passable (rest : Text) : Lexeme → Prop
  | blank raw => ∀ c ∈ raw, c.isBlank
  | comment raw => Text.Comment rest raw
  | _ => True

theorem scanBlock_passable (t : Text) : (scanBlock t).1.Passable (scanBlock t).2 := by
  simp only [scanBlock]
  split
  · trivial
  · refine .block ?_
    rintro ⟨u, v, hbody⟩
    rw [List.append_assoc] at hbody
    have hmark : Text.ofString "*/" ++ v ≠ [] := by simp [Text.ofString]
    refine Text.splitBefore_fst (Text.ofString "*/").isPrefixOf hbody.symm hmark ?_
    rw [List.append_assoc, List.isPrefixOf_iff_prefix]
    exact List.prefix_append _ _

theorem line_passable (t : Text) :
    Text.Comment (t.dropWhile (· ≠ CodePoint.ofChar '\n'))
      ("//" ++ t.takeWhile (· ≠ CodePoint.ofChar '\n')) := by
  refine .line ?_ ?_
  · intro hmem
    simpa using List.all_eq_true.1 List.all_takeWhile _ hmem
  · intro c hc
    have hstop := List.head?_dropWhile_not (· ≠ CodePoint.ofChar '\n') t
    rw [Option.mem_def.1 hc] at hstop
    simpa using hstop

theorem scan_passable (c : CodePoint) (t : Text) : (scan c t).1.Passable (scan c t).2 := by
  unfold scan
  split
  · exact fun d hd => List.all_eq_true.1 List.all_takeWhile d hd
  split
  · next h =>
    obtain ⟨rfl, h⟩ := h
    cases t with
    | nil => simp at h
    | cons d t =>
      obtain rfl := Option.some.inj h
      exact line_passable t
  split
  · exact scanBlock_passable _
  split
  · unfold scanString
    split <;> trivial
  split
  · unfold scanNumber
    split <;> trivial
  split
  · trivial
  split <;> trivial

theorem Passable.filler {keepComments : Bool} {span : Span} {rest : Text} {l : Lexeme}
    (hl : l.Passable rest) (h : l.token? keepComments span = none) :
    Text.Filler (!keepComments) rest l.raw := by
  cases l with
  | blank raw => exact .of_blanks hl
  | comment raw =>
    have hkeep : keepComments = false := by simpa [token?] using h
    have hcomment : Text.Comment ([] ++ rest) raw := hl
    simpa [Lexeme.raw] using Text.Filler.comment (by simp [hkeep]) hcomment .nil
  | _ => cases h

end Lexeme

namespace Text

/-- Each lexeme is a part of the text and stands behind what is in front of it. -/
theorem lexemes_around (p : Position) (t : Text) :
    ∀ l ∈ lexemes p t, ∃ u v, t = u ++ l.lexeme.raw ++ v ∧ l.start = p.after u := by
  match t with
  | [] => simp
  | c :: t =>
    rw [lexemes_cons]
    intro l hl
    obtain rfl | hl := List.mem_cons.1 hl
    · exact ⟨[], _, (Lexeme.scan_append c t).symm, rfl⟩
    · obtain ⟨u, v, ht, hs⟩ := lexemes_around _ _ l hl
      refine ⟨(Lexeme.scan c t).1.raw ++ u, v, ?_, ?_⟩
      · rw [List.append_assoc, List.append_assoc, ← List.append_assoc u, ← ht, Lexeme.scan_append]
      · rw [hs, Position.after_append]
  termination_by t.length
  decreasing_by exact Lexeme.scan_length_lt c t

/-- Each token of a source is a part of it and stands behind what is in front of it. -/
theorem tokens_around {config : Config} {source : Text} {t : Token}
    (ht : t ∈ (source.tokenStream config).tokens) :
    ∃ u v, source = u ++ t.raw ++ v ∧ t.span.start = Position.origin.after u ∧
      t.span.stop = Position.origin.after (u ++ t.raw) := by
  rw [tokenStream_tokens, List.mem_append, List.mem_singleton] at ht
  obtain ht | rfl := ht
  · obtain ⟨l, hl, -, hs, h⟩ := exists_lexeme ht
    obtain ⟨u, v, hsource, hstart⟩ := lexemes_around _ _ l hl
    rw [← Lexeme.token?_raw h] at hsource
    refine ⟨u, v, hsource, ?_, ?_⟩
    · rw [hs]
      exact hstart
    · rw [hs, Placed.span, ← Lexeme.token?_raw h, hstart, Position.after_append]
  · exact ⟨source, [], by simp [Token.endAt], rfl, by simp [Token.endAt, Span.point]⟩

end Text

/-- Two offsets in a source between which no token stands, but only what makes none. -/
structure IsGap (keepComments : Bool) (source : Text) (start stop : Int) : Prop where
  start_nonneg : 0 ≤ start
  start_le_stop : start ≤ stop
  stop_le : stop ≤ source.length
  filler : Text.Filler (!keepComments) (source.drop stop.toNat) (source.slice start stop)

/-- From an offset of a source on, tokens with gaps between them give a text. -/
structure Tiles (keepComments : Bool) (source : Text) (start : Int) (ts : List Token) (t : Text) :
    Prop where
  isGap : ∀ g ∈ source.gaps start ts, IsGap keepComments source g.1 g.2
  interleave_eq : Text.interleave ((source.gaps start ts).map fun g => source.slice g.1 g.2)
    (ts.map (·.raw)) = t

section Tiles
variable {keepComments : Bool} {source before gap behind : Text}

theorem isGap_append (before : Text) (h : Text.Filler (!keepComments) behind gap) :
    IsGap keepComments (before ++ gap ++ behind) before.length (before ++ gap).length where
  start_nonneg := by omega
  start_le_stop := by rw [List.length_append]; omega
  stop_le := by simp only [List.length_append]; omega
  filler := by
    rw [Text.slice_append, Int.toNat_natCast, List.drop_left]
    exact h

theorem tiles_nil (hs : source = before ++ gap) (h : Text.Filler (!keepComments) [] gap) :
    Tiles keepComments source before.length [] gap := by
  rw [← List.append_nil (before ++ gap)] at hs
  subst hs
  have hgap := isGap_append before h
  have hslice := Text.slice_append before gap []
  rw [← List.append_nil (before ++ gap)] at hgap hslice
  constructor
  · simpa [Text.gaps] using hgap
  · simpa [Text.gaps, Text.interleave] using hslice

/-- A gap and a token stand in front of what is tiled. -/
theorem Tiles.cons {t : Token} {ts : List Token}
    (h : Tiles keepComments source (before ++ gap ++ t.raw).length ts behind)
    (hs : source = before ++ gap ++ (t.raw ++ behind))
    (hgap : Text.Filler (!keepComments) (t.raw ++ behind) gap)
    (hstart : t.span.start = Position.origin.after (before ++ gap))
    (hstop : t.span.stop = Position.origin.after (before ++ gap ++ t.raw)) :
    Tiles keepComments source before.length (t :: ts) (gap ++ (t.raw ++ behind)) := by
  have hfirst := isGap_append before hgap
  have hslice := Text.slice_append before gap (t.raw ++ behind)
  rw [← hs] at hfirst hslice
  have hgaps : source.gaps before.length (t :: ts) =
      (↑before.length, ↑(before ++ gap).length) ::
        source.gaps (before ++ gap ++ t.raw).length ts := by
    simp [Text.gaps, hstart, hstop, Position.origin]
  constructor
  · rw [hgaps, List.forall_mem_cons]
    exact ⟨hfirst, h.isGap⟩
  · rw [hgaps, List.map_cons, List.map_cons, Text.interleave, hslice, h.interleave_eq]

/-- Lexemes behind a gap tile what they are cut from: those that are no tokens extend the gap, and
the others end it. -/
theorem tiles_lexemes (keepComments : Bool) (source before gap t : Text)
    (hs : source = before ++ gap ++ t) (hgap : Text.Filler (!keepComments) t gap) :
    Tiles keepComments source before.length
      ((t.lexemes (Position.origin.after (before ++ gap))).filterMap (·.token? keepComments) ++
        [.endAt (Position.origin.after source)]) (gap ++ t) := by
  match t with
  | [] =>
    have hend : Tiles keepComments source (before ++ gap ++ []).length [] [] :=
      tiles_nil (by simpa using hs) .nil
    rw [Text.lexemes_nil]
    refine hend.cons (t := .endAt (Position.origin.after source)) hs hgap ?_ ?_
    · simp [Token.endAt, Span.point, hs]
    · simp [Token.endAt, Span.point, hs]
  | c :: t =>
    have happend := Lexeme.scan_append c t
    have hpass := Lexeme.scan_passable c t
    have hmore := Lexeme.scan_length_lt c t
    rw [Text.lexemes_cons, ← Position.after_append]
    cases htoken : Placed.token? keepComments
        ⟨Position.origin.after (before ++ gap), (Lexeme.scan c t).1⟩ with
    | none =>
      -- a line comment in the gap so far is judged by what follows it, also behind this lexeme
      have hskip := hpass.filler htoken
      rw [List.filterMap_cons_none htoken]
      rw [← happend] at hs hgap ⊢
      rw [← List.append_assoc] at hs ⊢
      rw [List.append_assoc before] at hs ⊢
      exact tiles_lexemes keepComments source before _ _ hs (hgap.append hskip)
    | some token =>
      have hraw : token.raw = (Lexeme.scan c t).1.raw := Lexeme.token?_raw htoken
      have hspan := Lexeme.token?_span htoken
      rw [List.filterMap_cons_some htoken, List.cons_append]
      rw [← happend, ← hraw] at hs hgap ⊢
      have h := tiles_lexemes keepComments source (before ++ gap ++ token.raw) []
        (Lexeme.scan c t).2 (by rw [hs]; simp) .nil
      rw [List.append_nil] at h
      refine h.cons hs hgap ?_ ?_
      · rw [hspan]
        rfl
      · rw [hspan, Position.after_append (s := before ++ gap), hraw]
        rfl
  termination_by t.length
  decreasing_by all_goals exact hmore

end Tiles

/-- How the tokens `words` and `last` lie in a source. -/
structure Tiling (keepComments : Bool) (source : Text) (words : List Token) (last : Token) :
    Prop where
  apart : (words ++ [last]).Pairwise fun t u => t.span.stop.offset ≤ u.span.start.offset
  wide : ∀ t ∈ words, t.span.start.offset < t.span.stop.offset
  kind_ne : ∀ t ∈ words, t.kind ≠ .endOfInput
  last_kind : last.kind = .endOfInput
  last_span : last.span.start.offset = source.length ∧ last.span.stop.offset = source.length
  inside : ∀ t ∈ words ++ [last], 0 ≤ t.span.start.offset ∧ t.span.stop.offset ≤ source.length
  raw_eq : ∀ t ∈ words ++ [last],
    t.raw = source.slice t.span.start.offset t.span.stop.offset
  tiles : Tiles keepComments source 0 (words ++ [last]) source
  blank : keepComments → ∀ g ∈ source.gaps 0 (words ++ [last]),
    ∀ c ∈ source.slice g.1 g.2, c.isBlank

namespace Text

theorem tiling_words (config : Config) (source : Text) :
    Tiling config.keepComments source (source.words config)
      (.endAt (Position.origin.after source)) where
  apart := by
    have horder := source.words_inOrder config
    rw [List.pairwise_append]
    refine ⟨horder.apart, List.pairwise_singleton _ _, ?_⟩
    intro t ht u hu
    rw [List.mem_singleton.1 hu]
    exact horder.stop_le t ht
  wide := (source.words_inOrder config).wide
  kind_ne t ht := words_kind_ne_endOfInput ht
  last_kind := rfl
  last_span := by simp [Token.endAt, Span.point, Position.origin]
  inside t ht := by
    obtain ⟨u, v, hs, hstart, hstop⟩ := tokens_around (tokenStream_tokens config source ▸ ht)
    have hlength := congrArg List.length hs
    rw [List.length_append] at hlength
    rw [hstart, hstop, Position.after_offset, Position.after_offset]
    simp only [Position.origin]
    omega
  raw_eq t ht := by
    obtain ⟨u, v, hs, hstart, hstop⟩ := tokens_around (tokenStream_tokens config source ▸ ht)
    have hslice := slice_append u t.raw v
    rw [← hs] at hslice
    simpa [hstart, hstop, Position.origin] using hslice.symm
  tiles := tiles_lexemes config.keepComments source [] [] source rfl .nil
  blank hkeep g hg := by
    have hfiller :=
      ((tiles_lexemes config.keepComments source [] [] source rfl .nil).isGap g hg).filler
    rw [hkeep] at hfiller
    exact hfiller.blanks

/-- The tokens of a source tile it, and each step of the loop that cuts it cuts something off. -/
theorem tokenStream_tiling (config : Config) (source : Text) :
    (∃ words last, (source.tokenStream config).tokens = words ++ [last] ∧
        Tiling config.keepComments source words last) ∧
      ∀ c t, (Lexeme.scan c t).1.raw ≠ [] ∧
        (Lexeme.scan c t).1.raw ++ (Lexeme.scan c t).2 = c :: t :=
  ⟨⟨_, _, source.tokenStream_tokens config, source.tiling_words config⟩,
    fun c t => ⟨Lexeme.scan_raw_ne_nil c t, Lexeme.scan_append c t⟩⟩

/-- A block comment does not end with the star that starts it. -/
example :
    let source : Text := "a /*/*/b"
    source.gaps 0 (source.tokenStream (.make false 1)).tokens = [(0, 0), (1, 7), (8, 8), (8, 8)] := by
  decide +kernel

end Text

end LenSyntax
