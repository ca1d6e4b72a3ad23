import LenSyntax.Proofs.Json.Reading

/-! Documents are read back from their texts. -/
namespace LenSyntax.Json

section Blanks

theorem skip_spaces (n : Nat) (t : Text) : skip (Text.spaces n ++ t) = skip t := by
  refine List.dropWhile_append_of_pos fun c hc => ?_
  rw [(List.mem_replicate.1 hc).2]
  rfl

@[simp] theorem skip_newline (level : Nat) (t : Text) : skip (newline level ++ t) = skip t :=
  skip_spaces (2 * level) t

theorem skip_blank {c : CodePoint} (hc : isBlank c) (t : Text) : skip (c :: t) = skip t :=
  List.dropWhile_cons_of_pos hc

theorem skip_cons {c : CodePoint} (hc : isBlank c = false) (t : Text) : skip (c :: t) = c :: t :=
  List.dropWhile_cons_of_neg (by simp [hc])

end Blanks

section Strings

theorem units_closing (t : Text) : units (CodePoint.ofChar '"' :: t) = some ([], t) := by
  rw [units.eq_def]
  exact if_pos rfl

theorem units_plain {c : CodePoint} (hquote : c ≠ CodePoint.ofChar '"')
    (hslash : c ≠ CodePoint.ofChar '\\') (hc : 0x20 ≤ c.val) (t : Text) :
    units (c :: t) = (units t).map fun r => (c.units16 ++ r.1, r.2) := by
  rw [units.eq_def]
  simp only
  rw [if_neg hquote, if_neg hslash, if_neg (Nat.not_lt.2 hc)]

/-- An escape by letter. -/
theorem units_letter {letter c : CodePoint} (h : escapes.lookup letter = some c) (t : Text) :
    units (CodePoint.ofChar '\\' :: letter :: t) =
      (units t).map fun r => (c.units16 ++ r.1, r.2) := by
  have hletter : letter ≠ CodePoint.ofChar 'u' := by
    rintro rfl
    cases h
  rw [units.eq_def]
  simp only
  rw [if_neg (by decide), if_pos trivial, if_neg hletter, h]

/-- An escape by number is one unit. -/
theorem units_hex {n : Nat} (hn : n < 0x10000) (t : Text) :
    units ("\\u" ++ Text.hex 4 n ++ t) = (units t).map fun r => (n :: r.1, r.2) := by
  have hdigit (n : Nat) : (CodePoint.hexDigit (n % 16)).isHexDigit = true := by
    rw [CodePoint.isHexDigit, CodePoint.hexValue?_hexDigit (Nat.mod_lt n (by decide))]
    rfl
  have hfour : Text.hex 4 n = [CodePoint.hexDigit (n / 16 / 16 / 16 % 16),
      CodePoint.hexDigit (n / 16 / 16 % 16), CodePoint.hexDigit (n / 16 % 16),
      CodePoint.hexDigit (n % 16)] := rfl
  have hnumber : Text.hexNumber (Text.hex 4 n) = n := Text.hexNumber_hex hn
  have hunfold : (Text.ofString "\\u" ++ Text.hex 4 n ++ t : Text) =
      CodePoint.ofChar '\\' :: CodePoint.ofChar 'u' :: (Text.hex 4 n ++ t) := rfl
  rw [hunfold, units.eq_def]
  rw [hfour] at hnumber ⊢
  simp only [List.cons_append, List.nil_append]
  rw [if_neg (by decide), if_pos trivial, if_pos trivial, if_pos (by simp [hdigit]), hnumber]

theorem units_hexes {us : List Nat} (hu : ∀ u ∈ us, u < 0x10000) (t : Text) :
    units ((us.flatMap fun unit => Text.ofString "\\u" ++ Text.hex 4 unit) ++ t) =
      (units t).map fun r => (us ++ r.1, r.2) := by
  induction us with
  | nil => simp
  | cons u us ih =>
    rw [List.forall_mem_cons] at hu
    rw [List.flatMap_cons, List.append_assoc, units_hex hu.1, ih hu.2, Option.map_map]
    rfl

theorem units16_lt (c : CodePoint) : ∀ u ∈ c.units16, u < 0x10000 := by
  have hc := c.isLt
  unfold CodePoint.units16
  split
  · simpa
  · simp only [List.mem_cons, List.not_mem_nil, or_false, forall_eq_or_imp, forall_eq]
    omega

/-- An escape stands for the units of its code point. -/
theorem units_escape (c : CodePoint) (t : Text) :
    units (escape c ++ t) = (units t).map fun r => (c.units16 ++ r.1, r.2) := by
  unfold escape
  split
  · next h => subst h; exact units_letter rfl t
  split
  · next h => subst h; exact units_letter rfl t
  split
  · next h => subst h; exact units_letter rfl t
  split
  · next h => subst h; exact units_letter rfl t
  split
  · next h => subst h; exact units_letter rfl t
  split
  · next h => subst h; exact units_letter rfl t
  split
  · next h => subst h; exact units_letter rfl t
  split
  · next hquote hslash _ _ _ _ _ h =>
    exact units_plain hquote hslash h.1 t
  · exact units_hexes (units16_lt c) t

theorem units_quote (s t : Text) :
    units (s.flatMap escape ++ "\"" ++ t) = some (s.flatMap CodePoint.units16, t) := by
  induction s with
  | nil => exact units_closing t
  | cons c s ih =>
    rw [List.flatMap_cons, List.append_assoc, List.append_assoc, units_escape, ← List.append_assoc,
      ih]
    rfl

/-- A string is read back. -/
theorem string?_quote {s : Text} (hs : s.Unpaired) (t : Text) :
    string? (s.flatMap escape ++ "\"" ++ t) = some (s, t) := by
  rw [string?, units_quote, Option.map_some, Text.ofUnits16_units16 hs]

end Strings

section Numbers

theorem natural_ofNat (n : Nat) : Number.natural (Text.ofNat n) = n := by
  have hdigits := Nat.ofDigitChars_toDigits (n := n) (by decide : 1 < 10) (Nat.le_refl _)
  rw [Number.natural, Text.ofNat, List.foldl_map]
  exact hdigits

/-- No number but zero is written with a zero in front. -/
theorem length_ofNat_of_zero {n : Nat} (h : (Text.ofNat n).head? = some (CodePoint.ofChar '0')) :
    (Text.ofNat n).length = 1 := by
  have hdigits : (Text.ofNat n).all CodePoint.isDigit :=
    List.all_eq_true.2 fun _ => Text.isDigit_of_mem_ofNat
  have hcanonical := Number.canonical_digits hdigits
  rw [natural_ofNat, Number.canonical, if_pos hdigits] at hcanonical
  split at hcanonical
  · rw [← hcanonical]
    rfl
  · have hhead := List.head?_dropWhile_not (· = CodePoint.ofChar '0') (Text.ofNat n)
    rw [hcanonical, h] at hhead
    simp at hhead

theorem natural?_ofNat (n : Nat) {t : Text} (ht : t.EndsRun continuesNumber) :
    natural? (Text.ofNat n ++ t) = some (n, t) := by
  have hends : t.EndsRun CodePoint.isDigit := by
    intro c hc
    have hnot := ht c hc
    simp only [continuesNumber, Bool.or_eq_false_iff] at hnot
    exact hnot.1.1.1
  have hsplit := Text.splitWhile_append_eq_iff.2
    ⟨fun c hc => Text.isDigit_of_mem_ofNat (n := n) hc, hends⟩
  obtain ⟨c, digits, hcons, -⟩ := Text.exists_ofNat_cons n
  have hzero : ¬ ((Text.ofNat n).head? = some (CodePoint.ofChar '0') ∧
      1 < (Text.ofNat n).length) := by
    rintro ⟨hhead, hlength⟩
    rw [length_ofNat_of_zero hhead] at hlength
    exact absurd hlength (by decide)
  rw [natural?, hsplit]
  simp only
  rw [if_neg, natural_ofNat]
  rw [not_or, not_or, Bool.not_eq_true, ← Text.endsRun_iff_any_eq_false]
  exact ⟨by simp [hcons], hzero, ht⟩

theorem integer?_ofInt (n : Int) {t : Text} (ht : t.EndsRun continuesNumber) :
    integer? (Text.ofInt n ++ t) = some (n, t) := by
  cases n with
  | ofNat n =>
    obtain ⟨c, digits, hcons, hc⟩ := Text.exists_ofNat_cons n
    have hminus : c ≠ CodePoint.ofChar '-' := by
      rintro rfl
      exact absurd hc (by decide)
    have hread := natural?_ofNat n ht
    rw [Text.ofInt, hcons, List.cons_append, integer?, if_neg hminus, ← List.cons_append, ← hcons,
      hread]
    rfl
  | negSucc n =>
    have hread := natural?_ofNat (n + 1) ht
    have hminus : integer? (Text.ofInt (.negSucc n) ++ t) =
        (natural? (Text.ofNat (n + 1) ++ t)).map fun r => (-(r.1 : Int), r.2) := rfl
    rw [hminus, hread]
    rfl

end Numbers

section Parts

theorem value?_congr {t u : Text} (h : skip t = skip u) (depth : Nat) :
    value? depth t = value? depth u := by
  cases depth with
  | zero => rfl
  | succ depth => rw [value?, value?, h]

theorem member?_congr {value : Text → Option (Json × Text)} {t u : Text} (h : skip t = skip u) :
    member? value t = member? value u := by rw [member?, member?, h]

/-- A new line ends a number. -/
theorem endsRun_newline (level : Nat) (t : Text) :
    (newline level ++ t).EndsRun continuesNumber := by
  rintro c ⟨⟩
  rfl

variable {α : Type} {item : Text → Option (α × Text)} {write : α → Text} {closing : CodePoint}
  {level : Nat} {items : List α}

/-- What is written of `a` is read back as `a`, whatever stands behind it that does not go on with a
number. -/
def ReadsBack (item : Text → Option (α × Text)) (write : α → Text) (a : α) : Prop :=
  ∀ t : Text, t.EndsRun continuesNumber → item (write a ++ t) = some (a, t)

theorem separated_newline (hskip : ∀ t, item (newline level ++ t) = item t) (bound : Nat)
    (t : Text) : separated item closing bound (newline level ++ t) =
      separated item closing bound t := by
  cases bound with
  | zero => rfl
  | succ bound => rw [separated, separated, hskip]

/-- If the items are read back one by one, then they are read back from a row of them. -/
theorem separated_joinWith (hclosing : isBlank closing = false)
    (hcomma : closing ≠ CodePoint.ofChar ',') (hskip : ∀ t, item (newline level ++ t) = item t)
    (hread : ∀ a ∈ items, ReadsBack item write a) (hne : items ≠ []) {bound : Nat}
    (hbound : items.length ≤ bound) (outer : Nat) (rest : Text) :
    separated item closing bound (Text.joinWith ("," ++ newline level) (items.map write) ++
      (newline outer ++ closing :: rest)) = some (items, rest) := by
  induction items generalizing bound with
  | nil => exact absurd rfl hne
  | cons a items ih =>
    rw [List.forall_mem_cons] at hread
    obtain ⟨bound, rfl⟩ := Nat.exists_eq_add_of_le' (Nat.le_trans (Nat.le_add_left 1 _) hbound)
    cases items with
    | nil =>
      rw [List.map_singleton, Text.joinWith, separated, hread.1 _ (endsRun_newline outer _)]
      simp only [Option.bind_eq_bind, Option.bind_some]
      rw [skip_newline, skip_cons hclosing]
      exact if_pos rfl
    | cons b items =>
      have hmore := ih hread.2 (List.cons_ne_nil b items) (Nat.le_of_succ_le_succ hbound)
      have hrow : Text.joinWith ("," ++ newline level) ((a :: b :: items).map write) ++
          (newline outer ++ closing :: rest) = write a ++ (CodePoint.ofChar ',' ::
            (newline level ++ (Text.joinWith ("," ++ newline level) ((b :: items).map write) ++
              (newline outer ++ closing :: rest)))) := by
        simp [Text.joinWith, Text.ofString]
      have hends (t : Text) : Text.EndsRun continuesNumber (CodePoint.ofChar ',' :: t) := by
        rintro c ⟨⟩
        rfl
      rw [hrow, separated, hread.1 _ (hends _)]
      simp only [Option.bind_eq_bind, Option.bind_some]
      rw [skip_cons rfl]
      simp only
      rw [if_neg (Ne.symm hcomma), if_pos trivial, separated_newline hskip, hmore]
      rfl

theorem length_le_joinWith (separator : Text) {t : Text} {ts : List Text} (h : t ∈ ts) :
    t.length ≤ (Text.joinWith separator ts).length := by
  induction ts with
  | nil => cases h
  | cons u ts ih =>
    cases ts with
    | nil => rw [List.mem_singleton.1 h, Text.joinWith]
    | cons v ts =>
      rw [Text.joinWith, List.length_append, List.length_append]
      obtain rfl | h := List.mem_cons.1 h
      · omega
      · have hle := ih h
        omega

/-- There are not more texts in a row than there are code points, with one behind the last. -/
theorem length_le_length_joinWith (separator : Text) (hs : separator ≠ []) (ts : List Text) :
    ts.length ≤ (Text.joinWith separator ts).length + 1 := by
  have hpos := List.length_pos_iff.2 hs
  induction ts with
  | nil => exact Nat.zero_le _
  | cons t ts ih =>
    cases ts with
    | nil => simp
    | cons u ts =>
      rw [Text.joinWith, List.length_append, List.length_append]
      simp only [List.length_cons] at ih ⊢
      omega

/-- What stands between brackets is shorter than all that they hold. -/
theorem length_lt_enclose (level : Nat) (opening closing : CodePoint) {t : Text} {ts : List Text}
    (h : t ∈ ts) :
    t.length < (enclose level [opening] [closing] ts).length := by
  have hle := length_le_joinWith ("," ++ newline (level + 1)) h
  rw [enclose, if_neg (List.ne_nil_of_mem h)]
  simp only [List.length_append, List.length_singleton]
  omega

/-- If the items are read back one by one, then they are read back from between brackets. -/
theorem enclosed?_enclose (write : α → Text) (level : Nat) (opening closing : CodePoint)
    (hclosing : isBlank closing = false) (hcomma : closing ≠ CodePoint.ofChar ',')
    (hskip : ∀ t, item (newline (level + 1) ++ t) = item t)
    (hopens : ∀ a ∈ items, ∃ c w, write a = c :: w ∧ isBlank c = false ∧ c ≠ closing)
    (hread : ∀ a ∈ items, ReadsBack item write a) (rest : Text) :
    ∃ body, enclose level [opening] [closing] (items.map write) ++ rest = opening :: body ∧
      enclosed? item closing body = some (items, rest) := by
  cases items with
  | nil =>
    refine ⟨closing :: rest, rfl, ?_⟩
    rw [enclosed?, skip_cons hclosing]
    exact if_pos rfl
  | cons a items =>
    obtain ⟨c, w, hwrite, hc, hne⟩ := hopens a List.mem_cons_self
    refine ⟨newline (level + 1) ++ (Text.joinWith ("," ++ newline (level + 1))
      ((a :: items).map write) ++ (newline level ++ closing :: rest)), ?_, ?_⟩
    · simp [enclose]
    · have hrow : ∃ u, Text.joinWith ("," ++ newline (level + 1)) ((a :: items).map write) ++
          (newline level ++ closing :: rest) = c :: u := by
        cases items <;> simp [Text.joinWith, hwrite]
      obtain ⟨u, hu⟩ := hrow
      have hlength : (a :: items).length ≤ (newline (level + 1) ++
          (Text.joinWith ("," ++ newline (level + 1)) ((a :: items).map write) ++
            (newline level ++ closing :: rest))).length := by
        have hle := length_le_length_joinWith ("," ++ newline (level + 1))
          (List.cons_ne_nil _ _) ((a :: items).map write)
        rw [List.length_map] at hle
        simp only [List.length_append, List.length_cons] at hle ⊢
        omega
      have hitems := separated_joinWith hclosing hcomma hskip hread (List.cons_ne_nil a items)
        hlength level rest
      rw [← separated_newline hskip] at hitems
      rw [enclosed?, skip_newline, hu, skip_cons hc]
      simp only
      rw [if_neg hne, ← hu, hitems]

end Parts

/-- No string of a document has two code points that look like one in UTF-16. -/
inductive Unpaired : Json → Prop
  | number (n : Int) : Unpaired (.number n)
  | string {t : Text} (ht : t.Unpaired) : Unpaired (.string t)
  | array {items : List Json} (hitems : ∀ j ∈ items, Unpaired j) : Unpaired (.array items)
  | object {entries : List (Text × Json)} (hnames : ∀ e ∈ entries, e.1.Unpaired)
      (hvalues : ∀ e ∈ entries, Unpaired e.2) : Unpaired (.object entries)

namespace Unpaired
variable {entries : List (Text × Json)}

theorem empty : Unpaired (.object []) := .object (List.forall_mem_nil _) (List.forall_mem_nil _)

theorem insert {name : Text} {value : Json} (hname : name.Unpaired) (hvalue : value.Unpaired)
    (h : Unpaired (.object entries)) : Unpaired (.object ((name, value) :: entries)) := by
  cases h with
  | object hnames hvalues =>
    exact .object (List.forall_mem_cons.2 ⟨hname, hnames⟩)
      (List.forall_mem_cons.2 ⟨hvalue, hvalues⟩)

theorem filter (h : Unpaired (.object entries)) (p : Text × Json → Bool) :
    Unpaired (.object (entries.filter p)) := by
  cases h with
  | object hnames hvalues =>
    exact .object (fun e he => hnames e (List.mem_of_mem_filter he))
      fun e he => hvalues e (List.mem_of_mem_filter he)

end Unpaired

section Documents

theorem renderItems_eq (level : Nat) (items : List Json) :
    renderItems level items = items.map (render level) := by
  induction items with
  | nil => rfl
  | cons j items ih => rw [renderItems, ih, List.map_cons]

/-- The text of a member. -/
def renderMember (level : Nat) (e : Text × Json) : Text := quote e.1 ++ ": " ++ render level e.2

theorem renderEntries_eq (level : Nat) (entries : List (Text × Json)) :
    renderEntries level entries = entries.map (renderMember level) := by
  induction entries with
  | nil => rfl
  | cons e entries ih => rw [renderEntries, ih, List.map_cons, renderMember]

/-- What an integer starts with. -/
def startsNumber (c : CodePoint) : Bool := c.isDigit || c = '-'

theorem isBlank_of_startsNumber {c : CodePoint} (h : startsNumber c) : isBlank c = false := by
  have hother {d : CodePoint} (hd : startsNumber d = false) : c ≠ d := by
    rintro rfl
    exact absurd (h.symm.trans hd) (by decide)
  simp only [isBlank, Bool.or_eq_false_iff, decide_eq_false_iff_not]
  exact ⟨⟨⟨hother rfl, hother rfl⟩, hother rfl⟩, hother rfl⟩

theorem exists_ofInt_cons (n : Int) : ∃ c t, Text.ofInt n = c :: t ∧ startsNumber c := by
  cases n with
  | ofNat n =>
    obtain ⟨c, t, hcons, hc⟩ := Text.exists_ofNat_cons n
    exact ⟨c, t, hcons, by simp [startsNumber, hc]⟩
  | negSucc n => exact ⟨_, _, rfl, rfl⟩

/-- A document starts with what is no blank and no closing bracket. -/
theorem exists_render_cons (level : Nat) (j : Json) : ∃ c t, render level j = c :: t ∧
    isBlank c = false ∧ c ≠ CodePoint.ofChar ']' := by
  have henclose (opening closing : CodePoint) (ts : List Text) :
      ∃ t, enclose level [opening] [closing] ts = opening :: t := by
    unfold enclose
    split <;> exact ⟨_, rfl⟩
  cases j with
  | number n =>
    obtain ⟨c, t, hcons, hc⟩ := exists_ofInt_cons n
    refine ⟨c, t, hcons, isBlank_of_startsNumber hc, ?_⟩
    rintro rfl
    exact absurd hc (by decide)
  | string t => exact ⟨_, _, rfl, rfl, by decide⟩
  | array items =>
    obtain ⟨t, ht⟩ := henclose '[' ']' (renderItems (level + 1) items)
    exact ⟨_, t, ht, rfl, by decide⟩
  | object entries =>
    obtain ⟨t, ht⟩ := henclose '\x7b' '\x7d' (renderEntries (level + 1) entries)
    exact ⟨_, t, ht, rfl, by decide⟩

/-- A member is read back if its value is. -/
theorem readsBack_member {value : Text → Option (Json × Text)} {level : Nat} {e : Text × Json}
    (hblank : ∀ t, value (CodePoint.ofChar ' ' :: t) = value t) (hname : e.1.Unpaired)
    (hvalue : ReadsBack value (render level) e.2) :
    ReadsBack (member? value) (renderMember level) e := by
  intro t ht
  have hmember : renderMember level e ++ t = CodePoint.ofChar '"' :: (e.1.flatMap escape ++ "\"" ++
      (CodePoint.ofChar ':' :: CodePoint.ofChar ' ' :: (render level e.2 ++ t))) := by
    simp [renderMember, quote, Text.ofString]
  rw [hmember, member?, skip_cons rfl]
  simp only
  rw [if_pos trivial, string?_quote hname]
  simp only [Option.bind_eq_bind, Option.bind_some]
  rw [skip_cons rfl]
  simp only
  rw [if_pos trivial, hblank, hvalue t ht]
  rfl

section Cases
variable {depth level : Nat}

theorem readsBack_number (n : Int) :
    ReadsBack (value? (depth + 1)) (render level) (.number n) := by
  intro t ht
  obtain ⟨c, w, hcons, hc⟩ := exists_ofInt_cons n
  have hother {d : CodePoint} (hd : ¬ startsNumber d) : c ≠ d := fun h => hd (h ▸ hc)
  have hread := integer?_ofInt n ht
  rw [hcons, List.cons_append] at hread
  rw [render, hcons, List.cons_append, value?, skip_cons (isBlank_of_startsNumber hc)]
  simp only
  rw [if_neg (hother (by decide)), if_neg (hother (by decide)), if_neg (hother (by decide)), hread]
  rfl

theorem readsBack_string {s : Text} (hs : s.Unpaired) :
    ReadsBack (value? (depth + 1)) (render level) (.string s) := by
  intro t _
  have hquote : render level (.string s) ++ t =
      CodePoint.ofChar '"' :: (s.flatMap escape ++ "\"" ++ t) := rfl
  rw [hquote, value?, skip_cons rfl]
  simp only
  rw [if_pos trivial, string?_quote hs]
  rfl

theorem render_array (level : Nat) (items : List Json) : render level (.array items) =
    enclose level ['['] [']'] (items.map (render (level + 1))) := by
  rw [render, renderItems_eq]
  rfl

theorem readsBack_array {items : List Json}
    (hread : ∀ j ∈ items, ReadsBack (value? depth) (render (level + 1)) j) :
    ReadsBack (value? (depth + 1)) (render level) (.array items) := by
  intro t _
  obtain ⟨body, hbody, hitems⟩ := enclosed?_enclose (render (level + 1)) level '[' ']' rfl
    (by decide) (fun t => value?_congr (skip_newline _ t) depth)
    (fun j _ => exists_render_cons (level + 1) j) hread t
  rw [render_array, hbody, value?, skip_cons rfl]
  simp only
  rw [if_neg (by decide), if_pos trivial, hitems]
  rfl

theorem render_object (level : Nat) (entries : List (Text × Json)) :
    render level (.object entries) =
      enclose level ['\x7b'] ['\x7d'] (entries.map (renderMember (level + 1))) := by
  rw [render, renderEntries_eq]
  rfl

theorem readsBack_object {entries : List (Text × Json)}
    (hread : ∀ e ∈ entries, ReadsBack (member? (value? depth)) (renderMember (level + 1)) e) :
    ReadsBack (value? (depth + 1)) (render level) (.object entries) := by
  intro t _
  obtain ⟨body, hbody, hentries⟩ := enclosed?_enclose (renderMember (level + 1)) level '\x7b'
    '\x7d' rfl (by decide) (fun t => member?_congr (skip_newline _ t))
    (fun e _ => ⟨_, _, rfl, rfl, by decide⟩) hread t
  rw [render_object, hbody, value?, skip_cons rfl]
  simp only
  rw [if_neg (by decide), if_neg (by decide), if_pos trivial, hentries]
  rfl

end Cases

section Lengths
variable (level : Nat)

theorem length_lt_render_array {j : Json} {items : List Json} (hj : j ∈ items) :
    (render (level + 1) j).length < (render level (.array items)).length := by
  rw [render_array]
  exact length_lt_enclose level '[' ']' (List.mem_map_of_mem hj)

theorem length_lt_render_object {e : Text × Json} {entries : List (Text × Json)}
    (he : e ∈ entries) :
    (render (level + 1) e.2).length < (render level (.object entries)).length := by
  have hlt := length_lt_enclose level '\x7b' '\x7d'
    (List.mem_map_of_mem (f := renderMember (level + 1)) he)
  rw [render_object]
  rw [renderMember, List.length_append] at hlt
  omega

theorem exists_depth {j : Json} {depth : Nat} (h : (render level j).length ≤ depth) :
    ∃ less, depth = less + 1 := by
  obtain ⟨c, t, hcons, -⟩ := exists_render_cons level j
  rw [hcons, List.length_cons] at h
  exact Nat.exists_eq_add_of_le' (Nat.le_trans (Nat.le_add_left 1 _) h)

end Lengths

/-- A document is read back, if the reader goes as deep as its text is long. -/
theorem readsBack_render {j : Json} (h : j.Unpaired) {level depth : Nat}
    (hdepth : (render level j).length ≤ depth) : ReadsBack (value? depth) (render level) j := by
  induction h generalizing level depth with
  | number n =>
    obtain ⟨depth, rfl⟩ := exists_depth level hdepth
    exact readsBack_number n
  | string hs =>
    obtain ⟨depth, rfl⟩ := exists_depth level hdepth
    exact readsBack_string hs
  | array hitems ih =>
    obtain ⟨depth, rfl⟩ := exists_depth level hdepth
    refine readsBack_array fun j hj => ih j hj ?_
    have hlt := length_lt_render_array level hj
    omega
  | object hnames hvalues ih =>
    obtain ⟨depth, rfl⟩ := exists_depth level hdepth
    refine readsBack_object fun e he => readsBack_member
      (fun t => value?_congr (skip_blank rfl t) depth) (hnames e he) (ih e he ?_)
    have hlt := length_lt_render_object level he
    omega

/-- The text of a document, on lines of its own, holds that document. -/
theorem read?_text {j : Json} (h : j.Unpaired) : read? (j.text ++ "\n") = some j := by
  have hdepth : (render 0 j).length ≤ (j.text ++ "\n").length := by
    rw [text, List.length_append]
    omega
  have hread : value? (j.text ++ "\n").length (j.text ++ "\n") = some (j, Text.ofString "\n") :=
    readsBack_render h hdepth "\n" (endsRun_newline 0 [])
  rw [read?, hread]
  rfl

end Documents

end LenSyntax.Json
