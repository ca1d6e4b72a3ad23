import LenSyntax.Proofs.Grammar.Acceptance
import LenSyntax.Proofs.Grammar.Printing
import LenSyntax.Proofs.Grammar.Shape

/-! Parsing undoes printing: a grammatical tree that is printed and parsed comes back, unless its
expressions are nested too deeply. -/
namespace LenSyntax

open SyntaxTree

/-- No mark between a name and what it stands for comes next. -/
def Unmarked (ts : List Token) : Prop :=
  ∀ k ∈ headKind? ts, k ∉ [TokenKind.arrow, .bind, .colon]

theorem Stops.unmarked {ts : List Token} (h : Stops ts) : Unmarked ts := by
  intro k hk
  have hmem := h k hk
  cases k <;> simp at hmem ⊢

theorem unmarked_of_startsOperand {ts : List Token} (h : startsOperand ts) : Unmarked ts := by
  intro k hk
  rw [startsOperand, Option.mem_def.1 hk] at h
  cases k <;> simp [TokenKind.startsOperand] at h ⊢

theorem unmarked_symbol {t : Token} (ht : t.kind = .symbol) (ts : List Token) :
    Unmarked (t :: ts) := by
  simp [Unmarked, ht]

theorem startsOperand_symbol {t : Token} (ht : t.kind = .symbol) (ts : List Token) :
    ¬ startsOperand (t :: ts) := by
  simp [startsOperand_cons, ht, TokenKind.startsOperand]

theorem lowestPrecedence_le_lookup {text : Text} {operator : BinaryOperator}
    (h : binaryOperators.lookup text = some operator) :
    lowestPrecedence ≤ operator.precedence :=
  lowestPrecedence_le (t := ⟨.symbol, text, text, default⟩)
    (by simpa [Token.binaryOperator?] using h)

theorem BinaryOperator.precedence_le_rightLeast (o : BinaryOperator) :
    o.precedence ≤ o.rightLeast := by
  unfold rightLeast
  split <;> omega

theorem BinaryOperator.precedence_le_leftLeast (o : BinaryOperator) :
    o.precedence ≤ o.leftLeast := by
  unfold leftLeast
  split <;> omega

/-- Where no expression goes on, anything may end. -/
theorem Ends.follows {rest : List Token} (h : Ends rest) (t : SyntaxTree) : Follows t rest where
  lambda _ := h
  operator o ho := h.2.mono (Nat.le_trans (lowestPrecedence_le_lookup (lookup_of_operator? ho))
    o.precedence_le_rightLeast)

/-- What follows an operation follows its last operand. -/
theorem Follows.last {kind : NodeKind} {text : Text} {span : Span} {children : List SyntaxTree}
    {c : SyntaxTree} {rest : List Token} (h : Follows (node kind text span children) rest)
    (hk : kind.isOperation) (hc : c ∈ children)
    (ho : ∀ o ∈ c.operator?, NoOperator o.rightLeast rest) : Follows c rest :=
  ⟨fun hl => h.lambda (exposesLambda_node.2 (.inr ⟨hk, c, hc, hl⟩)), ho⟩

/-- The part as which an expression is read first. -/
def SyntaxTree.part (least : Nat) (t : SyntaxTree) : Part :=
  match t.kind with
  | .binary => .operations least
  | .unary => .unary
  | .call => .calls
  | _ => .operand

/-- Nothing wrong has been read, and nothing is left in front of `rest`. -/
def Parsed.Completes (p : Parsed SyntaxTree) (rest : List Token) : Prop :=
  Diagnostics.hasErrors p.diagnostics = false ∧ p.rest = rest

/-- The parser reads a tree, up to where its nodes stand, and stops in front of `rest`. -/
def Parsed.Gives (p : Parsed SyntaxTree) (t : SyntaxTree) (rest : List Token) : Prop :=
  p.value.unplaced = t.unplaced ∧ p.Completes rest

section Climb
variable {depth least : Nat} {s : Surroundings} {t : SyntaxTree} {ts rest : List Token}
  {p : Parsed SyntaxTree}

/-- Calls without an error start with an operand. -/
theorem Parses.startsOperand_of_calls (h : Parses depth s .calls ts p)
    (hp : Diagnostics.hasErrors p.diagnostics = false) : startsOperand ts := by
  obtain ⟨w, rfl, hw⟩ := h.derives hp
  exact Spells.startsOperand hw.spells p.rest

theorem Parses.calls_of_part (h : Parses depth s (t.part least) ts p)
    (hk : t.kind ∉ [NodeKind.unary, .binary]) : Parses depth s .calls ts p := by
  unfold SyntaxTree.part at h
  split at h
  · next hb => simp [hb] at hk
  · next hu => simp [hu] at hk
  · exact h
  · exact .function h

theorem Parses.unary_of_part (h : Parses depth s (t.part least) ts p) (hk : t.kind ≠ .binary)
    (hp : Diagnostics.hasErrors p.diagnostics = false) (ho : ¬ startsOperand p.rest) :
    Parses depth s .unary ts p := by
  by_cases hu : t.kind = .unary
  · simpa [SyntaxTree.part, hu] using h
  · have hcalls := h.calls_of_part (by simp [hk, hu])
    have hstart := hcalls.startsOperand_of_calls hp
    refine .unary (.application hcalls ho) ?_
    intro hunary
    cases ts with
    | nil => cases hunary
    | cons u ts => exact startsOperand_symbol (Token.kind_of_isUnaryOperator hunary) ts hstart

theorem Parses.operations_of_part (h : Parses depth s (t.part least) ts p)
    (hp : Diagnostics.hasErrors p.diagnostics = false) (ho : ¬ startsOperand p.rest) :
    Parses depth s (.operations least) ts p := by
  by_cases hb : t.kind = .binary
  · simpa [SyntaxTree.part, hb] using h
  · exact .first (h.unary_of_part hb hp ho)

theorem SyntaxTree.part_stopsAt (least : Nat) (t : SyntaxTree) (h : ¬ startsOperand rest) :
    (t.part least).StopsAt rest := by
  unfold part
  split <;> first | exact h | trivial

/-- A function or an argument may stop being read anywhere. -/
theorem SyntaxTree.part_stopsAt_of_calls (hk : t.kind ∉ [NodeKind.unary, .binary]) :
    (t.part least).StopsAt rest := by
  unfold part
  split
  · next hb => simp [hb] at hk
  · next hu => simp [hu] at hk
  · trivial
  · trivial

theorem SyntaxTree.part_eq_operand (hk : t.kind ∉ [NodeKind.call, .unary, .binary]) :
    t.part least = .operand := by
  unfold part
  split <;> simp_all

end Climb

/-- A tree of the right shape the expressions of which nest at most so deep. -/
structure SyntaxTree.Fits (depth : Nat) (t : SyntaxTree) : Prop where
  shape : t.WellShaped
  nesting_le : t.nesting ≤ depth

namespace SyntaxTree.Fits
variable {depth i : Nat} {kind : NodeKind} {text : Text} {span : Span}
  {children : List SyntaxTree} {c : SyntaxTree}

theorem child (h : (node kind text span children).Fits depth) (hc : c ∈ children) :
    c.Fits depth := by
  obtain ⟨i, hi⟩ := List.mem_iff_getElem?.1 hc
  have hle := Nat.le_trans (nesting_le_node hi kind text span) h.nesting_le
  exact ⟨(wellShaped_node.1 h.shape).2 c hc, by omega⟩

theorem nested (h : (node kind text span children).Fits depth) (hc : children[i]? = some c)
    (hn : kind.nests i) : ∃ d, depth = d + 1 ∧ c.Fits d := by
  have hle := Nat.le_trans (nesting_le_node hc kind text span) h.nesting_le
  rw [if_pos hn] at hle
  exact ⟨depth - 1, by omega, (h.child (List.mem_of_getElem? hc)).shape, by omega⟩

end SyntaxTree.Fits

/-- What lets a printed expression be read back in front of `rest`, where operators of at least a
given precedence are read. -/
structure SyntaxTree.Stands (depth : Nat) (s : Surroundings) (least : Nat) (rest : List Token)
    (t : SyntaxTree) : Prop where
  fits : t.Fits depth
  awaits : s.AwaitsClosers
  unmarked : Unmarked rest
  follows : Follows t rest
  stops : (t.part least).StopsAt rest
  least_le : ∀ o ∈ t.operator?, least ≤ o.precedence

/-- How printed tokens are read. -/
def ReadsBack (w : List Token) : Printed → Prop
  | .expression t => ∀ depth s least rest, t.Stands depth s least rest →
      ∃ p, Parses depth s (t.part least) (w ++ rest) p ∧ p.Gives t rest
  | .field t => ∀ depth s rest before, t.Fits depth → s.AwaitsClosers → Stops rest →
      ∃ p, Parses depth s (.field before) (w ++ rest) p ∧ p.Gives t rest
  | .fields ts => ∀ depth s rest ts₀ p, (∀ t ∈ ts, t.Fits depth) → s.AwaitsClosers →
      .closeBrace ∈ s.closers → headKind? rest = some .closeBrace →
      Parses depth s .fields ts₀ p → p.Completes (w ++ rest) →
        ∃ q, Parses depth s (.inside .brace) ts₀ q ∧ q.Completes rest ∧
          q.value.children.map unplaced = (p.value.children ++ ts).map unplaced
  | .statement t => ∀ depth s rest, t.Fits depth → s.AwaitsClosers → Stops rest →
      ∃ p, Parses (depth + 1) s .statement (w ++ rest) p ∧ p.Gives t rest
  | .statements ts => ∀ depth s, (∀ t ∈ ts, t.Fits depth) → s.AwaitsClosers →
      ∃ p, ParsesStatements (depth + 1) s w p ∧ p.value.map unplaced = ts.map unplaced ∧
        Diagnostics.hasErrors p.diagnostics = false

section Statement
variable {depth least : Nat} {s : Surroundings} {ts : List Token} {p : Parsed SyntaxTree}

/-- An expression without an error does not start as a binding does. -/
theorem Parses.not_startsNamed_bind (h : Parses depth s (.expression least) ts p)
    (hp : Diagnostics.hasErrors p.diagnostics = false) (hr : Stops p.rest) :
    ¬ startsNamed .bind ts := by
  obtain ⟨w, hw, hderives⟩ := h.derives hp
  cases ts with
  | nil => simp [startsNamed]
  | cons t ts => cases ts with
    | nil => simp [startsNamed]
    | cons mark ts =>
      intro hbind
      simp only [startsNamed, Bool.and_eq_true, decide_eq_true_eq] at hbind
      exact Spells.not_binding hderives.spells hw hr hbind.1 hbind.2

/-- A statement without an error starts with a token, and not with a semicolon. -/
theorem Parses.statement_exists_cons (h : Parses depth s .statement ts p)
    (hp : Diagnostics.hasErrors p.diagnostics = false) :
    ∃ t v, ts = t :: v ∧ t.kind ≠ .semicolon := by
  obtain ⟨w, rfl, hw⟩ := h.derives hp
  obtain ⟨t, v, rfl, ht⟩ := Spells.exists_cons hw.spells
  exact ⟨t, v ++ p.rest, rfl, ht⟩

end Statement

/-- A field starts with a name, so the fields of a product do not end in front of it. -/
theorem Prints.not_endsFields {t : SyntaxTree} {w : List Token} {s : Surroundings}
    (h : Prints (.field t) w) (hs : s.AwaitsClosers) (rest : List Token) :
    ¬ s.endsFields (w ++ rest) := by
  cases h with
  | field ht hc inner =>
    have hmem : .identifier ∉ s.closers := fun h => by simpa using hs _ h
    simp [endsFields_cons, Surroundings.awaits, ht, hmem]

namespace ReadsBack
variable {w v rest : List Token} {t c m o : Token} {tree left right : SyntaxTree}
  {ts : List SyntaxTree} {depth least : Nat} {s : Surroundings} {text : Text} {span : Span}

/-- An expression is read where its operators may stand. -/
theorem nested (h : ReadsBack w (.expression tree)) (ht : tree.Stands depth s least rest)
    (ho : ¬ startsOperand rest) (hn : NoOperator least rest) :
    ∃ p, Parses (depth + 1) s (.expression least) (w ++ rest) p ∧ p.Gives tree rest := by
  obtain ⟨p, hp, hv, hd, hr⟩ := h depth s least rest ht
  exact ⟨p, .expression (hp.operations_of_part hd (hr ▸ ho)) (hr ▸ hn), hv, hd, hr⟩

/-- Any expression is read where none can go on. -/
theorem whole (h : ReadsBack w (.expression tree)) (ht : tree.Fits depth) (hs : s.AwaitsClosers)
    (hm : Unmarked rest) (he : Ends rest) :
    ∃ p, Parses (depth + 1) s (.expression lowestPrecedence) (w ++ rest) p ∧ p.Gives tree rest := by
  refine h.nested ⟨ht, hs, hm, he.follows tree, part_stopsAt _ tree he.1, ?_⟩ he.1 he.2
  exact fun _ ho => lowestPrecedence_le_lookup (lookup_of_operator? ho)

theorem literal {kind : NodeKind} (ht : t.kind.literal? = some kind) :
    ReadsBack [t] (.expression (node kind t.value span [])) := by
  intro depth s least rest h
  have hpart : (node kind t.value span []).part least = .operand := by
    cases hk : t.kind <;> rw [hk] at ht <;> cases ht <;> rfl
  rw [hpart]
  exact ⟨_, .literal ht, by simp, rfl, rfl⟩

theorem lambda (h : ReadsBack w (.expression tree)) (ht : t.kind = .identifier)
    (hm : m.kind = .arrow) :
    ReadsBack (t :: m :: w) (.expression (node .lambda t.value span [tree])) := by
  intro depth s least rest hlambda
  obtain ⟨depth, rfl, hbody⟩ := hlambda.fits.nested (i := 0) rfl rfl
  have hends := hlambda.follows.lambda ⟨_, .refl, rfl⟩
  obtain ⟨p, hp, hv, hc⟩ := h.whole hbody hlambda.awaits hlambda.unmarked hends
  exact ⟨_, .lambda ht hm hp, by simp [hv], hc⟩

theorem group (h : ReadsBack w (.expression tree)) (ho : o.kind = .openParen)
    (hc : c.kind = .closeParen) :
    ReadsBack (o :: (w ++ [c])) (.expression (node .group text span [tree])) := by
  intro depth s least rest hgroup
  obtain ⟨rfl, -⟩ := (wellShaped_node.1 hgroup.fits.shape).1.1
  obtain ⟨depth, rfl, hinner⟩ := hgroup.fits.nested (i := 0) rfl rfl
  have hclose : Stops (c :: rest) := .of_headKind? (k := .closeParen) (by simp [hc]) (by simp)
  obtain ⟨p, hp, hv, hd, hr⟩ :=
    h.whole hinner (hgroup.awaits.within .paren) hclose.unmarked hclose.ends
  have hsync : (s.within Bracket.paren.awaited).atSync p.rest := by
    rw [hr]
    exact atSync_of_headKind? (k := .closeParen) (by simp [hc]) (by simp [Surroundings.within])
  rw [List.cons_append, List.append_assoc]
  exact ⟨_, .closed (b := .paren) (.group ho hp hsync) hr hc, by simp [hv], hd, rfl⟩

theorem product (h : ReadsBack w (.fields ts)) (ho : o.kind = .openBrace)
    (hc : c.kind = .closeBrace) :
    ReadsBack (o :: (w ++ [c])) (.expression (node .product text span ts)) := by
  intro depth s least rest hproduct
  obtain ⟨rfl, -⟩ := (wellShaped_node.1 hproduct.fits.shape).1.1
  obtain ⟨q, hq, ⟨hd, hr⟩, hv⟩ := h depth (s.within Bracket.brace.awaited) (c :: rest) _ _
    (fun t ht => hproduct.fits.child ht) (hproduct.awaits.within .brace)
    (by simp [Surroundings.within]) (by simp [hc]) (.product ho) ⟨rfl, rfl⟩
  rw [List.cons_append, List.append_assoc]
  exact ⟨_, .closed (b := .brace) hq hr hc, by simpa using hv, hd, rfl⟩

/-- The argument of a call starts with an operand, and so the function is read further. -/
theorem call (hw : ReadsBack w (.expression left)) (hv : ReadsBack v (.expression right)) :
    ReadsBack (w ++ v) (.expression (node .call text span [left, right])) := by
  intro depth s least rest h
  obtain ⟨⟨⟨rfl, ⟨-, hfun⟩, -, harg⟩, hlast⟩, -⟩ := wellShaped_node.1 h.fits.shape
  have hfun' : left.kind ∉ [NodeKind.unary, .binary] := fun h => hfun (by simp_all)
  have hnone : left.operator? = none := operator?_eq_none (by simp_all)
  have hnone' : right.operator? = none := operator?_eq_none (by simp_all)
  have hright : right.Stands depth s least rest :=
    ⟨h.fits.child (by simp), h.awaits, h.unmarked, h.follows.last rfl (by simp) (by simp [hnone']),
      by rw [part_eq_operand harg]; trivial, by simp [hnone']⟩
  -- the argument is read first, for the function is read in front of its first token
  obtain ⟨q, hq, hqv, hqd, hqr⟩ := hv depth s least rest hright
  rw [part_eq_operand harg] at hq
  have hstart : startsOperand (v ++ rest) := (Parses.function hq).startsOperand_of_calls hqd
  have hleft : left.Stands depth s least (v ++ rest) :=
    ⟨h.fits.child (by simp), h.awaits, unmarked_of_startsOperand hstart,
      ⟨fun h => absurd h (hlast rfl left (by simp)), by simp [hnone]⟩,
      part_stopsAt_of_calls hfun', by simp [hnone]⟩
  obtain ⟨p, hp, hpv, hpd, hpr⟩ := hw depth s least (v ++ rest) hleft
  rw [List.append_assoc]
  refine ⟨_, .call (hp.calls_of_part hfun') (hpr ▸ hstart) (hpr ▸ hq), ?_, ?_, hqr⟩
  · simp [hpv, hqv]
  · simp [hpd, hqd]

theorem unary (h : ReadsBack w (.expression tree)) (ht : t.kind = .symbol) :
    ReadsBack (t :: w) (.expression (node .unary t.value span [tree])) := by
  intro depth s least rest hunary
  obtain ⟨htext, -, hkind⟩ := (wellShaped_node.1 hunary.fits.shape).1.1
  have hnone := operator?_eq_none hkind
  have hstop : ¬ startsOperand rest := hunary.stops
  have htree : tree.Stands depth s least rest :=
    ⟨hunary.fits.child (by simp), hunary.awaits, hunary.unmarked,
      hunary.follows.last rfl (by simp) (by simp [hnone]), part_stopsAt least tree hstop,
      by simp [hnone]⟩
  obtain ⟨p, hp, hv, hd, hr⟩ := h depth s least rest htree
  have hoperator : t.isUnaryOperator := by simp [Token.isUnaryOperator, ht, htext]
  exact ⟨_, .negate hoperator (hp.unary_of_part hkind hd (hr ▸ hstop)),
    by simp [ExpressionParser.negate, hv], hd, hr⟩

/-- The operator between two operands stops the left one and starts the right one. -/
theorem binary (hw : ReadsBack w (.expression left)) (ht : t.kind = .symbol)
    (hv : ReadsBack v (.expression right)) :
    ReadsBack (w ++ t :: v) (.expression (node .binary t.value span [left, right])) := by
  intro depth s least rest h
  obtain ⟨⟨⟨-, -, operator, hlookup, hleft, hright⟩, hlast⟩, -⟩ := wellShaped_node.1 h.fits.shape
  have hoperator : t.binaryOperator? = some operator := by simp [Token.binaryOperator?, ht, hlookup]
  have hleast : least ≤ operator.precedence := h.least_le operator (by simp [hlookup])
  have hnone : NoOperator operator.rightLeast rest :=
    h.follows.operator operator (by simp [hlookup])
  have hstop : ¬ startsOperand rest := h.stops
  have hsymbol := startsOperand_symbol ht (v ++ rest)
  obtain ⟨depth, rfl, hfits⟩ := h.fits.nested (i := 1) rfl rfl
  have hrightFollows : Follows right rest := by
    refine h.follows.last rfl (by simp) fun o ho => hnone.mono ?_
    exact Nat.le_trans (hright o ho) o.precedence_le_rightLeast
  have hleftFollows : Follows left (t :: (v ++ rest)) := by
    refine ⟨fun h => absurd h (hlast rfl left (by simp)), fun o ho => ?_⟩
    rw [noOperator_cons hoperator]
    exact (leftLeast_le_iff hlookup (lookup_of_operator? ho)).1 (hleft o ho)
  have hleftLeast : ∀ o ∈ left.operator?, least ≤ o.precedence := fun o ho =>
    Nat.le_trans hleast (Nat.le_trans operator.precedence_le_leftLeast (hleft o ho))
  obtain ⟨q, hq, hqv, hqd, hqr⟩ := hv.nested ⟨hfits, h.awaits, h.unmarked, hrightFollows,
    part_stopsAt _ right hstop, hright⟩ hstop hnone
  obtain ⟨p, hp, hpv, hpd, hpr⟩ := hw (depth + 1) s least (t :: (v ++ rest))
    ⟨h.fits.child (by simp), h.awaits, unmarked_symbol ht _, hleftFollows,
      part_stopsAt least left hsymbol, hleftLeast⟩
  have hbefore := hp.operations_of_part hpd (hpr ▸ hsymbol)
  rw [List.append_assoc]
  refine ⟨_, .operation hbefore hpr hoperator hleast hq, ?_, ?_, hqr⟩
  · simp [hpv, hqv]
  · simp [hpd, hqd]

theorem field (h : ReadsBack w (.expression tree)) (ht : t.kind = .identifier)
    (hc : c.kind = .colon) :
    ReadsBack (t :: c :: w) (.field (node .field t.value span [tree])) := by
  intro depth s rest before hfits hs hr
  obtain ⟨depth, rfl, hvalue⟩ := hfits.nested (i := 0) rfl rfl
  obtain ⟨p, hp, hv, hd, hr⟩ := h.whole hvalue hs hr.unmarked hr.ends
  refine ⟨_, .field ht hc hp, by simp [hv], ?_, hr⟩
  rw [Diagnostics.hasErrors_append, hd]
  split <;> rfl

theorem lastField (h : ReadsBack w (.field tree)) (first : Prints (.field tree) w) :
    ReadsBack w (.fields [tree]) := by
  intro depth s rest ts₀ p hfits hs hmem hr hp ⟨hd, hrest⟩
  obtain ⟨q, hq, hqv, hqd, hqr⟩ := h depth s rest p.value.children (hfits tree (by simp)) hs
    (.of_headKind? hr (by simp))
  have hmore : ¬ s.endsFields p.rest := hrest ▸ first.not_endsFields hs rest
  refine ⟨_, .lastField hp hmore (hrest ▸ hq) (by simp [hqr, hr])
    (hqr ▸ atSync_of_headKind? hr hmem), ⟨by simp [Parsed.adding, hd, hqd], hqr⟩, ?_⟩
  simp [hqv]

theorem comma (hw : ReadsBack w (.field tree)) (first : Prints (.field tree) w)
    (hc : c.kind = .comma) (hv : ReadsBack v (.fields ts)) :
    ReadsBack (w ++ c :: v) (.fields (tree :: ts)) := by
  intro depth s rest ts₀ p hfits hs hmem hr hp ⟨hd, hrest⟩
  rw [List.forall_mem_cons] at hfits
  have hcomma : Stops (c :: (v ++ rest)) := .of_headKind? (k := .comma) (by simp [hc]) (by simp)
  obtain ⟨q, hq, hqv, hqd, hqr⟩ := hw depth s _ p.value.children hfits.1 hs hcomma
  rw [List.append_assoc, List.cons_append] at hrest
  have hmore : ¬ s.endsFields p.rest := hrest ▸ first.not_endsFields hs _
  obtain ⟨r, hr, hrc, hrv⟩ := hv depth s rest ts₀ _ hfits.2 hs hmem hr
    (.comma hp hmore (hrest ▸ hq) hqr hc) ⟨by simp [Parsed.adding, hd, hqd], rfl⟩
  refine ⟨r, hr, hrc, ?_⟩
  simpa [hqv] using hrv

theorem bare (h : ReadsBack w (.expression tree)) : ReadsBack w (.statement tree) := by
  intro depth s rest hfits hs hr
  obtain ⟨p, hp, hv, hd, hpr⟩ := h.whole hfits hs hr.unmarked hr.ends
  exact ⟨p, .bare (hp.not_startsNamed_bind hd (hpr ▸ hr)) hp, hv, hd, hpr⟩

theorem lastStatement (h : ReadsBack w (.statement tree)) : ReadsBack w (.statements [tree]) := by
  intro depth s hfits hs
  obtain ⟨p, hp, hv, hd, hr⟩ := h depth s [] (hfits tree (by simp)) hs .nil
  obtain ⟨u, v, huv, hu⟩ := hp.statement_exists_cons hd
  rw [List.append_nil] at hp huv
  subst huv
  exact ⟨_, .last hu hp hr, by simp [hv], hd⟩

theorem next (hw : ReadsBack w (.statement tree)) (hm : m.kind = .semicolon)
    (hv : ReadsBack v (.statements ts)) : ReadsBack (w ++ m :: v) (.statements (tree :: ts)) := by
  intro depth s hfits hs
  rw [List.forall_mem_cons] at hfits
  obtain ⟨q, hq, hqv, hqd⟩ := hv depth s hfits.2 hs
  obtain ⟨p, hp, hpv, hpd, hpr⟩ := hw depth s (m :: v) hfits.1 hs
    (.of_headKind? (k := .semicolon) (by simp [hm]) (by simp))
  obtain ⟨u, u', huv, hu⟩ := hp.statement_exists_cons hpd
  rw [huv] at hp ⊢
  exact ⟨_, .next hu hp hpr hm hq, by simp [hpv, hqv], by simp [hpd, hqd]⟩

end ReadsBack

/-- What is printed of grammatical trees is read back. -/
theorem Prints.readsBack {x : Printed} {w : List Token} (h : Prints x w) : ReadsBack w x := by
  induction h with
  | literal ht => exact .literal ht
  | name ht =>
    intro depth s least rest h
    have harrow : headKind? rest ≠ some .arrow := fun ha => h.unmarked _ ha (by decide)
    exact ⟨_, .name ht harrow, by simp, rfl, rfl⟩
  | invalid ht => exact fun depth s least rest h => ⟨_, .invalid ht, by simp, rfl, rfl⟩
  | lambda ht ha inner ih => exact ih.lambda ht ha
  | group ho body hc ih => exact ih.group ho hc
  | product ho inner hc ih => exact ih.product ho hc
  | call left right ihl ihr => exact ihl.call ihr
  | unary ht inner ih => exact ih.unary ht
  | binary before ht behind ihl ihr => exact ihl.binary ht ihr
  | field ht hc inner ih => exact ih.field ht hc
  | noField =>
    intro depth s rest ts₀ p hfits hs hmem hr hp ⟨hd, hrest⟩
    have hends : s.endsFields p.rest := by simp [Surroundings.endsFields, hrest, hr]
    exact ⟨p, .noField hp hends, ⟨hd, hrest⟩, by simp⟩
  | lastField last ih => exact ih.lastField last
  | comma first hc more ihf ihm => exact ihf.comma first hc ihm
  | binding ht hm inner ih =>
    intro depth s rest hfits hs hr
    obtain ⟨p, hp, hv, hc⟩ := ih.whole (hfits.child (by simp)) hs hr.unmarked hr.ends
    exact ⟨_, .binding ht hm hp, by simp [hv], hc⟩
  | bare value ih => exact ih.bare
  | noStatement => exact fun depth s hfits hs => ⟨_, .nil, rfl, rfl⟩
  | semicolon hm more ih =>
    intro depth s hfits hs
    obtain ⟨p, hp, hv, hd⟩ := ih depth s hfits hs
    exact ⟨p, .semicolon hm hp, hv, hd⟩
  | lastStatement last ih => exact ih.lastStatement
  | next first hm more ihf ihm => exact ihf.next hm ihm

namespace Program

/-- A grammatical program that is printed and parsed comes back, without an error, if fewer
expressions are nested in each other than the configuration allows. -/
theorem unplaced_parse_of_prints (config : Config) (tokens : List Token) (t : SyntaxTree)
    (ht : t.Grammatical) (hd : t.nesting < config.maxDepth)
    (hw : Prints (.statements t.children) (significant tokens)) :
    (parse config tokens).tree.unplaced = t.unplaced ∧
      Diagnostics.hasErrors (parse config tokens).diagnostics = false := by
  obtain ⟨kind, text, span, statements⟩ := t
  obtain rfl : kind = .program := ht.root
  obtain rfl : text = [] := (wellShaped_node.1 ht.shape).1.1.1
  obtain ⟨depth, hdepth⟩ : ∃ depth, config.maxDepth = depth + 1 :=
    ⟨config.maxDepth - 1, by omega⟩
  have hfit : (node .program [] span statements).Fits depth := ⟨ht.shape, by omega⟩
  obtain ⟨p, hp, hv, herrors⟩ := hw.readsBack depth ⟨config.maxDepth, ending tokens, []⟩
    (fun _ hc => hfit.child hc) (by simp [Surroundings.AwaitsClosers])
  rw [parse, hdepth, eq_statements (hdepth ▸ hp)]
  exact ⟨by simp [hv], herrors⟩

/-- The lambda `x => -1 * y + 2` as a binding, and a product with a comma behind its field. -/
theorem unplaced_parse_binding_product :
    let config : Config := .make false 3
    let token (kind : TokenKind) (text : Text) (offset : Int) : Token :=
      ⟨kind, text, text, ⟨⟨1, offset + 1, offset⟩, ⟨1, offset + 2, offset + 1⟩⟩⟩
    let tokens : List Token :=
      [token .identifier "f" 0, token .bind "=" 1, token .identifier "x" 2, token .arrow "=>" 3,
        token .symbol "-" 5, token .number "1" 6, token .symbol "*" 7, token .identifier "y" 8,
        token .symbol "+" 9, token .number "2" 10, token .semicolon ";" 11,
        token .semicolon ";" 12, token .openBrace "\x7b" 13, token .identifier "a" 14,
        token .colon ":" 15, token .number "3" 16, token .comma "," 17,
        token .closeBrace "\x7d" 18, token .endOfInput [] 19]
    let leaf (kind : NodeKind) (text : Text) : SyntaxTree := node kind text default []
    let sum : SyntaxTree := node .binary "+" default
      [node .binary "*" default [node .unary "-" default [leaf .number "1"], leaf .identifier "y"],
        leaf .number "2"]
    let t : SyntaxTree := node .program [] default
      [node .binding "f" default [node .lambda "x" default [sum]],
        node .product [] default [node .field "a" default [leaf .number "3"]]]
    (t.Grammatical ∧ t.nesting < config.maxDepth ∧
        Prints (.statements t.children) (significant tokens)) ∧
      (parse config tokens).tree.unplaced = t.unplaced ∧
        Diagnostics.hasErrors (parse config tokens).diagnostics = false := by
  intro config token tokens leaf sum t
  have hleft : Prints (.expression (node .binary "*" default
      [node .unary "-" default [leaf .number "1"], leaf .identifier "y"]))
      [token .symbol "-" 5, token .number "1" 6, token .symbol "*" 7, token .identifier "y" 8] :=
    .binary (t := token .symbol "*" 7) (.unary (t := token .symbol "-" 5) rfl
      (.literal (t := token .number "1" 6) rfl)) rfl (.name (t := token .identifier "y" 8) rfl)
  have hbody : Prints (.expression sum)
      [token .symbol "-" 5, token .number "1" 6, token .symbol "*" 7, token .identifier "y" 8,
        token .symbol "+" 9, token .number "2" 10] :=
    .binary (t := token .symbol "+" 9) hleft rfl (.literal (t := token .number "2" 10) rfl)
  have hfield : Prints (.field (node .field "a" default [leaf .number "3"]))
      [token .identifier "a" 14, token .colon ":" 15, token .number "3" 16] :=
    .field (t := token .identifier "a" 14) rfl rfl (.literal (t := token .number "3" 16) rfl)
  have hproduct : Prints (.expression (node .product [] default
      [node .field "a" default [leaf .number "3"]]))
      (token .openBrace "\x7b" 13 :: ([token .identifier "a" 14, token .colon ":" 15,
        token .number "3" 16, token .comma "," 17] ++ [token .closeBrace "\x7d" 18])) :=
    .product rfl (.comma hfield rfl .noField) rfl
  have hbinding : Prints (.statement (node .binding "f" default [node .lambda "x" default [sum]]))
      (tokens.take 10) :=
    .binding (t := token .identifier "f" 0) rfl rfl (.lambda (t := token .identifier "x" 2) rfl rfl
      hbody)
  have hw : Prints (.statements t.children) (significant tokens) :=
    .next hbinding rfl (.semicolon rfl (.lastStatement (.bare hproduct)))
  have ht : t.Grammatical := by
    have hplus : binaryOperators.lookup (.ofString "+") = some ⟨6, false⟩ := rfl
    have htimes : binaryOperators.lookup (.ofString "*") = some ⟨7, false⟩ := rfl
    have hminus : Text.ofString "-" ∈ unaryOperators := by decide
    refine ⟨rfl, ?_⟩
    simp [t, sum, leaf, wellShaped_node, Regular, LambdaLast, exposesLambda_node, hplus, htimes,
      hminus, NodeKind.isExpression, NodeKind.isOperation, BinaryOperator.leftLeast]
  have hd : t.nesting < config.maxDepth := by decide
  exact ⟨⟨ht, hd, hw⟩, unplaced_parse_of_prints config tokens t ht hd hw⟩

end Program

end LenSyntax
