import LenSyntax.Proofs.Grammar.Rules

/-! The parser and its rules agree: what the parser does in front of any tokens is an outcome of the
rules (`Program.parses_statements`), and they have no other outcome (`Program.eq_statements`). -/
namespace LenSyntax

open SyntaxTree ExpressionParser

namespace Parsed

@[simp] theorem adding_value_children (p : Parsed SyntaxTree) (more : Parsed (List SyntaxTree)) :
    (p.adding more).value.children = p.value.children ++ more.value := rfl

@[simp] theorem adding_rest (p : Parsed SyntaxTree) (more : Parsed (List SyntaxTree)) :
    (p.adding more).rest = more.rest := rfl

theorem adding_adding (p : Parsed SyntaxTree) (more others : Parsed (List SyntaxTree)) :
    (p.adding more).adding others =
      p.adding ⟨more.value ++ others.value, more.diagnostics ++ others.diagnostics,
        others.rest⟩ := by
  have h : ((more.value ++ others.value).getLast?.map (·.span.stop)).getD p.value.span.stop =
      (others.value.getLast?.map (·.span.stop)).getD
        ((more.value.getLast?.map (·.span.stop)).getD p.value.span.stop) := by
    rw [List.getLast?_append]
    cases others.value.getLast? <;> rfl
  simp only [adding, span_node, children_node, List.append_assoc, h]

theorem adding_nil {p : Parsed SyntaxTree}
    (h : p.value = node .product [] p.value.span p.value.children) :
    p.adding ⟨[], [], p.rest⟩ = p := by
  obtain ⟨value, diagnostics, rest⟩ := p
  simp only [adding, List.append_nil, List.getLast?_nil, Option.map_none, Option.getD_none]
  exact congrArg (fun v => (⟨v, diagnostics, rest⟩ : Parsed SyntaxTree)) h.symm

/-- A bracket and its closer, or a report that the closer is missing. -/
def closing (s : Surroundings) (b : Bracket) (p : Parsed SyntaxTree) : Parsed SyntaxTree :=
  let stop := close s b.closer (b.unclosed p.value.span.start) p.value.span.stop p.rest
  { value := node b.node [] ⟨p.value.span.start, stop.value⟩ p.value.children
    diagnostics := p.diagnostics ++ stop.diagnostics
    rest := stop.rest }

theorem closing_eq_closed (s : Surroundings) {b : Bracket} {p : Parsed SyntaxTree} {t : Token}
    {rest : List Token} (hr : p.rest = t :: rest) (ht : t.kind = b.closer) :
    p.closing s b =
      ⟨node b.node [] ⟨p.value.span.start, t.span.stop⟩ p.value.children, p.diagnostics, rest⟩ := by
  simp [closing, close, hr, ht]

theorem closing_eq_unclosed (s : Surroundings) {b : Bracket} {p : Parsed SyntaxTree}
    (hr : headKind? p.rest ≠ some b.closer) :
    p.closing s b = ⟨node b.node [] p.value.span p.value.children,
      p.diagnostics ++ [.error (b.unclosed p.value.span.start).message (s.here p.rest)],
      p.rest⟩ := by
  unfold closing
  cases h : p.rest with
  | nil => rfl
  | cons t rest =>
    have ht : ¬ t.kind = b.closer := by simpa [h] using hr
    simp only [close, if_neg ht, Surroundings.here]

/-- A part and what is read behind it, which holds the part. -/
def followedBy (p q : Parsed SyntaxTree) : Parsed SyntaxTree :=
  { q with diagnostics := p.diagnostics ++ q.diagnostics }

theorem followedBy_followedBy (p q : Parsed SyntaxTree) (value : SyntaxTree)
    (r : Parsed SyntaxTree) :
    p.followedBy (q.followedBy r) =
      Parsed.followedBy ⟨value, p.diagnostics ++ q.diagnostics, q.rest⟩ r := by
  simp only [followedBy, List.append_assoc]

theorem followedBy_nil (p : Parsed SyntaxTree) : p.followedBy ⟨p.value, [], p.rest⟩ = p := by
  simp only [followedBy, List.append_nil]

end Parsed

/-- What is read so far of a product is a product. -/
theorem Parses.fields_value {depth : Nat} {s : Surroundings} {part : Part} {ts : List Token}
    {p : Parsed SyntaxTree} (h : Parses depth s part ts p) (hp : part = .fields) :
    p.value = node .product [] p.value.span p.value.children := by
  cases h <;> first | rfl | cases hp

theorem startsOperand_cons (t : Token) (ts : List Token) :
    startsOperand (t :: ts) = t.kind.startsOperand := rfl

/-- An operand is read exactly where one starts. -/
theorem operandFrom?_isSome (e : ExpressionParser) (s : Surroundings) (t : Token)
    (ts : List Token) : (e.operandFrom? s t ts).isSome = t.kind.startsOperand := by
  unfold operandFrom?
  cases ht : t.kind <;> try rfl
  cases ts with
  | nil => rfl
  | cons u ts => simp only; split <;> rfl

theorem endsFields_cons (s : Surroundings) (t : Token) (ts : List Token) :
    s.endsFields (t :: ts) ↔ t.kind = .closeBrace ∨ (s.awaits t ∧ t.kind ≠ .comma) := by
  simp [Surroundings.endsFields, Surroundings.atSync]

@[simp] theorem hasField_nil (name : Text) : hasField name [] = false := rfl

theorem hasField_cons (name : Text) (t : SyntaxTree) (ts : List SyntaxTree) :
    hasField name (t :: ts) = ((t.kind = .field && t.text = name) || hasField name ts) := rfl

theorem hasField_append (name : Text) (ts us : List SyntaxTree) :
    hasField name (ts ++ us) = (hasField name ts || hasField name us) := List.any_append

section Brackets
variable (e : ExpressionParser) (s : Surroundings) (t : Token) {ts : List Token}

theorem group_eq_closing {p : Parsed SyntaxTree}
    (hp : e.run (s.within [.closeParen]) lowestPrecedence ts = p)
    (hs : (s.within [.closeParen]).atSync p.rest) :
    e.group s t ts = Parsed.closing s .paren
      ⟨node .group [] ⟨t.span.start, p.value.span.stop⟩ [p.value], p.diagnostics, p.rest⟩ := by
  subst hp
  simp only [group, leftover, expression, hs, if_true, Parsed.closing, List.append_nil]
  rfl

theorem group_eq_closing_leftover {p q : Parsed SyntaxTree}
    (hp : e.run (s.within [.closeParen]) lowestPrecedence ts = p)
    (hs : ¬ (s.within [.closeParen]).atSync p.rest)
    (hq : q = (s.within [.closeParen]).recover (.unexpected (.ofHead p.rest)) p.rest) :
    e.group s t ts = Parsed.closing s .paren
      ⟨node .group [] ⟨t.span.start, q.value.span.stop⟩ [p.value, q.value],
        p.diagnostics ++ q.diagnostics, q.rest⟩ := by
  subst hp hq
  simp only [group, leftover, expression, hs, Parsed.closing]
  rfl

theorem product_eq_closing (ts : List Token) :
    e.product s t ts = Parsed.closing s .brace ((⟨node .product [] t.span [], [], ts⟩ :
      Parsed SyntaxTree).adding (e.fields (s.within Bracket.brace.awaited) [] ts)) := by
  simp only [product, Parsed.closing, Parsed.adding, List.nil_append]
  rfl

end Brackets

section Follows
variable {e : ExpressionParser} {depth : Nat}

/-- The closer of a bracket is taken if it comes next, and reported if not. -/
theorem parses_closing {s : Surroundings} {b : Bracket} {ts : List Token} {p : Parsed SyntaxTree}
    (inside : Parses depth (s.within b.awaited) (.inside b) ts p) :
    Parses depth s .operand ts (p.closing s b) := by
  by_cases hr : headKind? p.rest = some b.closer
  · cases h : p.rest with
    | nil => simp [h] at hr
    | cons t rest =>
      have ht : t.kind = b.closer := by simpa [h] using hr
      rw [Parsed.closing_eq_closed s h ht]
      exact .closed inside h ht
  · rw [Parsed.closing_eq_unclosed s hr]
    exact .unclosed inside hr

variable (he : ∀ s least ts, Parses depth s (.expression least) ts (e.run s least ts))
include he

theorem parses_group (s : Surroundings) {t : Token} (ht : t.kind = .openParen)
    (ts : List Token) : Parses depth s .operand (t :: ts) (e.group s t ts) := by
  have body := he (s.within Bracket.paren.awaited) lowestPrecedence ts
  by_cases hs : (s.within Bracket.paren.awaited).atSync
      (e.run (s.within Bracket.paren.awaited) lowestPrecedence ts).rest
  · rw [group_eq_closing e s t rfl hs]
    exact parses_closing (.group ht body hs)
  · rw [group_eq_closing_leftover e s t rfl hs rfl]
    exact parses_closing (.leftover ht body hs rfl)

theorem parses_field (s : Surroundings) {before seen : List SyntaxTree}
    (hb : ∀ name, hasField name seen = hasField name before) (ts : List Token) :
    Parses depth s (.field before) ts (e.field s seen ts) := by
  unfold ExpressionParser.field
  split
  · next t colon more =>
    split
    · next h =>
      simpa only [fieldValue, expression, hb] using
        Parses.field h.1 h.2 (he s lowestPrecedence more)
    · next h => exact .notField (by simpa [startsNamed] using h)
  · next h =>
    apply Parses.notField
    unfold startsNamed
    split
    · next t u more => exact absurd rfl (h t u more)
    · simp

/-- Fields that are read behind those of a product make it longer. -/
theorem parses_fields {s : Surroundings} {ts₀ : List Token} (before : List SyntaxTree)
    (ts : List Token) : ∀ p, Parses depth s .fields ts₀ p →
      (∀ name, hasField name before = hasField name p.value.children) → p.rest = ts →
        Parses depth s (.inside .brace) ts₀ (p.adding (e.fields s before ts)) := by
  fun_induction fields e s before ts with
  | case1 before =>
    intro p h hb hts
    rw [← hts, Parsed.adding_nil (h.fields_value rfl)]
    exact .noField h (by simp [hts, Surroundings.endsFields, Surroundings.atSync])
  | case2 before t more ht =>
    intro p h hb hts
    rw [← hts, Parsed.adding_nil (h.fields_value rfl)]
    exact .noField h (by rw [hts, endsFields_cons]; exact ht)
  | case3 before t more ht one hr =>
    intro p h hb hts
    have hg : ¬ s.endsFields p.rest := by rw [hts, endsFields_cons]; exact ht
    have field : Parses depth s (.field p.value.children) p.rest one := by
      simpa only [hts] using parses_field he s hb (t :: more)
    rw [← hr]
    exact .lastField h hg field (by simp [hr]) (by simp [hr, Surroundings.atSync])
  | case4 before t more ht one u behind hr hu others ih =>
    intro p h hb hts
    have hg : ¬ s.endsFields p.rest := by rw [hts, endsFields_cons]; exact ht
    have field : Parses depth s (.field p.value.children) p.rest one := by
      simpa only [hts] using parses_field he s hb (t :: more)
    have whole := ih _ (.comma h hg field hr hu)
      (by simp [hasField_cons, hasField_append, hb, Bool.or_comm]) rfl
    rw [Parsed.adding_adding] at whole
    exact whole
  | case5 before t more ht one u behind hr hu hs =>
    intro p h hb hts
    have hg : ¬ s.endsFields p.rest := by rw [hts, endsFields_cons]; exact ht
    have field : Parses depth s (.field p.value.children) p.rest one := by
      simpa only [hts] using parses_field he s hb (t :: more)
    rw [← hr]
    exact .lastField h hg field (by simp [hr, hu]) (by simpa [hr, Surroundings.atSync] using hs)
  | case6 before t more ht one u behind hr hu hs skipped others ih =>
    intro p h hb hts
    have hg : ¬ s.endsFields p.rest := by rw [hts, endsFields_cons]; exact ht
    have field : Parses depth s (.field p.value.children) p.rest one := by
      simpa only [hts] using parses_field he s hb (t :: more)
    have hskip : skipped = s.recover (.afterField (.ofHead one.rest)) one.rest := by rw [hr]; rfl
    have hs' : ¬ s.atSync one.rest := by simpa [hr, Surroundings.atSync] using hs
    have whole := ih _ (.skip h hg field (by simp [hr, hu]) hs' hskip)
      (by simp [hasField_cons, hasField_append, hb, hskip, Surroundings.recover, Bool.or_comm]) rfl
    rw [Parsed.adding_adding] at whole
    exact whole

theorem parses_product (s : Surroundings) {t : Token} (ht : t.kind = .openBrace)
    (ts : List Token) : Parses depth s .operand (t :: ts) (e.product s t ts) := by
  rw [product_eq_closing]
  exact parses_closing (parses_fields he [] ts _ (.product ht) (fun _ => rfl) rfl)

theorem parses_operandFrom? {s : Surroundings} {t : Token} {ts : List Token}
    {p : Parsed SyntaxTree} (h : e.operandFrom? s t ts = some p) :
    Parses depth s .operand (t :: ts) p := by
  unfold operandFrom? at h
  split at h
  · next ht => cases h; exact .literal (by rw [ht]; rfl)
  · next ht => cases h; exact .literal (by rw [ht]; rfl)
  · next ht => cases h; exact .literal (by rw [ht]; rfl)
  · next ht =>
    split at h
    · cases h; exact .name ht (by simp)
    · next u more =>
      split at h
      · next ha => cases h; exact .lambda ht ha (he s lowestPrecedence more)
      · next ha => cases h; exact .name ht (by simpa using ha)
  · next ht => cases h; exact parses_group he s ht ts
  · next ht => cases h; exact parses_product he s ht ts
  · next ht => cases h; exact .invalid ht
  · cases h

theorem parses_operand (s : Surroundings) (ts : List Token) :
    Parses depth s .operand ts (e.operand s ts) := by
  unfold operand
  split
  · exact .missing (by simp [startsOperand]) rfl
  · next t more =>
    split
    · next h => exact parses_operandFrom? he h
    · next h =>
      have ho : ¬ startsOperand (t :: more) := by
        rw [startsOperand_cons, ← operandFrom?_isSome e s t more, h]; simp
      split
      · next hs => exact .missing ho hs
      · next hs => exact .unexpected ho hs

/-- Arguments that are read behind a call are its arguments too. -/
theorem parses_arguments {s : Surroundings} {ts₀ : List Token} (function : SyntaxTree)
    (ts : List Token) : ∀ ds, Parses depth s .calls ts₀ ⟨function, ds, ts⟩ →
      Parses depth s .application ts₀
        (Parsed.followedBy ⟨function, ds, ts⟩ (e.arguments s function ts)) := by
  fun_induction arguments e s function ts with
  | case1 function =>
    intro ds h
    simpa [Parsed.followedBy] using Parses.application h (by simp [startsOperand])
  | case2 function t more hn =>
    intro ds h
    have ho : ¬ startsOperand (t :: more) := by
      rw [startsOperand_cons, ← operandFrom?_isSome e s t more, hn]; simp
    simpa [Parsed.followedBy] using Parses.application h ho
  | case3 function t more argument ha call others ih =>
    intro ds h
    have ho : startsOperand (t :: more) := by
      rw [startsOperand_cons, ← operandFrom?_isSome e s t more, ha]; rfl
    simpa [Parsed.followedBy] using ih _ (.call h ho (parses_operandFrom? he ha))

theorem parses_application (s : Surroundings) (ts : List Token) :
    Parses depth s .application ts (e.application s ts) :=
  parses_arguments he _ _ _ (.function (parses_operand he s ts))

theorem parses_unary (s : Surroundings) (ts : List Token) :
    Parses depth s .unary ts (e.unary s ts) := by
  induction ts with
  | nil => exact .unary (parses_application he s []) (by simp [startsUnary])
  | cons t ts ih =>
    by_cases ht : t.isUnaryOperator
    · simpa [ExpressionParser.unary, ht] using Parses.negate ht ih
    · simpa [ExpressionParser.unary, ht] using
        Parses.unary (parses_application he s (t :: ts)) (by simpa [startsUnary] using ht)

/-- Operations that are read behind an operand take it as their left operand. -/
theorem parses_operations {s : Surroundings} {ts₀ : List Token} (least : Nat)
    (left : SyntaxTree) (ts : List Token) :
    ∀ ds, Parses depth s (.operations least) ts₀ ⟨left, ds, ts⟩ →
      Parses (depth + 1) s (.expression least) ts₀
        (Parsed.followedBy ⟨left, ds, ts⟩ (e.operations s least left ts)) := by
  fun_induction operations e s least left ts with
  | case1 left =>
    intro ds h
    simpa [Parsed.followedBy] using Parses.expression h (by simp [NoOperator])
  | case2 left t more hn =>
    intro ds h
    simpa [Parsed.followedBy] using Parses.expression h (by simp [NoOperator, hn])
  | case3 left t more operator ho hl =>
    intro ds h
    simpa [Parsed.followedBy] using Parses.expression h (by simpa [NoOperator, ho] using hl)
  | case4 left t more operator ho hl right both others ih =>
    intro ds h
    have hr := he s operator.rightLeast more
    simpa [Parsed.followedBy] using ih _ (.operation h rfl ho (Nat.le_of_not_lt hl) hr)

theorem parses_binary (s : Surroundings) (least : Nat) (ts : List Token) :
    Parses (depth + 1) s (.expression least) ts (e.binary s least ts) :=
  parses_operations he least _ _ _ (.first (parses_unary he s ts))

end Follows

/-- The parser follows the rules. -/
theorem parses_run (depth : Nat) (s : Surroundings) (least : Nat) (ts : List Token) :
    Parses depth s (.expression least) ts ((nested depth).run s least ts) := by
  induction depth generalizing s least ts with
  | zero => exact .tooDeep
  | succ depth ih => exact parses_binary ih s least ts

theorem parses_statement (depth : Nat) (s : Surroundings) (ts : List Token) :
    Parses depth s .statement ts (Program.statement (nested depth) s ts) := by
  unfold Program.statement
  split
  · next t mark more =>
    split
    · next h => exact .binding h.1 h.2 (parses_run depth s lowestPrecedence more)
    · next h =>
      exact .bare (by simpa [startsNamed] using h) (parses_run depth s lowestPrecedence _)
  · next h =>
    refine .bare ?_ (parses_run depth s lowestPrecedence ts)
    unfold startsNamed
    split
    · next t u more => exact absurd rfl (h t u more)
    · simp

section Determined
variable (e : ExpressionParser) (s : Surroundings)

theorem operandFrom?_eq_some {t : Token} {ts : List Token} (h : startsOperand (t :: ts)) :
    e.operandFrom? s t ts = some (e.operand s (t :: ts)) := by
  rw [startsOperand_cons, ← operandFrom?_isSome e s t ts] at h
  obtain ⟨p, hp⟩ := Option.isSome_iff_exists.1 h
  simp only [hp, operand]

theorem operandFrom?_eq_none {t : Token} {ts : List Token} (h : ¬ startsOperand (t :: ts)) :
    e.operandFrom? s t ts = none := by
  rw [startsOperand_cons, ← operandFrom?_isSome e s t ts] at h
  simpa using h

theorem operand_eq_missing {ts : List Token} (ho : ¬ startsOperand ts) (hs : s.atSync ts) :
    e.operand s ts = s.missing .missingExpression ts := by
  cases ts with
  | nil => rfl
  | cons t ts =>
    have ha : s.awaits t := hs
    simp only [operand, operandFrom?_eq_none e s ho, ha, if_true]

theorem operand_eq_recover {ts : List Token} (ho : ¬ startsOperand ts) (hs : ¬ s.atSync ts) :
    e.operand s ts = s.recover (.unexpected (.ofHead ts)) ts := by
  cases ts with
  | nil => exact absurd rfl hs
  | cons t ts =>
    have ha : ¬ s.awaits t := hs
    simp only [operand, operandFrom?_eq_none e s ho, ha]
    rfl

theorem arguments_eq_self (function : SyntaxTree) {ts : List Token} (ho : ¬ startsOperand ts) :
    e.arguments s function ts = ⟨function, [], ts⟩ := by
  cases ts with
  | nil => rw [arguments]
  | cons t ts =>
    rw [arguments]
    split
    · rfl
    · next h => rw [operandFrom?_eq_none e s ho] at h; cases h

theorem arguments_eq_call (function : SyntaxTree) {ts : List Token} (ho : startsOperand ts) :
    e.arguments s function ts =
      (e.operand s ts).followedBy (e.arguments s
        (node .call [] (.cover function.span (e.operand s ts).value.span)
          [function, (e.operand s ts).value]) (e.operand s ts).rest) := by
  cases ts with
  | nil => cases ho
  | cons t ts =>
    rw [arguments]
    split
    · next h => rw [operandFrom?_eq_some e s ho] at h; cases h
    · next h => rw [operandFrom?_eq_some e s ho] at h; cases h; rfl

theorem operations_eq_self {least : Nat} (left : SyntaxTree) {ts : List Token}
    (hn : NoOperator least ts) : e.operations s least left ts = ⟨left, [], ts⟩ := by
  cases ts with
  | nil => rw [operations]
  | cons t ts =>
    rw [operations]
    split
    · rfl
    · next operator ho => rw [if_pos (hn t rfl operator ho)]

theorem operations_eq_operation {least : Nat} (left : SyntaxTree) {t : Token} {ts : List Token}
    {operator : BinaryOperator} (ht : t.binaryOperator? = some operator)
    (hl : least ≤ operator.precedence) :
    e.operations s least left (t :: ts) =
      (e.run s operator.rightLeast ts).followedBy (e.operations s least
        (node .binary t.value (.cover left.span (e.run s operator.rightLeast ts).value.span)
          [left, (e.run s operator.rightLeast ts).value])
        (e.run s operator.rightLeast ts).rest) := by
  rw [operations]
  simp only [ht, Nat.not_lt.2 hl, if_false]
  rfl

theorem fields_eq_nil (before : List SyntaxTree) {ts : List Token} (he : s.endsFields ts) :
    e.fields s before ts = ⟨[], [], ts⟩ := by
  cases ts with
  | nil => rw [fields]
  | cons t ts => rw [fields, if_pos ((endsFields_cons s t ts).1 he)]

theorem fields_eq_comma (before : List SyntaxTree) {ts rest : List Token} {t : Token}
    (he : ¬ s.endsFields ts) (hr : (e.field s before ts).rest = t :: rest)
    (ht : t.kind = .comma) :
    let one := e.field s before ts
    let others := e.fields s (one.value :: before) rest
    e.fields s before ts =
      ⟨one.value :: others.value, one.diagnostics ++ others.diagnostics, others.rest⟩ := by
  cases ts with
  | nil => exact absurd rfl he
  | cons u ts =>
    intro one others
    rw [fields, if_neg (mt (endsFields_cons s u ts).2 he)]
    simp only
    split
    · next h => rw [h] at hr; cases hr
    · next h => rw [h] at hr; cases hr; rw [if_pos ht]

theorem fields_eq_last (before : List SyntaxTree) {ts : List Token} (he : ¬ s.endsFields ts)
    (hc : headKind? (e.field s before ts).rest ≠ some .comma)
    (hs : s.atSync (e.field s before ts).rest) :
    let one := e.field s before ts
    e.fields s before ts = ⟨[one.value], one.diagnostics, one.rest⟩ := by
  cases ts with
  | nil => exact absurd rfl he
  | cons t ts =>
    intro one
    rw [fields, if_neg (mt (endsFields_cons s t ts).2 he)]
    simp only
    split
    · next h => rw [show one.rest = [] from h]
    · next u behind h =>
      rw [h] at hc hs
      rw [if_neg (by simpa using hc), if_pos (show s.awaits u from hs),
        show one.rest = u :: behind from h]

theorem fields_eq_skip (before : List SyntaxTree) {ts : List Token} (he : ¬ s.endsFields ts)
    (hc : headKind? (e.field s before ts).rest ≠ some .comma)
    (hs : ¬ s.atSync (e.field s before ts).rest) :
    let one := e.field s before ts
    let skipped := s.recover (.afterField (.ofHead one.rest)) one.rest
    let others := e.fields s (one.value :: before) skipped.rest
    e.fields s before ts = ⟨one.value :: skipped.value :: others.value,
      one.diagnostics ++ skipped.diagnostics ++ others.diagnostics, others.rest⟩ := by
  cases ts with
  | nil => exact absurd rfl he
  | cons t ts =>
    intro one skipped others
    rw [fields, if_neg (mt (endsFields_cons s t ts).2 he)]
    simp only
    split
    · next h => rw [h] at hs; exact absurd rfl hs
    · next u behind h =>
      rw [h] at hc hs
      rw [if_neg (by simpa using hc), if_neg (show ¬ s.awaits u from hs)]
      simp only [others, skipped, show one.rest = u :: behind from h]
      rfl

end Determined

/-- What a part that has been read so far says of the functions of the parser. -/
def Agrees (depth : Nat) (s : Surroundings) (ts : List Token) (p : Parsed SyntaxTree) : Part → Prop
  | .operand => (nested depth).operand s ts = p
  | .calls => (nested depth).application s ts =
      p.followedBy ((nested depth).arguments s p.value p.rest)
  | .application => (nested depth).application s ts = p
  | .unary => (nested depth).unary s ts = p
  | .operations least => (nested depth).binary s least ts =
      p.followedBy ((nested depth).operations s least p.value p.rest)
  | .expression least => (nested depth).run s least ts = p
  | .field before => ∀ seen, (∀ name, hasField name seen = hasField name before) →
      (nested depth).field s seen ts = p
  | .fields => ∃ seen, (∀ name, hasField name seen = hasField name p.value.children) ∧
      ∀ outer : Surroundings, s = outer.within Bracket.brace.awaited →
        (nested depth).operand outer ts =
          (p.adding ((nested depth).fields s seen p.rest)).closing outer .brace
  | .inside b => ∀ outer : Surroundings, s = outer.within b.awaited →
      (nested depth).operand outer ts = p.closing outer b
  | .statement => Program.statement (nested depth) s ts = p

theorem operand_eq_of_operandFrom? {e : ExpressionParser} {s : Surroundings} {t : Token}
    {ts : List Token} {p : Parsed SyntaxTree} (h : e.operandFrom? s t ts = some p) :
    e.operand s (t :: ts) = p := by simp only [operand, h]

theorem Parses.agrees {depth : Nat} {s : Surroundings} {part : Part} {ts : List Token}
    {p : Parsed SyntaxTree} (h : Parses depth s part ts p) : Agrees depth s ts p part := by
  induction h with
  | @literal _ s t ts kind ht =>
    apply operand_eq_of_operandFrom?
    unfold operandFrom?
    cases hk : t.kind <;> rw [hk] at ht <;> cases ht <;> rfl
  | @name _ s t ts ht ha =>
    apply operand_eq_of_operandFrom?
    simp only [operandFrom?, ht]
    cases ts with
    | nil => rfl
    | cons u ts => simp only [if_neg (show ¬ u.kind = .arrow by simpa using ha)]; rfl
  | invalid ht =>
    apply operand_eq_of_operandFrom?
    simp only [operandFrom?, ht]
  | lambda ht ha body ih =>
    apply operand_eq_of_operandFrom?
    simp only [Agrees] at ih
    simp only [operandFrom?, ht, ha, if_true, ExpressionParser.lambda,
      ExpressionParser.expression, ih]
  | closed inside hr ht ih => rw [← Parsed.closing_eq_closed _ hr ht]; exact ih _ rfl
  | unclosed inside hr ih => rw [← Parsed.closing_eq_unclosed _ hr]; exact ih _ rfl
  | missing ho hs => exact operand_eq_missing _ _ ho hs
  | unexpected ho hs => exact operand_eq_recover _ _ ho hs
  | group ht body hs ih =>
    rintro outer rfl
    apply operand_eq_of_operandFrom?
    simp only [operandFrom?, ht]
    exact congrArg some (group_eq_closing _ _ _ ih hs)
  | leftover ht body hs hq ih =>
    rintro outer rfl
    apply operand_eq_of_operandFrom?
    simp only [operandFrom?, ht]
    exact congrArg some (group_eq_closing_leftover _ _ _ ih hs hq)
  | product ht =>
    refine ⟨[], fun _ => rfl, ?_⟩
    rintro outer rfl
    apply operand_eq_of_operandFrom?
    simp only [operandFrom?, ht, product_eq_closing]
  | @comma _ s ts p q t rest before he field hr ht ihb ihf =>
    obtain ⟨seen, hs, hp⟩ := ihb
    have hq := ihf seen hs
    refine ⟨q.value :: seen, by simp [hasField_cons, hasField_append, hs, Bool.or_comm], ?_⟩
    intro outer ho
    rw [hp outer ho, fields_eq_comma _ _ _ he (hq ▸ hr) ht, hq, Parsed.adding_adding]
    rfl
  | @skip _ s ts p q r before he field hc hs hr ihb ihf =>
    obtain ⟨seen, hb, hp⟩ := ihb
    have hq := ihf seen hb
    refine ⟨q.value :: seen, ?_, ?_⟩
    · simp [hasField_cons, hasField_append, hb, hr, Surroundings.recover, Bool.or_comm]
    · intro outer ho
      rw [hp outer ho, fields_eq_skip _ _ _ he (hq ▸ hc) (hq ▸ hs), hq, Parsed.adding_adding, hr]
      rfl
  | lastField before he field hc hs ihb ihf =>
    obtain ⟨seen, hb, hp⟩ := ihb
    have hq := ihf seen hb
    intro outer ho
    rw [hp outer ho, fields_eq_last _ _ _ he (hq ▸ hc) (hq ▸ hs), hq]
  | noField before he ih =>
    obtain ⟨seen, hs, hp⟩ := ih
    intro outer ho
    rw [hp outer ho, fields_eq_nil _ _ _ he, Parsed.adding_nil (before.fields_value rfl)]
  | field ht hc value ih =>
    intro seen hs
    simp only [Agrees] at ih
    simp only [ExpressionParser.field, ht, hc, true_and, if_true, fieldValue,
      ExpressionParser.expression, ih, hs]
  | @notField _ s before ts hn =>
    intro seen hs
    unfold ExpressionParser.field
    split
    · rw [if_neg (by simpa [startsNamed] using hn)]
    · rfl
  | function operand ih =>
    simp only [Agrees, ExpressionParser.application] at ih ⊢
    rw [ih]; rfl
  | call function ho argument ihf iha =>
    simp only [Agrees] at ihf iha ⊢
    rw [ihf, arguments_eq_call _ _ _ ho, iha, Parsed.followedBy_followedBy]
  | application calls ho ih =>
    simp only [Agrees] at ih ⊢
    rw [ih, arguments_eq_self _ _ _ ho, Parsed.followedBy_nil]
  | @unary _ s ts p application hu ih =>
    have hd : ts.takeWhile Token.isUnaryOperator = [] ∧
        ts.dropWhile Token.isUnaryOperator = ts := by
      cases ts with
      | nil => exact ⟨rfl, rfl⟩
      | cons t ts =>
        have ht : ¬ t.isUnaryOperator := hu
        simp [ht]
    simp only [Agrees, ExpressionParser.unary] at ih ⊢
    rw [hd.1, hd.2, ih]
    rfl
  | negate ht operand ih =>
    simp only [Agrees, ExpressionParser.unary] at ih ⊢
    simp [ht, ← ih]
  | first operand ih =>
    simp only [Agrees, ExpressionParser.binary] at ih ⊢
    rw [ih]; rfl
  | operation left hr ht hl right ihl ihr =>
    simp only [Agrees] at ihl ihr ⊢
    rw [ihl, hr, operations_eq_operation _ _ _ ht hl, ihr, Parsed.followedBy_followedBy]
  | expression operations hn ih =>
    simp only [Agrees] at ih ⊢
    change (nested _).binary _ _ _ = _
    rw [ih, operations_eq_self _ _ _ hn, Parsed.followedBy_nil]
  | tooDeep => rfl
  | binding ht hm value ih =>
    simp only [Agrees] at ih ⊢
    simp only [Program.statement, ht, hm, and_self, if_true, ExpressionParser.expression, ih]
  | @bare _ s ts p hn value ih =>
    simp only [Agrees] at ih ⊢
    unfold Program.statement
    split
    · rw [if_neg (by simpa [startsNamed] using hn)]
      exact ih
    · exact ih

theorem Parses.eq_statement {depth : Nat} {s : Surroundings} {ts : List Token}
    {p : Parsed SyntaxTree} (h : Parses depth s .statement ts p) :
    Program.statement (nested depth) s ts = p := h.agrees

namespace Program
variable {limit : Nat} {ending : Span} {depth : Nat} {ts : List Token}

theorem parses_statements (depth limit : Nat) (ending : Span) (ts : List Token) :
    ParsesStatements depth ⟨limit, ending, []⟩ ts (statements (.nested depth) limit ending ts) := by
  fun_induction statements (.nested depth) limit ending ts with
  | case1 => exact .nil
  | case2 t ts ht ih => exact .semicolon ht ih
  | case3 t ts ht one hr => exact .last ht (parses_statement depth _ (t :: ts)) hr
  | case4 t ts ht one u behind hr hu others ih =>
    exact .next ht (parses_statement depth _ (t :: ts)) hr hu ih
  | case5 t ts ht one u behind hr hu skipped others ih =>
    exact .skip ht (parses_statement depth _ (t :: ts)) hr hu rfl ih

/-- The rules have one outcome for the statements of a program. -/
theorem eq_statements {p : Parsed (List SyntaxTree)}
    (h : ParsesStatements depth ⟨limit, ending, []⟩ ts p) :
    statements (.nested depth) limit ending ts = p := by
  induction h with
  | nil => rw [statements]
  | semicolon ht more ih => rw [statements, if_pos ht, ih]
  | last ht one hr =>
    rw [statements, if_neg ht]
    simp only [one.eq_statement]
    split
    · rfl
    · next h => rw [one.eq_statement, hr] at h; cases h
  | next ht one hr hm more ih =>
    rw [statements, if_neg ht]
    simp only [one.eq_statement]
    split
    · next h => rw [one.eq_statement, hr] at h; cases h
    · next h => rw [one.eq_statement, hr] at h; cases h; rw [if_pos hm, ih]
  | skip ht one hr hu hskip more ih =>
    rw [statements, if_neg ht]
    simp only [one.eq_statement]
    split
    · next h => rw [one.eq_statement, hr] at h; cases h
    · next h => rw [one.eq_statement, hr] at h; cases h; rw [if_neg hu, ← hskip, ih]

end Program

end LenSyntax
