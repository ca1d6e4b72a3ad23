import LenSyntax.Proofs.Machine.Basic

/-! The machine does what the parser does. By induction on the rules of the parser, whatever it
reads the machine reads from wherever it is, and with all frames around it untouched. -/
namespace LenSyntax

namespace Machine

namespace State

/-- A state turned to a task in front of given tokens. -/
def facing (x : State) (task : Task) (ts : List Token) : State := { x with task, rest := ts }

/-- A state inside one more frame. -/
def inside (x : State) (f : Frame) : State := { x with frames := f :: x.frames }

/-- A state with more diagnostics. -/
def reporting (x : State) (ds : List Diagnostic) : State :=
  { x with diagnostics := x.diagnostics ++ ds }

/-- Whether a state is where the parser is: `depth` more expressions may be entered. -/
structure Fits (depth : Nat) (s : Surroundings) (x : State) : Prop where
  depth_eq : x.depth + depth = s.limit
  closers_eq : x.closers = s.closers

theorem reads_append (x : State) (value : SyntaxTree) (ds es : List Diagnostic)
    (rest : List Token) :
    x.reads ⟨value, ds ++ es, rest⟩ = (x.reporting ds).reads ⟨value, es, rest⟩ := by
  simp only [reporting, reads, List.append_assoc]

theorem reporting_append (x : State) (ds es : List Diagnostic) :
    x.reporting (ds ++ es) = (x.reporting ds).reporting es := by
  simp only [reporting, List.append_assoc]

end State

/-- What the machine does of a part that the parser has read so far. Operands and calls are collected
inside a frame. What is inside a bracket is told from where the bracket opens, in the surroundings
outside it. -/
def Simulates (depth : Nat) (s : Surroundings) (ts : List Token) (p : Parsed SyntaxTree) :
    Part → Prop
  | .operand => ∀ x : State, x.Fits depth s →
      Reaches s.limit s.ending (x.facing .operand ts) (x.reads p)
  | .calls => ∀ x : State, x.Fits depth s →
      Reaches s.limit s.ending ((x.inside .calls).facing .operand ts) ((x.inside .calls).reads p)
  | .application => ∀ x : State, x.Fits depth s →
      Reaches s.limit s.ending ((x.inside .calls).facing .operand ts) (x.reads p)
  | .unary => ∀ x : State, x.Fits depth s →
      Reaches s.limit s.ending (x.facing .unary ts) (x.reads p)
  | .operations least => ∀ x : State, x.Fits depth s →
      Reaches s.limit s.ending ((x.inside (.operations least)).facing .unary ts)
        ((x.inside (.operations least)).reads p)
  | .expression least => ∀ x : State, x.Fits depth s →
      Reaches s.limit s.ending (x.facing (.expression least) ts) (x.reads p)
  | .field before => ∀ x : State, x.Fits depth s →
      Reaches s.limit s.ending (x.facing (.field before) ts) (x.reads p)
  | .fields => ∀ outer : Surroundings, s = outer.within Bracket.brace.awaited →
      ∃ opening, p.value = bracket .brace opening p.value.children ∧
        ∀ x : State, x.Fits depth outer → Reaches s.limit s.ending (x.facing .operand ts)
          (({ x with closers := s.closers }.reporting p.diagnostics).facing
            (.fields opening p.value.children) p.rest)
  | .inside b => ∀ outer : Surroundings, s = outer.within b.awaited → ∀ x : State,
      x.Fits depth outer →
        Reaches s.limit s.ending (x.facing .operand ts) (x.reads (p.closing outer b))
  | .statement => ∀ x : State, x.Fits depth s →
      Reaches s.limit s.ending (x.facing .statement ts) (x.reads p)

theorem named?_eq_some {mark : TokenKind} {name u : Token} (hn : name.kind = .identifier)
    (hu : u.kind = mark) (ts : List Token) : named? mark (name :: u :: ts) = some (name, ts) :=
  if_pos ⟨hn, hu⟩

theorem named?_eq_none {mark : TokenKind} {ts : List Token} (h : ¬ startsNamed mark ts) :
    named? mark ts = none := by
  unfold named?
  split
  · exact if_neg (by simpa [startsNamed] using h)
  · rfl

/-- A bracket reaches to the end of what is added to it. -/
theorem adding_value_eq_bracket {p : Parsed SyntaxTree} {opening : Token}
    (h : p.value = bracket .brace opening p.value.children) (more : Parsed (List SyntaxTree)) :
    (p.adding more).value = bracket .brace opening (p.adding more).value.children := by
  have hspan : p.value.span = ⟨opening.span.start,
      (p.value.children.getLast?.map (·.span.stop)).getD opening.span.stop⟩ :=
    congrArg SyntaxTree.span h
  simp only [Parsed.adding, bracket, SyntaxTree.children_node, hspan, List.getLast?_append]
  cases more.value.getLast? <;> rfl

section Steps
variable {x : State} {depth : Nat} {s : Surroundings} {ts : List Token}

theorem State.Fits.inside (h : x.Fits depth s) (f : Frame) : (x.inside f).Fits depth s :=
  ⟨h.depth_eq, h.closers_eq⟩

theorem State.Fits.reporting (h : x.Fits depth s) (ds : List Diagnostic) :
    (x.reporting ds).Fits depth s := ⟨h.depth_eq, h.closers_eq⟩

theorem State.Fits.surroundings (h : x.Fits depth s) : x.surroundings s.limit s.ending = s := by
  rw [State.surroundings, h.closers_eq]

theorem State.Fits.surroundings_facing (h : x.Fits depth s) (task : Task) (ts : List Token) :
    (x.facing task ts).surroundings s.limit s.ending = s := h.surroundings

/-- Where no operand starts, one is missing or what stands in its place is skipped. -/
theorem step_operand_of_not_startsOperand (hx : x.Fits depth s) (ho : ¬ startsOperand ts) :
    (x.facing .operand ts).step s.limit s.ending =
      some (x.reads (if s.atSync ts then s.missing .missingExpression ts
        else s.recover (.unexpected (.ofHead ts)) ts)) := by
  have hsurroundings := hx.surroundings_facing .operand ts
  refine congrArg some ?_
  rw [State.stepOperand, hsurroundings]
  cases ts with
  | nil => rfl
  | cons t ts =>
    rw [startsOperand_cons] at ho
    simp only [State.facing]
    split
    case h_8 => exact (apply_ite x.reads _ _ _).symm
    all_goals
      next hk => exact absurd (by rw [hk]; rfl) ho

theorem State.resumeOperations_eq_left {least : Nat} (t : SyntaxTree)
    (hn : NoOperator least x.rest) :
    x.resumeOperations least t = { x with task := .value t, depth := x.depth - 1 } := by
  unfold resumeOperations
  cases hrest : x.rest with
  | nil => rfl
  | cons u more =>
    simp only
    split
    · rfl
    · next operator hu => exact if_pos (hn u (by simp [hrest]) operator hu)

/-- What a bracket reports comes behind what has been reported inside. -/
theorem State.reads_closing (x : State) (outer : Surroundings) (b : Bracket) (value : SyntaxTree)
    (ds : List Diagnostic) (rest : List Token) :
    x.reads (Parsed.closing outer b ⟨value, ds, rest⟩) =
      (x.reporting ds).reads (Parsed.closing outer b ⟨value, [], rest⟩) := by
  simp only [Parsed.closing, reads_append, List.nil_append]

section Brackets
variable {outer : Surroundings} {b : Bracket}

theorem State.Fits.of_within (h : x.Fits depth outer) :
    State.Fits depth (outer.within b.awaited)
      { x with closers := (outer.within b.awaited).closers } :=
  ⟨h.depth_eq, rfl⟩

/-- Where the closers are those inside of a bracket, the bracket is closed as the parser does. -/
theorem State.closes_eq (hx : x.closers = (outer.within b.awaited).closers) (opening : Token)
    (trees : List SyntaxTree) :
    x.closes outer.limit outer.ending b opening trees =
      { x with closers := outer.closers }.reads
        (Parsed.closing outer b ⟨bracket b opening trees, [], x.rest⟩) := by
  have hdrop : x.closers.drop b.awaited.length = outer.closers := by
    rw [hx, Surroundings.within, List.drop_left]
  rw [closes, hdrop]
  rfl

variable {t : Token} {p : Parsed SyntaxTree}

/-- A group is read when the expression inside it is. -/
theorem reaches_group (ht : t.kind = .openParen) (hx : x.Fits depth outer)
    (body : ∀ y : State, y.Fits depth (outer.within Bracket.paren.awaited) →
      Reaches outer.limit outer.ending (y.facing (.expression lowestPrecedence) ts) (y.reads p)) :
    let more := ExpressionParser.leftover (outer.within Bracket.paren.awaited) p.rest
    Reaches outer.limit outer.ending (x.facing .operand (t :: ts))
      (x.reads (Parsed.closing outer .paren
        ⟨bracket .paren t (p.value :: more.value), p.diagnostics ++ more.diagnostics,
          more.rest⟩)) := by
  intro more
  let y : State := { x with closers := (outer.within Bracket.paren.awaited).closers }
  have hy : y.Fits depth (outer.within Bracket.paren.awaited) := hx.of_within
  have hopen : (x.facing .operand (t :: ts)).step outer.limit outer.ending =
      some ((y.inside (.group t)).facing (.expression lowestPrecedence) ts) := by
    simp only [State.step, State.facing, State.stepOperand, ht, hx.closers_eq]
    rfl
  let behind := (y.reporting (p.diagnostics ++ more.diagnostics)).facing (.value p.value) more.rest
  have hclose : ((y.inside (.group t)).reads p).step outer.limit outer.ending =
      some (behind.closes outer.limit outer.ending .paren t (p.value :: more.value)) := by
    simp only [behind, State.reporting_append]
    rfl
  refine .head hopen ((body _ (hy.inside (.group t))).tail ?_)
  rw [hclose, State.closes_eq rfl, x.reads_closing]
  simp only [behind, y, State.reads, State.reporting, State.facing, hx.closers_eq]

variable {opening : Token} {trees : List SyntaxTree} {rest : List Token}

/-- Behind its last field a product is closed. -/
theorem reaches_product (hx : x.Fits depth outer)
    (he : (outer.within Bracket.brace.awaited).endsFields rest) (opening : Token)
    (trees : List SyntaxTree) (ds : List Diagnostic) :
    Reaches outer.limit outer.ending
      (({ x with closers := (outer.within Bracket.brace.awaited).closers }.reporting ds).facing
        (.fields opening trees) rest)
      (x.reads (Parsed.closing outer .brace ⟨bracket .brace opening trees, ds, rest⟩)) := by
  let y : State := { x with closers := (outer.within Bracket.brace.awaited).closers }
  let behind := (y.reporting ds).facing (.fields opening trees) rest
  have hclose : behind.step outer.limit outer.ending =
      some (behind.closes outer.limit outer.ending .brace opening trees) :=
    congrArg some (if_pos he)
  refine .single ?_
  rw [hclose, State.closes_eq rfl, x.reads_closing]
  simp only [behind, y, State.reads, State.reporting, State.facing, hx.closers_eq]

/-- Where fields go on, the next one is read. -/
theorem reaches_field (hx : x.Fits depth s) (he : ¬ s.endsFields ts)
    (field : ∀ y : State, y.Fits depth s →
      Reaches s.limit s.ending (y.facing (.field trees) ts) (y.reads p)) :
    Reaches s.limit s.ending (x.facing (.fields opening trees) ts)
      ((x.inside (.product opening trees)).reads p) := by
  have hsurroundings := hx.surroundings_facing (.fields opening trees) ts
  have hstep : (x.facing (.fields opening trees) ts).step s.limit s.ending =
      some ((x.inside (.product opening trees)).facing (.field trees) ts) :=
    congrArg some (if_neg (by rwa [hsurroundings]))
  exact .head hstep (field _ (hx.inside _))

section Fields
variable {q : Parsed SyntaxTree}

theorem step_product_comma (hr : q.rest = t :: rest) (ht : t.kind = .comma) :
    ((x.inside (.product opening trees)).reads q).step s.limit s.ending =
      some ((x.reporting q.diagnostics).facing (.fields opening (trees ++ [q.value])) rest) := by
  have hc : headKind? (x.reads q).rest = some .comma := by
    rw [show (x.reads q).rest = t :: rest from hr, headKind?_cons, ht]
  have hstep : (x.reads q).resumeProduct s.limit s.ending opening (trees ++ [q.value]) = _ :=
    if_pos hc
  rw [show (x.reads q).rest.tail = rest by rw [show (x.reads q).rest = t :: rest from hr]; rfl]
    at hstep
  exact congrArg some hstep

theorem step_product_last (hx : x.Fits depth s) (hc : headKind? q.rest ≠ some .comma)
    (hs : s.atSync q.rest) :
    ((x.inside (.product opening trees)).reads q).step s.limit s.ending =
      some ((x.reporting q.diagnostics).facing (.fields opening (trees ++ [q.value])) q.rest) := by
  have hsurroundings : (x.reads q).surroundings s.limit s.ending = s := hx.surroundings
  have hstep : (x.reads q).resumeProduct s.limit s.ending opening (trees ++ [q.value]) = _ :=
    (if_neg hc).trans (if_pos (by rwa [hsurroundings]))
  exact congrArg some hstep

theorem step_product_skip (hx : x.Fits depth s) (hc : headKind? q.rest ≠ some .comma)
    (hs : ¬ s.atSync q.rest) :
    let skipped := s.recover (.afterField (.ofHead q.rest)) q.rest
    ((x.inside (.product opening trees)).reads q).step s.limit s.ending =
      some ((x.reporting (q.diagnostics ++ skipped.diagnostics)).facing
        (.fields opening (trees ++ [q.value, skipped.value])) skipped.rest) := by
  have hsurroundings : (x.reads q).surroundings s.limit s.ending = s := hx.surroundings
  have hstep : (x.reads q).resumeProduct s.limit s.ending opening (trees ++ [q.value]) = _ :=
    (if_neg hc).trans (if_neg (by rwa [hsurroundings]))
  intro skipped
  rw [hsurroundings] at hstep
  rw [State.reporting_append, List.append_cons]
  exact congrArg some hstep

/-- Behind the fields in front of it a field is read, inside the product. -/
theorem Simulates.exists_field (hp : Simulates depth s ts p .fields) (he : ¬ s.endsFields p.rest)
    (hq : Simulates depth s p.rest q (.field p.value.children))
    (ho : s = outer.within Bracket.brace.awaited) :
    ∃ opening, p.value = bracket .brace opening p.value.children ∧ ∀ x : State,
      x.Fits depth outer → ∃ y : State, y.Fits depth s ∧
        y = { x with closers := s.closers }.reporting p.diagnostics ∧
        Reaches s.limit s.ending (x.facing .operand ts)
          ((y.inside (.product opening p.value.children)).reads q) := by
  obtain ⟨opening, hvalue, hbefore⟩ := hp outer ho
  refine ⟨opening, hvalue, fun x hx => ?_⟩
  have hwithin : State.Fits depth s { x with closers := s.closers } := ho ▸ hx.of_within
  have hy := hwithin.reporting p.diagnostics
  exact ⟨_, hy, rfl, (hbefore x hx).trans (reaches_field hy he hq)⟩

end Fields

end Brackets

end Steps

end Machine

open Machine SyntaxTree ExpressionParser

/-- What the parser reads by its rules the machine reads step by step. -/
theorem Parses.simulates {depth : Nat} {s : Surroundings} {part : Part} {ts : List Token}
    {p : Parsed SyntaxTree} (h : Parses depth s part ts p) : Simulates depth s ts p part := by
  induction h with
  | @literal _ s t ts kind ht =>
    intro x hx
    refine .single ?_
    simp only [State.step, State.facing, State.stepOperand]
    cases hk : t.kind <;> rw [hk] at ht <;> cases ht <;> rfl
  | @name _ s t ts ht ha =>
    intro x hx
    have hn : named? .arrow (t :: ts) = none := by
      apply named?_eq_none
      cases ts with
      | nil => simp [startsNamed]
      | cons u ts => simpa [startsNamed, ht] using ha
    refine .single ?_
    simp only [State.step, State.facing, State.stepOperand, ht, hn]
    rfl
  | invalid ht =>
    intro x hx
    refine .single ?_
    simp only [State.step, State.facing, State.stepOperand, ht]
    rfl
  | @lambda _ s t arrow ts p ht ha body ih =>
    intro x hx
    have hstep : (x.facing .operand (t :: arrow :: ts)).step s.limit s.ending =
        some ((x.inside (.lambda t)).facing (.expression lowestPrecedence) ts) := by
      simp only [State.step, State.facing, State.stepOperand, ht, named?_eq_some ht ha]
      rfl
    exact .head hstep (.tail (ih _ (hx.inside (.lambda t))) rfl)
  | @closed _ s b ts p t rest inside hr ht ih =>
    intro x hx
    rw [← Parsed.closing_eq_closed _ hr ht]
    exact ih s rfl x hx
  | @unclosed _ s b ts p inside hr ih =>
    intro x hx
    rw [← Parsed.closing_eq_unclosed _ hr]
    exact ih s rfl x hx
  | @missing _ s ts ho hs =>
    intro x hx
    have hstep := step_operand_of_not_startsOperand hx ho
    rw [if_pos hs] at hstep
    exact .single hstep
  | @unexpected _ s ts ho hs =>
    intro x hx
    have hstep := step_operand_of_not_startsOperand hx ho
    rw [if_neg hs] at hstep
    exact .single hstep
  | @group _ s t ts p ht body hs ih =>
    rintro outer rfl x hx
    have hreach := reaches_group ht hx ih
    rw [show ExpressionParser.leftover _ p.rest = ⟨[], [], p.rest⟩ from if_pos hs] at hreach
    simp only [List.append_nil] at hreach
    exact hreach
  | @leftover _ s t ts p q ht body hs hq ih =>
    rintro outer rfl x hx
    subst hq
    have hreach := reaches_group ht hx ih
    rw [show ExpressionParser.leftover _ p.rest = _ from if_neg hs] at hreach
    exact hreach
  | @product _ s t ts ht =>
    rintro outer rfl
    refine ⟨t, rfl, fun x hx => .single ?_⟩
    simp only [State.step, State.facing, State.stepOperand, ht, hx.closers_eq]
    simp [State.reporting, Surroundings.within]
  | @comma _ s ts p q t rest before he field hr ht ihb ihf =>
    intro outer ho
    obtain ⟨opening, hvalue, hread⟩ := ihb.exists_field he ihf ho
    refine ⟨opening, adding_value_eq_bracket hvalue _, fun x hx => ?_⟩
    obtain ⟨y, hy, rfl, hreach⟩ := hread x hx
    rw [Parsed.adding, State.reporting_append]
    exact hreach.tail (step_product_comma hr ht)
  | @skip _ s ts p q r before he field hc hs hr ihb ihf =>
    intro outer ho
    obtain ⟨opening, hvalue, hread⟩ := ihb.exists_field he ihf ho
    refine ⟨opening, adding_value_eq_bracket hvalue _, fun x hx => ?_⟩
    obtain ⟨y, hy, rfl, hreach⟩ := hread x hx
    subst hr
    rw [Parsed.adding, State.reporting_append]
    exact hreach.tail (step_product_skip hy hc hs)
  | @lastField _ s ts p q before he field hc hs ihb ihf =>
    intro outer ho x hx
    obtain ⟨opening, hvalue, hread⟩ := ihb.exists_field he ihf ho
    obtain ⟨y, hy, rfl, hreach⟩ := hread x hx
    subst ho
    have hends : (outer.within Bracket.brace.awaited).endsFields q.rest := by
      simp [Surroundings.endsFields, hs, hc]
    have hclose := reaches_product hx hends opening (p.value.children ++ [q.value])
      (p.diagnostics ++ q.diagnostics)
    have hlast := hreach.tail (step_product_last hy hc hs)
    rw [← State.reporting_append] at hlast
    have hvalue' := adding_value_eq_bracket hvalue ⟨[q.value], q.diagnostics, q.rest⟩
    rw [Parsed.adding_value_children] at hvalue'
    rw [← hvalue'] at hclose
    exact hlast.trans hclose
  | @noField _ s ts p before he ih =>
    rintro outer rfl x hx
    obtain ⟨opening, hvalue, hbefore⟩ := ih outer rfl
    have hclose := reaches_product hx he opening p.value.children p.diagnostics
    rw [← hvalue] at hclose
    exact (hbefore x hx).trans hclose
  | @field _ s before t colon ts p ht hc value ih =>
    intro x hx
    have hstep : (x.facing (.field before) (t :: colon :: ts)).step s.limit s.ending =
        some ((x.inside (.field before t)).facing (.expression lowestPrecedence) ts) := by
      simp only [State.step, State.facing, State.stepField, named?_eq_some ht hc]
      rfl
    refine .head hstep (.tail (ih _ (hx.inside (.field before t))) ?_)
    rw [State.reads_append]
    rfl
  | notField hn =>
    intro x hx
    refine .single ?_
    simp only [State.step, State.facing, State.stepField, named?_eq_none hn]
    exact congrArg (fun s => some (x.reads (ExpressionParser.noField s _))) hx.surroundings
  | function operand ih => exact fun x hx => ih _ (hx.inside .calls)
  | @call _ s ts p q function ho argument ihf iha =>
    intro x hx
    have hstep : ((x.inside .calls).reads p).step s.limit s.ending =
        some (((x.reporting p.diagnostics).inside (.call p.value)).facing .operand p.rest) :=
      congrArg some (if_pos ho)
    have hargument := iha _ ((hx.reporting p.diagnostics).inside (.call p.value))
    refine (ihf x hx).trans (.head hstep (hargument.tail ?_))
    rw [State.reads_append]
    rfl
  | @application _ s ts p calls ho ih =>
    exact fun x hx => (ih x hx).tail (congrArg some (if_neg ho))
  | @unary _ s ts p application hu ih =>
    intro x hx
    have hstep : (x.facing .unary ts).step s.limit s.ending =
        some ((x.inside .calls).facing .operand ts) := by
      cases ts with
      | nil => rfl
      | cons t ts => exact congrArg some (if_neg hu)
    exact .head hstep (ih x hx)
  | @negate _ s t ts p ht operand ih =>
    intro x hx
    have hstep : (x.facing .unary (t :: ts)).step s.limit s.ending =
        some ((x.inside (.negate t)).facing .unary ts) := congrArg some (if_pos ht)
    exact .head hstep (.tail (ih _ (hx.inside (.negate t))) rfl)
  | @first _ s least ts p operand ih =>
    exact fun x hx => ih _ (hx.inside (.operations least))
  | @operation _ s least ts p t rest operator q left hr ht hl right ihl ihr =>
    intro x hx
    let y := (x.reporting p.diagnostics).inside (.operation least p.value t)
    have hstep : ((x.inside (.operations least)).reads p).step s.limit s.ending =
        some (y.facing (.expression operator.rightLeast) rest) := by
      have hlt : ¬ operator.precedence < least := Nat.not_lt.2 hl
      simp only [State.step, State.reads, State.inside, State.resume, State.resumeOperations, hr,
        ht, if_neg hlt]
      rfl
    have hright := ihr y ((hx.reporting _).inside _)
    refine (ihl x hx).trans (.head hstep (hright.tail ?_))
    rw [State.reads_append]
    rfl
  | @expression depth s least ts p operations hn ih =>
    intro x hx
    have hlt : ¬ s.limit ≤ x.depth := by
      have := hx.depth_eq
      omega
    let y : State := { x with depth := x.depth + 1 }
    have hstep : (x.facing (.expression least) ts).step s.limit s.ending =
        some ((y.inside (.operations least)).facing .unary ts) := congrArg some (if_neg hlt)
    have hy : y.Fits depth s := ⟨by rw [← hx.depth_eq, Nat.add_right_comm]; rfl, hx.closers_eq⟩
    exact .head hstep ((ih y hy).tail
      (congrArg some (State.resumeOperations_eq_left (x := y.reads p) p.value hn)))
  | @tooDeep s least ts =>
    intro x hx
    have hle : s.limit ≤ x.depth := Nat.le_of_eq hx.depth_eq.symm
    have hstep : (x.facing (.expression least) ts).step s.limit s.ending =
        some (x.reads ((x.surroundings s.limit s.ending).recover (.tooDeep s.limit) ts)) :=
      congrArg some (if_pos hle)
    rw [hx.surroundings] at hstep
    exact .single hstep
  | @binding _ s t mark ts p ht hm value ih =>
    intro x hx
    have hstep : (x.facing .statement (t :: mark :: ts)).step s.limit s.ending =
        some ((x.inside (.binding t)).facing (.expression lowestPrecedence) ts) := by
      simp only [State.step, State.facing, State.stepStatement, named?_eq_some ht hm]
      rfl
    exact .head hstep (.tail (ih _ (hx.inside (.binding t))) rfl)
  | @bare _ s ts p hn value ih =>
    intro x hx
    have hstep : (x.facing .statement ts).step s.limit s.ending =
        some (x.facing (.expression lowestPrecedence) ts) := by
      simp only [State.step, State.facing, State.stepStatement, named?_eq_none hn]
    exact .head hstep (ih x hx)

end LenSyntax
