import LenSyntax.Proofs.Grammar.Pointing
import LenSyntax.Proofs.Machine.Cursor
import LenSyntax.Proofs.Machine.Program

/-! The cursor stays where it should. Whatever stands behind the first end of the input, the parser
with a cursor does step by step what the machine does that sees nothing of it. So it never moves the
cursor in error, and comes to an end with the program that is parsed. -/
namespace LenSyntax

open Machine SyntaxTree ExpressionParser

namespace Machine

/-- Where a token does not fit, the first token skipped is that token, and no semicolon. -/
def Skip.Fruitful (s : Skip) : Prop :=
  s.fault.TellsFound →
    ∃ t more, s.passed = t :: more ∧ t.kind ≠ .semicolon ∧ t.kind ≠ .endOfInput

/-- The same state where more tokens are left. -/
def State.continued (y : State) (behind : List Token) : State :=
  { y with rest := y.rest ++ behind }

/-- The same state in front of given tokens. -/
def State.before (y : State) (rest : List Token) : State := { y with rest }

theorem named?_of_startsNamed {mark : TokenKind} {ts : List Token} (h : startsNamed mark ts) :
    ∃ name u more, ts = name :: u :: more ∧ named? mark ts = some (name, more) := by
  match ts with
  | name :: u :: more =>
    have hkinds : name.kind = .identifier ∧ u.kind = mark := by simpa [startsNamed] using h
    exact ⟨name, u, more, rfl, if_pos hkinds⟩

theorem exists_cons_of_headKind? {k : TokenKind} {ts : List Token} (h : headKind? ts = some k) :
    ∃ t more, ts = t :: more ∧ t.kind = k := by
  cases ts with
  | nil => cases h
  | cons t more => exact ⟨t, more, rfl, Option.some_inj.1 h⟩

/-- The machine stops nowhere but at the end of what it sees. -/
theorem State.rest_eq_nil_of_step_eq_none {limit : Nat} {ending : Span} {y : State}
    (h : y.step limit ending = none) : y.rest = [] := by
  unfold State.step at h
  split at h
  · split at h
    · assumption
    · cases h
  all_goals first
    | cases h
    | split at h <;> cases h

namespace Cursor

/-- A cursor shows a state of the machine that sees what is in front of the end of the input: behind
the tokens left to the machine stand those that it does not see. All skips so far have been
fruitful. -/
structure Shows (behind : List Token) (x : Cursor) (y : State) : Prop where
  toState_eq : x.toState = y.continued behind
  kind_ne : ∀ t ∈ y.rest, t.kind ≠ .endOfInput
  fruitful : ∀ skip ∈ x.skips, skip.Fruitful

variable {limit : Nat} {e : Token} {more : List Token} {x : Cursor} {y : State}

namespace Shows

section Fields
variable {ending : Span} {behind : List Token} (h : x.Shows behind y)
include h

theorem rest_eq : x.rest = y.rest ++ behind := congrArg State.rest h.toState_eq
theorem task_eq : x.task = y.task := by rw [h.toState_eq]; rfl
theorem frames_eq : x.frames = y.frames := by rw [h.toState_eq]; rfl
theorem depth_eq : x.depth = y.depth := by rw [h.toState_eq]; rfl
theorem closers_eq : x.closers = y.closers := by rw [h.toState_eq]; rfl

/-- What changes a state alike whatever stands behind what is left. -/
theorem update (f : State → State) (hf : f (y.continued behind) = (f y).continued behind)
    (hrest : (f y).rest <:+ y.rest) :
    ({ x with toState := f x.toState } : Cursor).Shows behind (f y) :=
  ⟨(congrArg f h.toState_eq).trans hf, fun t ht => h.kind_ne t (hrest.subset ht), h.fruitful⟩

/-- In front of the tokens that are left a state is where it was. -/
theorem before {ts : List Token} (hts : y.rest = ts) : x.Shows behind (y.before ts) := hts ▸ h

theorem turns (task : Task) : (x.turns task).Shows behind { y with task } :=
  h.update (fun y => { y with task }) rfl List.suffix_rfl

theorem enters (frame : Frame) (task : Task) :
    (x.enters frame task).Shows behind (y.enters frame task y.rest) :=
  h.update (fun y => y.enters frame task y.rest) rfl List.suffix_rfl

theorem returns (t : SyntaxTree) : (x.returns t).Shows behind { y with task := .value t } :=
  h.turns (.value t)

theorem states (ts : List SyntaxTree) : (x.states ts).Shows behind (y.stating ts) :=
  h.update (State.stating · ts) rfl List.suffix_rfl

theorem reports (d : Diagnostic) :
    (x.reports d).Shows behind { y with diagnostics := y.diagnostics ++ [d] } :=
  h.update (fun y => { y with diagnostics := y.diagnostics ++ [d] }) rfl List.suffix_rfl

/-- The next token is taken, since it is not the end of the input. -/
theorem advance {t : Token} {ts : List Token} (hr : y.rest = t :: ts) :
    ∃ z, x.advance = .ok (t, z) ∧ z.Shows behind (y.before ts) := by
  have hrest : x.rest = t :: (ts ++ behind) := by rw [h.rest_eq, hr]; rfl
  have ht : t.kind ≠ .endOfInput := h.kind_ne t (hr ▸ List.mem_cons_self)
  refine ⟨{ x with rest := ts ++ behind }, ?_, ?_⟩
  · rw [Cursor.advance, hrest]
    exact if_neg ht
  · refine ⟨?_, fun t ht => h.kind_ne t (hr ▸ List.mem_cons_of_mem _ ht), h.fruitful⟩
    exact congrArg (fun y : State => { y with rest := ts ++ behind }) h.toState_eq

theorem advanceNamed {name u : Token} {ts : List Token} (hr : y.rest = name :: u :: ts) :
    ∃ z, x.advanceNamed = .ok (name, z) ∧ z.Shows behind (y.before ts) := by
  obtain ⟨v, hv, hvs⟩ := h.advance hr
  obtain ⟨z, hz, hzs⟩ := hvs.advance rfl
  refine ⟨z, ?_, hzs⟩
  rw [Cursor.advanceNamed, hv]
  change (Except.bind v.advance fun p => pure (name, p.2)) = _
  rw [hz]
  rfl

/-- A bracket is opened. -/
theorem opens {t : Token} {ts : List Token} (hr : y.rest = t :: ts) (b : Bracket) :
    ∃ z, x.advance = .ok (t, z) ∧
      Shows behind { z with closers := b.awaited ++ z.closers }
        { y.before ts with closers := b.awaited ++ y.closers } := by
  obtain ⟨z, hz, hzs⟩ := h.advance hr
  exact ⟨z, hz, hzs.update (fun y => { y with closers := b.awaited ++ y.closers }) rfl
    List.suffix_rfl⟩

/-- An expression is left. -/
theorem leaves (t : SyntaxTree) :
    Shows behind { x.returns t with depth := x.depth - 1 }
      { y with task := .value t, depth := y.depth - 1 } :=
  h.update (fun y => { y with task := .value t, depth := y.depth - 1 }) rfl List.suffix_rfl

theorem resumeField (before : List SyntaxTree) (name : Token) (t : SyntaxTree) :
    (x.resumeField before name t).Shows behind
      (y.resume limit ending t (.field before name)) := by
  simp only [Cursor.resumeField, State.resume]
  split
  · exact (h.reports _).returns _
  · rw [List.append_nil]
    exact h.returns _

end Fields

section Looks
variable (he : e.kind = .endOfInput) (h : x.Shows (e :: more) y)
include h

theorem peek_eq : x.peek 0 = y.rest.headD e := by
  rw [peek, h.rest_eq]
  cases y.rest <;> rfl

theorem peek_cons {t : Token} {ts : List Token} (hr : y.rest = t :: ts) : x.peek 0 = t := by
  rw [h.peek_eq, hr]
  rfl

theorem span_eq (limit : Nat) :
    (x.peek 0).span = (y.surroundings limit e.span).here y.rest := by
  rw [h.peek_eq]
  cases y.rest <;> rfl

include he

theorem kind_eq_iff {k : TokenKind} (hk : k ≠ .endOfInput) :
    (x.peek 0).kind = k ↔ headKind? y.rest = some k := by
  rw [h.peek_eq]
  cases y.rest with
  | nil => simp [he, hk.symm]
  | cons t ts => simp

theorem atEnd_iff : x.atEnd ↔ y.rest = [] := by
  rw [atEnd, h.peek_eq, decide_eq_true_iff]
  cases hr : y.rest with
  | nil => simp [he]
  | cons t ts => simpa using h.kind_ne t (hr ▸ List.mem_cons_self)

theorem atSync_eq (limit : Nat) :
    x.atSync = (y.surroundings limit e.span).atSync y.rest := by
  rw [atSync, h.peek_eq, h.closers_eq]
  cases hr : y.rest with
  | nil => simp [he, Surroundings.atSync]
  | cons t ts =>
    have ht := h.kind_ne t (hr ▸ List.mem_cons_self)
    simp [ht, Surroundings.atSync, Surroundings.awaits]
    rfl

theorem found_eq : x.found = .ofHead y.rest := by
  rw [found]
  cases hr : y.rest with
  | nil => rw [if_pos ((h.atEnd_iff he).2 hr)]; rfl
  | cons t ts =>
    rw [if_neg (by simp [h.atEnd_iff he, hr]), h.peek_cons hr]
    rfl

theorem atNamed_eq {mark : TokenKind} (hm : mark ≠ .endOfInput) :
    x.atNamed mark = startsNamed mark y.rest := by
  rw [atNamed, peek, peek, h.rest_eq]
  match y.rest with
  | [] => simp [startsNamed, he]
  | [t] => simp [startsNamed, he, hm.symm]
  | t :: u :: ts => simp [startsNamed]

/-- Skipping stops where it would if nothing stood behind the end of the input. -/
theorem skip {s : Surroundings} (hs : s.closers = y.closers) (nesting : Nat) (stop : Position)
    (passed : List Token) :
    ∃ w z, x.skip nesting stop passed = .ok ((s.skip nesting stop y.rest).1, passed ++ w, z) ∧
      z.Shows (e :: more) (y.before (s.skip nesting stop y.rest).2) ∧
      y.rest = w ++ (s.skip nesting stop y.rest).2 := by
  -- by induction on what the machine sees: where nothing is left of it, the input ends
  generalize hts : y.rest = ts
  induction ts generalizing x y nesting stop passed with
  | nil =>
    have hend : x.atEnd := (h.atEnd_iff he).2 hts
    refine ⟨[], x, ?_, ?_, rfl⟩
    · rw [Cursor.skip, if_pos (.inl hend), Surroundings.skip, List.append_nil]
    · exact h.before hts
  | cons t ts ih =>
    have hstop : (x.atEnd ∨ (x.peek 0).kind = .semicolon ∨
        nesting = 0 ∧ (x.peek 0).kind ∈ x.closers) ↔
          t.kind = .semicolon ∨ nesting = 0 ∧ t.kind ∈ s.closers := by
      simp [h.atEnd_iff he, h.peek_cons hts, hts, h.closers_eq, hs]
    by_cases ht : t.kind = .semicolon ∨ nesting = 0 ∧ t.kind ∈ s.closers
    · rw [Cursor.skip, if_pos (hstop.2 ht), Surroundings.skip, if_pos ht]
      exact ⟨[], x, by rw [List.append_nil], h.before hts, rfl⟩
    · obtain ⟨v, hv, hvs⟩ := h.advance hts
      obtain ⟨w, z, hz, hzs, hw⟩ :=
        ih hvs hs (Surroundings.nestBehind nesting t.kind) t.span.stop (passed ++ [t]) rfl
      rw [Cursor.skip, if_neg (mt hstop.1 ht), Surroundings.skip, if_neg ht]
      refine ⟨t :: w, z, ?_, hzs, by rw [List.cons_append, ← hw]⟩
      split
      · next hadvance => rw [hv] at hadvance; cases hadvance
      · next hadvance =>
        rw [hv] at hadvance
        cases hadvance
        rw [hz, List.append_assoc]
        rfl

/-- Whatever is skipped, it is what the machine skips. It holds the token that does not fit, unless
that is a synchronization point. -/
theorem recover (fault : SyntaxFault) {ts : List Token} (hr : y.rest = ts)
    (hf : fault.TellsFound → ¬ (y.surroundings limit e.span).atSync ts) :
    let r := (y.surroundings limit e.span).recover fault ts
    ∃ z, x.recover fault = .ok (r.value, z) ∧
      z.Shows (e :: more) ((y.before r.rest).reporting r.diagnostics) := by
  subst hr
  intro r
  have hspan := h.span_eq limit
  have hclosers : (y.surroundings limit e.span).closers = y.closers := rfl
  obtain ⟨w, z, hz, hzs, hw⟩ :=
    (h.reports (.error fault.message (x.peek 0).span)).skip he hclosers 0 (x.peek 0).span.start []
  rw [hspan] at hz hzs hw
  have hpassed : y.rest = w ++ r.rest := hw
  refine ⟨{ z with skips := z.skips ++ [⟨fault, w⟩] }, ?_, hzs.toState_eq, hzs.kind_ne, ?_⟩
  · simp only [Cursor.recover, hspan, hz]
    rfl
  · intro skip hskip
    rw [List.mem_append, List.mem_singleton] at hskip
    obtain hskip | rfl := hskip
    · exact hzs.fruitful skip hskip
    · intro htells
      have hlt := Surroundings.length_recover_lt fault (hf htells)
      -- if nothing had been passed, as many tokens would be left as there were
      cases w with
      | nil => exact absurd (congrArg List.length hpassed) (Nat.ne_of_gt hlt)
      | cons t w =>
        have hhead : y.rest = t :: (w ++ r.rest) := hpassed
        have hsync := hf htells
        rw [hhead] at hsync
        exact ⟨t, w, rfl, Surroundings.kind_ne_semicolon_of_not_atSync hsync,
          h.kind_ne t (hhead ▸ List.mem_cons_self)⟩

omit he in
theorem missing (fault : SyntaxFault) :
    (x.missing fault).Shows (e :: more)
      (y.reads ((y.surroundings limit e.span).missing fault y.rest)) := by
  have hspan := h.span_eq limit
  rw [Cursor.missing, hspan]
  exact (h.reports _).returns _

omit he in
theorem leaf {t : Token} {ts : List Token} (hr : y.rest = t :: ts) (kind : NodeKind) (text : Text) :
    ∃ z, x.leaf kind text = .ok z ∧
      z.Shows (e :: more) (y.reads ⟨node kind text t.span [], [], ts⟩) := by
  obtain ⟨v, hv, hvs⟩ := h.advance hr
  refine ⟨v.returns (node kind text t.span []), ?_, ?_⟩
  · rw [Cursor.leaf, hv]
    rfl
  · rw [State.reads, List.append_nil]
    exact hvs.returns _

/-- A step that recovers returns what has been skipped. -/
theorem recover_returns (fault : SyntaxFault) {ts : List Token} (hr : y.rest = ts)
    (hf : fault.TellsFound → ¬ (y.surroundings limit e.span).atSync ts) :
    ∃ z, (do let (t, z) ← x.recover fault; return z.returns t) = .ok z ∧
      z.Shows (e :: more) (y.reads ((y.surroundings limit e.span).recover fault ts)) := by
  obtain ⟨z, hz, hzs⟩ := h.recover he fault hr hf
  refine ⟨z.returns _, ?_, hzs.returns _⟩
  rw [hz]
  rfl

theorem closes (b : Bracket) (opening : Token) (trees : List SyntaxTree) :
    ∃ z, x.closes b opening trees = .ok z ∧
      z.Shows (e :: more) (y.closes limit e.span b opening trees) := by
  have houtside := h.update (fun y => { y with closers := y.closers.drop b.awaited.length }) rfl
    List.suffix_rfl
  by_cases hc : headKind? y.rest = some b.closer
  · obtain ⟨t, ts, hr, ht⟩ := exists_cons_of_headKind? hc
    obtain ⟨z, hz, hzs⟩ := houtside.advance hr
    refine ⟨z.returns (node b.node [] ⟨opening.span.start, t.span.stop⟩ trees), ?_, ?_⟩
    · rw [Cursor.closes, if_pos ((houtside.kind_eq_iff he (by cases b <;> decide)).2 hc), hz]
      rfl
    · rw [State.closes, Parsed.closing_eq_closed _ hr ht, State.reads, List.append_nil]
      exact hzs.returns _
  · refine ⟨_, if_neg (mt (houtside.kind_eq_iff he (by cases b <;> decide)).1 hc), ?_⟩
    rw [State.closes, Parsed.closing_eq_unclosed _ hc, houtside.span_eq limit]
    exact (houtside.reports _).returns _

theorem stepStatement :
    ∃ z, x.stepStatement = .ok z ∧ z.Shows (e :: more) y.stepStatement := by
  have hlook : x.atNamed .bind = startsNamed .bind y.rest := h.atNamed_eq he (by decide)
  by_cases hn : startsNamed .bind y.rest
  · obtain ⟨name, u, ts, hr, hnamed⟩ := named?_of_startsNamed hn
    obtain ⟨z, hz, hzs⟩ := h.advanceNamed hr
    refine ⟨z.enters (.binding name) (.expression lowestPrecedence), ?_, ?_⟩
    · rw [Cursor.stepStatement, if_pos (hlook.trans hn), hz]
      rfl
    · rw [State.stepStatement, hnamed]
      exact hzs.enters _ _
  · refine ⟨_, if_neg (hlook ▸ hn), ?_⟩
    rw [State.stepStatement, named?_eq_none hn]
    exact h.turns _

theorem stepExpression (least : Nat) :
    ∃ z, x.stepExpression limit least = .ok z ∧
      z.Shows (e :: more) (y.stepExpression limit e.span least) := by
  have hdepth := h.depth_eq
  unfold Cursor.stepExpression State.stepExpression
  by_cases hd : limit ≤ y.depth
  · rw [if_pos (hdepth ▸ hd), if_pos hd]
    exact h.recover_returns he _ rfl False.elim
  · rw [if_neg (hdepth ▸ hd), if_neg hd]
    exact ⟨_, rfl, h.update (fun y =>
      { y.enters (.operations least) .unary y.rest with depth := y.depth + 1 }) rfl
      List.suffix_rfl⟩

theorem stepUnary : ∃ z, x.stepUnary = .ok z ∧ z.Shows (e :: more) y.stepUnary := by
  have henters := h.enters .calls .operand
  unfold Cursor.stepUnary State.stepUnary
  cases hr : y.rest with
  | nil =>
    have hu : ¬ (x.peek 0).isUnaryOperator := by
      simp [h.peek_eq, hr, Token.isUnaryOperator, he]
    rw [hr] at henters
    rw [if_neg hu]
    exact ⟨_, rfl, henters⟩
  | cons t ts =>
    rw [hr] at henters
    rw [h.peek_cons hr]
    by_cases hu : t.isUnaryOperator
    · obtain ⟨z, hz, hzs⟩ := h.advance hr
      simp only [if_pos hu, hz]
      exact ⟨_, rfl, hzs.enters (.negate t) .unary⟩
    · simp only [if_neg hu]
      exact ⟨_, rfl, henters⟩

theorem stepOperand :
    ∃ z, x.stepOperand = .ok z ∧ z.Shows (e :: more) (y.stepOperand limit e.span) := by
  have hsync := h.atSync_eq he limit
  have hmissing : (x.missing .missingExpression).Shows (e :: more)
      (y.reads ((y.surroundings limit e.span).missing .missingExpression y.rest)) := h.missing _
  have hfound := h.found_eq he
  cases hr : y.rest with
  | nil =>
    rw [hr] at hsync hmissing
    refine ⟨x.missing .missingExpression, ?_, ?_⟩
    · have hpeek : x.peek 0 = e := by rw [h.peek_eq, hr]; rfl
      simp only [Cursor.stepOperand, hpeek, he]
      exact if_pos hsync
    · simp only [State.stepOperand, hr]
      exact hmissing
  | cons t ts =>
    have hpeek := h.peek_cons hr
    rw [hr] at hsync hmissing hfound
    simp only [Cursor.stepOperand, State.stepOperand, hpeek, hr]
    cases ht : t.kind with
    | number | string | keyword | error => exact h.leaf hr _ _
    | identifier =>
      have hnamed : x.atNamed .arrow = startsNamed .arrow (t :: ts) :=
        hr ▸ h.atNamed_eq he (by decide)
      have harrow : (x.peek 1).kind = .arrow ↔ startsNamed .arrow (t :: ts) := by
        simpa [atNamed, hpeek, ht] using congrArg (· = true) hnamed
      by_cases hn : startsNamed .arrow (t :: ts)
      · obtain ⟨name, u, body, hcons, hnamed?⟩ := named?_of_startsNamed hn
        obtain ⟨z, hz, hzs⟩ := h.advanceNamed (hr.trans hcons)
        simp only [if_pos (harrow.2 hn), hnamed?, hz]
        exact ⟨_, rfl, hzs.enters (.lambda name) (.expression lowestPrecedence)⟩
      · simp only [if_neg (mt harrow.1 hn), named?_eq_none hn]
        exact h.leaf hr _ _
    | openParen =>
      obtain ⟨z, hz, hzs⟩ := h.opens hr .paren
      exact ⟨_, by rw [hz]; rfl, hzs.enters (.group t) (.expression lowestPrecedence)⟩
    | openBrace =>
      obtain ⟨z, hz, hzs⟩ := h.opens hr .brace
      exact ⟨_, by rw [hz]; rfl, hzs.turns (.fields t [])⟩
    | _ =>
      by_cases hs : (y.surroundings limit e.span).awaits t
      · simp only [hsync, Surroundings.atSync, if_pos hs]
        exact ⟨_, rfl, hmissing⟩
      · simp only [hsync, Surroundings.atSync, if_neg hs, hfound]
        exact h.recover_returns he _ hr (fun _ => hs)

theorem stepFields (opening : Token) (trees : List SyntaxTree) :
    ∃ z, x.stepFields opening trees = .ok z ∧
      z.Shows (e :: more) (y.stepFields limit e.span opening trees) := by
  have hsync := h.atSync_eq he limit
  have hends : ((x.peek 0).kind = .closeBrace ∨ x.atSync ∧ (x.peek 0).kind ≠ .comma) ↔
      (y.surroundings limit e.span).endsFields y.rest := by
    rw [h.kind_eq_iff he (by decide), ne_eq, h.kind_eq_iff he (by decide), hsync,
      Surroundings.endsFields]
    simp
  unfold Cursor.stepFields State.stepFields
  by_cases hs : (y.surroundings limit e.span).endsFields y.rest
  · rw [if_pos (hends.2 hs), if_pos hs]
    exact h.closes he .brace opening trees
  · rw [if_neg (mt hends.1 hs), if_neg hs]
    exact ⟨_, rfl, h.enters _ _⟩

theorem stepField (before : List SyntaxTree) :
    ∃ z, x.stepField before = .ok z ∧
      z.Shows (e :: more) (y.stepField limit e.span before) := by
  have hlook : x.atNamed .colon = startsNamed .colon y.rest := h.atNamed_eq he (by decide)
  unfold Cursor.stepField State.stepField
  by_cases hn : startsNamed .colon y.rest
  · obtain ⟨name, u, ts, hr, hnamed⟩ := named?_of_startsNamed hn
    obtain ⟨z, hz, hzs⟩ := h.advanceNamed hr
    rw [if_pos (hlook.trans hn), hnamed, hz]
    exact ⟨_, rfl, hzs.enters (.field before name) (.expression lowestPrecedence)⟩
  · rw [if_neg (hlook ▸ hn), named?_eq_none hn]
    simp only [noField]
    have hsync := h.atSync_eq he limit
    by_cases hs : (y.surroundings limit e.span).atSync y.rest
    · rw [if_pos (hsync.trans hs), if_pos hs]
      exact ⟨_, rfl, h.missing _⟩
    · rw [if_neg (hsync ▸ hs), if_neg hs, h.found_eq he]
      exact h.recover_returns he _ rfl (fun _ => hs)

theorem resumeOperations (least : Nat) (t : SyntaxTree) :
    ∃ z, x.resumeOperations least t = .ok z ∧
      z.Shows (e :: more) (y.resumeOperations least t) := by
  have hleaves := h.leaves t
  unfold Cursor.resumeOperations State.resumeOperations
  cases hr : y.rest with
  | nil =>
    have hnone : (x.peek 0).binaryOperator? = none := by
      rw [h.peek_eq, hr]
      exact if_neg (by simp [he])
    rw [hr] at hleaves
    simp only [hnone]
    exact ⟨_, rfl, hleaves⟩
  | cons u ts =>
    rw [hr] at hleaves
    rw [h.peek_cons hr]
    cases hu : u.binaryOperator? with
    | none =>
      simp only [hu]
      exact ⟨_, rfl, hleaves⟩
    | some operator =>
      simp only [hu]
      by_cases hl : operator.precedence < least
      · simp only [if_pos hl]
        exact ⟨_, rfl, hleaves⟩
      · obtain ⟨z, hz, hzs⟩ := h.advance hr
        simp only [if_neg hl, hz]
        exact ⟨_, rfl, hzs.enters (.operation least t u) (.expression operator.rightLeast)⟩

theorem resumeGroup (opening : Token) (t : SyntaxTree) :
    ∃ z, x.resumeGroup opening t = .ok z ∧
      z.Shows (e :: more) (y.resume limit e.span t (.group opening)) := by
  have hsync := h.atSync_eq he limit
  simp only [Cursor.resumeGroup, State.resume, leftover]
  by_cases hs : (y.surroundings limit e.span).atSync y.rest
  · rw [if_pos (hsync.trans hs), if_pos hs, List.append_nil]
    exact h.closes he .paren opening [t]
  · rw [if_neg (hsync ▸ hs), if_neg hs, h.found_eq he]
    obtain ⟨z, hz, hzs⟩ := h.recover he (.unexpected (.ofHead y.rest)) rfl (fun _ => hs)
    rw [hz]
    exact hzs.closes he .paren opening _

theorem resumeProduct (opening : Token) (trees : List SyntaxTree) :
    ∃ z, x.resumeProduct opening trees = .ok z ∧
      z.Shows (e :: more) (y.resumeProduct limit e.span opening trees) := by
  have hsync := h.atSync_eq he limit
  have hcomma : (x.peek 0).kind = .comma ↔ headKind? y.rest = some .comma :=
    h.kind_eq_iff he (by decide)
  unfold Cursor.resumeProduct State.resumeProduct
  by_cases hc : headKind? y.rest = some .comma
  · obtain ⟨u, ts, hr, -⟩ := exists_cons_of_headKind? hc
    obtain ⟨z, hz, hzs⟩ := h.advance hr
    rw [if_pos (hcomma.2 hc), if_pos hc, hz, hr]
    exact ⟨_, rfl, hzs.turns _⟩
  · rw [if_neg (mt hcomma.1 hc), if_neg hc]
    by_cases hs : (y.surroundings limit e.span).atSync y.rest
    · rw [if_pos (hsync.trans hs), if_pos hs]
      exact ⟨_, rfl, h.turns _⟩
    · rw [if_neg (hsync ▸ hs), if_neg hs, h.found_eq he]
      obtain ⟨z, hz, hzs⟩ := h.recover he (.afterField (.ofHead y.rest)) rfl (fun _ => hs)
      rw [hz]
      exact ⟨_, rfl, hzs.turns _⟩

/-- A value is returned to a frame. -/
theorem resume (t : SyntaxTree) (f : Frame) :
    ∃ z, x.resume t f = .ok z ∧ z.Shows (e :: more) (y.resume limit e.span t f) := by
  cases f with
  | binding | negate | lambda => exact ⟨_, rfl, h.returns _⟩
  | operations least => exact h.resumeOperations he least t
  | operation | call => exact ⟨_, rfl, h.enters _ _⟩
  | calls =>
    have hstarts : (x.peek 0).kind.startsOperand = startsOperand y.rest := by
      rw [h.peek_eq]
      cases y.rest with
      | nil => simp [he, startsOperand, TokenKind.startsOperand]
      | cons u ts => rfl
    simp only [Cursor.resume, State.resume, hstarts]
    split
    · exact ⟨_, rfl, h.enters _ _⟩
    · exact ⟨_, rfl, h.returns _⟩
  | group opening => exact h.resumeGroup he opening t
  | product opening before => exact h.resumeProduct he opening (before ++ [t])
  | field before name => exact ⟨_, rfl, h.resumeField before name t⟩

/-- Behind a statement, where no closer is waited for. -/
theorem finish (hc : y.closers = []) (t : SyntaxTree) :
    ∃ z, x.finish t = .ok z ∧ z.Shows (e :: more) (y.finish limit e.span t) := by
  have hbehind := (h.turns .program).states [t]
  have hend := h.atEnd_iff he
  unfold Cursor.finish State.finish
  cases hr : y.rest with
  | nil =>
    have hm : ¬ (x.peek 0).kind = .semicolon := by
      rw [h.kind_eq_iff he (by decide), hr]
      exact nofun
    rw [hr] at hbehind
    simp only [if_neg hm, if_pos (hend.2 hr)]
    exact ⟨_, rfl, hbehind⟩
  | cons u ts =>
    rw [h.peek_cons hr]
    by_cases hm : u.kind = .semicolon
    · obtain ⟨z, hz, hzs⟩ := hbehind.advance hr
      simp only [if_pos hm, hz]
      exact ⟨z, rfl, hzs⟩
    · have hs : ¬ (y.surroundings limit e.span).atSync (u :: ts) :=
        Surroundings.not_atSync_of_closers_eq_nil hc hm ts
      have hend' : ¬ x.atEnd := by simp [hend, hr]
      have hfound : x.found = .token u.raw := by rw [h.found_eq he, hr]; rfl
      obtain ⟨z, hz, hzs⟩ :=
        hbehind.recover he (.afterStatement (.token u.raw)) hr (fun _ => hs)
      simp only [if_neg hm, if_neg hend', hfound, hz]
      refine ⟨_, rfl, ?_⟩
      have hstates := hzs.states [((y.surroundings limit e.span).recover
        (.afterStatement (.token u.raw)) (u :: ts)).value]
      simp only [State.stating, State.before, State.reporting, List.append_assoc,
        List.cons_append, List.nil_append] at hstates
      exact hstates

theorem stepProgram (ht : y.task = .program) :
    ∃ r, x.stepProgram = .ok r ∧ Option.Rel (Shows (e :: more)) r (y.step limit e.span) := by
  have hend := h.atEnd_iff he
  unfold Cursor.stepProgram
  cases hr : y.rest with
  | nil =>
    refine ⟨none, if_pos (hend.2 hr), ?_⟩
    simp only [State.step, ht, hr]
    exact .none
  | cons t ts =>
    have hend' : ¬ x.atEnd := by simp [hend, hr]
    rw [if_neg hend', h.peek_cons hr]
    simp only [State.step, ht, hr]
    by_cases hm : t.kind = .semicolon
    · obtain ⟨z, hz, hzs⟩ := h.advance hr
      rw [if_pos hm, if_pos hm, hz]
      have htask : y.before ts = { y with task := .program, rest := ts } := by rw [← ht]; rfl
      exact ⟨some z, rfl, .some (htask ▸ hzs)⟩
    · rw [if_neg hm, if_neg hm]
      exact ⟨_, rfl, .some (hr ▸ h.turns .statement)⟩

/-- Step by step a cursor does what the machine does that does not see beyond the end of the input.
It never makes a misstep. -/
theorem step (hb : y.Balanced limit) :
    ∃ r, x.step limit = .ok r ∧ Option.Rel (Shows (e :: more)) r (y.step limit e.span) := by
  have hsome {c : Except Misstep Cursor} {z : State}
      (hc : ∃ v, c = .ok v ∧ v.Shows (e :: more) z) :
      ∃ r, some <$> c = .ok r ∧ Option.Rel (Shows (e :: more)) r (some z) := by
    obtain ⟨v, rfl, hv⟩ := hc
    exact ⟨some v, rfl, .some hv⟩
  cases ht : y.task with
  | program =>
    simp only [Cursor.step, h.task_eq, ht]
    exact h.stepProgram he ht
  | statement =>
    simp only [Cursor.step, State.step, h.task_eq, ht]
    exact hsome (h.stepStatement he)
  | expression least =>
    simp only [Cursor.step, State.step, h.task_eq, ht]
    exact hsome (h.stepExpression he least)
  | unary =>
    simp only [Cursor.step, State.step, h.task_eq, ht]
    exact hsome (h.stepUnary he)
  | operand =>
    simp only [Cursor.step, State.step, h.task_eq, ht]
    exact hsome (h.stepOperand he)
  | fields opening trees =>
    simp only [Cursor.step, State.step, h.task_eq, ht]
    exact hsome (h.stepFields he opening trees)
  | field before =>
    simp only [Cursor.step, State.step, h.task_eq, ht]
    exact hsome (h.stepField he before)
  | value t =>
    cases hf : y.frames with
    | nil =>
      simp only [Cursor.step, State.step, h.task_eq, ht, h.frames_eq, hf]
      exact hsome (h.finish he (hb.of_frames_eq_nil ht hf).2 t)
    | cons f frames =>
      simp only [Cursor.step, State.step, h.task_eq, ht, h.frames_eq, hf]
      exact hsome ((h.update (fun y => { y with task := .value t, frames }) rfl
        List.suffix_rfl).resume he t f)

end Looks

section Runs
variable (he : e.kind = .endOfInput)
include he

theorem next {x' : Cursor} (h : x.Shows (e :: more) y) (hb : y.Balanced limit)
    (hn : Next limit x x') :
    ∃ y', y.step limit e.span = some y' ∧ x'.Shows (e :: more) y' := by
  obtain ⟨r, hr, hshows⟩ := h.step he hb
  obtain rfl : r = some x' := Except.ok.inj (hr.symm.trans hn)
  cases hy : y.step limit e.span with
  | none => rw [hy] at hshows; cases hshows
  | some y' =>
    rw [hy] at hshows
    cases hshows with
    | some hs => exact ⟨y', rfl, hs⟩

/-- Whatever comes after a state of the cursor shows what comes after the state that it shows. -/
theorem reaches {x' : Cursor} (h : x.Shows (e :: more) y) (hb : y.Balanced limit)
    (hr : Reaches limit x x') :
    ∃ y', Machine.Reaches limit e.span y y' ∧ x'.Shows (e :: more) y' := by
  induction hr with
  | refl => exact ⟨y, .refl, h⟩
  | tail _ hn ih =>
    obtain ⟨z, hz, hzs⟩ := ih
    obtain ⟨y', hy', hs⟩ := hzs.next he (hb.reaches hz) hn
    exact ⟨y', hz.tail hy', hs⟩

/-- A run of the machine is shown from its start to its end. -/
theorem exists_reaches {y' : State} (h : x.Shows (e :: more) y) (hb : y.Balanced limit)
    (hr : Machine.Reaches limit e.span y y') :
    ∃ x', Reaches limit x x' ∧ x'.Shows (e :: more) y' := by
  induction hr with
  | refl => exact ⟨x, .refl, h⟩
  | @tail z y' hz hy ih =>
    obtain ⟨v, hv, hvs⟩ := ih
    obtain ⟨r, hr, hshows⟩ := hvs.step he (hb.reaches hz)
    rw [hy] at hshows
    cases hshows with
    | some hs => exact ⟨_, hv.tail hr, hs⟩

end Runs

end Shows

/-- All tokens that the parser holds are those that the machine sees, the end of the input, and
whatever stands behind it. -/
theorem exists_input_eq (tokens : List Token) :
    ∃ e more, input tokens = Program.significant tokens ++ e :: more ∧ e.kind = .endOfInput ∧
      e.span = Program.ending tokens := by
  simp only [input, Program.significant, Program.ending]
  generalize tokens.filter (·.kind ≠ .comment) = seen
  cases hfind : seen.find? (·.kind = .endOfInput) with
  | some e =>
    obtain ⟨he, before, more, rfl, hbefore⟩ := List.find?_eq_some_iff_append.1 hfind
    have hkind : e.kind = .endOfInput := by simpa using he
    have hall : ∀ t ∈ before, t.kind ≠ .endOfInput := by simpa using hbefore
    have htake : (before ++ e :: more).takeWhile (·.kind ≠ .endOfInput) = before := by
      rw [List.takeWhile_append_of_pos (by simpa using hall)]
      simp [hkind]
    rw [htake]
    cases hlast : (before ++ e :: more).getLast? with
    | none => simp at hlast
    | some t =>
      by_cases ht : t.kind = .endOfInput
      · exact ⟨e, more, if_pos ht, hkind, rfl⟩
      · exact ⟨e, more ++ [.endAt t.span.stop], by simp [ht], hkind, rfl⟩
  | none =>
    have hall : ∀ t ∈ seen, t.kind ≠ .endOfInput := by simpa using hfind
    have htake : seen.takeWhile (·.kind ≠ .endOfInput) = seen :=
      List.takeWhile_eq_self_iff.2 (by simpa using hall)
    rw [htake]
    cases hlast : seen.getLast? with
    | none => exact ⟨.endAt .origin, [], by simp [List.getLast?_eq_none_iff.1 hlast], rfl, rfl⟩
    | some t =>
      have ht : t.kind ≠ .endOfInput := hall t (List.mem_of_getLast? hlast)
      exact ⟨.endAt t.span.stop, [], if_neg ht, rfl, rfl⟩

/-- In front of all tokens the cursor shows the machine in front of what it sees. -/
theorem exists_shows_start (tokens : List Token) :
    ∃ e more, e.kind = .endOfInput ∧ e.span = Program.ending tokens ∧
      (start tokens).Shows (e :: more) (Machine.start (Program.significant tokens)) := by
  obtain ⟨e, more, hinput, he, hspan⟩ := exists_input_eq tokens
  refine ⟨e, more, he, hspan, ?_, ?_, List.forall_mem_nil _⟩
  · rw [start, hinput]
    rfl
  · intro t ht
    simpa using List.mem_takeWhile_imp ht

theorem Shows.program_eq (h : x.Shows (e :: more) y) (hr : y.rest = []) :
    x.program = y.program e.span := by
  have hpeek : x.peek 0 = e := by rw [h.peek_eq, hr]; rfl
  rw [Cursor.program, hpeek, h.toState_eq]
  rfl

/-- The parser with a cursor comes to an end, and with the program that is parsed. -/
theorem yields_parse (config : Config) (tokens : List Token) :
    Yields config.maxDepth tokens (Program.parse config tokens) := by
  obtain ⟨e, more, he, hspan, hstart⟩ := exists_shows_start tokens
  have hbalanced := balanced_start config.maxDepth (Program.significant tokens)
  obtain ⟨y, hy, hend, hprogram⟩ := Program.reaches_parse config tokens
  rw [← hspan] at hy hend hprogram
  obtain ⟨x, hx, hs⟩ := hstart.exists_reaches he hbalanced hy
  obtain ⟨r, hr, hrel⟩ := hs.step he (hbalanced.reaches hy)
  rw [hend] at hrel
  cases hrel
  refine ⟨x, hx, hr, ?_⟩
  rw [← hprogram]
  exact hs.program_eq (State.rest_eq_nil_of_step_eq_none hend)

/-- Whatever the cursor reaches, it shows a state of the machine in balance. -/
theorem Reaches.exists_shows {tokens : List Token} (h : Reaches limit (start tokens) x) :
    ∃ e more y, e.kind = .endOfInput ∧ y.Balanced limit ∧ x.Shows (e :: more) y := by
  obtain ⟨e, more, he, -, hstart⟩ := exists_shows_start tokens
  have hbalanced := balanced_start limit (Program.significant tokens)
  obtain ⟨y, hy, hs⟩ := hstart.reaches he hbalanced h
  exact ⟨e, more, y, he, hbalanced.reaches hy, hs⟩

end Cursor
end Machine
end LenSyntax
