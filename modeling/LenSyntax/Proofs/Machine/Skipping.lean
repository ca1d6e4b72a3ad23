import LenSyntax.Proofs.Grammar.Matching
import LenSyntax.Proofs.Machine.Growing
import LenSyntax.Proofs.Machine.Progress
import LenSyntax.Proofs.Machine.Tracking
import Mathlib.Order.Bounds.Basic

/-! Where skipping stops. Wherever the cursor stands, it is moved to the first synchronization point
outside the brackets opened on the way, and nothing but one node and one entry of the skips comes of
it. -/
namespace LenSyntax.Machine

/-- The machine gives no token back. -/
theorem State.rest_suffix_of_reaches {limit : Nat} {ending : Span} {x y : State}
    (hb : x.Balanced limit) (h : Reaches limit ending x y) : y.rest <:+ x.rest := by
  induction h with
  | refl => exact List.suffix_rfl
  | tail hr hs ih => exact ((hb.reaches hr).descends hs).rest_suffix.trans ih

namespace Cursor

open SyntaxTree

/-- Skips the tokens up to a synchronization point, and makes one node of them. -/
def skipToSync (x : Cursor) (fault : SyntaxFault) : Except Misstep (SyntaxTree × Cursor) := do
  let here := (x.peek 0).span
  let (stop, passed, y) ← x.skip 0 here.start []
  return (node .error fault.message ⟨here.start, stop⟩ [],
    { y with skips := y.skips ++ [⟨fault, passed⟩] })

/-- The cursor stands in front of the token at `i`. -/
def StandsAt (ts : List Token) (i : Nat) (x : Cursor) : Prop :=
  i < ts.length ∧ x.rest = ts.drop i

/-- The token at `j` is a synchronization point for what is skipped from `i` on: it is a semicolon
or an end of the input, or it is waited for and the brackets opened from `i` on are matched in front
of it. -/
def SyncsAt (closers : List TokenKind) (ts : List Token) (i j : Nat) : Prop :=
  i ≤ j ∧ ∃ t ∈ ts[j]?,
    (t.kind = .endOfInput ∨ t.kind = .semicolon ∨
      t.kind ∈ closers ∧ Matched ((ts.drop i).take (j - i)))

instance (closers : List TokenKind) (ts : List Token) (i j : Nat) :
    Decidable (SyncsAt closers ts i j) :=
  inferInstanceAs (Decidable (_ ∧ ∃ t ∈ ts[j]?, _))

/-- A span that goes from the start of the token at `i` to the end of the token in front of `j`, or
is a point if there is none. -/
def Covers (ts : List Token) (i j : Nat) (span : Span) : Prop :=
  ∃ first, ts[i]? = some first ∧ span.start = first.span.start ∧
    if i = j then span.stop = first.span.start
    else ∃ last, ts[j - 1]? = some last ∧ span.stop = last.span.stop

/-- Skipping that is so deep in brackets stops in front of some tokens. -/
def Stops (closers : List TokenKind) (nesting : Nat) (ts : List Token) : Prop :=
  ∃ t ∈ ts[0]?, (t.kind = .endOfInput ∨ t.kind = .semicolon ∨ nesting = 0 ∧ t.kind ∈ closers)

/-- The numbers of tokens behind which skipping may stop. -/
def stops (closers : List TokenKind) (nesting : Nat) (ts : List Token) : Set Nat :=
  {k | Stops closers (nestBehindAll nesting (ts.take k)) (ts.drop k)}

/-- Where the last of some tokens ends, if there are any. -/
def stopBehind (stop : Position) (w : List Token) : Position :=
  (w.getLast?.map (·.span.stop)).getD stop

section
variable {closers : List TokenKind} {nesting : Nat} {t : Token} {ts : List Token}

theorem stopBehind_cons (stop : Position) (t : Token) (w : List Token) :
    stopBehind stop (t :: w) = stopBehind t.span.stop w := by
  rw [stopBehind, stopBehind, List.getLast?_cons]
  cases w.getLast? <;> rfl

theorem isLeast_stops_zero (h : Stops closers nesting ts) : IsLeast (stops closers nesting ts) 0 :=
  ⟨h, fun _ _ => Nat.zero_le _⟩

theorem isLeast_stops_succ {k : Nat} (h : ¬ Stops closers nesting (t :: ts))
    (hk : IsLeast (stops closers (Surroundings.nestBehind nesting t.kind) ts) k) :
    IsLeast (stops closers nesting (t :: ts)) (k + 1) := by
  refine ⟨hk.1, fun m hm => ?_⟩
  cases m with
  | zero => exact absurd hm h
  | succ m => exact Nat.succ_le_succ (hk.2 hm)

/-- Skipping takes tokens up to the first place where it may stop. -/
theorem skip_eq {x : Cursor} (hend : ∃ t ∈ x.rest, t.kind = .endOfInput) (nesting : Nat)
    (stop : Position) (passed : List Token) :
    ∃ k, IsLeast (stops x.closers nesting x.rest) k ∧
      x.skip nesting stop passed =
        .ok (stopBehind stop (x.rest.take k), passed ++ x.rest.take k,
          { x with rest := x.rest.drop k }) := by
  -- by induction on the tokens that are left, the end of the input among them
  generalize hts : x.rest = ts at hend
  induction ts generalizing x nesting stop passed with
  | nil => simp at hend
  | cons t ts ih =>
    have hpeek : x.peek 0 = t := by rw [peek, hts]; rfl
    have hstop : (x.atEnd ∨ (x.peek 0).kind = .semicolon ∨
        nesting = 0 ∧ (x.peek 0).kind ∈ x.closers) ↔ Stops x.closers nesting (t :: ts) := by
      simp [atEnd, hpeek, Stops]
    by_cases ht : Stops x.closers nesting (t :: ts)
    · refine ⟨0, isLeast_stops_zero ht, ?_⟩
      rw [skip, if_pos (hstop.2 ht), List.take_zero, List.append_nil, List.drop_zero, ← hts]
      rfl
    · have hkind : t.kind ≠ .endOfInput := fun h => ht ⟨t, rfl, .inl h⟩
      have hmore : ∃ t ∈ ts, t.kind = .endOfInput := by simpa [hkind] using hend
      have hadvance : x.advance = .ok (t, { x with rest := ts }) := by
        rw [advance, hts]
        exact if_neg hkind
      obtain ⟨k, hk, hskip⟩ := ih (x := { x with rest := ts })
        (Surroundings.nestBehind nesting t.kind) t.span.stop (passed ++ [t]) rfl hmore
      refine ⟨k + 1, isLeast_stops_succ ht hk, ?_⟩
      rw [skip, if_neg (mt hstop.1 ht)]
      split
      · next h => rw [hadvance] at h; cases h
      · next h =>
        rw [hadvance] at h
        cases h
        rw [hskip, List.take_succ_cons, List.drop_succ_cons, stopBehind_cons, List.append_assoc]
        rfl

theorem mem_stops_iff {i k : Nat} :
    k ∈ stops closers 0 (ts.drop i) ↔ SyncsAt closers ts i (i + k) := by
  simp only [stops, Set.mem_ofPred_eq, Stops, SyncsAt, List.drop_drop, List.getElem?_drop,
    Nat.add_zero, Nat.le_add_right, true_and, Nat.add_sub_cancel_left, matched_iff,
    and_comm (a := nestBehindAll _ _ = 0)]

theorem isLeast_syncsAt {i k : Nat} (hk : IsLeast (stops closers 0 (ts.drop i)) k) :
    IsLeast {j | SyncsAt closers ts i j} (i + k) := by
  refine ⟨mem_stops_iff.1 hk.1, fun j hj => ?_⟩
  obtain ⟨m, rfl⟩ := Nat.exists_eq_add_of_le hj.1
  exact Nat.add_le_add_left (hk.2 (mem_stops_iff.2 hj)) i

theorem covers_stopBehind {i k : Nat} {first : Token} (hfirst : ts[i]? = some first)
    (hk : i + k ≤ ts.length) :
    Covers ts i (i + k) ⟨first.span.start, stopBehind first.span.start ((ts.drop i).take k)⟩ := by
  refine ⟨first, hfirst, rfl, ?_⟩
  cases k with
  | zero => simp [stopBehind]
  | succ k =>
    have hlast : ts[i + k]? = some ts[i + k] := List.getElem?_eq_getElem (by omega)
    rw [if_neg (by omega)]
    refine ⟨ts[i + k], hlast, ?_⟩
    simp [stopBehind, List.getLast?_take, hlast]

end

/-- The end of the input is the last of all tokens. -/
theorem getLast?_input (tokens : List Token) :
    ∃ e, (input tokens).getLast? = some e ∧ e.kind = .endOfInput := by
  simp only [input]
  cases hlast : (tokens.filter (·.kind ≠ .comment)).getLast? with
  | none => exact ⟨_, rfl, rfl⟩
  | some t =>
    by_cases ht : t.kind = .endOfInput
    · exact ⟨t, by simp only [if_pos ht, hlast], ht⟩
    · exact ⟨.endAt t.span.stop, by simp only [if_neg ht, List.getLast?_concat], rfl⟩

variable {limit : Nat} {tokens : List Token} {x : Cursor} {i : Nat}

theorem StandsAt.exists_endOfInput (h : x.StandsAt (input tokens) i) :
    ∃ t ∈ x.rest, t.kind = .endOfInput := by
  obtain ⟨e, he, hkind⟩ := getLast?_input tokens
  have hlast : x.rest.getLast? = some e := by
    rw [h.2, List.getLast?_drop, if_neg (Nat.not_le_of_lt h.1), he]
  exact ⟨e, List.mem_of_getLast? hlast, hkind⟩

/-- The cursor never gets behind the end of the input, and the nodes made so far are in the
arena. -/
theorem Reaches.exists_standsAt {config : Config} (h : Reaches config.maxDepth (start tokens) x) :
    (∃ i, x.StandsAt (input tokens) i) ∧
      x.nodes <+: (Program.parse config tokens).tree.arena.nodes.toList := by
  obtain ⟨e, more, he, hspan, hstart⟩ := exists_shows_start tokens
  have hbalanced := balanced_start config.maxDepth (Program.significant tokens)
  obtain ⟨y, hy, hs⟩ := hstart.reaches he hbalanced h
  obtain ⟨before, hbefore⟩ : y.rest <:+ Program.significant tokens :=
    State.rest_suffix_of_reaches hbalanced hy
  have hinput : input tokens = before ++ x.rest := by
    rw [hs.rest_eq, ← List.append_assoc, hbefore]
    exact hstart.rest_eq
  refine ⟨⟨before.length, ?_, ?_⟩, ?_⟩
  · rw [hinput, hs.rest_eq, List.length_append, List.length_append, List.length_cons]
    omega
  · rw [hinput, List.drop_left]
  · have hnodes : x.nodes = y.nodes := by rw [hs.toState_eq]; rfl
    rw [hnodes]
    exact Program.nodes_prefix_arena config tokens (hspan ▸ hy)

/-- Wherever the cursor stands in the tokens that the parser is given, skipping moves it to the
first synchronization point outside the brackets opened on the way. The node that it makes covers
what has been skipped, and comes behind all nodes that are there; besides that nothing changes but
the record of what has been skipped. Recovery is skipping behind a diagnostic. So it is wherever the
parser comes, which comes to an end with the program that is parsed: there the cursor stands in
front of a token, and the nodes that are there stay, up to the arena of the program. -/
theorem skips_to_sync (config : Config) (tokens : List Token) :
    let ts := input tokens
    Yields config.maxDepth tokens (Program.parse config tokens) ∧
      (∀ x, Reaches config.maxDepth (start tokens) x → (∃ i, x.StandsAt ts i) ∧
        x.nodes <+: (Program.parse config tokens).tree.arena.nodes.toList) ∧
      ∀ (x : Cursor) (i : Nat) (fault : SyntaxFault), x.StandsAt ts i →
        (∃ j span, IsLeast {j | SyncsAt x.closers ts i j} j ∧ Covers ts i j span ∧
            x.skipToSync fault = .ok (node .error fault.message span [],
              { x with
                rest := ts.drop j
                skips := x.skips ++ [⟨fault, (ts.drop i).take (j - i)⟩] }) ∧
            placedAll 0 (x.waiting ++ x.task.trees ++ [node .error fault.message span []]) =
              x.nodes ++ [⟨.error, fault.message, span, []⟩]) ∧
          x.recover fault =
            (x.reports (.error fault.message (x.peek 0).span)).skipToSync fault := by
  intro ts
  refine ⟨yields_parse config tokens, fun x hx => hx.exists_standsAt,
    fun x i fault hx => ⟨?_, rfl⟩⟩
  obtain ⟨k, hk, hskip⟩ := skip_eq hx.exists_endOfInput 0 (x.peek 0).span.start []
  obtain ⟨hi, hrest⟩ := hx
  have hfirst : ts[i]? = some (x.peek 0) := by
    rw [peek, hrest, List.getElem?_drop, Nat.add_zero, List.getElem?_eq_getElem hi]
    rfl
  rw [hrest] at hk hskip
  have hleast := isLeast_syncsAt hk
  obtain ⟨hle, t, ht, -⟩ := hleast.1
  have hlt : i + k < ts.length := (List.getElem?_eq_some_iff.1 ht).1
  refine ⟨i + k, _, hleast, covers_stopBehind hfirst hlt.le, ?_, ?_⟩
  · simp only [skipToSync, hskip, Nat.add_sub_cancel_left, List.drop_drop, List.nil_append]
    rfl
  · rw [placedAll_append]
    rfl

/-- In `{ = ( , } ) , y` the brace closes the parenthesis, and the parenthesis behind it closes
nothing: inside of the product skipping passes both and stops at the second comma. -/
theorem skips_to_second_comma :
    let config : Config := .make true 3
    let spot (column : Int) : Span := ⟨⟨1, column, column - 1⟩, ⟨1, column + 1, column⟩⟩
    let tokens : List Token := [⟨.openBrace, "\x7b", "\x7b", spot 1⟩, ⟨.bind, "=", "=", spot 2⟩,
      ⟨.openParen, "(", "(", spot 3⟩, ⟨.comma, ",", ",", spot 4⟩,
      ⟨.closeBrace, "\x7d", "\x7d", spot 5⟩, ⟨.closeParen, ")", ")", spot 6⟩,
      ⟨.comma, ",", ",", spot 7⟩, ⟨.identifier, "y", "y", spot 8⟩]
    let ts := input tokens
    let fault : SyntaxFault := .notFieldName (.token "=")
    ∃ x, Reaches config.maxDepth (start tokens) x ∧
      x.nodes <+: (Program.parse config tokens).tree.arena.nodes.toList ∧
      x.closers = [.closeBrace, .comma] ∧ x.StandsAt ts 1 ∧
      ∃ span, IsLeast {j | SyncsAt x.closers ts 1 j} 6 ∧ Covers ts 1 6 span ∧
        x.skipToSync fault = .ok (node .error fault.message span [],
          { x with rest := ts.drop 6, skips := x.skips ++ [⟨fault, (ts.drop 1).take 5⟩] }) := by
  intro config spot tokens ts fault
  let opening : Token := ⟨.openBrace, "\x7b", "\x7b", spot 1⟩
  let statement := (start tokens).turns .statement
  let expression := statement.turns (.expression lowestPrecedence)
  let unary : Cursor :=
    { expression.enters (.operations lowestPrecedence) .unary with depth := 1 }
  let operand := unary.enters .calls .operand
  let fields : Cursor :=
    { operand.turns (.fields opening []) with
      closers := [.closeBrace, .comma]
      rest := ts.drop 1 }
  let x := fields.enters (.product opening []) (.field [])
  have hx : Reaches config.maxDepth (start tokens) x := by
    refine .head (b := statement) rfl (.head (b := expression) rfl (.head (b := unary) rfl ?_))
    exact .head (b := operand) rfl (.head (b := fields) rfl (.single rfl))
  have hstands : x.StandsAt ts 1 := ⟨by decide, rfl⟩
  obtain ⟨-, hreach, hskip⟩ := skips_to_sync config tokens
  obtain ⟨⟨j, span, hleast, hcovers, hresult, -⟩, -⟩ := hskip x 1 fault hstands
  have hj : j = 6 := by
    have hsync : SyncsAt x.closers ts 1 6 := by decide
    have hfirst : ∀ m < 6, ¬ SyncsAt x.closers ts 1 m := by decide
    exact Nat.le_antisymm (hleast.2 hsync) (Nat.not_lt.1 fun hlt => hfirst j hlt hleast.1)
  subst hj
  exact ⟨x, hx, (hreach x hx).2, rfl, hstands, span, hleast, hcovers, hresult⟩

end Cursor
end LenSyntax.Machine
