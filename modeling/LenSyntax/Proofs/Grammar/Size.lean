import LenSyntax.Proofs.Arena.PostOrder
import LenSyntax.Proofs.Grammar.Comments
import LenSyntax.Proofs.Grammar.DepthLimit

/-! How large trees are. Each token pays for two nodes. Most of what is read leaves a node unspent;
only what stops in front of a synchronization point may spend all, and only what is missing there
has a node that no token has paid for, which the next token read around it pays for. -/
namespace LenSyntax

open SyntaxTree

namespace SyntaxTree

@[simp] theorem size_node (kind : NodeKind) (text : Text) (span : Span)
    (children : List SyntaxTree) : (node kind text span children).size = sizeAll children + 1 := by
  rw [size]

@[simp] theorem sizeAll_nil : sizeAll [] = 0 := rfl

@[simp] theorem sizeAll_cons (t : SyntaxTree) (ts : List SyntaxTree) :
    sizeAll (t :: ts) = t.size + sizeAll ts := by rw [sizeAll]

theorem sizeAll_append (ts us : List SyntaxTree) :
    sizeAll (ts ++ us) = sizeAll ts + sizeAll us := by
  induction ts with
  | nil => simp
  | cons t ts ih => rw [List.cons_append, sizeAll_cons, sizeAll_cons, ih, Nat.add_assoc]

end SyntaxTree

/-- How so many nodes are paid for by the tokens read, those of `ts` in front of `rest`. -/
inductive Paid (s : Surroundings) (ts rest : List Token) (nodes : Nat) : Prop
  | spare (h : nodes + 1 + 2 * rest.length ≤ 2 * ts.length)
  | spent (hs : s.atSync rest) (h : nodes + 2 * rest.length ≤ 2 * ts.length)
  | owed (hs : s.atSync ts) (hr : rest = ts) (h : nodes = 1)

/-- Where the inside of a bracket stops. -/
def Bracket.EndsAt (s : Surroundings) (rest : List Token) : Bracket → Prop
  | paren => s.atSync rest
  | brace => s.endsFields rest

/-- How the nodes of a part are paid for. -/
def Part.Paid (s : Surroundings) (ts : List Token) (p : Parsed SyntaxTree) : Part → Prop
  | .fields => p.value.size + 1 + 2 * p.rest.length ≤ 2 * ts.length
  | .inside b => b.EndsAt s p.rest ∧ p.value.size + 2 * p.rest.length ≤ 2 * ts.length
  | _ => LenSyntax.Paid s ts p.rest p.value.size

section Synchronization
variable {s : Surroundings} {ts : List Token} {t : Token}

theorem Surroundings.AwaitsClosers.not_atSync (h : s.AwaitsClosers) (ho : startsOperand ts) :
    ¬ s.atSync ts := fun hs => (h.stops hs).not_startsOperand ho

theorem Surroundings.AwaitsClosers.not_atSync_operator (h : s.AwaitsClosers)
    (ht : t.binaryOperator?.isSome) : ¬ s.atSync (t :: ts) := fun hs =>
  (h.stops hs).kind_ne (by decide) (Token.kind_of_binaryOperator? ht)

/-- Behind a bracket that is not closed, what its inside has stopped at is waited for outside. -/
theorem Bracket.EndsAt.atSync {b : Bracket} (h : b.EndsAt (s.within b.awaited) ts)
    (hr : headKind? ts ≠ some b.closer) : s.atSync ts := by
  cases ts with
  | nil => rfl
  | cons t ts =>
    have hne : t.kind ≠ b.closer := by simpa using hr
    cases b with
    | paren =>
      have hsync : t.kind = .semicolon ∨ t.kind = .closeParen ∨ t.kind ∈ s.closers := by
        simpa [EndsAt, Surroundings.atSync, Surroundings.awaits, Surroundings.within] using h
      simpa [Surroundings.atSync, Surroundings.awaits, hne] using hsync
    | brace =>
      rw [EndsAt, endsFields_cons] at h
      obtain ⟨hsync, hcomma⟩ := h.resolve_left hne
      have hsync' : t.kind = .semicolon ∨ t.kind = .closeBrace ∨ t.kind = .comma ∨
          t.kind ∈ s.closers := by
        simpa [Surroundings.awaits, Surroundings.within] using hsync
      simpa [Surroundings.atSync, Surroundings.awaits, hne, hcomma] using hsync'

theorem Surroundings.size_recover_le (s : Surroundings) {ts : List Token} (fault : SyntaxFault)
    (hs : ¬ s.atSync ts) :
    (s.recover fault ts).value.size + 1 + 2 * (s.recover fault ts).rest.length ≤
      2 * ts.length := by
  have hlt := length_recover_lt fault hs
  have hsize : (s.recover fault ts).value.size = 1 := rfl
  omega

end Synchronization

namespace Paid
variable {s : Surroundings} {ts rest : List Token} {nodes : Nat}

/-- Whatever has been read, a synchronization point apart, has left a node unspent. -/
theorem of_not_atSync (h : Paid s ts rest nodes) (hs : ¬ s.atSync rest) :
    nodes + 1 + 2 * rest.length ≤ 2 * ts.length := by
  cases h with
  | spare h => exact h
  | spent hsync h => exact absurd hsync hs
  | owed hsync hr h => exact absurd (hr ▸ hsync) hs

theorem of_not_atSync_start (h : Paid s ts rest nodes) (hs : ¬ s.atSync ts) :
    nodes + 2 * rest.length ≤ 2 * ts.length := by
  cases h with
  | spare h => omega
  | spent _ h => exact h
  | owed hsync hr h => exact absurd hsync hs

/-- A token in front pays for a node around it. -/
theorem cons (h : Paid s ts rest nodes) (t : Token) : Paid s (t :: ts) rest (nodes + 1) := by
  cases h with
  | spare h => exact .spare (by rw [List.length_cons]; omega)
  | spent hs h => exact .spare (by rw [List.length_cons]; omega)
  | owed hs hr h => exact .spent (hr ▸ hs) (by rw [List.length_cons, hr]; omega)

/-- Nothing needs more than one node that is not paid for. -/
theorem le_succ (h : Paid s ts rest nodes) : nodes + 2 * rest.length ≤ 2 * ts.length + 1 := by
  cases h with
  | spare h | spent _ h => omega
  | owed _ hr h =>
    rw [hr, h]
    omega

/-- A node around two parts is paid for by the first, if that has not stopped in front of a
synchronization point. -/
theorem call {mid : List Token} {more : Nat} (h : Paid s ts mid nodes)
    (hmore : Paid s mid rest more) (hs : ¬ s.atSync mid) : Paid s ts rest (nodes + more + 1) := by
  have hleft := h.of_not_atSync hs
  cases hmore with
  | spare h => exact .spare (by omega)
  | spent hrest h => exact .spent hrest (by omega)
  | owed hsync _ _ => exact absurd hsync hs

/-- A token in front leaves a node unspent if none is built around it. -/
theorem behind (h : Paid s ts rest nodes) (t : Token) : Paid s (t :: ts) rest nodes := by
  refine .spare ?_
  rw [List.length_cons]
  have := h.le_succ
  omega

/-- A name and a mark in front pay for the node of both. -/
theorem named (h : Paid s ts rest nodes) (t mark : Token) :
    Paid s (t :: mark :: ts) rest (nodes + 1) := (h.behind mark).cons t

end Paid

theorem paid_missing {s : Surroundings} {ts : List Token} (fault : SyntaxFault)
    (hs : s.atSync ts) : Paid s ts (s.missing fault ts).rest (s.missing fault ts).value.size :=
  .owed hs rfl rfl

theorem paid_recover (s : Surroundings) (fault : SyntaxFault) (ts : List Token) :
    Paid s ts (s.recover fault ts).rest (s.recover fault ts).value.size := by
  by_cases hs : s.atSync ts
  · exact .owed hs (congrArg Prod.snd (Surroundings.skip_of_atSync _ hs)) rfl
  · exact .spare (s.size_recover_le fault hs)

theorem paid_noField (s : Surroundings) (ts : List Token) :
    Paid s ts (ExpressionParser.noField s ts).rest (ExpressionParser.noField s ts).value.size := by
  unfold ExpressionParser.noField
  split
  · next hs => exact paid_missing _ hs
  · exact paid_recover s _ ts

section Parses
variable {depth : Nat} {s : Surroundings} {part : Part} {ts : List Token}

theorem Parses.size_adding {p : Parsed SyntaxTree} (h : Parses depth s .fields ts p)
    (more : Parsed (List SyntaxTree)) :
    (p.adding more).value.size = p.value.size + sizeAll more.value := by
  rw [h.fields_value rfl, Parsed.adding, size_node, size_node, sizeAll_append]
  exact Nat.add_right_comm _ _ _

/-- The tokens that are read of a part pay for its nodes. -/
theorem Parses.paid {p : Parsed SyntaxTree} (h : Parses depth s part ts p)
    (hs : s.AwaitsClosers) : part.Paid s ts p := by
  induction h with
  | literal | name | invalid => exact .spare (by simp; omega)
  | lambda ht ha body ih => exact (ih hs).named _ _
  | @closed _ s b ts p t rest inside hr ht ih =>
    obtain ⟨-, hsize⟩ := ih (hs.within b)
    rw [inside.inside_value, size_node, hr, List.length_cons] at hsize
    refine .spare ?_
    simp only [size_node]
    omega
  | unclosed inside hr ih =>
    obtain ⟨hends, hsize⟩ := ih (hs.within _)
    rw [inside.inside_value, size_node] at hsize
    exact .spent (hends.atSync hr) hsize
  | missing ho hsync => exact paid_missing _ hsync
  | unexpected ho hsync => exact paid_recover _ _ _
  | @group _ s t ts p ht body hsync ih =>
    have hstart : ¬ s.atSync (t :: ts) := hs.not_atSync (by rw [startsOperand_cons, ht]; rfl)
    exact ⟨hsync, ((ih hs).cons t).of_not_atSync_start hstart⟩
  | @leftover _ s t ts p q ht body hsync hq ih =>
    subst hq
    have hbody := (ih hs).of_not_atSync hsync
    have hskip := s.size_recover_le (.unexpected (.ofHead p.rest)) hsync
    refine ⟨s.atSync_skip _ _ _, ?_⟩
    simp only [size_node, sizeAll_cons, sizeAll_nil, List.length_cons]
    omega
  | product => simp [Part.Paid]; omega
  | @comma _ s ts p q t rest before he field hr ht ihb ihf =>
    have hbefore := ihb hs
    have hfield := (ihf hs).le_succ
    simp only [Part.Paid, before.size_adding, Parsed.adding_rest, sizeAll_cons, sizeAll_nil, hr,
      List.length_cons] at hbefore hfield ⊢
    omega
  | @skip _ s ts p q r before he field hc hsync hr ihb ihf =>
    subst hr
    have hbefore := ihb hs
    have hfield := (ihf hs).of_not_atSync hsync
    have hskip := s.size_recover_le (.afterField (.ofHead q.rest)) hsync
    simp only [Part.Paid, before.size_adding, Parsed.adding_rest, sizeAll_cons, sizeAll_nil]
      at hbefore ⊢
    omega
  | @lastField _ s ts p q before he field hc hsync ihb ihf =>
    have hends : s.endsFields q.rest := by simp [Surroundings.endsFields, hsync, hc]
    have hbefore := ihb hs
    -- a field that is missing stands in front of a comma
    have hfield : q.value.size + 2 * q.rest.length ≤ 2 * p.rest.length := by
      cases ihf hs with
      | spare h => omega
      | spent _ h => exact h
      | owed _ hr _ => exact absurd (hr ▸ hends) he
    refine ⟨hends, ?_⟩
    simp only [Part.Paid, before.size_adding, Parsed.adding_rest, sizeAll_cons, sizeAll_nil]
      at hbefore ⊢
    omega
  | noField before he ih =>
    have hbefore := ih hs
    simp only [Part.Paid] at hbefore
    exact ⟨he, by omega⟩
  | field ht hc value ih => exact (ih hs).named _ _
  | notField hn => exact paid_noField _ _
  | function operand ih => exact ih hs
  | call function ho argument ihf iha => exact (ihf hs).call (iha hs) (hs.not_atSync ho)
  | application calls ho ih => exact ih hs
  | unary application hu ih => exact ih hs
  | negate ht operand ih => exact (ih hs).cons _
  | first operand ih => exact ih hs
  | @operation _ s least ts p t rest operator q left hr ht hl right ihl ihr =>
    have hop : ¬ s.atSync p.rest := hr ▸ hs.not_atSync_operator (Option.isSome_of_mem ht)
    exact (ihl hs).call (hr ▸ (ihr hs).behind t) hop
  | expression operations hn ih => exact ih hs
  | tooDeep => exact paid_recover _ _ _
  | binding ht hm value ih => exact (ih hs).named _ _
  | bare hn value ih => exact ih hs

/-- The tokens of statements pay for their nodes. -/
theorem ParsesStatements.sizeAll_le {p : Parsed (List SyntaxTree)}
    (h : ParsesStatements depth s ts p) (hs : s.closers = []) :
    sizeAll p.value ≤ 2 * ts.length := by
  have hawaits : s.AwaitsClosers := by simp [Surroundings.AwaitsClosers, hs]
  have hsync {t : Token} (ts : List Token) (ht : t.kind ≠ .semicolon) : ¬ s.atSync (t :: ts) :=
    Surroundings.not_atSync_of_closers_eq_nil hs ht ts
  induction h with
  | nil => simp
  | semicolon ht more ih =>
    rw [List.length_cons]
    omega
  | @last t ts p ht one hr =>
    have hone := (one.paid hawaits).of_not_atSync_start (hsync ts ht)
    rw [hr] at hone
    simpa using hone
  | @next t ts p m rest q ht one hr hm more ih =>
    have hone := (one.paid hawaits).of_not_atSync_start (hsync ts ht)
    rw [hr, List.length_cons] at hone
    rw [sizeAll_cons]
    omega
  | @skip t ts p u rest r q ht one hr hu hskip more ih =>
    subst hskip
    have hone := (one.paid hawaits).of_not_atSync_start (hsync ts ht)
    have hskip := s.size_recover_le (.afterStatement (.token u.raw)) (hsync rest hu)
    rw [hr] at hone
    rw [sizeAll_cons, sizeAll_cons]
    omega

end Parses

namespace Program

/-- An arena has at most two nodes for each token in front of the end of the input, comments apart,
and one for the program. -/
theorem size_arena_le (config : Config) (tokens : List Token) :
    (parse config tokens).tree.arena.size ≤
      2 * (tokens.takeWhile (·.kind ≠ .endOfInput)).countP (·.kind ≠ .comment) + 1 := by
  have h := (parses_statements config.maxDepth config.maxDepth (ending tokens)
    (significant tokens)).sizeAll_le rfl
  rw [size_arena, List.countP_eq_length_filter, ← significant_eq_filter_takeWhile]
  exact Nat.succ_le_succ h

-- a bracket with nothing behind it, the expression that is missing, and the program
example : (parse (.make false 1) [⟨.openParen, "(", "(", .point .origin⟩]).tree.arena.size = 3 := by
  decide +kernel

end Program

end LenSyntax
