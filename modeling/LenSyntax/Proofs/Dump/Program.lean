import LenSyntax.Proofs.Dump.Tree
import LenSyntax.Proofs.Grammar.Agreement
import LenSyntax.Proofs.Token.Order

/-! The dump of a parsed source shows all of its tree but offsets. Of all that a dump writes out,
only the texts of names, numbers, booleans and operators come from the source, and none of these can
hold anything unprintable. -/
namespace LenSyntax

open SyntaxTree

/-- A token whose value can be written out, if it is one of those that are. -/
def Token.Legible (t : Token) : Prop :=
  t.kind ∈ [TokenKind.identifier, .keyword, .number, .symbol] → t.value.Printable

section Lexemes

theorem Text.printable_nil : Printable [] := by simp [Printable]

theorem Text.printable_takeWhile {p : CodePoint → Bool} (hp : ∀ c, p c → c.isPrintable) (t : Text) :
    Printable (t.takeWhile p) := fun c hc => hp c (List.mem_takeWhile_imp hc)

namespace Number

theorem printable_digits (t : Text) : Text.Printable (t.takeWhile CodePoint.isDigit) :=
  Text.printable_takeWhile (fun _ => CodePoint.isPrintable_of_isDigit) t

theorem printable_fraction (t : Text) : (fraction t).taken.Printable := by
  unfold fraction
  split
  · exact Text.printable_nil
  · split
    · next c u hc =>
      subst hc
      exact .ascii_append (t := ".") (by decide) (printable_digits u)
    · exact Text.printable_nil

theorem printable_sign (t : Text) : (sign t).1.Printable := by
  unfold sign
  split
  · exact Text.printable_nil
  · split
    · next c t h =>
      show Text.Printable [c]
      obtain rfl | rfl := h <;> exact Text.printable_of_ascii (by decide)
    · exact Text.printable_nil

theorem printable_exponent (t : Text) : (exponent t).taken.Printable := by
  unfold exponent
  split
  · exact Text.printable_nil
  · next c u =>
    dsimp only
    split
    · next hc =>
      have hletter : Text.Printable [c] := by
        obtain rfl | rfl := hc <;> exact Text.printable_of_ascii (by decide)
      split
      · exact hletter.append ((printable_sign u).append (printable_digits _))
      · split
        · exact hletter.append (printable_sign u)
        · exact Text.printable_nil
    · exact Text.printable_nil

theorem printable_cut (t : Text) : (cut t).taken.Printable := by
  have hexponent (fault? : Option LexicalFault) (u : Text) :
      (if fault?.isSome then Cut.nothing u else exponent u).taken.Printable := by
    split
    · exact Text.printable_nil
    · exact printable_exponent u
  exact (((printable_digits t).append (printable_fraction _)).append (hexponent _ _)).append
    (Text.printable_takeWhile (fun _ => CodePoint.isPrintable_of_continuesWord) _)

theorem printable_canonical {raw : Text} (h : raw.Printable) : (canonical raw).Printable := by
  unfold canonical
  split
  · split
    · exact Text.printable_of_ascii (by decide)
    · exact fun c hc => h c ((List.dropWhile_suffix _).subset hc)
  · exact h

end Number

theorem Text.printable_symbol {raw : Text} {kind : TokenKind} (h : symbolKind? raw = some kind) :
    raw.Printable := by
  have hall : ∀ t ∈ operators ++ punctuation.map (·.1), ∀ c ∈ t, 0x20 ≤ c.val ∧ c.val < 0x7F := by
    decide
  refine Text.printable_of_ascii (hall _ ?_)
  unfold symbolKind? at h
  split at h
  · next hraw => exact List.mem_append_left _ hraw
  · obtain ⟨l, r, hl, -⟩ := List.lookup_eq_some_iff.1 h
    exact List.mem_append_right _ (List.mem_map.2 ⟨(raw, kind), by simp [hl], rfl⟩)

namespace Lexeme

/-- Words, symbols and numbers can be written out. -/
def Legible : Lexeme → Prop
  | word raw | symbol _ raw | number raw => raw.Printable
  | _ => True

theorem scanNumber_legible (t : Text) : (scanNumber t).1.Legible := by
  have hcut := Number.printable_cut t
  unfold scanNumber
  split
  · next h => rwa [h] at hcut
  · trivial

theorem scan_legible (c : CodePoint) (t : Text) : (scan c t).1.Legible := by
  unfold scan
  split
  · trivial
  split
  · trivial
  split
  · simp only [scanBlock]
    split <;> trivial
  split
  · unfold scanString
    split <;> trivial
  split
  · exact scanNumber_legible _
  split
  · exact Text.printable_takeWhile (fun _ => CodePoint.isPrintable_of_continuesWord) _
  split
  · next h => exact Text.printable_symbol (Text.symbol?_kind h)
  · trivial

theorem Legible.token? {keepComments : Bool} {span : Span} {l : Lexeme} {t : Token}
    (hl : l.Legible) (h : l.token? keepComments span = some t) : t.Legible := by
  cases l with
  | blank => cases h
  | comment raw =>
    simp only [Lexeme.token?] at h
    split at h <;> cases h
    simp [Token.Legible]
  | word raw => cases h; exact fun _ => hl
  | symbol kind raw => cases h; exact fun _ => hl
  | number raw => cases h; exact fun _ => Number.printable_canonical hl
  | string body => cases h; simp [Token.Legible]
  | malformed fault raw => cases h; simp [Token.Legible]

end Lexeme

theorem Text.legible_of_mem_tokens {config : Config} {source : Text} {t : Token}
    (ht : t ∈ (source.tokenStream config).tokens) : t.Legible := by
  obtain ht | ht := List.mem_append.1 ht
  · obtain ⟨l, hl, ht⟩ := List.mem_filterMap.1 ht
    exact (forall_mem_lexemes Lexeme.scan_legible _ _ l hl).token? ht
  · rw [List.mem_singleton.1 ht]
    simp [Token.Legible, Token.endAt]

end Lexemes

theorem Token.Legible.shows_literal {t : Token} {kind : NodeKind} (h : t.Legible)
    (ht : t.kind.literal? = some kind) : kind.Shows t.value := by
  cases hkind : t.kind <;> rw [hkind] at ht <;> cases ht
  case number => exact h (by simp [hkind])
  case string => trivial
  case keyword => exact h (by simp [hkind])

section Trees

theorem SyntaxTree.legible_node {kind : NodeKind} {text : Text} {span : Span}
    {children : List SyntaxTree} :
    (node kind text span children).Legible ↔ kind.Shows text ∧ ∀ c ∈ children, c.Legible :=
  forall_mem_nodes kind text span children

theorem SyntaxTree.legible_leaf {kind : NodeKind} {text : Text} {span : Span}
    (h : kind.Shows text) : (node kind text span []).Legible :=
  legible_node.2 ⟨h, by simp⟩

theorem SyntaxTree.Legible.children {t : SyntaxTree} (h : t.Legible) :
    ∀ c ∈ t.children, c.Legible := by
  obtain ⟨kind, text, span, children⟩ := t
  exact (legible_node.1 h).2

theorem Bracket.shows_nil (b : Bracket) : b.node.Shows [] := by cases b <;> rfl

/-- A tree that can be dumped, and tokens from which only such trees can be made. -/
structure Parsed.Legible (p : Parsed SyntaxTree) : Prop where
  tree : p.value.Legible
  rest : ∀ t ∈ p.rest, t.Legible

namespace Surroundings
variable (s : Surroundings) (fault : SyntaxFault) {ts : List Token} (h : ∀ t ∈ ts, t.Legible)
include h

theorem legible_missing : (s.missing fault ts).Legible :=
  ⟨legible_leaf fault.printable_message, h⟩

theorem legible_recover : (s.recover fault ts).Legible :=
  ⟨legible_leaf fault.printable_message, fun t ht => h t ((s.recover_suffix fault ts).subset ht)⟩

theorem legible_noField : (ExpressionParser.noField s ts).Legible := by
  unfold ExpressionParser.noField
  split
  · exact s.legible_missing _ h
  · exact s.legible_recover _ h

end Surroundings

theorem Parsed.Legible.adding {p : Parsed SyntaxTree} {more : Parsed (List SyntaxTree)}
    (hp : p.Legible) (ht : ∀ t ∈ more.value, t.Legible) (hr : ∀ t ∈ more.rest, t.Legible) :
    (p.adding more).Legible := by
  refine ⟨legible_node.2 ⟨rfl, ?_⟩, hr⟩
  simpa [or_imp, forall_and] using ⟨hp.tree.children, ht⟩

/-- From legible tokens the parser makes legible trees. -/
theorem Parses.legible {depth : Nat} {s : Surroundings} {part : Part} {ts : List Token}
    {p : Parsed SyntaxTree} (h : Parses depth s part ts p) (hts : ∀ t ∈ ts, t.Legible) :
    p.Legible := by
  induction h with
  | literal ht =>
    rw [List.forall_mem_cons] at hts
    exact ⟨legible_leaf (hts.1.shows_literal ht), hts.2⟩
  | name ht ha =>
    rw [List.forall_mem_cons] at hts
    exact ⟨legible_leaf (hts.1 (by simp [ht])), hts.2⟩
  | invalid ht =>
    rw [List.forall_mem_cons] at hts
    exact ⟨legible_leaf (SyntaxFault.printable_message _), hts.2⟩
  | lambda ht ha body ih =>
    rw [List.forall_mem_cons, List.forall_mem_cons] at hts
    have hp := ih hts.2.2
    exact ⟨legible_node.2 ⟨hts.1 (by simp [ht]), by simpa using hp.tree⟩, hp.rest⟩
  | @closed _ _ b _ p t rest inside hr ht ih =>
    have hp := ih hts
    have hrest := hp.rest
    rw [hr, List.forall_mem_cons] at hrest
    exact ⟨legible_node.2 ⟨b.shows_nil, hp.tree.children⟩, hrest.2⟩
  | @unclosed _ _ b _ p inside hr ih =>
    have hp := ih hts
    exact ⟨legible_node.2 ⟨b.shows_nil, hp.tree.children⟩, hp.rest⟩
  | missing ho hs => exact Surroundings.legible_missing _ _ hts
  | unexpected ho hs => exact Surroundings.legible_recover _ _ hts
  | group ht body hs ih =>
    rw [List.forall_mem_cons] at hts
    have hp := ih hts.2
    exact ⟨legible_node.2 ⟨rfl, by simpa using hp.tree⟩, hp.rest⟩
  | @leftover _ s t ts p q ht body hs hq ih =>
    rw [List.forall_mem_cons] at hts
    have hp := ih hts.2
    have hskip : q.Legible := hq ▸ s.legible_recover _ hp.rest
    exact ⟨legible_node.2 ⟨rfl, by simpa using ⟨hp.tree, hskip.tree⟩⟩, hskip.rest⟩
  | product ht =>
    rw [List.forall_mem_cons] at hts
    exact ⟨legible_leaf rfl, hts.2⟩
  | comma before he field hr ht ihb ihf =>
    have hp := ihb hts
    have hq := ihf hp.rest
    have hrest := hq.rest
    rw [hr, List.forall_mem_cons] at hrest
    exact hp.adding (by simpa using hq.tree) hrest.2
  | @skip _ s ts p q r before he field hc hs hr ihb ihf =>
    have hp := ihb hts
    have hq := ihf hp.rest
    have hskip : r.Legible := hr ▸ s.legible_recover _ hq.rest
    exact hp.adding (by simpa using ⟨hq.tree, hskip.tree⟩) hskip.rest
  | lastField before he field hc hs ihb ihf =>
    have hp := ihb hts
    have hq := ihf hp.rest
    exact hp.adding (by simpa using hq.tree) hq.rest
  | noField before he ih => exact ih hts
  | field ht hc value ih =>
    rw [List.forall_mem_cons, List.forall_mem_cons] at hts
    have hp := ih hts.2.2
    exact ⟨legible_node.2 ⟨hts.1 (by simp [ht]), by simpa using hp.tree⟩, hp.rest⟩
  | notField hn => exact Surroundings.legible_noField _ hts
  | function operand ih => exact ih hts
  | call function ho argument ihf iha =>
    have hp := ihf hts
    have hq := iha hp.rest
    exact ⟨legible_node.2 ⟨rfl, by simpa using ⟨hp.tree, hq.tree⟩⟩, hq.rest⟩
  | application calls ho ih => exact ih hts
  | unary application hu ih => exact ih hts
  | negate ht operand ih =>
    rw [List.forall_mem_cons] at hts
    have hp := ih hts.2
    have hkind := Token.kind_of_isUnaryOperator ht
    exact ⟨legible_node.2 ⟨hts.1 (by simp [hkind]), by simpa using hp.tree⟩, hp.rest⟩
  | first operand ih => exact ih hts
  | @operation _ _ _ _ p t _ _ _ left hr ht hl right ihl ihr =>
    have hp := ihl hts
    have hrest := hp.rest
    rw [hr, List.forall_mem_cons] at hrest
    have hq := ihr hrest.2
    have hkind := Token.kind_of_binaryOperator? (t := t) (by rw [ht]; rfl)
    exact ⟨legible_node.2 ⟨hrest.1 (by simp [hkind]), by simpa using ⟨hp.tree, hq.tree⟩⟩, hq.rest⟩
  | expression operations hn ih => exact ih hts
  | tooDeep => exact Surroundings.legible_recover _ _ hts
  | binding ht hm value ih =>
    rw [List.forall_mem_cons, List.forall_mem_cons] at hts
    have hp := ih hts.2.2
    exact ⟨legible_node.2 ⟨hts.1 (by simp [ht]), by simpa using hp.tree⟩, hp.rest⟩
  | bare hn value ih => exact ih hts

theorem ParsesStatements.legible {depth : Nat} {s : Surroundings} {ts : List Token}
    {p : Parsed (List SyntaxTree)} (h : ParsesStatements depth s ts p)
    (hts : ∀ t ∈ ts, t.Legible) : ∀ t ∈ p.value, t.Legible := by
  induction h with
  | nil => simp
  | semicolon ht more ih => exact ih (List.forall_mem_cons.1 hts).2
  | last ht one hr => simpa using (one.legible hts).tree
  | next ht one hr hm more ih =>
    have hp := one.legible hts
    have hrest := hp.rest
    rw [hr, List.forall_mem_cons] at hrest
    simpa using ⟨hp.tree, ih hrest.2⟩
  | @skip t ts p u rest r q ht one hr hu hskip more ih =>
    have hp := one.legible hts
    have hskipped : r.Legible := hskip ▸ s.legible_recover _ (hr ▸ hp.rest)
    simpa using ⟨hp.tree, hskipped.tree, ih hskipped.rest⟩

end Trees

namespace Program

theorem legible_parse (config reading : Config) (source : Text) :
    (parse config (source.tokenStream reading).tokens).tree.Legible := by
  have hlegible : ∀ t ∈ significant (source.tokenStream reading).tokens, t.Legible := by
    intro t ht
    rw [significant_eq_filter] at ht
    exact Text.legible_of_mem_tokens (List.mem_filter.1 ht).1
  exact legible_node.2 ⟨rfl, (parses_statements _ _ _ _).legible hlegible⟩

/-- Every parsed source has a dump, and two of them have the same dump exactly if their trees are
the same but for the offsets of their spans. The sources may be read and parsed in any way. -/
theorem dump_eq_iff (config reading config' reading' : Config) (source source' : Text) :
    let t := (parse config (source.tokenStream reading).tokens).tree
    let u := (parse config' (source'.tokenStream reading').tokens).tree
    (Dump.arena? t.arena).isSome ∧
      (Dump.arena? t.arena = Dump.arena? u.arena ↔ t.withoutOffsets = u.withoutOffsets) := by
  intro t u
  refine ⟨?_, (legible_parse config reading source).dump_arena_eq_iff
    (legible_parse config' reading' source')⟩
  rw [dump_arena]
  rfl

end Program

end LenSyntax
