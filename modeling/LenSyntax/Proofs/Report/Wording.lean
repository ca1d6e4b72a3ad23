import LenSyntax.Proofs.Grammar.Agreement
import LenSyntax.Report.Basic

/-! The wording of diagnostics. Whatever is found in a source is told in the words of a fault of the
reader or of the parser, and none of these words are those of a stage that has failed. -/
namespace LenSyntax

/-- The messages of faults. -/
inductive Worded : Text → Prop
  | escape (fault : EscapeFault) : Worded fault.message
  | lexical (fault : LexicalFault) : Worded fault.message
  | syntactic (fault : SyntaxFault) : Worded fault.message

/-- The message of a fault is told from that of a failure by its first three letters. -/
theorem Worded.not_failure {message : Text} (h : Worded message) :
    ¬ Text.ofString "internal error: " <+: message := by
  have hstart : message.take 3 ≠ Text.ofString "int" := by
    cases h with
    | escape fault => cases fault <;> simp [EscapeFault.message, Text.ofString]
    | lexical fault =>
      cases fault with
      | unexpected run =>
        rw [LexicalFault.message]
        split <;> simp [Text.ofString]
      | _ => simp [LexicalFault.message, Text.ofString]
    | syntactic fault => cases fault <;> simp [SyntaxFault.message, Text.ofString]
  rintro ⟨rest, rfl⟩
  exact hstart rfl

/-- All diagnostics are told in words of faults. -/
def WordedAll (ds : List Diagnostic) : Prop := ∀ d ∈ ds, Worded d.message

theorem WordedAll.append {ds es : List Diagnostic} (hd : WordedAll ds) (he : WordedAll es) :
    WordedAll (ds ++ es) := List.forall_mem_append.2 ⟨hd, he⟩

/-- All diagnostics tell of faults of the syntax. -/
def SyntacticAll (ds : List Diagnostic) : Prop :=
  ∀ d ∈ ds, ∃ fault : SyntaxFault, d.message = fault.message

theorem SyntacticAll.append {ds es : List Diagnostic} (hd : SyntacticAll ds)
    (he : SyntacticAll es) : SyntacticAll (ds ++ es) := List.forall_mem_append.2 ⟨hd, he⟩

theorem SyntacticAll.error (fault : SyntaxFault) (span : Span) :
    SyntacticAll [.error fault.message span] := List.forall_mem_singleton.2 ⟨fault, rfl⟩

theorem SyntacticAll.worded {ds : List Diagnostic} (h : SyntacticAll ds) : WordedAll ds := by
  intro d hd
  obtain ⟨fault, hmessage⟩ := h d hd
  rw [hmessage]
  exact .syntactic fault

theorem worded_bodyDiagnostics (p : Position) (body : List Piece) :
    WordedAll (Lexeme.bodyDiagnostics p body) := by
  induction body generalizing p with
  | nil => exact List.forall_mem_nil _
  | cons piece body ih =>
    rw [Lexeme.bodyDiagnostics]
    split
    · exact ih _
    · next fault _ => exact List.forall_mem_cons.2 ⟨.escape fault, ih _⟩

theorem Text.worded_tokenStream (config : Config) (source : Text) :
    WordedAll (source.tokenStream config).diagnostics := by
  intro d hd
  obtain ⟨l, -, hd⟩ := List.mem_flatMap.1 hd
  rw [Placed.diagnostics] at hd
  cases hlexeme : l.lexeme with
  | string body =>
    rw [hlexeme] at hd
    exact worded_bodyDiagnostics _ body d hd
  | malformed fault raw =>
    rw [hlexeme] at hd
    obtain rfl := List.mem_singleton.1 hd
    exact .lexical fault
  | _ => rw [hlexeme] at hd; cases hd

theorem Parses.syntactic {depth : Nat} {s : Surroundings} {part : Part} {ts : List Token}
    {p : Parsed SyntaxTree} (h : Parses depth s part ts p) : SyntacticAll p.diagnostics := by
  induction h with
  | literal ht => exact List.forall_mem_nil _
  | name ht ha => exact List.forall_mem_nil _
  | invalid ht => exact List.forall_mem_nil _
  | lambda ht ha body ih => exact ih
  | closed inside hr ht ih => exact ih
  | unclosed inside hr ih => exact ih.append (.error _ _)
  | missing ho hs => exact .error _ _
  | unexpected ho hs => exact .error _ _
  | group ht body hs ih => exact ih
  | leftover ht body hs hq ih => exact ih.append (hq ▸ .error _ _)
  | product ht => exact List.forall_mem_nil _
  | comma before he field hr ht ihb ihf => exact ihb.append ihf
  | skip before he field hc hs hr ihb ihf => exact ihb.append (ihf.append (hr ▸ .error _ _))
  | lastField before he field hc hs ihb ihf => exact ihb.append ihf
  | noField before he ih => exact ih
  | field ht hc value ih =>
    refine ih.append ?_
    split
    · exact List.forall_mem_singleton.2 ⟨.duplicateField _, rfl⟩
    · exact List.forall_mem_nil _
  | @notField _ s _ ts hn =>
    unfold ExpressionParser.noField
    split <;> exact .error _ _
  | function operand ih => exact ih
  | call function ho argument ihf iha => exact ihf.append iha
  | application calls ho ih => exact ih
  | unary application hu ih => exact ih
  | negate ht operand ih => exact ih
  | first operand ih => exact ih
  | operation left hr ht hl right ihl ihr => exact ihl.append ihr
  | expression operations hn ih => exact ih
  | tooDeep => exact .error _ _
  | binding ht hm value ih => exact ih
  | bare hn value ih => exact ih

theorem ParsesStatements.syntactic {depth : Nat} {s : Surroundings} {ts : List Token}
    {p : Parsed (List SyntaxTree)} (h : ParsesStatements depth s ts p) :
    SyntacticAll p.diagnostics := by
  induction h with
  | nil => exact List.forall_mem_nil _
  | semicolon ht more ih => exact ih
  | last ht one hr => exact one.syntactic
  | next ht one hr hm more ih => exact one.syntactic.append ih
  | skip ht one hr hu hskip more ih => exact (one.syntactic.append (hskip ▸ .error _ _)).append ih

theorem Program.syntactic_parse (config : Config) (ts : List Token) :
    SyntacticAll (parse config ts).diagnostics :=
  (parses_statements config.maxDepth config.maxDepth (ending ts) (significant ts)).syntactic

theorem Program.worded_parse (config : Config) (ts : List Token) :
    WordedAll (parse config ts).diagnostics :=
  (syntactic_parse config ts).worded

end LenSyntax
