import LenSyntax.Arena.OfTree
import LenSyntax.Dump.Tokens
import LenSyntax.Dump.Tree
import LenSyntax.Grammar.Program
import LenSyntax.Token.Stream

/-! Reports: the dumps of a source and all that is wrong with it. A report is made in four stages,
each of which may fail; what the stages before it have finished is kept. -/
namespace LenSyntax

/-- The stages of a report. A failure comes with a message. -/
structure Stages where
  tokenize : Config → Text → Except Text TokenStream
  dumpTokens : List Token → Except Text Text
  parse : Config → List Token → Except Text Program
  dumpArena : Arena → Except Text Text

inductive Stage where
  | tokenize
  | dumpTokens
  | parse
  | dumpArena
  deriving DecidableEq, Repr

namespace Stages

/-- The stages proper, none of which fails. -/
def standard : Stages where
  tokenize config source := .ok (source.tokenStream config)
  dumpTokens tokens := .ok (Dump.tokens tokens)
  parse config tokens := .ok (.parse config tokens)
  dumpArena arena := .ok ((Dump.arena? arena).getD [])

/-- The stages with one that always fails. -/
def failing (stage : Stage) (message : Text) : Stages :=
  match stage with
  | .tokenize => { standard with tokenize := fun _ _ => .error message }
  | .dumpTokens => { standard with dumpTokens := fun _ => .error message }
  | .parse => { standard with parse := fun _ _ => .error message }
  | .dumpArena => { standard with dumpArena := fun _ => .error message }

end Stages

/-- How much a finished report is about. -/
structure Counts where
  codePoints : Nat
  tokens : Nat
  nodes : Nat
  diagnostics : Nat

/-- `counts?` is there when no stage has failed. -/
structure Report where
  tokenDump : Text
  treeDump : Text
  diagnostics : List Diagnostic
  counts? : Option Counts

namespace Report

/-- A stage has failed; the whole source is to blame. -/
def internalError (source message : Text) : Diagnostic :=
  .error ("internal error: " ++ message) ⟨.origin, .behind source⟩

/-- The report of a source by given stages. -/
def ofStages (stages : Stages) (config : Config) (source : Text) : Report :=
  let stopped (tokenDump : Text) (found : List Diagnostic) (message : Text) : Report :=
    ⟨tokenDump, [], Diagnostics.sorted (found ++ [internalError source message]), none⟩
  match stages.tokenize config source with
  | .error message => stopped [] [] message
  | .ok stream =>
    match stages.dumpTokens stream.tokens with
    | .error message => stopped [] stream.diagnostics message
    | .ok tokenDump =>
      match stages.parse config stream.tokens with
      | .error message => stopped tokenDump stream.diagnostics message
      | .ok program =>
        let found := stream.diagnostics ++ program.diagnostics
        let arena := program.tree.arena
        match stages.dumpArena arena with
        | .error message => stopped tokenDump found message
        | .ok treeDump =>
          ⟨tokenDump, treeDump, Diagnostics.sorted found,
            some ⟨source.length, stream.tokens.length, arena.size, found.length⟩⟩

/-- The report of a source. -/
def of (config : Config) (source : Text) : Report := ofStages .standard config source

end Report

/-- All that is wrong with a source, without a report. -/
def Text.diagnostics (config : Config) (source : Text) : List Diagnostic :=
  let stream := source.tokenStream config
  Diagnostics.sorted (stream.diagnostics ++ (Program.parse config stream.tokens).diagnostics)

theorem Report.of_diagnostics (config : Config) (source : Text) :
    (Report.of config source).diagnostics = source.diagnostics config := rfl

/-- The token dump of a source, which is empty if a stage fails. -/
def Stages.tokenDump (stages : Stages) (config : Config) (source : Text) : Text :=
  match stages.tokenize config source with
  | .error _ => []
  | .ok stream => (stages.dumpTokens stream.tokens).toOption.getD []

end LenSyntax
