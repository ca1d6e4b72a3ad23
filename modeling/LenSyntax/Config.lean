/-! The options shared by reading and parsing. -/
namespace LenSyntax

/-- The largest expression depth that can be asked for. -/
def Config.depthLimit : Nat := 100

/-- `keepComments` asks for comment tokens; `maxDepth` is the deepest nesting of expressions that
is parsed. -/
@[ext] structure Config where
  keepComments : Bool
  maxDepth : Nat
  maxDepth_pos : 1 ≤ maxDepth
  maxDepth_le : maxDepth ≤ Config.depthLimit
  deriving DecidableEq

namespace Config

/-- Brings the depth into the range from 1 to `depthLimit`. -/
def make (keepComments : Bool) (maxDepth : Int) : Config where
  keepComments
  maxDepth := (min (max maxDepth 1) depthLimit).toNat
  maxDepth_pos := by simp only [depthLimit]; omega
  maxDepth_le := by simp only [depthLimit]; omega

def standard : Config := make true 64

instance : Inhabited Config := ⟨standard⟩

end Config
end LenSyntax
