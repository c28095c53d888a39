/-
Merge strategies: which concrete methods virtual and interface calls may reach.
-/
import Stitch.Merge.Universe

namespace Stitch

inductive Strategy where
  /-- Class hierarchy analysis: methods of every type. -/
  | cha
  /-- Methods of types that some contributor creates instances of. -/
  | rtaLike
  deriving DecidableEq, Repr, Inhabited

/-- A text that names no strategy. -/
structure UnknownStrategy where
  text : String
  deriving DecidableEq, Repr, Inhabited

def UnknownStrategy.message (e : UnknownStrategy) : String :=
  s!"unknown merge strategy '{e.text}', expected CHA or RTA-like"

namespace Strategy

def name : Strategy → String
  | cha => "CHA"
  | rtaLike => "RTA-like"

/-- Reads the name of a strategy in either case. -/
def ofText (text : String) : Except UnknownStrategy Strategy :=
  let folded := Text.raised (Text.trimmed text)
  if folded = "CHA" then .ok cha
  else if folded = "RTA" ∨ folded = "RTA-LIKE" ∨ folded = "RTA_LIKE" then .ok rtaLike
  else .error ⟨text⟩

/-- Whether the strategy needs to know the instantiated types of an artifact. -/
def needsInstantiationData : Strategy → Bool
  | cha => false
  | rtaLike => true

/-- Whether a method of this type may be the target of a call. -/
def accepts (s : Strategy) (u : Universe) (type : String) : Bool :=
  match s with
  | cha => true
  | rtaLike => u.isInstantiated type

/-- The strategy for the calls of a contributor: without the data that it needs
it falls back to class hierarchy analysis. -/
def forContributor (s : Strategy) (c : Contributor) : Strategy :=
  if s.needsInstantiationData && c.graph.instantiatedTypes.isNone then cha else s

end Strategy

end Stitch
