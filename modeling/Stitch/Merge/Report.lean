/-
What a merge has to say about itself.
-/
import Stitch.Problem
import Stitch.Text.Decimal

namespace Stitch

structure MergeReport where
  /-- The coordinate of the base. -/
  base : String
  strategy : String
  /-- The coordinates of the contributors, the base first. -/
  contributors : List String
  internalNodes : Nat
  placeholderNodes : Nat
  edges : Nat
  /-- Calls that reach a method. -/
  resolvedCalls : Nat
  /-- Calls, dynamic ones apart, that go to a placeholder. -/
  unresolvedCalls : Nat
  dynamicCalls : Nat
  /-- Calls whose caller is not a method of its artifact. -/
  droppedCalls : Nat
  /-- Artifacts whose calls were resolved by class hierarchy analysis because
  their instantiated types are not known. -/
  rtaFallbacks : List String
  degraded : List Degradation
  /-- How long the merge took.  A merge does not look at the clock, so this is
  for its caller to set. -/
  durationMs : Nat := 0
  deriving DecidableEq, Repr, Inhabited

namespace MergeReport

/-- The degradations about one artifact. -/
def degradationsOf (r : MergeReport) (coordinate : String) : List Degradation :=
  r.degraded.filter fun d => d.subject == coordinate

def isDegraded (r : MergeReport) : Bool := !r.degraded.isEmpty

/-- The share of the calls, dynamic and dropped ones apart, that reach a method. -/
def resolutionRate (r : MergeReport) : Float :=
  let total := r.resolvedCalls + r.unresolvedCalls
  if total = 0 then 1.0 else r.resolvedCalls.toFloat / total.toFloat

/-- The report as one line. -/
def text (r : MergeReport) : String :=
  let percentage := Text.Decimal.fixed 1 (r.resolutionRate * 100.0)
  s!"{r.base} ({r.strategy}): {r.internalNodes} internal + {r.placeholderNodes} placeholder " ++
  s!"nodes, {r.edges} edges; calls: {r.resolvedCalls} resolved, {r.unresolvedCalls} " ++
  s!"unresolved, {r.dynamicCalls} dynamic, {r.droppedCalls} dropped ({percentage}% resolved) " ++
  s!"in {r.durationMs}ms"

def toJson (r : MergeReport) : Json :=
  .object [("base", .string r.base), ("strategy", .string r.strategy),
    ("contributors", .strings r.contributors), ("internal_nodes", .nat r.internalNodes),
    ("placeholder_nodes", .nat r.placeholderNodes), ("edges", .nat r.edges),
    ("resolved_calls", .nat r.resolvedCalls), ("unresolved_calls", .nat r.unresolvedCalls),
    ("dynamic_calls", .nat r.dynamicCalls), ("dropped_calls", .nat r.droppedCalls),
    ("rta_fallbacks", .strings r.rtaFallbacks),
    ("degraded", .array (r.degraded.map Degradation.toJson)),
    ("duration_ms", .nat r.durationMs)]

end MergeReport

end Stitch
