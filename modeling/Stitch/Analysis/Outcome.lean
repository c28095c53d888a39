/-
Requests to analyse an artifact and what becomes of them.
-/
import Stitch.Failure
import Stitch.Merge.Report
import Stitch.Store.Repository

namespace Stitch

structure AnalysisRequest where
  id : Nat
  input : GraphInput
  /-- Dependencies are resolved as of this time. -/
  asOf : Option Int := none
  deriving DecidableEq, Repr, Inhabited

inductive AnalysisStatus where
  /-- The merged graph is in the store.  Of the dependencies some were missing,
  and some could not be resolved. -/
  | stored (report : MergeReport) (missing : List Coordinate) (resolution : List Degradation)
  /-- The store had a graph of the revision before. -/
  | alreadyStored
  | failed (reason : Failure)
  deriving DecidableEq, Repr, Inhabited

namespace AnalysisStatus

def isStored : AnalysisStatus → Bool
  | stored .. => true
  | _ => false

def isFailed : AnalysisStatus → Bool
  | failed _ => true
  | _ => false

def toJson : AnalysisStatus → Json
  | stored report missing resolution =>
    .object [("status", .string "stored"), ("report", report.toJson),
      ("missing", .array (missing.map Coordinate.toJson)),
      ("resolution", .array (resolution.map Degradation.toJson))]
  | alreadyStored => .object [("status", .string "alreadyStored")]
  | failed reason => .object [("status", .string "failed"), ("error", .string reason.chain)]

end AnalysisStatus

structure AnalysisOutcome where
  id : Nat
  input : String
  /-- The analysed revision, once its graph has been read. -/
  coordinate : Option Coordinate
  status : AnalysisStatus
  deriving DecidableEq, Repr, Inhabited

namespace AnalysisOutcome

def toJson (o : AnalysisOutcome) : Json :=
  .object [("id", .nat o.id), ("input", .string o.input),
    ("coordinate", o.coordinate.elim .null Coordinate.toJson), ("status", o.status.toJson)]

end AnalysisOutcome

end Stitch
