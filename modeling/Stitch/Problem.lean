/-
Problems that a resolution or a merge can run into.

Most problems are absorbed: the work goes on and the problem is attached to the
answer as a `Degradation`.  `ErrorClass.isFatal` says which classes end the
operation instead.
-/
import Stitch.Json.Basic

namespace Stitch

inductive ErrorClass where
  | missingRevision
  | unresolvableConstraint
  | dependencyCycle
  | mergeInputMalformed
  | storageUnavailable
  deriving DecidableEq, Repr, Inhabited

namespace ErrorClass

def all : List ErrorClass :=
  [missingRevision, unresolvableConstraint, dependencyCycle, mergeInputMalformed,
    storageUnavailable]

def name : ErrorClass → String
  | missingRevision => "MissingRevision"
  | unresolvableConstraint => "UnresolvableConstraint"
  | dependencyCycle => "DependencyCycle"
  | mergeInputMalformed => "MergeInputMalformed"
  | storageUnavailable => "StorageUnavailable"

/-- The class of this name. -/
def named? (name : String) : Option ErrorClass := all.find? fun c => c.name == name

/-- Whether a problem of this class ends the operation it occurs in.  A missing
revision does so only when missing revisions are not ignored. -/
def isFatal (ignoreMissing : Bool) : ErrorClass → Bool
  | storageUnavailable => true
  | missingRevision => !ignoreMissing
  | _ => false

end ErrorClass

/-- A problem that did not keep an operation from giving an answer. -/
structure Degradation where
  kind : ErrorClass
  /-- The coordinate, constraint or artifact that the problem is about. -/
  subject : String
  detail : String
  deriving DecidableEq, Repr, Inhabited

namespace Degradation

def text (d : Degradation) : String := s!"{d.kind.name} [{d.subject}]: {d.detail}"

def toJson (d : Degradation) : Json :=
  .object [("class", .string d.kind.name), ("subject", .string d.subject),
    ("detail", .string d.detail)]

end Degradation

end Stitch
