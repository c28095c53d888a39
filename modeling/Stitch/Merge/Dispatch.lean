/-
Where a call goes in the universe of a merge.

* A static or special call goes to the method of its callee reference: in the
  caller's own artifact, or else in the first artifact that declares the
  callee's type and has the method, or else in the first that has it at all.
* A virtual or interface call may meet any subtype of the declared type.  From
  each of these receivers the search goes up to the nearest type that has a body
  for the signature and is accepted by the strategy.
* A dynamic call goes nowhere.
* A global reference names one method and is looked up as it is.
-/
import Stitch.Merge.Strategy
import Stitch.Search

namespace Stitch

/-- Where a call goes. -/
inductive CallResolution where
  /-- The caller is no method of its own artifact. -/
  | dropped
  | resolved (caller : Gid) (targets : List Gid)
  /-- To a placeholder for its callee reference. -/
  | unresolved (caller : Gid)
  deriving DecidableEq, Repr, Inhabited

namespace CallResolution

def isResolved : CallResolution → Bool
  | resolved .. => true
  | _ => false

def isUnresolved : CallResolution → Bool
  | unresolved _ => true
  | _ => false

end CallResolution

namespace Universe

/-- The method that a reference names. -/
def exactTarget? (u : Universe) (block : Nat) (callee : MethodUri) : Option Gid :=
  if callee.isGlobal then u.symbols.lookup callee.text
  else
    (u.method? block callee.localText).or <|
      ((u.declaring callee.typeUri).findSome? fun owner => u.method? owner callee.localText).or <|
        u.symbols.lookupLocal callee.localText

/-- The types that the receiver of a call may have, nearest to the declared
type first. -/
def receivers (u : Universe) (declared : String) : List String :=
  (Search.breadthFirst u.types u.subtypes [declared]).map (·.1)

/-- The direct supertypes in which a call of a kind looks for a method. -/
def parents (u : Universe) (block : Nat) (kind : CallKind) (type : String) : List String :=
  match u.declaration? type block with
  | none => []
  | some (_, decl) => if kind = .interface then decl.supertypes else decl.superClasses

/-- A type and its ancestors, nearest first. -/
def lineage (u : Universe) (block : Nat) (kind : CallKind) (type : String) : List String :=
  (Search.breadthFirst u.types (u.parents block kind) [type]).map (·.1)

/-- The method of a signature that a type itself has, if the strategy accepts it. -/
def concrete? (u : Universe) (block : Nat) (s : Strategy) (signature type : String) :
    Option Gid := do
  let (owner, decl) ← u.declaration? type block
  if decl.defines signature && s.accepts u type then
    u.method? owner s!"{type}.{signature}"
  else none

/-- The method that a receiver of a type runs. -/
def nearest? (u : Universe) (block : Nat) (kind : CallKind) (s : Strategy)
    (signature receiver : String) : Option Gid :=
  (u.lineage block kind receiver).findSome? (u.concrete? block s signature)

/-- The methods that a virtual or interface call may run. -/
def dispatchedTargets (u : Universe) (block : Nat) (callee : MethodUri) (kind : CallKind)
    (s : Strategy) : List Gid :=
  distinct <| (u.receivers callee.typeUri).filterMap (u.nearest? block kind s callee.signature)

/-- The targets of a call whose callee reference is a URI. -/
def uriTargets (u : Universe) (block : Nat) (kind : CallKind) (useHierarchy : Bool)
    (s : Strategy) (callee : MethodUri) : List Gid :=
  if kind.isDispatched then
    -- A global reference that the hierarchy leads nowhere still names its method.
    let found := if useHierarchy then u.dispatchedTargets block callee kind s else []
    if found.isEmpty && callee.isGlobal then (u.exactTarget? block callee).toList else found
  else (u.exactTarget? block callee).toList

/-- The targets of a call. -/
def targets (u : Universe) (block : Nat) (call : CallSite) (useHierarchy : Bool)
    (s : Strategy) : List Gid :=
  if call.kind = .dynamic then []
  else
    match MethodUri.ofText call.callee with
    | .error _ => []
    | .ok callee => u.uriTargets block call.kind useHierarchy s callee

/-- Where a call of a contributor goes.  Without a hierarchy of its own, a
contributor's virtual and interface calls reach global references only. -/
def resolve (u : Universe) (block : Nat) (call : CallSite) (useHierarchy : Bool)
    (s : Strategy) : CallResolution :=
  match u.method? block call.caller with
  | none => .dropped
  | some caller =>
    match u.targets block call useHierarchy s with
    | [] => .unresolved caller
    | targets => .resolved caller targets

end Universe

end Stitch
