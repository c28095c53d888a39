/-
Texts that are refused as identifiers: coordinates, artifacts, ranges, method
URIs, call kinds and scopes.  `IdentifierError.message` is the wording of each.
-/
import Stitch.Version.Range

namespace Stitch

/-- Why a text is not the identifier it should be, with the text. -/
inductive IdentifierError where
  | coordinate (text : String)
  | artifact (text : String)
  | range (text : String) (fault : RangeFault)
  | methodUri (text : String)
  | callKind (text : String)
  | scope (text : String)
  deriving DecidableEq, Repr, Inhabited

def IdentifierError.message : IdentifierError → String
  | coordinate text => s!"invalid coordinate '{text}', expected groupId:artifactId:version"
  | artifact text => s!"invalid artifact '{text}', expected groupId:artifactId"
  | range text fault => s!"invalid version range '{text}': {fault.message}"
  | methodUri text => s!"invalid method URI '{text}'"
  | callKind text => s!"unknown call type: {text}"
  | scope text => s!"unknown dependency scope: {text}"

/-- Reads a range expression; the error quotes it as it was given. -/
def Range.ofText (text : String) : Except IdentifierError Range :=
  match parse text with
  | .ok range => .ok range
  | .error fault => .error (.range text fault)

end Stitch
