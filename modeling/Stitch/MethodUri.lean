/-
Method URIs.

Inside the call graph of one artifact a method is named by a local URI,
`/package/Type.method(params)return`.  Across artifacts the coordinate of its
owner is put in front:
`fasten://mvn!group:artifact$version/package/Type.method(params)return`.

* `ofText` reads either form, `text` writes it;
* `qualify` puts an owner in front of a local URI.

In a local URI the package goes up to the second slash and the parameters
begin at the first parenthesis after it.  Between them stand the type and the
method, parted at the last dot, neither of them empty, and no slash.  A line
feed may stand in front of the parenthesis of a local URI, and nowhere else.
-/
import Stitch.Coordinate

namespace Stitch

/-- The owner that a global URI names. -/
structure UriAuthority where
  forge : String
  /-- The artifact, as `group:artifact`. -/
  product : String
  version : String
  deriving DecidableEq, Repr, Inhabited

structure MethodUri where
  authority : Option UriAuthority
  package : String
  /-- The simple name of the type, which may be nested: `Outer$Inner`. -/
  typeName : String
  /-- The method with its parameters and return type: `f()V`. -/
  signature : String
  deriving DecidableEq, Repr, Inhabited

namespace MethodUri

/-- How every global URI begins. -/
def scheme : String := "fasten://"

/-- The declaring type, as class hierarchies name it. -/
def typeUri (u : MethodUri) : String := s!"/{u.package}/{u.typeName}"

/-- The URI without its owner. -/
def localText (u : MethodUri) : String := s!"/{u.package}/{u.typeName}.{u.signature}"

def isGlobal (u : MethodUri) : Bool := u.authority.isSome

/-- The part of a global URI that names the owner. -/
def ownerText (a : UriAuthority) : String :=
  s!"{scheme}{a.forge}!{a.product}${a.version}"

def text (u : MethodUri) : String := u.authority.elim "" ownerText ++ u.localText

/-- Reads a local URI. -/
def local? (cs : List Char) : Option MethodUri := do
  let '/' :: afterSlash := cs | none
  let (space, member) ← Text.cut '/' afterSlash
  let (head, params) ← Text.cut '(' member
  let (type, method) ← Text.cutLast '.' head
  if head.contains '/' || type.isEmpty || method.isEmpty || params.contains '\n' then none
  else
    return {
      authority := none
      package := String.ofList space
      typeName := String.ofList type
      signature := String.ofList (method ++ '(' :: params) }

/-- The owner at the front of a global URI and the local URI after it. -/
def authority? (cs : List Char) : Option (UriAuthority × List Char) := do
  let rest ← scheme.toList.isPrefixOf? cs
  let (forge, rest) ← Text.cut '!' rest
  let (product, rest) ← Text.cut '$' rest
  let (version, member) ← Text.cut '/' rest
  if forge.isEmpty || forge.contains '/' || product.isEmpty || product.contains '/' ||
      member.contains '\n' then none
  else
    return (⟨String.ofList forge, String.ofList product, String.ofList version⟩, '/' :: member)

/-- Reads a URI whose ends are trimmed. -/
def read? (cs : List Char) : Option MethodUri :=
  if scheme.toList.isPrefixOf cs then do
    let (owner, rest) ← authority? cs
    let uri ← local? rest
    return { uri with authority := some owner }
  else local? cs

/-- Reads a URI of either form. -/
def ofText (text : String) : Except IdentifierError MethodUri :=
  let cs := Text.trim text.toList
  match read? cs with
  | some uri => .ok uri
  | none => .error (.methodUri (String.ofList cs))

/-- The global URI of a method that an artifact owns. -/
def qualify (owner : Coordinate) (member : String) : String :=
  scheme ++ owner.qualified ++ member

end MethodUri

end Stitch
