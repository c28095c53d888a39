/-
The class hierarchy of one artifact: what it declares about each of its types.
-/
import Stitch.Json.Record
import Stitch.SortedMap

namespace Stitch

/-- The declaration of a type. -/
structure TypeDecl where
  /-- Signatures of the methods with a body. -/
  methods : List String := []
  /-- Signatures of the methods without a body. -/
  abstractMethods : List String := []
  /-- The chain of superclasses, nearest first. -/
  superClasses : List String := []
  superInterfaces : List String := []
  deriving DecidableEq, Repr, Inhabited

namespace TypeDecl

/-- Whether a method with this signature has a body on the type. -/
def defines (d : TypeDecl) (signature : String) : Bool := d.methods.contains signature

/-- The direct supertypes, superclasses first. -/
def supertypes (d : TypeDecl) : List String := d.superClasses ++ d.superInterfaces

/-- A declaration as a document; abstract methods are left out when there are none. -/
def toJson (d : TypeDecl) : Json :=
  .object <|
    [("methods", .strings d.methods)] ++
    (if d.abstractMethods.isEmpty then [] else [("abstractMethods", .strings d.abstractMethods)]) ++
    [("superClasses", .strings d.superClasses), ("superInterfaces", .strings d.superInterfaces)]

def ofJson? (v : Json) : Option TypeDecl := do
  let [methods, abstractMethods, superClasses, superInterfaces] ←
    v.fields? ["methods", "abstractMethods", "superClasses", "superInterfaces"] | none
  return {
    methods := ← Json.orElse [] Json.strings? methods
    abstractMethods := ← Json.orElse [] Json.strings? abstractMethods
    superClasses := ← Json.orElse [] Json.strings? superClasses
    superInterfaces := ← Json.orElse [] Json.strings? superInterfaces }

end TypeDecl

/-- The declarations of an artifact by type URI, `/package/Type`. -/
abbrev ClassHierarchy := SortedMap String TypeDecl

namespace ClassHierarchy

def toJson (h : ClassHierarchy) : Json :=
  .object (h.entries.map fun e => (e.1, e.2.toJson))

/-- Reads a hierarchy; of a type that is declared twice the last declaration counts. -/
def ofJson? (v : Json) : Option ClassHierarchy :=
  (v.members? TypeDecl.ofJson?).map SortedMap.ofList

end ClassHierarchy

end Stitch
