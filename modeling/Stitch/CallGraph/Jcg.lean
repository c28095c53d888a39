/-
Export of merged graphs in the JCG benchmark format.

Every internal node is a reachable method, and every call from it is a call
site of its own with the called method as its one target.  Methods are written
with descriptors: `Lpackage/Type;` for a class, a letter for a primitive type,
and a bracket in front for each array dimension.  Nodes whose URI names no
method are left out.
-/
import Stitch.CallGraph.Merged
import Stitch.MethodUri
import Stitch.Text.Percent

namespace Stitch

structure JcgMethod where
  name : String
  declaringClass : String
  returnType : String
  parameterTypes : List String
  deriving DecidableEq, Repr, Inhabited

structure JcgCallSite where
  declaredTarget : JcgMethod
  line : Int
  pc : Nat
  targets : List JcgMethod
  deriving DecidableEq, Repr, Inhabited

structure JcgReachableMethod where
  method : JcgMethod
  callSites : List JcgCallSite
  deriving DecidableEq, Repr, Inhabited

structure JcgDocument where
  reachableMethods : List JcgReachableMethod
  deriving DecidableEq, Repr, Inhabited

namespace Jcg

/-- The descriptor of a class. -/
def classDescriptor (package typeName : List Char) : List Char :=
  let path := package.map fun c => if c = '.' then '/' else c
  'L' :: (if path.isEmpty then typeName else path ++ '/' :: typeName) ++ [';']

/-- The letter of a primitive type by its name in the package `java.lang`. -/
def primitive? (name : List Char) : Option Char :=
  (([("VoidType", 'V'), ("BooleanType", 'Z'), ("ByteType", 'B'), ("CharacterType", 'C'),
      ("ShortType", 'S'), ("IntegerType", 'I'), ("LongType", 'J'), ("FloatType", 'F'),
      ("DoubleType", 'D')] : List (String × Char)).find? fun p => p.1.toList == name).map (·.2)

/-- The number of bracket pairs that a text ends with and what is in front of
them.  The text is given backwards, and so is the rest. -/
def dimensions : List Char → Nat × List Char
  | ']' :: '[' :: cs => let (n, base) := dimensions cs; (n + 1, base)
  | cs => (0, cs)

/-- The descriptor of a type that is no array. -/
def baseDescriptor (type : List Char) : List Char :=
  match type with
  | '/' :: path =>
    match Text.cut '/' path with
    | some (package, name) =>
      if package = "java.lang".toList then
        match primitive? name with
        | some letter => [letter]
        | none => classDescriptor package name
      else classDescriptor package name
    | none => type
  | _ => type

/-- The descriptor of a type as a signature holds it, percent codes and all.
Brackets are encoded twice inside a parameter list. -/
def typeDescriptor (encoded : List Char) : String :=
  let decoded := Text.Percent.decodeTimes 3 (String.ofList encoded)
  let (n, base) := dimensions decoded.toList.reverse
  String.ofList (List.replicate n '[' ++ baseDescriptor base.reverse)

/-- The method that a URI names. -/
def method? (uri : String) : Option JcgMethod := do
  let uri ← (MethodUri.ofText uri).toOption
  let (name, rest) ← Text.cut '(' uri.signature.toList
  let (params, result) ← Text.cutLast ')' rest
  return {
    name := String.ofList name
    declaringClass := String.ofList (classDescriptor uri.package.toList uri.typeName.toList)
    returnType := typeDescriptor result
    parameterTypes := ((Text.parts ',' params).filter fun p => !p.isEmpty).map typeDescriptor }

/-- The call sites of a node: one for each method that it calls, numbered. -/
def callSites (g : MergedGraph) (gid : Gid) : List JcgCallSite :=
  let targets := (g.successors gid).filterMap fun target =>
    g.node? target >>= fun node => method? node.uri
  targets.zipIdx.map fun (target, pc) =>
    { declaredTarget := target, line := -1, pc, targets := [target] }

end Jcg

/-- The export of a graph. -/
def MergedGraph.toJcg (g : MergedGraph) : JcgDocument where
  reachableMethods :=
    (g.numbered.filter fun p => p.2.isInternal).filterMap fun (gid, node) =>
      (Jcg.method? node.uri).map fun method => { method, callSites := Jcg.callSites g gid }

/-- Several exports one after the other. -/
def JcgDocument.concat (documents : List JcgDocument) : JcgDocument :=
  ⟨documents.flatMap (·.reachableMethods)⟩

def JcgMethod.toJson (m : JcgMethod) : Json :=
  .object [("name", .string m.name), ("declaringClass", .string m.declaringClass),
    ("returnType", .string m.returnType), ("parameterTypes", .strings m.parameterTypes)]

def JcgCallSite.toJson (s : JcgCallSite) : Json :=
  .object [("declaredTarget", s.declaredTarget.toJson), ("line", .int s.line),
    ("pc", .nat s.pc), ("targets", .array (s.targets.map JcgMethod.toJson))]

def JcgReachableMethod.toJson (r : JcgReachableMethod) : Json :=
  .object [("method", r.method.toJson),
    ("callSites", .array (r.callSites.map JcgCallSite.toJson))]

def JcgDocument.toJson (d : JcgDocument) : Json :=
  .object [("reachableMethods", .array (d.reachableMethods.map JcgReachableMethod.toJson))]

end Stitch
