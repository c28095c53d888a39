/-
Graph stores in a folder.

A stored graph is two files: its tables in the binary layout, and a JSON
document that says what they hold.  The files are named after the coordinate.
Each field of it is percent-encoded except for letters, digits, dots and
hyphens, so that the underscores stand between fields only and different
coordinates have different files.

The tables are written under another name and then moved into place, and the
document is written last: a graph is there in full or not at all, and one
without a document was interrupted.
-/
import Stitch.Json.Parser
import Stitch.Json.Printer
import Stitch.Store.Basic
import Stitch.Text.Percent

namespace Stitch

structure DirectoryStore where
  root : Path
  deriving DecidableEq, Repr, Inhabited

namespace DirectoryStore

/-- The bytes that stand for themselves in file names. -/
def isPlain (b : UInt8) : Bool :=
  let c := Char.ofNat b.toNat
  c.isAlphanum || c = '.' || c = '-'

/-- The name of a coordinate's files without their extension. -/
def stem (c : Coordinate) : String :=
  String.intercalate "_" <|
    [c.forge, c.artifact.group, c.artifact.name, c.version].map (Text.Percent.encode isPlain)

def graphExtension : String := "bin"

def documentExtension : String := "json"

def stagingExtension : String := "tmp"

/-- The path of a coordinate's file with an extension. -/
def pathOf (s : DirectoryStore) (c : Coordinate) (ending : String) : Path :=
  s.root.join ⟨stem c ++ "." ++ ending⟩

def graphPath (s : DirectoryStore) (c : Coordinate) : Path := s.pathOf c graphExtension

def documentPath (s : DirectoryStore) (c : Coordinate) : Path := s.pathOf c documentExtension

def stagingPath (s : DirectoryStore) (c : Coordinate) : Path := s.pathOf c stagingExtension

variable {m : Type → Type} [Monad m] [FileSystem m]

/-- The store in a folder, which is made when it is missing. -/
def openAt (root : Path) : ExceptT StoreError m DirectoryStore := do
  FileSystem.attempt (.unavailable root) (FileSystem.createFolders root)
  return ⟨root⟩

/-- The files of the store with an extension, in the order of their names. -/
def filesWith (s : DirectoryStore) (ending : String) : ExceptT StoreError m (List Path) := do
  let names ← FileSystem.attempt (.unavailable s.root) (FileSystem.list s.root)
  return (names.filter fun name => Path.extension? name == some ending).map fun name =>
    s.root.join ⟨name⟩

/-- The files of stored graphs, with or without a document. -/
def graphFiles (s : DirectoryStore) : ExceptT StoreError m (List Path) :=
  s.filesWith graphExtension

/-- Reads the document of a stored graph. -/
def readDocument (path : Path) : ExceptT StoreError m StoredGraph := do
  let text ← FileSystem.attempt (.unavailable path) (FileSystem.readText path)
  match Json.parse? text >>= StoredGraph.ofJson? with
  | some entry => return entry
  | none => throw (.malformed path)

/-- The graph whose tables are in some bytes. -/
def decodeGraph (bytes : List UInt8) : Except StoreError MergedGraph :=
  match Binary.run? GraphDocument.ofBytes bytes with
  | none => .error .unreadable
  | some document => (MergedGraph.ofDocument document).mapError .inconsistent

/-- Reads the tables of a stored graph. -/
def readGraph (path : Path) : ExceptT StoreError m MergedGraph := do
  match ← (FileSystem.read path : m _) with
  | .error .isFolder => throw .unreadable
  | .error fault => throw (.unavailable path fault)
  | .ok bytes => liftExcept (decodeGraph bytes)

/-- Stores the graph of a revision. -/
def put (s : DirectoryStore) (c : Coordinate) (graph : MergedGraph) : ExceptT StoreError m Unit := do
  let path := s.graphPath c
  if ← (FileSystem.contains path : m Bool) then throw (.alreadyStored c.text)
  -- The tables are complete under another name before they are moved.
  let staging := s.stagingPath c
  FileSystem.attempt (.unavailable staging) (FileSystem.write staging graph.toDocument.toBytes)
  FileSystem.attempt (.unavailable path) (FileSystem.move staging path)
  -- From here on the graph is stored, with or without its document.
  let entry := StoredGraph.ofGraph c graph (← (FileSystem.now : m Instant))
  let document := s.documentPath c
  FileSystem.attempt (.unavailable document) (FileSystem.writeText document entry.toJson.pretty)

def contains (s : DirectoryStore) (c : Coordinate) : ExceptT StoreError m Bool :=
  (FileSystem.contains (s.graphPath c) : m Bool)

/-- The graph of a revision. -/
def get (s : DirectoryStore) (c : Coordinate) : ExceptT StoreError m MergedGraph := do
  if ← s.contains c then readGraph (s.graphPath c) else throw (.notFound c.text)

/-- What is stored according to the documents, in the order of the coordinates. -/
def list (s : DirectoryStore) : ExceptT StoreError m (List StoredGraph) := do
  return StoredGraph.sorted (← (← s.filesWith documentExtension).mapM readDocument)

/-- The store as what every store can do. -/
def store (s : DirectoryStore) : GraphStore m where
  put := s.put
  get := s.get
  contains := s.contains
  list := s.list

end DirectoryStore

end Stitch
