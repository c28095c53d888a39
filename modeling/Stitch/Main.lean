/-
The program on the files of a machine.
-/
import Std.Time.DateTime.Timestamp
import Stitch.Command.Run

namespace Stitch

namespace Machine

/-- Why an operation of the machine failed. -/
def fault : IO.Error → FileFault
  | .noFileOrDirectory .. => .notFound
  | .alreadyExists .. => .exists
  | .inappropriateType .. => .notFolder
  | e => .other (toString e)

/-- An operation of the machine, whose failure is a fault. -/
def attempt {α : Type} (operation : IO α) : IO (Except FileFault α) := do
  try return .ok (← operation)
  catch e => return .error (fault e)

/-- An operation on the file or folder at a path. -/
def attemptAt {α : Type} (path : Path) (operation : String → IO α) : IO (Except FileFault α) :=
  if path.text.isEmpty then return .error .notFound
  else if path.text.toList.contains '\x00' then return .error .invalidName
  else attempt (operation path.text)

/-- Whether there is a folder at a path. -/
def isFolder (path : String) : IO Bool := do
  return (← ((← IO.currentDir) / path).metadata).type == .dir

end Machine

open Machine in
instance : FileSystem IO where
  kind? path := attemptAt path fun p => do return if ← isFolder p then .folder else .file
  read path := do
    match ← attemptAt path isFolder with
    | .error fault => return .error fault
    | .ok true => return .error .isFolder
    | .ok false => attemptAt path fun p => do return (← IO.FS.readBinFile p).data.toList
  list path := attemptAt path fun p => do
    let entries ← ((← IO.currentDir) / p).readDir
    return (entries.toList.map (·.fileName)).mergeSort (· ≤ ·)
  write path bytes := attemptAt path fun p => IO.FS.writeBinFile p ⟨bytes.toArray⟩
  move source target := attemptAt source fun s => IO.FS.rename s target.text
  createFolder path := attemptAt path fun p => IO.FS.createDir p
  workingFolder := return ⟨(← IO.currentDir).toString⟩
  now := do
    let time ← Std.Time.Timestamp.now
    return .ofEpoch time.toSecondsSinceUnixEpoch.val (time.toNanosecondsSinceUnixEpoch.val % 1000000000).toNat

namespace Machine

/-- The variables that a machine lists for the program, each ended by a zero. -/
def variablesOf (bytes : List UInt8) : List (String × String) :=
  (Text.parts '\x00' (Text.Utf8.lossy bytes).toList).filterMap fun entry =>
    (Text.cut '=' entry).map fun p => (String.ofList p.1, String.ofList p.2)

/-- The environment: all of it where the machine lists it, else what settings can
come from. -/
def environment : IO Environment := do
  match ← attempt (IO.FS.readBinFile "/proc/self/environ") with
  | .ok bytes => return .ofList (variablesOf bytes.data.toList)
  | .error _ =>
    let found ← Settings.recognised.mapM fun v => do return (← IO.getEnv v.name).map (v.name, ·)
    return .ofList (found.filterMap id)

end Machine

end Stitch

def main (arguments : List String) : IO UInt32 := do
  let report ← Stitch.runProgram (m := IO) arguments (← Stitch.Machine.environment)
  IO.print report.output
  IO.eprint report.error
  return report.exitCode.toUInt32
