/-
Queries for a list of coordinates.

The list has one coordinate a line; blank lines and lines that begin with `#`
are skipped.  The answer has a line for each coordinate, with what it is
related to after a comma; a coordinate that has no answer gets an empty list.
-/
import Stitch.Dependency.Dependents

namespace Stitch

structure BatchResult where
  resolved : Nat := 0
  failed : Nat := 0
  output : String := ""
  deriving DecidableEq, Repr, Inhabited

namespace Batch

/-- The lines of a list that hold coordinates, trimmed. -/
def entries (input : String) : List String :=
  ((Text.parts '\n' input.toList).map Text.trim).filterMap fun line =>
    match line with
    | [] | '#' :: _ => none
    | _ => some (String.ofList line)

/-- The line of a coordinate and the texts that it is related to. -/
def line (entry : String) (related : List String) : String :=
  s!"{entry}," ++ String.intercalate ";" related ++ "\n"

end Batch

/-- Answers a query for every coordinate of a list. -/
def resolveBatch (query : Coordinate → Except ResolveError Resolution) (input : String) :
    BatchResult :=
  (Batch.entries input).foldl (fun result entry =>
    let answer := (Coordinate.ofText entry).toOption.bind fun c => (query c).toOption
    match answer with
    | some resolution =>
      { result with
        resolved := result.resolved + 1
        output := result.output ++ Batch.line entry (resolution.coordinates.map (·.text)) }
    | none =>
      { result with
        failed := result.failed + 1
        output := result.output ++ Batch.line entry [] }) {}

end Stitch
