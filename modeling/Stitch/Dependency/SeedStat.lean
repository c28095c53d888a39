/-
Seed statistics: how far an analysis that starts at some seeds would reach.

For each radius and each number of seeds there is one row: how many revisions
the seeds have, how many could need one of them within the radius, and how many
those could need in turn.
-/
import Stitch.Dependency.PageRank

namespace Stitch

/-- How the seeds are chosen. -/
inductive SeedSelection where
  /-- Artifacts, with all their revisions. -/
  | artifacts (listed : List Artifact)
  /-- The artifacts that are ranked highest. -/
  | topArtifacts (n : Nat)
  /-- The revisions that are ranked highest. -/
  | topRevisions (n : Nat)
  deriving Inhabited

structure SeedStat where
  radius : Nat
  /-- How many artifacts, or revisions, are seeds. -/
  seeds : Nat
  seedRevisions : Nat
  ball : Nat
  closure : Nat
  deriving DecidableEq, Repr, Inhabited

namespace SeedStat

def toJson (s : SeedStat) : Json :=
  .object [("radius", .nat s.radius), ("seeds", .nat s.seeds),
    ("seed_revisions", .nat s.seedRevisions), ("ball", .nat s.ball),
    ("closure", .nat s.closure)]

/-- The row of some seeds at a radius. -/
def row (g : RevisionGraph) (radius count : Nat) (seeds : List Coordinate) : SeedStat :=
  let ball := (g.backwardBall seeds radius).map (·.coordinate)
  { radius, seeds := count, seedRevisions := seeds.length, ball := ball.length
    closure := (g.forwardClosure ball).length }

end SeedStat

namespace RevisionGraph

/-- The seed revisions of each number of seeds, from one seed on. -/
def seedSets (g : RevisionGraph) : SeedSelection → List (List Coordinate)
  | .artifacts listed => sets listed
  | .topArtifacts n => sets (PageRank.topArtifacts g n)
  | .topRevisions n =>
    let top := ((PageRank.ranked g).take n).map (·.1.coordinate)
    (List.range top.length).map fun p => top.take (p + 1)
where
  sets (artifacts : List Artifact) : List (List Coordinate) :=
    (List.range artifacts.length).map fun p =>
      (g.revisionsOf (artifacts.take (p + 1))).map (·.coordinate)

/-- The rows of a selection, radius by radius up to a greatest one. -/
def seedStats (g : RevisionGraph) (selection : SeedSelection) (radius : Nat) :
    List SeedStat :=
  let sets := g.seedSets selection
  (List.range radius).flatMap fun r =>
    sets.zipIdx.map fun (seeds, p) => SeedStat.row g (r + 1) (p + 1) seeds

end RevisionGraph

end Stitch
