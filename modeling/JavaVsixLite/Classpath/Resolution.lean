import JavaVsixLite.Classpath.Pom
import JavaVsixLite.Foundation.BreadthFirst

/-!
# Resolving the dependencies of a project

The graph of POMs is searched breadth first from the dependencies of the project.  The first
occurrence of a coordinate wins: its version is the one whose jar and POM are read, and its
exclusions are the ones that hold below it.
-/

namespace JavaVsixLite
namespace Classpath

open Foundation

structure Seed where
  group : Text
  artifact : Text
  version : Text
  exclusions : List Coordinate

namespace Seed

def key (seed : Seed) : Coordinate :=
  (seed.group, seed.artifact)

def coord (seed : Seed) : Text :=
  coordStr seed.group seed.artifact seed.version

end Seed

/-!
# Records
-/

def classifierSkip (dep : RawDep) (classifier : Text) : Text :=
  coordStr dep.group dep.artifact (dep.version.getD ['?']) ++ " (classifier ".toList ++
    classifier ++ " unsupported)".toList

def unresolvedVersion (dep : RawDep) : Text :=
  dep.group ++ ':' :: (dep.artifact ++ " (unresolved version)".toList)

def depthExceeded (seed : Seed) : Text :=
  seed.coord ++ " (max depth exceeded)".toList

def nodeLimitExceeded : Text :=
  "resolution truncated: node limit (".toList ++ (toString maxNodes).toList ++
    ") exceeded".toList

/-!
# Edges
-/

/-- What becomes of a dependency: nothing, a record, or an entry of the search. -/
inductive Edge where
  | skipped
  | recorded (record : Text)
  | followed (seed : Seed)

namespace Edge

def record? : Edge -> Option Text
  | recorded record => some record
  | _ => none

def seed? : Edge -> Option Seed
  | followed seed => some seed
  | _ => none

end Edge

def declaredEdge (dep : RawDep) (exclusions : List Coordinate) : Edge :=
  match dep.classifier with
  | some classifier => .recorded (classifierSkip dep classifier)
  | none =>
    match dep.version with
    | none => .recorded (unresolvedVersion dep)
    | some version =>
      .followed {
        group := dep.group
        artifact := dep.artifact
        version := version
        exclusions := exclusions }

def rootEdge (dep : RawDep) : Edge :=
  declaredEdge dep dep.exclusions

/-- Transitive edges: `compile` and `runtime` only, never optional, and not excluded. -/
def transitiveEdge (seed : Seed) (dep : RawDep) : Edge :=
  if (dep.scope ≠ "compile".toList ∧ dep.scope ≠ "runtime".toList) ∨ dep.optional = true then
    .skipped
  else if dep.key ∈ seed.exclusions then .skipped
  else declaredEdge dep (seed.exclusions ++ dep.exclusions)

def rootSeeds (effective : EffectivePom) (seeds : List Seed) (degraded : List Text) :
    List Seed × List Text :=
  (seeds ++ (effective.dependencies.map rootEdge).filterMap Edge.seed?,
    degraded ++ (effective.dependencies.map rootEdge).filterMap Edge.record?)

/-!
# The search
-/

structure Visit where
  jar : Option Text
  degraded : List Text
  queued : List (Seed × Nat)

/-- The entries visited are kept in order; the set of the source holds their keys. -/
structure Resolution where
  visited : List (Seed × Nat)
  jars : List Text
  degraded : List Text

def Resolution.add (state : Resolution) (entry : Seed × Nat) (visit : Visit) : Resolution where
  visited := state.visited ++ [entry]
  jars := state.jars ++ visit.jar.toList
  degraded := state.degraded ++ visit.degraded

structure ResolvedProject where
  jars : List Text
  sourceRoots : List Text
  degraded : List Text

namespace Environment

variable (env : Environment)

def jarOf (seed : Seed) : Option Text :=
  env.locator.locateJar seed.group seed.artifact seed.version

def pomOf (seed : Seed) : Option EffectivePom :=
  (env.locator.locatePom seed.group seed.artifact seed.version).bind
    (fun path => env.parseEffectivePom path none)

def visit (entry : Seed × Nat) : Visit :=
  if entry.2 > maxDepth then
    { jar := none, degraded := [depthExceeded entry.1], queued := [] }
  else
    match env.jarOf entry.1 with
    | none => { jar := none, degraded := [entry.1.coord], queued := [] }
    | some jar =>
      match env.pomOf entry.1 with
      | none => { jar := some jar, degraded := [entry.1.coord], queued := [] }
      | some effective =>
        let edges := effective.dependencies.map (transitiveEdge entry.1)
        { jar := some jar
          degraded := effective.degraded ++ edges.filterMap Edge.record?
          queued := (edges.filterMap Edge.seed?).map (fun seed => (seed, entry.2 + 1)) }

def resolveLoop (budget : Nat) (state : Resolution) (queue : List (Seed × Nat)) : Resolution :=
  match budget, queue with
  | _, [] => state
  | budget, entry :: queue =>
    if entry.1.key ∈ state.visited.map (fun v => v.1.key) then
      resolveLoop budget state queue
    else
      match budget with
      | 0 => { state with degraded := state.degraded ++ [nodeLimitExceeded] }
      | budget + 1 =>
        let visit := env.visit entry
        resolveLoop budget (state.add entry visit) (queue ++ visit.queued)
  termination_by (budget, queue.length)

def resolution (seeds : List Seed) : Resolution :=
  env.resolveLoop maxNodes { visited := [], jars := [], degraded := [] }
    (seeds.map (fun seed => (seed, 0)))

def resolveTransitive (seeds : List Seed) : List Text × List Text :=
  ((env.resolution seeds).jars, (env.resolution seeds).degraded)

def skipsModule (module : Text) : Bool :=
  module.isEmpty || decide (['.', '.'] <:+: module) || isAbsolute env.platform module

def sourceRoot (directory : Text) : List Text :=
  let root := env.platform.join directory "src/main/java".toList
  if env.isDir root then [root] else []

/-- The POM of a directory of the project. -/
def projectPom (projectRoot directory : Text) : Option EffectivePom :=
  env.parseEffectivePom (env.platform.join directory "pom.xml".toList) (some projectRoot)

def addModule (projectRoot : Text) (state : List Seed × ResolvedProject) (module : Text) :
    List Seed × ResolvedProject :=
  if env.skipsModule module then state
  else
    let moduleDir := env.platform.join projectRoot module
    let roots := state.2.sourceRoots ++ env.sourceRoot moduleDir
    match env.projectPom projectRoot moduleDir with
    | some effective =>
      let seeded := rootSeeds effective state.1 (state.2.degraded ++ effective.degraded)
      (seeded.1, { state.2 with sourceRoots := roots, degraded := seeded.2 })
    | none =>
      (state.1, { state.2 with
        sourceRoots := roots
        degraded := state.2.degraded ++
          ["module ".toList ++ module ++ " (pom unreadable)".toList] })

/-- The seeds of the project and its modules, with what is recorded on the way. -/
def projectSeeds (projectRoot : Text) (effective : EffectivePom) : List Seed × ResolvedProject :=
  let seeded := rootSeeds effective [] effective.degraded
  effective.modules.foldl (env.addModule projectRoot)
    (seeded.1, {
      jars := []
      sourceRoots := env.sourceRoot projectRoot
      degraded := seeded.2 })

def resolveMavenLikeProject (projectRoot : Text) : ResolvedProject :=
  match env.projectPom projectRoot projectRoot with
  | none => { jars := [], sourceRoots := [], degraded := [] }
  | some effective =>
    let walked := env.projectSeeds projectRoot effective
    let resolved := env.resolveTransitive walked.1
    { walked.2 with jars := resolved.1, degraded := walked.2.degraded ++ resolved.2 }

end Environment

/-!
# The loop is a breadth-first search
-/

namespace Environment

variable (env : Environment)

def entryKey (entry : Seed × Nat) : Coordinate :=
  entry.1.key

def children (entry : Seed × Nat) : List (Seed × Nat) :=
  (env.visit entry).queued

abbrev searched (budget : Nat) (state : Resolution) (queue : List (Seed × Nat)) :
    List (Seed × Nat) × List (Seed × Nat) :=
  BreadthFirst.search entryKey env.children budget (state.visited.map entryKey) queue

def Resolution.extended (state : Resolution) (env : Environment)
    (found : List (Seed × Nat) × List (Seed × Nat)) : Resolution where
  visited := state.visited ++ found.1
  jars := state.jars ++ found.1.filterMap (fun entry => (env.visit entry).jar)
  degraded := state.degraded ++ (found.1.flatMap (fun entry => (env.visit entry).degraded) ++
    if found.2 = [] then [] else [nodeLimitExceeded])

theorem resolveLoop_eq (budget : Nat) (state : Resolution) (queue : List (Seed × Nat)) :
    env.resolveLoop budget state queue =
      Resolution.extended state env (env.searched budget state queue) := by
  generalize hseen : state.visited.map entryKey = seen
  induction budget, seen, queue using
    BreadthFirst.search_induction entryKey env.children
    generalizing state with
  | nil budget seen =>
    rw [searched, BreadthFirst.search_nil, resolveLoop.eq_def]
    simp [Resolution.extended]
  | skip budget seen entry rest hmem ih =>
    rw [searched, BreadthFirst.search_seen budget (hseen ▸ hmem), resolveLoop.eq_def]
    show (if _ then _ else _) = _
    rw [if_pos (hseen ▸ hmem)]
    exact ih state hseen
  | stop seen entry rest hmem =>
    rw [searched, BreadthFirst.search_zero (hseen ▸ hmem), resolveLoop.eq_def]
    show (if _ then _ else _) = _
    rw [if_neg (hseen ▸ hmem)]
    simp [Resolution.extended]
  | visit budget seen entry rest hmem ih =>
    rw [searched, BreadthFirst.search_succ budget (hseen ▸ hmem), resolveLoop.eq_def]
    show (if _ then _ else _) = _
    rw [if_neg (hseen ▸ hmem)]
    have hadded : (state.add entry (env.visit entry)).visited.map entryKey =
        seen ++ [entryKey entry] := by
      show (state.visited ++ [entry]).map entryKey = _
      rw [List.map_append, hseen]
      rfl
    have hnext := ih (state.add entry (env.visit entry)) hadded
    rw [searched, hadded] at hnext
    rw [hseen]
    refine hnext.trans ?_
    cases hjar : (env.visit entry).jar <;>
      simp [Resolution.extended, Resolution.add, hjar, List.append_assoc]

end Environment

end Classpath
end JavaVsixLite
