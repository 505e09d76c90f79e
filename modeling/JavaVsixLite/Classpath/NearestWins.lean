import JavaVsixLite.Classpath.Resolution

/-!
# The nearest declaration wins

Every entry of the queue is an occurrence of a coordinate.  The occurrences come in the order
of their depths, and those of one depth in the order of their declarations.  What is visited
for a coordinate is its first occurrence, and it is reached by edges that count only.
-/

namespace JavaVsixLite
namespace Classpath

open Foundation
open Environment

/-!
# Edges that are followed
-/

structure Followed (excluded : List Coordinate) (dep : RawDep) (version : Text) : Prop where
  scope : dep.scope = "compile".toList ∨ dep.scope = "runtime".toList
  required : dep.optional = false
  included : dep.key ∉ excluded
  plain : dep.classifier = none
  versioned : dep.version = some version

def target (dep : RawDep) (version : Text) (exclusions : List Coordinate) : Seed where
  group := dep.group
  artifact := dep.artifact
  version := version
  exclusions := exclusions

theorem contains_eq_false_iff {excluded : List Coordinate} {key : Coordinate} :
    excluded.contains key = false <-> key ∉ excluded := by
  rw [← Bool.not_eq_true, List.contains_iff_mem]

instance (excluded : List Coordinate) (dep : RawDep) (version : Text) :
    Decidable (Followed excluded dep version) :=
  decidable_of_iff
    ((dep.scope = "compile".toList ∨ dep.scope = "runtime".toList) ∧ dep.optional = false ∧
      excluded.contains dep.key = false ∧ dep.classifier = none ∧ dep.version = some version)
    ⟨fun ⟨hscope, hrequired, hincluded, hplain, hversioned⟩ =>
        ⟨hscope, hrequired, contains_eq_false_iff.mp hincluded, hplain, hversioned⟩,
      fun h => ⟨h.scope, h.required, contains_eq_false_iff.mpr h.included, h.plain,
        h.versioned⟩⟩

/-- What a dependency of the seed's POM asks for, if it counts. -/
def follow (parent : Seed) (dep : RawDep) : Option Seed :=
  dep.version.bind (fun version =>
    if Followed parent.exclusions dep version then
      some (target dep version (parent.exclusions ++ dep.exclusions))
    else none)

/-- The dependencies behind an entry: all that its POM declares and that count. -/
def declaredBelow (env : Environment) (entry : Seed × Nat) : List (Seed × Nat) :=
  if entry.2 ≤ maxDepth ∧ (env.jarOf entry.1).isSome then
    ((env.pomOf entry.1).toList.flatMap (fun effective =>
      effective.dependencies.filterMap (follow entry.1))).map (fun seed => (seed, entry.2 + 1))
  else []

theorem declaredEdge_followed {dep : RawDep} {exclusions : List Coordinate} {seed : Seed}
    (h : declaredEdge dep exclusions = .followed seed) :
    exists version, dep.classifier = none ∧ dep.version = some version ∧
      seed = target dep version exclusions := by
  unfold declaredEdge at h
  split at h
  · cases h
  · rename_i hclassifier
    split at h
    · cases h
    · rename_i version hversion
      exact ⟨version, hclassifier, hversion, (Edge.followed.inj h).symm⟩

theorem transitiveEdge_followed {parent child : Seed} {dep : RawDep}
    (h : transitiveEdge parent dep = .followed child) :
    exists version, Followed parent.exclusions dep version ∧
      child = target dep version (parent.exclusions ++ dep.exclusions) := by
  unfold transitiveEdge at h
  split at h
  · cases h
  · rename_i hfilter
    rw [not_or, not_and_or, Decidable.not_not, Decidable.not_not] at hfilter
    split at h
    · cases h
    · rename_i hincluded
      rcases declaredEdge_followed h with ⟨version, hclassifier, hversion, hchild⟩
      exact ⟨version, ⟨hfilter.1, Bool.eq_false_iff.mpr hfilter.2, hincluded, hclassifier,
        hversion⟩, hchild⟩

theorem mem_filterMap_seed? {edges : List Edge} {seed : Seed} :
    seed ∈ edges.filterMap Edge.seed? <-> Edge.followed seed ∈ edges := by
  rw [List.mem_filterMap]
  constructor
  · rintro ⟨edge, hedge, hseed⟩
    cases edge with
    | skipped => cases hseed
    | recorded record => cases hseed
    | followed other =>
      cases hseed
      exact hedge
  · intro h
    exact ⟨_, h, rfl⟩

theorem transitiveEdge_of_counts {parent : Seed} {dep : RawDep}
    (hscope : dep.scope = "compile".toList ∨ dep.scope = "runtime".toList)
    (hrequired : dep.optional = false) (hincluded : dep.key ∉ parent.exclusions) :
    transitiveEdge parent dep = declaredEdge dep (parent.exclusions ++ dep.exclusions) := by
  unfold transitiveEdge
  rw [if_neg, if_neg hincluded]
  rintro (⟨hcompile, hruntime⟩ | hoptional)
  · exact hscope.elim hcompile hruntime
  · rw [hrequired] at hoptional
    cases hoptional

theorem transitiveEdge_eq_followed {parent child : Seed} {dep : RawDep} :
    transitiveEdge parent dep = .followed child <-> follow parent dep = some child := by
  constructor
  · intro h
    rcases transitiveEdge_followed h with ⟨version, hcounts, hchild⟩
    rw [follow, hcounts.versioned, Option.bind_some, if_pos hcounts, hchild]
  · intro h
    rcases Option.bind_eq_some_iff.mp h with ⟨version, hversion, hchild⟩
    split at hchild
    · rename_i hcounts
      rw [transitiveEdge_of_counts hcounts.scope hcounts.required hcounts.included,
        declaredEdge, hcounts.plain, hversion, ← Option.some.inj hchild]
      rfl
    · cases hchild

theorem seed?_transitiveEdge (parent : Seed) (dep : RawDep) :
    (transitiveEdge parent dep).seed? = follow parent dep := by
  apply Option.ext
  intro child
  rw [← transitiveEdge_eq_followed]
  cases transitiveEdge parent dep <;> simp [Edge.seed?]

theorem children_eq (env : Environment) : env.children = declaredBelow env := by
  funext entry
  unfold children visit declaredBelow
  by_cases hdepth : entry.2 ≤ maxDepth
  · rw [if_neg (Nat.not_lt.mpr hdepth)]
    cases hjar : env.jarOf entry.1 with
    | none => simp
    | some jar =>
      cases hpom : env.pomOf entry.1 with
      | none => simp
      | some effective =>
        have hedges : ((effective.dependencies.map (transitiveEdge entry.1)).filterMap
            Edge.seed?) = effective.dependencies.filterMap (follow entry.1) := by
          rw [List.filterMap_map]
          exact List.filterMap_congr (fun dep _ => seed?_transitiveEdge entry.1 dep)
        simp only [hedges, Option.toList_some, List.flatMap_singleton]
        rw [if_pos ⟨hdepth, rfl⟩]
  · rw [if_pos (Nat.lt_of_not_le hdepth), if_neg (fun h => hdepth h.1)]

/-- The jar of an entry within the depth limit, where there is one. -/
def jarAt (env : Environment) (entry : Seed × Nat) : Option Text :=
  if entry.2 ≤ maxDepth then env.jarOf entry.1 else none

theorem visit_jar (env : Environment) (entry : Seed × Nat) :
    (env.visit entry).jar = jarAt env entry := by
  unfold visit jarAt
  by_cases hdepth : entry.2 ≤ maxDepth
  · rw [if_neg (Nat.not_lt.mpr hdepth), if_pos hdepth]
    split
    · rename_i hnone
      exact hnone.symm
    · rename_i found hfound
      rw [hfound]
      split <;> rfl
  · rw [if_pos (Nat.lt_of_not_le hdepth), if_neg hdepth]

theorem mem_declaredBelow {env : Environment} {parent child : Seed × Nat}
    (h : child ∈ declaredBelow env parent) :
    child.2 = parent.2 + 1 ∧ exists effective dep version, env.pomOf parent.1 = some effective ∧
      dep ∈ effective.dependencies ∧ Followed parent.1.exclusions dep version ∧
        child.1 = target dep version (parent.1.exclusions ++ dep.exclusions) := by
  unfold declaredBelow at h
  split at h
  · rcases List.mem_map.mp h with ⟨seed, hseed, rfl⟩
    rcases List.mem_flatMap.mp hseed with ⟨effective, heffective, hmem⟩
    rcases List.mem_filterMap.mp hmem with ⟨dep, hdep, hfollow⟩
    rcases Option.bind_eq_some_iff.mp hfollow with ⟨version, _, hcounts⟩
    split at hcounts
    · rename_i hfollowed
      refine ⟨rfl, effective, dep, version, Option.mem_toList.mp heffective, hdep,
        hfollowed, (Option.some.inj hcounts).symm⟩
    · cases hcounts
  · cases h

/-!
# Routes
-/

def exclusionsAlong (root : Seed) (path : List RawDep) : List Coordinate :=
  root.exclusions ++ path.flatMap RawDep.exclusions

inductive Route (env : Environment) (visited : List (Seed × Nat)) (root : Seed) :
    List RawDep -> Seed -> Prop where
  | start : Route env visited root [] root
  | follow {path : List RawDep} {parent : Seed} {effective : EffectivePom} {dep : RawDep}
      {version : Text} (h : Route env visited root path parent)
      (hvisited : (parent, path.length) ∈ visited)
      (hpom : env.pomOf parent = some effective) (hdep : dep ∈ effective.dependencies)
      (hfollowed : Followed (exclusionsAlong root path) dep version) :
      Route env visited root (path ++ [dep])
        (target dep version (exclusionsAlong root (path ++ [dep])))

theorem Route.exclusions_eq {env : Environment} {visited : List (Seed × Nat)} {root seed : Seed}
    {path : List RawDep} (h : Route env visited root path seed) :
    seed.exclusions = exclusionsAlong root path := by
  cases h with
  | start => exact (List.append_nil _).symm
  | follow h hvisited hpom hdep hfollowed => rfl

/-!
# The resolution
-/

section Resolution

variable (env : Environment) (seeds : List Seed)

def seedEntries : List (Seed × Nat) :=
  seeds.map (fun seed => (seed, 0))

def occurrences (visited : List (Seed × Nat)) : List (Seed × Nat) :=
  BreadthFirst.occurrences (declaredBelow env) (seedEntries seeds) visited

/-- What a resolution by the nearest declaration is. -/
structure NearestWins (found : Resolution) : Prop where
  /-- Each coordinate is visited once. -/
  once : (found.visited.map entryKey).Nodup
  bounded : found.visited.length ≤ maxNodes
  /-- The occurrences come in the order of their depths. -/
  breadthFirst : (occurrences env seeds found.visited).Pairwise (fun a b => a.2 ≤ b.2)
  /-- What is visited is the first occurrence, with its version and its exclusions. -/
  first : forall entry, entry ∈ found.visited ->
    (occurrences env seeds found.visited).find? (fun o => entryKey o = entryKey entry) =
      some entry
  inOrder : found.visited.Sublist (occurrences env seeds found.visited)
  /-- No coordinate is passed over before the limit. -/
  complete : found.visited.length < maxNodes -> forall o,
    o ∈ occurrences env seeds found.visited -> exists entry, entry ∈ found.visited ∧
      entryKey entry = entryKey o
  jars_eq : found.jars = found.visited.filterMap (jarAt env)
  /-- A jar is that of a visited entry, at the end of a path of edges that count. -/
  reached : forall jar, jar ∈ found.jars -> exists root path seed, root ∈ seeds ∧
    Route env found.visited root path seed ∧ (seed, path.length) ∈ found.visited ∧
    path.length ≤ maxDepth ∧ env.jarOf seed = some jar

theorem resolution_visited :
    (env.resolution seeds).visited =
      (BreadthFirst.search entryKey (declaredBelow env) maxNodes [] (seedEntries seeds)).1 := by
  unfold resolution
  rw [resolveLoop_eq, ← children_eq]
  rfl

theorem resolution_jars :
    (env.resolution seeds).jars =
      (env.resolution seeds).visited.filterMap (jarAt env) := by
  have hjar : jarAt env = fun entry => (env.visit entry).jar :=
    funext (fun entry => (visit_jar env entry).symm)
  rw [hjar]
  unfold resolution
  rw [resolveLoop_eq]
  rfl

theorem depth_seedEntries {entry : Seed × Nat} (h : entry ∈ seedEntries seeds) :
    entry.2 = 0 ∧ entry.1 ∈ seeds := by
  rcases List.mem_map.mp h with ⟨seed, hseed, rfl⟩
  exact ⟨rfl, hseed⟩

theorem route_of_occurrence {visited : List (Seed × Nat)}
    (hsub : visited.Sublist (occurrences env seeds visited)) {entry : Seed × Nat}
    (h : entry ∈ occurrences env seeds visited) :
    exists root path, root ∈ seeds ∧ path.length = entry.2 ∧
      Route env visited root path entry.1 := by
  -- The parent of an entry was visited one level above it.
  induction hdepth : entry.2 generalizing entry with
  | zero =>
    rcases List.mem_append.mp h with hseed | hchild
    · exact ⟨entry.1, [], (depth_seedEntries seeds hseed).2, rfl, .start⟩
    · rcases List.mem_flatMap.mp hchild with ⟨parent, _, hmem⟩
      rw [(mem_declaredBelow hmem).1] at hdepth
      cases hdepth
  | succ d ih =>
    rcases List.mem_append.mp h with hseed | hchild
    · rw [(depth_seedEntries seeds hseed).1] at hdepth
      cases hdepth
    · rcases List.mem_flatMap.mp hchild with ⟨parent, hparent, hmem⟩
      rcases mem_declaredBelow hmem with
        ⟨hlevel, effective, dep, version, hpom, hdep, hfollowed, hchild⟩
      rw [hdepth] at hlevel
      rcases ih (hsub.subset hparent) (Nat.succ.inj hlevel).symm with
        ⟨root, path, hroot, hlength, hroute⟩
      rw [hroute.exclusions_eq] at hfollowed hchild
      have hvisited : (parent.1, path.length) ∈ visited := by
        rw [hlength, Nat.succ.inj hlevel]
        exact hparent
      have hexclusions : exclusionsAlong root path ++ dep.exclusions =
          exclusionsAlong root (path ++ [dep]) := by
        simp [exclusionsAlong]
      rw [hchild, hexclusions]
      exact ⟨root, path ++ [dep], hroot, by rw [List.length_append, hlength]; rfl,
        .follow hroute hvisited hpom hdep hfollowed⟩

theorem nearest_wins : NearestWins env seeds (env.resolution seeds) := by
  have hvisited := resolution_visited env seeds
  have hsub : (env.resolution seeds).visited.Sublist
      (occurrences env seeds (env.resolution seeds).visited) := by
    rw [hvisited]
    exact BreadthFirst.visited_sublist maxNodes [] (seedEntries seeds)
  constructor
  case once =>
    rw [hvisited]
    exact BreadthFirst.nodup_visited maxNodes [] (seedEntries seeds)
  case bounded =>
    rw [hvisited]
    exact BreadthFirst.length_visited_le entryKey (declaredBelow env) maxNodes []
      (seedEntries seeds)
  case breadthFirst =>
    rw [hvisited]
    have hlayered : BreadthFirst.Layered Prod.snd (seedEntries seeds) :=
      BreadthFirst.layered_of_const (fun entry h => (depth_seedEntries seeds h).1)
    exact (BreadthFirst.occurrences_ordered (fun _ _ h => (mem_declaredBelow h).1) maxNodes []
      hlayered).1
  case first =>
    intro entry hentry
    rw [hvisited] at hentry ⊢
    exact BreadthFirst.visited_first maxNodes [] (seedEntries seeds) hentry
  case inOrder => exact hsub
  case complete =>
    intro hlength o ho
    rw [hvisited] at hlength ho ⊢
    rcases BreadthFirst.left_cases entryKey (declaredBelow env) maxNodes []
      (seedEntries seeds) with hleft | hfull
    · rcases BreadthFirst.covered maxNodes [] (seedEntries seeds) ho with hseen | hfound | hwaiting
      · cases hseen
      · exact hfound
      · rw [hleft] at hwaiting
        cases hwaiting
    · exact absurd hfull (Nat.ne_of_lt hlength)
  case jars_eq => exact resolution_jars env seeds
  case reached =>
    intro jar hjar
    rw [resolution_jars] at hjar
    rcases List.mem_filterMap.mp hjar with ⟨entry, hentry, hat⟩
    unfold jarAt at hat
    split at hat
    case isFalse => cases hat
    rename_i hdepth
    rcases route_of_occurrence env seeds hsub (hsub.subset hentry) with
      ⟨root, path, hroot, hlength, hroute⟩
    refine ⟨root, path, entry.1, hroot, hroute, ?_, ?_, hat⟩
    · rw [hlength]
      exact hentry
    · rw [hlength]
      exact hdepth

end Resolution

end Classpath
end JavaVsixLite
