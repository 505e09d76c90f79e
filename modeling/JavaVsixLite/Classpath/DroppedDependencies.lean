import JavaVsixLite.Classpath.NearestWins

/-!
# Dependencies that are not resolved

Whatever is passed over leaves a record that names it, except at the limit on the number of
coordinates: the one record left there names none of those that were cut off.
-/

namespace JavaVsixLite
namespace Classpath

open Foundation
open Environment

def Names (record : Text) (key : Coordinate) : Prop :=
  exists rest, record = key.1 ++ ':' :: (key.2 ++ rest) ∧
    (rest.head? = some ':' ∨ rest.head? = some ' ')

theorem names_coordStr (group artifact version rest : Text) :
    Names (coordStr group artifact version ++ rest) (group, artifact) :=
  ⟨':' :: (version ++ rest), by simp [coordStr], .inl rfl⟩

theorem names_coord (seed : Seed) : Names seed.coord seed.key := by
  have h := names_coordStr seed.group seed.artifact seed.version []
  rw [List.append_nil] at h
  exact h

theorem declaredEdge_cases (dep : RawDep) (exclusions : List Coordinate) :
    (exists record, declaredEdge dep exclusions = .recorded record ∧ Names record dep.key) ∨
      exists seed, declaredEdge dep exclusions = .followed seed ∧ seed.key = dep.key := by
  unfold declaredEdge
  split
  · rename_i classifier hclassifier
    have h := names_coordStr dep.group dep.artifact (dep.version.getD ['?'])
      (" (classifier ".toList ++ (classifier ++ " unsupported)".toList))
    refine .inl ⟨_, rfl, ?_⟩
    unfold classifierSkip
    rw [List.append_assoc, List.append_assoc]
    exact h
  · split
    · exact .inl ⟨_, rfl, " (unresolved version)".toList, rfl, .inr (by decide)⟩
    · exact .inr ⟨_, rfl, rfl⟩

theorem mem_filterMap_record? {edges : List Edge} {record : Text}
    (h : Edge.recorded record ∈ edges) : record ∈ edges.filterMap Edge.record? :=
  List.mem_filterMap.mpr ⟨_, h, rfl⟩

theorem visit_accounts (env : Environment) (entry : Seed × Nat) :
    (exists jar, (env.visit entry).jar = some jar) ∨
      exists record, record ∈ (env.visit entry).degraded ∧ Names record (entryKey entry) := by
  unfold visit
  split
  · refine .inr ⟨_, List.mem_singleton.mpr rfl, ?_⟩
    exact names_coordStr entry.1.group entry.1.artifact entry.1.version _
  · split
    · exact .inr ⟨_, List.mem_singleton.mpr rfl, names_coord entry.1⟩
    · split <;> exact .inl ⟨_, rfl⟩

theorem visit_eq {env : Environment} {entry : Seed × Nat} {jar : Text} {effective : EffectivePom}
    (hdepth : entry.2 ≤ maxDepth) (hjar : env.jarOf entry.1 = some jar)
    (hpom : env.pomOf entry.1 = some effective) :
    env.visit entry =
      { jar := some jar
        degraded := effective.degraded ++
          (effective.dependencies.map (transitiveEdge entry.1)).filterMap Edge.record?
        queued := ((effective.dependencies.map (transitiveEdge entry.1)).filterMap
          Edge.seed?).map (fun seed => (seed, entry.2 + 1)) } := by
  unfold visit
  rw [if_neg (Nat.not_lt.mpr hdepth)]
  simp only [hjar, hpom]

/-!
# The poms of a project
-/

namespace Environment

variable (env : Environment)

def modulePom (projectRoot module : Text) : Option EffectivePom :=
  if env.skipsModule module then none
  else env.projectPom projectRoot (env.platform.join projectRoot module)

def projectPoms (projectRoot : Text) (effective : EffectivePom) : List EffectivePom :=
  effective :: effective.modules.filterMap (env.modulePom projectRoot)

theorem addModule_seeds (projectRoot : Text) (state : List Seed × ResolvedProject)
    (module : Text) :
    (env.addModule projectRoot state module).1 = state.1 ++
      (env.modulePom projectRoot module).toList.flatMap
        (fun pom => (pom.dependencies.map rootEdge).filterMap Edge.seed?) := by
  unfold addModule modulePom
  split
  · exact (List.append_nil _).symm
  · dsimp only
    cases env.projectPom projectRoot (env.platform.join projectRoot module) with
    | none => exact (List.append_nil _).symm
    | some pom => simp [rootSeeds]

theorem addModule_degraded (projectRoot : Text) (state : List Seed × ResolvedProject)
    (module : Text) {record : Text}
    (h : record ∈ state.2.degraded ∨ exists pom, env.modulePom projectRoot module = some pom ∧
      record ∈ (pom.dependencies.map rootEdge).filterMap Edge.record?) :
    record ∈ (env.addModule projectRoot state module).2.degraded := by
  unfold addModule
  unfold modulePom at h
  split
  · rename_i hskip
    rw [if_pos hskip] at h
    rcases h with h | ⟨pom, hpom, _⟩
    · exact h
    · cases hpom
  · rename_i hskip
    rw [if_neg hskip] at h
    dsimp only
    cases hpom : env.projectPom projectRoot (env.platform.join projectRoot module) with
    | none =>
      rw [hpom] at h
      rcases h with h | ⟨pom, hpom, _⟩
      · exact List.mem_append_left _ h
      · cases hpom
    | some found =>
      rw [hpom] at h
      rcases h with h | ⟨pom, hfound, hrecord⟩
      · exact List.mem_append_left _ (List.mem_append_left _ h)
      · rw [Option.some.inj hfound]
        exact List.mem_append_right _ hrecord

theorem foldl_addModule (projectRoot : Text) (modules : List Text)
    (state : List Seed × ResolvedProject) :
    (modules.foldl (env.addModule projectRoot) state).1 = state.1 ++
        (modules.filterMap (env.modulePom projectRoot)).flatMap
          (fun pom => (pom.dependencies.map rootEdge).filterMap Edge.seed?) ∧
      forall record, (record ∈ state.2.degraded ∨
        exists pom, pom ∈ modules.filterMap (env.modulePom projectRoot) ∧
          record ∈ (pom.dependencies.map rootEdge).filterMap Edge.record?) ->
        record ∈ (modules.foldl (env.addModule projectRoot) state).2.degraded := by
  induction modules generalizing state with
  | nil =>
    refine ⟨(List.append_nil _).symm, ?_⟩
    rintro record (h | ⟨pom, hpom, _⟩)
    · exact h
    · cases hpom
  | cons module rest ih =>
    rcases ih (env.addModule projectRoot state module) with ⟨hseeds, hrecords⟩
    constructor
    · rw [List.foldl_cons, hseeds, addModule_seeds]
      cases hpom : env.modulePom projectRoot module <;> simp [hpom]
    · rintro record (h | ⟨pom, hpom, hrecord⟩)
      · exact hrecords record (.inl (env.addModule_degraded projectRoot state module (.inl h)))
      · rcases List.mem_filterMap.mp hpom with ⟨m, hm, hread⟩
        rcases List.mem_cons.mp hm with rfl | hm
        · exact hrecords record (.inl (env.addModule_degraded projectRoot state m
            (.inr ⟨pom, hread, hrecord⟩)))
        · exact hrecords record (.inr ⟨pom, List.mem_filterMap.mpr ⟨m, hm, hread⟩, hrecord⟩)

theorem projectSeeds_cases (projectRoot : Text) {effective pom : EffectivePom}
    (hpom : pom ∈ env.projectPoms projectRoot effective) {dep : RawDep}
    (hdep : dep ∈ pom.dependencies) :
    (exists seed, seed ∈ (env.projectSeeds projectRoot effective).1 ∧ seed.key = dep.key) ∨
      exists record, record ∈ (env.projectSeeds projectRoot effective).2.degraded ∧
        Names record dep.key := by
  rcases env.foldl_addModule projectRoot effective.modules
    ((rootSeeds effective [] effective.degraded).1, {
      jars := []
      sourceRoots := env.sourceRoot projectRoot
      degraded := (rootSeeds effective [] effective.degraded).2 }) with ⟨hseeds, hrecords⟩
  have hedge : rootEdge dep ∈ pom.dependencies.map rootEdge := List.mem_map_of_mem hdep
  rcases declaredEdge_cases dep dep.exclusions with ⟨record, hrecord, hnames⟩ |
    ⟨seed, hseed, hkey⟩
  · refine .inr ⟨record, hrecords record ?_, hnames⟩
    have hmem : record ∈ (pom.dependencies.map rootEdge).filterMap Edge.record? :=
      mem_filterMap_record? (hrecord ▸ hedge)
    rcases List.mem_cons.mp hpom with rfl | hpom
    · exact .inl (List.mem_append_right _ hmem)
    · exact .inr ⟨pom, hpom, hmem⟩
  · refine .inl ⟨seed, ?_, hkey⟩
    have hmem : seed ∈ (pom.dependencies.map rootEdge).filterMap Edge.seed? :=
      mem_filterMap_seed?.mpr (hseed ▸ hedge)
    unfold projectSeeds
    rw [hseeds]
    rcases List.mem_cons.mp hpom with rfl | hpom
    · exact List.mem_append_left _ hmem
    · exact List.mem_append_right _ (List.mem_flatMap.mpr ⟨pom, hpom, hmem⟩)

/-!
# Nothing is dropped silently below the limit
-/

abbrev projectSearch (projectRoot : Text) (effective : EffectivePom) : Resolution :=
  env.resolution (env.projectSeeds projectRoot effective).1

/-- A dependency that the resolution takes up: one of the project, or one that counts of a
coordinate whose POM is read. -/
inductive Considers (projectRoot : Text) (effective : EffectivePom) : RawDep -> Prop where
  | direct {pom : EffectivePom} {dep : RawDep} (hpom : pom ∈ env.projectPoms projectRoot effective)
      (hdep : dep ∈ pom.dependencies) : Considers projectRoot effective dep
  | transitive {parent : Seed × Nat} {jar : Text} {pom : EffectivePom} {dep : RawDep}
      (hvisited : parent ∈ (env.projectSearch projectRoot effective).visited)
      (hdepth : parent.2 ≤ maxDepth) (hjar : env.jarOf parent.1 = some jar)
      (hpom : env.pomOf parent.1 = some pom) (hdep : dep ∈ pom.dependencies)
      (hscope : dep.scope = "compile".toList ∨ dep.scope = "runtime".toList)
      (hrequired : dep.optional = false) (hincluded : dep.key ∉ parent.1.exclusions) :
      Considers projectRoot effective dep

/-- The jar of the version that won is on the classpath, or a record names the coordinates. -/
def Accounted (projectRoot : Text) (effective : EffectivePom) (key : Coordinate) : Prop :=
  (exists entry jar, entry ∈ (env.projectSearch projectRoot effective).visited ∧
    entryKey entry = key ∧ env.jarOf entry.1 = some jar ∧
    jar ∈ (env.resolveMavenLikeProject projectRoot).jars) ∨
  exists record, record ∈ (env.resolveMavenLikeProject projectRoot).degraded ∧
    Names record key

/-- The limit was reached before the coordinates were visited, and that is recorded. -/
structure CutOff (projectRoot : Text) (effective : EffectivePom) (key : Coordinate) : Prop where
  full : (env.projectSearch projectRoot effective).visited.length = maxNodes
  unvisited : forall entry, entry ∈ (env.projectSearch projectRoot effective).visited ->
    entryKey entry ≠ key
  recorded : nodeLimitExceeded ∈ (env.resolveMavenLikeProject projectRoot).degraded

theorem resolution_degraded (seeds : List Seed) :
    (env.resolution seeds).degraded =
      (env.resolution seeds).visited.flatMap (fun entry => (env.visit entry).degraded) ++
        if (BreadthFirst.search entryKey (declaredBelow env) maxNodes []
          (seedEntries seeds)).2 = []
        then [] else [nodeLimitExceeded] := by
  unfold resolution
  rw [resolveLoop_eq, ← children_eq]
  rfl

section Project

variable {projectRoot : Text} {effective : EffectivePom}

theorem resolveMavenLikeProject_eq
    (hroot : env.projectPom projectRoot projectRoot = some effective) :
    env.resolveMavenLikeProject projectRoot =
      { (env.projectSeeds projectRoot effective).2 with
        jars := (env.projectSearch projectRoot effective).jars
        degraded := (env.projectSeeds projectRoot effective).2.degraded ++
          (env.projectSearch projectRoot effective).degraded } := by
  unfold resolveMavenLikeProject
  rw [hroot]
  rfl

theorem accounted_of_project_record
    (hroot : env.projectPom projectRoot projectRoot = some effective) {record : Text}
    {key : Coordinate} (h : record ∈ (env.projectSeeds projectRoot effective).2.degraded)
    (hnames : Names record key) : env.Accounted projectRoot effective key := by
  rw [Accounted, env.resolveMavenLikeProject_eq hroot]
  exact .inr ⟨record, List.mem_append_left _ h, hnames⟩

theorem accounted_of_visit_record
    (hroot : env.projectPom projectRoot projectRoot = some effective) {entry : Seed × Nat}
    {record : Text} {key : Coordinate}
    (hvisited : entry ∈ (env.projectSearch projectRoot effective).visited)
    (h : record ∈ (env.visit entry).degraded) (hnames : Names record key) :
    env.Accounted projectRoot effective key := by
  have hrecord : record ∈ (env.projectSearch projectRoot effective).degraded := by
    rw [resolution_degraded]
    exact List.mem_append_left _ (List.mem_flatMap.mpr ⟨entry, hvisited, h⟩)
  rw [Accounted, env.resolveMavenLikeProject_eq hroot]
  exact .inr ⟨record, List.mem_append_right _ hrecord, hnames⟩

theorem accounted_of_visited (hroot : env.projectPom projectRoot projectRoot = some effective)
    {entry : Seed × Nat} (h : entry ∈ (env.projectSearch projectRoot effective).visited) :
    env.Accounted projectRoot effective (entryKey entry) := by
  rcases visit_accounts env entry with ⟨jar, hjar⟩ | ⟨record, hrecord, hnames⟩
  · have hat : jarAt env entry = some jar := (visit_jar env entry).symm.trans hjar
    have hlisted : jar ∈ (env.projectSearch projectRoot effective).jars := by
      rw [resolution_jars]
      exact List.mem_filterMap.mpr ⟨entry, h, hat⟩
    have hlocated : env.jarOf entry.1 = some jar := by
      unfold jarAt at hat
      split at hat
      · exact hat
      · cases hat
    rw [Accounted, env.resolveMavenLikeProject_eq hroot]
    exact .inl ⟨entry, jar, h, rfl, hlocated, hlisted⟩
  · exact env.accounted_of_visit_record hroot h hrecord hnames

theorem accounted_of_occurrence
    (hroot : env.projectPom projectRoot projectRoot = some effective) {o : Seed × Nat}
    (h : o ∈ occurrences env (env.projectSeeds projectRoot effective).1
      (env.projectSearch projectRoot effective).visited) :
    env.Accounted projectRoot effective (entryKey o) ∨
      env.CutOff projectRoot effective (entryKey o) := by
  have hcovered := h
  unfold occurrences projectSearch at hcovered
  rw [resolution_visited] at hcovered
  have hvisited := resolution_visited env (env.projectSeeds projectRoot effective).1
  rcases Decidable.em (exists entry,
    entry ∈ (env.projectSearch projectRoot effective).visited ∧ entryKey entry = entryKey o) with
    ⟨entry, hentry, hkey⟩ | hnone
  · rw [← hkey]
    exact .inl (env.accounted_of_visited hroot hentry)
  · rcases BreadthFirst.covered maxNodes [] _ hcovered with hseen | ⟨entry, hentry, hkey⟩ | hleft
    · cases hseen
    · rw [← hvisited] at hentry
      exact absurd ⟨entry, hentry, hkey⟩ hnone
    · have hwaiting := List.ne_nil_of_mem hleft
      have hfull : (env.projectSearch projectRoot effective).visited.length = maxNodes := by
        rw [projectSearch, hvisited]
        exact (BreadthFirst.left_cases entryKey (declaredBelow env) maxNodes []
          (seedEntries (env.projectSeeds projectRoot effective).1)).resolve_left hwaiting
      have hrecorded :
          nodeLimitExceeded ∈ (env.projectSearch projectRoot effective).degraded := by
        rw [resolution_degraded, if_neg hwaiting]
        exact List.mem_append_right _ (List.mem_singleton.mpr rfl)
      refine .inr ⟨hfull, fun entry hentry hkey => hnone ⟨entry, hentry, hkey⟩, ?_⟩
      rw [env.resolveMavenLikeProject_eq hroot]
      exact List.mem_append_right _ hrecorded

theorem considered_accounted_or_cutOff
    (hroot : env.projectPom projectRoot projectRoot = some effective) {dep : RawDep}
    (h : env.Considers projectRoot effective dep) :
    env.Accounted projectRoot effective dep.key ∨ env.CutOff projectRoot effective dep.key := by
  cases h with
  | direct hpom hdep =>
    rcases env.projectSeeds_cases projectRoot hpom hdep with ⟨seed, hseed, hkey⟩ |
      ⟨record, hrecord, hnames⟩
    · rw [← hkey]
      exact env.accounted_of_occurrence hroot (o := (seed, 0))
        (List.mem_append_left _ (List.mem_map_of_mem hseed))
    · exact .inl (env.accounted_of_project_record hroot hrecord hnames)
  | @transitive parent jar pom dep hvisited hdepth hjar hpom hdep hscope hrequired hincluded =>
    have hvisit := visit_eq hdepth hjar hpom
    have hedge : transitiveEdge parent.1 dep ∈ pom.dependencies.map (transitiveEdge parent.1) :=
      List.mem_map_of_mem hdep
    rw [transitiveEdge_of_counts hscope hrequired hincluded] at hedge
    rcases declaredEdge_cases dep (parent.1.exclusions ++ dep.exclusions) with
      ⟨record, hrecord, hnames⟩ | ⟨seed, hseed, hkey⟩
    · have hdegraded : record ∈ (env.visit parent).degraded := by
        rw [hvisit]
        exact List.mem_append_right _ (mem_filterMap_record? (hrecord ▸ hedge))
      exact .inl (env.accounted_of_visit_record hroot hvisited hdegraded hnames)
    · have hqueued : (seed, parent.2 + 1) ∈ env.children parent := by
        unfold children
        rw [hvisit]
        exact List.mem_map_of_mem (mem_filterMap_seed?.mpr (hseed ▸ hedge))
      rw [children_eq] at hqueued
      rw [← hkey]
      exact env.accounted_of_occurrence hroot (o := (seed, parent.2 + 1))
        (List.mem_append_right _ (List.mem_flatMap.mpr ⟨parent, hvisited, hqueued⟩))

end Project

end Environment

def emptyLocator : Locator where
  locatePom := fun _ _ _ => none
  locateJar := fun _ _ _ => none

def sampleDependency (artifact : Text) : RawDep where
  group := ['g']
  artifact := artifact
  version := some ['1']
  scope := "compile".toList
  optional := false
  classifier := none
  exclusions := []

namespace Lonely

def document : Node :=
  .tag "project" [.leaf "groupId" "g", .leaf "artifactId" "p", .leaf "version" "1",
    .tag "dependencies" [.tag "dependency"
      [.leaf "groupId" "g", .leaf "artifactId" "a", .leaf "version" "1"]]]

def project : Environment :=
  .ofDocuments (fun path => if path = "/pom.xml".toList then some document else none) emptyLocator

def pom : EffectivePom where
  dependencies := [sampleDependency ['a']]
  modules := []
  degraded := []

theorem projectPom_eq : project.projectPom ['/'] ['/'] = some pom := rfl

end Lonely

theorem missing_jar_accounted :
    Lonely.project.Accounted ['/'] Lonely.pom (['g'], ['a']) ∨
      Lonely.project.CutOff ['/'] Lonely.pom (['g'], ['a']) :=
  Lonely.project.considered_accounted_or_cutOff Lonely.projectPom_eq
    (.direct List.mem_cons_self (List.mem_singleton.mpr rfl))

/-!
# One coordinate too many
-/

namespace Crowd

def emptyCache : Environment :=
  .ofDocuments (fun _ => none) emptyLocator

/-- The artifacts `a`, `aa`, `aaa` and so on. -/
@[irreducible] def names : List Text :=
  (List.range maxNodes).map (fun n => List.replicate (n + 1) 'a')

def pom : EffectivePom where
  dependencies := names.map sampleDependency ++ [sampleDependency ['b']]
  modules := []
  degraded := []

def seedOf (artifact : Text) : Seed where
  group := ['g']
  artifact := artifact
  version := ['1']
  exclusions := []

theorem length_names : names.length = maxNodes := by
  unfold names
  rw [List.length_map, List.length_range]

theorem eq_replicate_of_mem_names {name : Text} (h : name ∈ names) :
    exists n, name = List.replicate (n + 1) 'a' := by
  unfold names at h
  rcases List.mem_map.mp h with ⟨n, _, hname⟩
  exact ⟨n, hname.symm⟩

theorem rootSeeds_pom : rootSeeds pom [] pom.degraded =
    (names.map seedOf ++ [seedOf ['b']], []) := by
  have hedges : forall artifacts : List Text,
      ((artifacts.map sampleDependency).map rootEdge).filterMap Edge.seed? = artifacts.map seedOf ∧
        ((artifacts.map sampleDependency).map rootEdge).filterMap Edge.record? = [] := by
    intro artifacts
    induction artifacts with
    | nil => exact ⟨rfl, rfl⟩
    | cons artifact rest ih => exact ⟨congrArg _ ih.1, ih.2⟩
  have hall : pom.dependencies = (names ++ [['b']]).map sampleDependency := by
    rw [List.map_append]
    rfl
  unfold rootSeeds
  rw [hall, (hedges _).1, (hedges _).2, List.map_append]
  rfl

theorem children_emptyCache (entry : Seed × Nat) : emptyCache.children entry = [] := by
  unfold Environment.children Environment.visit
  split <;> rfl

theorem nodup_names : (names ++ [['b']]).Nodup := by
  have hlength : names.map List.length = (List.range maxNodes).map Nat.succ := by
    unfold names
    rw [List.map_map]
    exact List.map_congr_left (fun n _ => List.length_replicate)
  have hnames : names.Nodup := by
    refine List.Nodup.of_map List.length ?_
    rw [hlength]
    exact (List.nodup_range).map Nat.succ_injective
  refine List.nodup_append.mpr ⟨hnames, List.nodup_singleton _, ?_⟩
  intro name hname other hother heq
  rcases eq_replicate_of_mem_names hname with ⟨n, rfl⟩
  have hb : 'b' ∈ List.replicate (n + 1) 'a' := by
    rw [heq, List.mem_singleton.mp hother]
    exact List.mem_singleton.mpr rfl
  have hne := List.eq_of_mem_replicate hb
  revert hne
  decide

theorem search_pom :
    BreadthFirst.search entryKey emptyCache.children maxNodes []
      (seedEntries (names.map seedOf ++ [seedOf ['b']])) =
        (seedEntries (names.map seedOf), [(seedOf ['b'], 0)]) := by
  have hlength : (seedEntries (names.map seedOf)).length = maxNodes := by
    rw [seedEntries, List.length_map, List.length_map, length_names]
  have hkeys : (seedEntries (names.map seedOf) ++ [(seedOf ['b'], 0)]).map entryKey =
      (names ++ [['b']]).map (fun name => (['g'], name)) := by
    simp [seedEntries, entryKey, Seed.key, seedOf, Function.comp_def]
  have hsearch := BreadthFirst.search_childless [] (seedOf ['b'], 0)
    (fun x (_ : x ∈ seedEntries (names.map seedOf)) =>
      children_emptyCache x)
    (by
      show (List.map entryKey _).Nodup
      rw [hkeys]
      exact nodup_names.map (fun a b h => (Prod.mk.inj h).2))
    (fun _ _ => List.not_mem_nil)
  rw [hlength] at hsearch
  rw [seedEntries, List.map_append]
  exact hsearch

theorem no_b_of_record {record : Text}
    (h : record ∈ (emptyCache.resolution (names.map seedOf ++ [seedOf ['b']])).degraded) :
    'b' ∉ record := by
  rw [Environment.resolution_degraded, resolution_visited, ← children_eq, search_pom] at h
  rcases List.mem_append.mp h with hvisited | hlimit
  · rcases List.mem_flatMap.mp hvisited with ⟨entry, hentry, hrecord⟩
    rcases List.mem_map.mp hentry with ⟨seed, hseed, rfl⟩
    rcases List.mem_map.mp hseed with ⟨name, hname, rfl⟩
    rcases eq_replicate_of_mem_names hname with ⟨n, rfl⟩
    have hcoord : record = (seedOf (List.replicate (n + 1) 'a')).coord :=
      List.mem_singleton.mp hrecord
    rw [hcoord]
    simp [Seed.coord, coordStr, seedOf, List.mem_replicate]
  · have hrecord : record = nodeLimitExceeded := List.mem_singleton.mp hlimit
    rw [hrecord]
    decide

end Crowd

/-- The last of the dependencies leaves no trace: the limit was reached before it. -/
theorem crowded_out :
    exists dep, dep ∈ Crowd.pom.dependencies ∧ dep.scope = "compile".toList ∧
      dep.optional = false ∧
      (Crowd.emptyCache.resolveTransitive (rootSeeds Crowd.pom [] Crowd.pom.degraded).1).1 = [] ∧
      forall record, record ∈ (rootSeeds Crowd.pom [] Crowd.pom.degraded).2 ++
          (Crowd.emptyCache.resolveTransitive (rootSeeds Crowd.pom [] Crowd.pom.degraded).1).2 ->
        ¬ dep.group ++ ':' :: dep.artifact <:+: record := by
  rw [Crowd.rootSeeds_pom]
  refine ⟨sampleDependency ['b'], List.mem_append_right _ (List.mem_singleton.mpr rfl), rfl, rfl,
    ?_, ?_⟩
  · show (Crowd.emptyCache.resolution _).jars = []
    rw [resolution_jars, List.filterMap_eq_nil_iff]
    intro entry _
    unfold jarAt
    split <;> rfl
  · intro record hrecord hnamed
    exact Crowd.no_b_of_record hrecord (hnamed.subset (by decide))

end Classpath
end JavaVsixLite
