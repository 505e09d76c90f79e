import JavaVsixLite.Classpath.Overrides

/-!
# Precedence in a merged POM

A version may be a POM's own, managed, imported with a BOM or inherited.  A POM's own
dependencies take the places of the inherited ones, its own managed entries those of its
parent, and within one POM the entry that comes first is kept.
-/

namespace JavaVsixLite
namespace Classpath

open Foundation
open Foundation.Placeholders

/-!
# Managed entries
-/

section Managed

variable (subst : Text -> Text) (bom : Text -> Text -> Text -> Option RawEffective)

/-- What one node of the management says about the coordinates: its own entry, or the one of
the BOM that it imports. -/
def contributes (node : Node) (key : Coordinate) : Option ManagedDep :=
  match (childText node "groupId".toList).map subst,
    (childText node "artifactId".toList).map subst with
  | some g, some a =>
    if (childText node "scope".toList).map subst = some "import".toList then
      (((childText node "version".toList).map subst).bind (bom g a)).bind
        (fun imported => imported.managed.lookup key)
    else if (g, a) = key then
      some {
        version := (childText node "version".toList).map subst
        scope := (childText node "scope".toList).map subst }
    else none
  | _, _ => none

theorem lookup_union (first second : Managed) (key : Coordinate) :
    (first ∪ second).lookup key = (first.lookup key).or (second.lookup key) := by
  cases hfirst : first.lookup key with
  | none =>
    rw [AList.lookup_union_right (AList.lookup_eq_none.mp hfirst)]
    rfl
  | some entry =>
    rw [AList.lookup_union_left (AList.lookup_isSome.mp (by rw [hfirst]; rfl)), hfirst]
    rfl

theorem lookup_singleton (key other : Coordinate) (entry : ManagedDep) :
    (AList.singleton key entry : Managed).lookup other =
      if key = other then some entry else none := by
  split
  · rename_i heq
    rw [← heq]
    exact List.dlookup_cons_eq _ _ _
  · rename_i hne
    exact List.dlookup_cons_ne _ _ (Ne.symm hne)

/-- An entry that is there stays, and a node adds what it says about other coordinates. -/
theorem lookup_manage_eq (own : Managed) (node : Node) (key : Coordinate) :
    (manage subst bom own node).lookup key =
      (own.lookup key).or (contributes subst bom node key) := by
  unfold manage contributes
  cases (childText node "groupId".toList).map subst with
  | none => exact (Option.or_none).symm
  | some g =>
    cases (childText node "artifactId".toList).map subst with
    | none => exact (Option.or_none).symm
    | some a =>
      simp only
      split
      · cases ((childText node "version".toList).map subst).bind (bom g a) with
        | none => exact (Option.or_none).symm
        | some imported => exact lookup_union own imported.managed key
      · rw [lookup_union, lookup_singleton]

theorem lookup_foldl_manage_eq (own : Managed) (nodes : List Node) (key : Coordinate) :
    (nodes.foldl (manage subst bom) own).lookup key =
      (own.lookup key).or (nodes.findSome? (fun node => contributes subst bom node key)) := by
  induction nodes generalizing own with
  | nil =>
    rw [List.findSome?_nil, Option.or_none]
    rfl
  | cons node rest ih =>
    rw [List.foldl_cons, ih, lookup_manage_eq, Option.or_assoc, List.findSome?_cons]
    cases contributes subst bom node key <;> rfl

theorem lookup_ownManaged (project : Node) (key : Coordinate) :
    (ownManaged subst bom project).lookup key =
      (managedNodes project).findSome? (fun node => contributes subst bom node key) := by
  unfold ownManaged
  rw [lookup_foldl_manage_eq]
  rfl

end Managed

/-!
# Dependencies
-/

def ofKey (key : Coordinate) (dependencies : List RawDep) : List RawDep :=
  dependencies.filter (fun dep => dep.key == key)

theorem ofKey_inheritDependencies (inherited own : List RawDep) (key : Coordinate) :
    ofKey key (inheritDependencies inherited own) =
      if exists dep, dep ∈ own ∧ dep.key = key then ofKey key own else ofKey key inherited := by
  unfold inheritDependencies ofKey
  rw [List.filter_append, List.filter_filter]
  split
  · rename_i hown
    rcases hown with ⟨dep, hdep, hkey⟩
    have hnone : inherited.filter (fun other => other.key == key &&
        !own.any (fun d => d.key == other.key)) = [] := by
      rw [List.filter_eq_nil_iff]
      intro other _ hkept
      rcases Bool.and_eq_true_iff.mp hkept with ⟨hsame, hfree⟩
      have hany : own.any (fun d => d.key == other.key) = true :=
        List.any_eq_true.mpr ⟨dep, hdep, by rw [hkey, eq_of_beq hsame, beq_self_eq_true]⟩
      rw [hany] at hfree
      cases hfree
    rw [hnone, List.nil_append]
  · rename_i hown
    have hnone : own.filter (fun dep => dep.key == key) = [] := by
      rw [List.filter_eq_nil_iff]
      intro dep hdep hkey
      exact hown ⟨dep, hdep, eq_of_beq hkey⟩
    rw [hnone, List.append_nil]
    apply List.filter_congr
    intro other _
    cases hsame : other.key == key with
    | false => rfl
    | true =>
      have hfree : own.any (fun d => d.key == other.key) = false := by
        rw [List.any_eq_false]
        intro d hd hkey
        exact hown ⟨d, hd, (eq_of_beq hkey).trans (eq_of_beq hsame)⟩
      rw [hfree]
      rfl

/-!
# The merged POM
-/

section Merged

variable (order : Props -> List (Placeholders.Name × Text))
  (bom : Text -> Text -> Text -> Option RawEffective) (project : Node) (parent : Handed)

def readDependency (raw : RawEffective) (node : Node) : Option RawDep :=
  ownDependency (substitute (order raw.props)) raw.managed node

def versionText (raw : RawEffective) (node : Node) : Option Text :=
  (childText node "version".toList).map (substitute (order raw.props))

/-- The coordinate of a dependency, where both parts of it are written. -/
def coordinateText (raw : RawEffective) (node : Node) : Option Coordinate :=
  ((childText node "groupId".toList).map (substitute (order raw.props))).bind (fun group =>
    ((childText node "artifactId".toList).map (substitute (order raw.props))).map
      (fun artifact => (group, artifact)))

/-- What takes precedence in a POM that is merged with what its parent hands down. -/
structure Precedence (raw : RawEffective) : Prop where
  /-- A dependency is read exactly where its coordinate is written, and under that one. -/
  coordinate : forall node,
    (readDependency order raw node).map RawDep.key = coordinateText order raw node
  /-- Own declarations replace the inherited ones; the others are kept, each as often and in
  the order in which it was inherited. -/
  dependencies : forall key, ofKey key raw.dependencies =
    if exists dep, dep ∈ (dependencyNodes project).filterMap (readDependency order raw) ∧
      dep.key = key
    then ofKey key ((dependencyNodes project).filterMap (readDependency order raw))
    else ofKey key parent.dependencies
  own_version : forall node dep version, readDependency order raw node = some dep ->
    versionText order raw node = some version -> version ≠ [] -> ¬ opening <:+: version ->
    dep.version = some version
  managed_version : forall node dep, readDependency order raw node = some dep ->
    (forall version, versionText order raw node = some version ->
      version = [] ∨ opening <:+: version) ->
    dep.version = (raw.managed.lookup dep.key).bind ManagedDep.version
  /-- Own managed entries before those of the parent, the first one of the POM before others. -/
  managed : forall key, raw.managed.lookup key =
    ((managedNodes project).findSome?
      (fun node => contributes (substitute (order raw.props)) bom node key)).or
      (parent.managed.lookup key)

theorem unusable_eq_false_iff {version : Option Text} :
    unusable version = false <->
      exists v, version = some v ∧ v ≠ [] ∧ ¬ opening <:+: v := by
  unfold unusable
  cases version with
  | none => simp
  | some v => simp

theorem version_readDependency {order : Props -> List (Placeholders.Name × Text)}
    {raw : RawEffective} {node : Node} {dep : RawDep}
    (h : readDependency order raw node = some dep) :
    dep.version =
      if unusable (versionText order raw node) then
        (raw.managed.lookup dep.key).bind ManagedDep.version
      else versionText order raw node :=
  version_ownDependency h

theorem key_readDependency (raw : RawEffective) (node : Node) :
    (readDependency order raw node).map RawDep.key = coordinateText order raw node := by
  unfold readDependency ownDependency coordinateText
  cases (childText node "groupId".toList).map (substitute (order raw.props)) with
  | none => rfl
  | some group =>
    cases (childText node "artifactId".toList).map (substitute (order raw.props)) <;> rfl

theorem precedence_parseEffectivePomRawFromDoc :
    Precedence order bom project parent
      (parseEffectivePomRawFromDoc order bom project parent) := by
  constructor
  case coordinate =>
    intro node
    exact key_readDependency order _ node
  case dependencies =>
    intro key
    exact ofKey_inheritDependencies _ _ key
  case own_version =>
    intro node dep version hread hversion hsome hresolved
    rw [version_readDependency hread,
      unusable_eq_false_iff.mpr ⟨version, hversion, hsome, hresolved⟩,
      hversion]
    rfl
  case managed_version =>
    intro node dep hread hnone
    rw [version_readDependency hread]
    split
    · rfl
    · rename_i husable
      rcases unusable_eq_false_iff.mp (Bool.not_eq_true _ |>.mp husable) with
        ⟨version, hversion, hsome, hresolved⟩
      cases hnone version hversion with
      | inl hempty => exact absurd hempty hsome
      | inr hopen => exact absurd hopen hresolved
  case managed =>
    intro key
    show (ownManaged _ bom project ∪ parent.managed).lookup key = _
    rw [lookup_union, lookup_ownManaged]
    rfl

end Merged

namespace Environment

variable (env : Environment)

/-- Every dependency was read in one of the POMs of the chain, with the management of that POM. -/
theorem exists_depends {chain : List Generation} {raw : RawEffective} {dep : RawDep}
    (h : env.effective chain = some raw) (hdep : dep ∈ raw.dependencies) :
    exists young g older node, chain = young ++ g :: older ∧ env.Depends g older node dep := by
  induction chain generalizing raw with
  | nil => cases h
  | cons g older ih =>
    cases h
    rw [dependencies_effectiveOf] at hdep
    cases List.mem_append.mp hdep with
    | inl hinherited =>
      have hmem := (List.mem_filter.mp hinherited).1
      unfold handDown at hmem
      split at hmem
      · cases hmem
      · split at hmem
        · rename_i effective heffective
          rcases ih heffective hmem with ⟨young, decl, rest, node, hchain, hread⟩
          exact ⟨g :: young, decl, rest, node, by rw [hchain]; rfl, hread⟩
        · cases hmem
    | inr hown =>
      rcases List.mem_filterMap.mp hown with ⟨node, hnode, hread⟩
      exact ⟨[], g, older, node, rfl, hnode, hread⟩

end Environment

/-- In every POM that is merged with its parent the sources of a version take precedence as
they should, and every dependency of the result was read so in one POM of the chain. -/
theorem merged_precedence :
    (forall order bom project parent, Precedence order bom project parent
      (parseEffectivePomRawFromDoc order bom project parent)) ∧
    forall (env : Environment) remaining path root raw dep,
      env.parseEffectivePomRaw remaining path root = some raw -> dep ∈ raw.dependencies ->
      exists young g older node, env.lineage remaining path root = young ++ g :: older ∧
        env.Depends g older node dep ∧
        dep.version =
          if unusable ((childText node "version".toList).map (env.substituteIn g older)) then
            env.managedVersion g older dep.key
          else (childText node "version".toList).map (env.substituteIn g older) := by
  constructor
  · exact precedence_parseEffectivePomRawFromDoc
  · intro env remaining path root raw dep hraw hdep
    rw [Environment.parseEffectivePomRaw_eq] at hraw
    rcases env.exists_depends hraw hdep with ⟨young, g, older, node, hchain, hread⟩
    exact ⟨young, g, older, node, hchain, hread, hread.version⟩

end Classpath
end JavaVsixLite
