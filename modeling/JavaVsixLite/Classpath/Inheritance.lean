import JavaVsixLite.Classpath.Substitution

/-!
# Inheritance between POMs

A POM and the parents that are read for it form a chain, the youngest first.  A managed entry
or a dependency is substituted where it is declared, with the properties merged down to there,
before it is handed on.  What a younger POM does to a property is therefore not seen in it.
-/

namespace JavaVsixLite
namespace Classpath

open Foundation
open Foundation.Placeholders

/-- One POM of a chain; `remaining` bounds the BOMs it may read. -/
structure Generation where
  path : Text
  project : Node
  remaining : Nat

theorem version_ownDependency {subst : Text -> Text} {managed : Managed} {node : Node}
    {dep : RawDep} (h : ownDependency subst managed node = some dep) :
    dep.version =
      if unusable ((childText node "version".toList).map subst) then
        (managed.lookup dep.key).bind ManagedDep.version
      else (childText node "version".toList).map subst := by
  unfold ownDependency at h
  split at h
  · rw [← Option.some.inj h]
    rfl
  · cases h

namespace Environment

variable (env : Environment)

/-!
# The chain
-/

/-- The POM at the path and its parents, as far as they are read. -/
def lineage : Nat -> Text -> Option Text -> List Generation
  | 0, _, _ => []
  | remaining + 1, path, root =>
    match env.readProject path with
    | none => []
    | some project =>
      { path := path, project := project, remaining := remaining } ::
        match (project.child "parent".toList).bind (env.parentLink path root) with
        | none => []
        | some link => lineage remaining link.1 link.2

def bomOf (g : Generation) (group artifact version : Text) : Option RawEffective :=
  (env.locator.locatePom group artifact version).bind
    (fun path => env.parseEffectivePomRaw g.remaining path none)

def effectiveOf (g : Generation) (older : Option RawEffective) : RawEffective :=
  env.merge (env.bomOf g) g.path g.project older

def effective : List Generation -> Option RawEffective
  | [] => none
  | g :: older => some (env.effectiveOf g (effective older))

theorem parseEffectivePomRaw_eq (remaining : Nat) (path : Text) (root : Option Text) :
    env.parseEffectivePomRaw remaining path root =
      env.effective (env.lineage remaining path root) := by
  induction remaining generalizing path root with
  | zero => rfl
  | succ remaining ih =>
    rw [parseEffectivePomRaw, lineage]
    cases hread : env.readProject path with
    | none => rfl
    | some project =>
      cases hlink : (project.child "parent".toList).bind (env.parentLink path root) with
      | none =>
        simp only [Option.map_some, hlink, Option.bind_none, effective]
        rfl
      | some link =>
        simp only [Option.map_some, hlink, Option.bind_some, effective]
        rw [ih link.1 link.2]
        rfl

def Linked : List Generation -> Prop
  | [] => True
  | g :: older => (older ≠ [] -> (g.project.child "parent".toList).isSome = true) ∧ Linked older

theorem linked_lineage (remaining : Nat) (path : Text) (root : Option Text) :
    Linked (env.lineage remaining path root) := by
  induction remaining generalizing path root with
  | zero => trivial
  | succ remaining ih =>
    rw [lineage]
    split
    · trivial
    · rename_i project hread
      split
      · exact ⟨fun h => absurd rfl h, trivial⟩
      · rename_i link hlink
        refine ⟨fun _ => ?_, ih link.1 link.2⟩
        cases hparent : project.child "parent".toList with
        | none =>
          rw [hparent] at hlink
          cases hlink
        | some parent => rfl

theorem linked_of_append {young old : List Generation} (h : Linked (young ++ old)) :
    Linked old := by
  induction young with
  | nil => exact h
  | cons g young ih => exact ih h.2

theorem handDown_some (path : Text) {project : Node} (effective : RawEffective)
    (h : (project.child "parent".toList).isSome = true) :
    (env.handDown path project (some effective)).1 =
      { props := effective.props
        managed := effective.managed
        dependencies := effective.dependencies
        group := some effective.group
        version := some effective.version } := by
  unfold handDown
  cases hparent : project.child "parent".toList with
  | none =>
    rw [hparent] at h
    cases h
  | some parent => rfl

/-!
# The parts of a merged POM
-/

section Parts

variable (g : Generation) (older : List Generation)

def propsOf : Props :=
  (env.effectiveOf g (env.effective older)).props

def substituteIn : Text -> Text :=
  substitute (env.order.entries g.path (env.propsOf g older))

def ownManagedOf : Managed :=
  ownManaged (env.substituteIn g older) (env.bomOf g) g.project

def managedOf : Managed :=
  (env.effectiveOf g (env.effective older)).managed

def ownDependenciesOf : List RawDep :=
  (dependencyNodes g.project).filterMap
    (ownDependency (env.substituteIn g older) (env.managedOf g older))

theorem managedOf_eq :
    env.managedOf g older =
      env.ownManagedOf g older ∪
        (env.handDown g.path g.project (env.effective older)).1.managed := rfl

theorem dependencies_effectiveOf :
    (env.effectiveOf g (env.effective older)).dependencies =
      inheritDependencies (env.handDown g.path g.project (env.effective older)).1.dependencies
        (env.ownDependenciesOf g older) := rfl

end Parts

/-!
# Properties
-/

def implicitNames : List Placeholders.Name :=
  [projectVersion, projectGroupId, projectArtifactId, pomVersion, projectParentVersion,
    pomParentVersion, projectParentGroupId]

def ownProperty (project : Node) (name : Placeholders.Name) : Option Text :=
  (((project.child "properties".toList).map Node.children).getD []).foldl (fun value prop =>
    match prop.text with
    | some text => if prop.name = name then some (trim text) else value
    | none => value) none

theorem valueOf_insert (props : Props) (name other : Placeholders.Name) (text : Text) :
    valueOf (props.insert name text) other = if name = other then some text
      else valueOf props other := by
  unfold valueOf
  split
  · rename_i heq
    rw [← heq]
    exact AList.lookup_insert props
  · rename_i hne
    exact AList.lookup_insert_ne (Ne.symm hne)

theorem valueOf_foldl_insert (nodes : List Node) (props : Props) (name : Placeholders.Name)
    (value : Option Text) (base : Option Text) (h : valueOf props name = value.or base) :
    valueOf (nodes.foldl (fun props prop =>
        match prop.text with
        | some text => props.insert prop.name (trim text)
        | none => props) props) name =
      (nodes.foldl (fun value prop =>
        match prop.text with
        | some text => if prop.name = name then some (trim text) else value
        | none => value) value).or base := by
  induction nodes generalizing props value with
  | nil => exact h
  | cons node rest ih =>
    rw [List.foldl_cons, List.foldl_cons]
    apply ih
    cases htext : node.text with
    | none => exact h
    | some text =>
      show valueOf (props.insert node.name (trim text)) name = _
      rw [valueOf_insert]
      split
      · rfl
      · exact h

theorem valueOf_overlayProperties (project : Node) (props : Props) (name : Placeholders.Name) :
    valueOf (overlayProperties project props) name =
      (ownProperty project name).or (valueOf props name) := by
  unfold overlayProperties ownProperty
  cases project.child "properties".toList with
  | none => rfl
  | some properties => exact valueOf_foldl_insert properties.children props name none _ rfl

theorem valueOf_insertImplicit {group artifact version : Text}
    {parentGroup parentVersion : Option Text}
    {props : Props} {name : Placeholders.Name} (h : name ∉ implicitNames) :
    valueOf (insertImplicit group artifact version parentGroup parentVersion props) name =
      valueOf props name := by
  have hne : forall other, other ∈ implicitNames -> other ≠ name := by
    rintro other hother rfl
    exact h hother
  unfold insertImplicit
  cases parentVersion <;> cases parentGroup <;>
    simp only [valueOf_insert, if_neg (hne projectVersion (by simp [implicitNames])),
      if_neg (hne projectGroupId (by simp [implicitNames])),
      if_neg (hne projectArtifactId (by simp [implicitNames])),
      if_neg (hne pomVersion (by simp [implicitNames])),
      if_neg (hne projectParentVersion (by simp [implicitNames])),
      if_neg (hne pomParentVersion (by simp [implicitNames])),
      if_neg (hne projectParentGroupId (by simp [implicitNames]))]

theorem valueOf_propsOf {g parent : Generation} {older : List Generation}
    (h : Linked (g :: parent :: older)) {name : Placeholders.Name} (hname : name ∉ implicitNames) :
    valueOf (env.propsOf g (parent :: older)) name =
      (ownProperty g.project name).or (valueOf (env.propsOf parent older) name) := by
  have hhanded := env.handDown_some g.path (env.effectiveOf parent (env.effective older))
    (h.1 (List.cons_ne_nil _ _))
  unfold propsOf effectiveOf merge parseEffectivePomRawFromDoc
  show valueOf (insertImplicit _ _ _ _ _ _) name = _
  rw [valueOf_insertImplicit hname, valueOf_overlayProperties]
  show (ownProperty g.project name).or (valueOf (env.handDown g.path g.project
    (some (env.effectiveOf parent (env.effective older)))).1.props name) = _
  rw [hhanded]
  rfl

/-!
# Managed entries
-/

/-- The entry at the node is the first one for the coordinates in the management of the POM. -/
structure Declares (g : Generation) (older : List Generation) (key : Coordinate) (node : Node) :
    Prop where
  position : exists before after, managedNodes g.project = before ++ node :: after ∧
    key ∉ before.foldl (manage (env.substituteIn g older) (env.bomOf g)) ∅
  group : (childText node "groupId".toList).map (env.substituteIn g older) = some key.1
  artifact : (childText node "artifactId".toList).map (env.substituteIn g older) = some key.2
  entry : (childText node "scope".toList).map (env.substituteIn g older) ≠ some "import".toList

/-- None of the younger POMs has an entry of its own for the coordinates. -/
def Unmanaged (key : Coordinate) : List Generation -> List Generation -> Prop
  | [], _ => True
  | g :: young, old => key ∉ env.ownManagedOf g (young ++ old) ∧ Unmanaged key young old

variable {subst : Text -> Text} {bom : Text -> Text -> Text -> Option RawEffective} {own : Managed}
  {key : Coordinate} {node : Node}

theorem lookup_manage {entry : ManagedDep} (h : own.lookup key = some entry) (node : Node) :
    (manage subst bom own node).lookup key = some entry := by
  have hmem : key ∈ own := AList.lookup_isSome.mp (by rw [h]; rfl)
  unfold manage
  split
  · simp only
    split
    · split
      · rw [AList.lookup_union_left hmem, h]
      · exact h
    · rw [AList.lookup_union_left hmem, h]
  · exact h

theorem lookup_foldl_manage {entry : ManagedDep} (h : own.lookup key = some entry)
    (nodes : List Node) :
    (nodes.foldl (manage subst bom) own).lookup key = some entry := by
  induction nodes generalizing own with
  | nil => exact h
  | cons node rest ih => exact ih (lookup_manage h node)

theorem manage_entry (hgroup : (childText node "groupId".toList).map subst = some key.1)
    (hartifact : (childText node "artifactId".toList).map subst = some key.2)
    (hentry : (childText node "scope".toList).map subst ≠ some "import".toList) :
    manage subst bom own node = own ∪ AList.singleton key {
      version := (childText node "version".toList).map subst
      scope := (childText node "scope".toList).map subst } := by
  unfold manage
  rw [hgroup, hartifact]
  exact if_neg hentry

theorem Declares.lookup {env : Environment} {g : Generation} {older : List Generation}
    {key : Coordinate} {node : Node} (h : env.Declares g older key node) :
    (env.ownManagedOf g older).lookup key = some {
      version := (childText node "version".toList).map (env.substituteIn g older)
      scope := (childText node "scope".toList).map (env.substituteIn g older) } := by
  rcases h.position with ⟨before, after, hnodes, hnew⟩
  unfold ownManagedOf ownManaged
  rw [hnodes, List.foldl_append, List.foldl_cons]
  apply lookup_foldl_manage
  rw [manage_entry h.group h.artifact h.entry, AList.lookup_union_right hnew]
  exact List.dlookup_cons_eq _ _ _

theorem inherited_entry {young old : List Generation} {decl : Generation}
    (hlinked : Linked (young ++ decl :: old)) (hdecl : env.Declares decl old key node)
    (hyoung : env.Unmanaged key young (decl :: old)) :
    exists raw, env.effective (young ++ decl :: old) = some raw ∧
      raw.managed.lookup key = some {
        version := (childText node "version".toList).map (env.substituteIn decl old)
        scope := (childText node "scope".toList).map (env.substituteIn decl old) } := by
  induction young with
  | nil =>
    refine ⟨_, rfl, ?_⟩
    have hown := hdecl.lookup
    show (env.managedOf decl old).lookup key = _
    rw [managedOf_eq, AList.lookup_union_left (AList.lookup_isSome.mp (by rw [hown]; rfl)), hown]
  | cons g young ih =>
    rcases ih hlinked.2 hyoung.2 with ⟨raw, hraw, hlookup⟩
    refine ⟨_, rfl, ?_⟩
    show (env.managedOf g (young ++ decl :: old)).lookup key = _
    rw [managedOf_eq, AList.lookup_union_right hyoung.1, hraw,
      env.handDown_some g.path raw (hlinked.1 (by simp))]
    exact hlookup

/-!
# Dependencies
-/

def Undeclared (key : Coordinate) : List Generation -> List Generation -> Prop
  | [], _ => True
  | g :: young, old =>
    (forall dep, dep ∈ env.ownDependenciesOf g (young ++ old) -> dep.key ≠ key) ∧
      Undeclared key young old

/-- The dependency that a POM reads at one of its nodes. -/
structure Depends (g : Generation) (older : List Generation) (node : Node) (dep : RawDep) :
    Prop where
  mem : node ∈ dependencyNodes g.project
  read : ownDependency (env.substituteIn g older) (env.managedOf g older) node = some dep

theorem Depends.version {env : Environment} {g : Generation} {older : List Generation}
    {node : Node} {dep : RawDep} (h : env.Depends g older node dep) :
    dep.version =
      if unusable ((childText node "version".toList).map (env.substituteIn g older)) then
        ((env.managedOf g older).lookup dep.key).bind ManagedDep.version
      else (childText node "version".toList).map (env.substituteIn g older) :=
  version_ownDependency h.read

theorem inherited_dependency {young old : List Generation} {decl : Generation} {dep : RawDep}
    (hlinked : Linked (young ++ decl :: old)) (hdecl : env.Depends decl old node dep)
    (hyoung : env.Undeclared dep.key young (decl :: old)) :
    exists raw, env.effective (young ++ decl :: old) = some raw ∧ dep ∈ raw.dependencies := by
  induction young with
  | nil =>
    refine ⟨_, rfl, ?_⟩
    show dep ∈ (env.effectiveOf decl (env.effective old)).dependencies
    rw [dependencies_effectiveOf]
    exact List.mem_append_right _ (List.mem_filterMap.mpr ⟨node, hdecl.mem, hdecl.read⟩)
  | cons g young ih =>
    rcases ih hlinked.2 hyoung.2 with ⟨raw, hraw, hmem⟩
    refine ⟨_, rfl, ?_⟩
    show dep ∈ (env.effectiveOf g (env.effective (young ++ decl :: old))).dependencies
    rw [dependencies_effectiveOf, hraw, env.handDown_some g.path raw (hlinked.1 (by simp))]
    refine List.mem_append_left _ (List.mem_filter.mpr ⟨hmem, ?_⟩)
    rw [Bool.not_eq_true', List.any_eq_false]
    intro d hd
    simpa using hyoung.1 d hd

end Environment

end Classpath
end JavaVsixLite
