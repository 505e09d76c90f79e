import JavaVsixLite.Classpath.Inheritance

/-!
# Overridden properties

In a chain of POMs the version of an inherited entry should be its text with the properties of
the youngest POM.  It has the properties of the POM that declares it, so it is right exactly
when the two agree on the text.  They do when no younger POM changes a property that comes up
in it.
-/

namespace JavaVsixLite
namespace Classpath

open Foundation
open Foundation.Placeholders

namespace Environment

variable (env : Environment)

/-- Where the version of a dependency comes from when its own text gives none that can be used. -/
def managedVersion (g : Generation) (older : List Generation) (key : Coordinate) : Option Text :=
  ((env.managedOf g older).lookup key).bind ManagedDep.version

/-- What the youngest POM of a chain inherits from the POM `decl`. -/
structure InheritedVersions (raw : RawEffective) (leaf : Generation) (young : List Generation)
    (decl : Generation) (old : List Generation) : Prop where
  /-- The merged properties: a POM's own value wins over its parent's. -/
  props_eq : raw.props = env.propsOf leaf (young ++ decl :: old)
  merged : forall g parent older, Linked (g :: parent :: older) ->
    forall name, name ∉ implicitNames -> valueOf (env.propsOf g (parent :: older)) name =
      (ownProperty g.project name).or (valueOf (env.propsOf parent older) name)
  /-- A managed entry: its text must mean the same in both POMs. -/
  managed : forall key node text, env.Declares decl old key node ->
    env.Unmanaged key (leaf :: young) (decl :: old) ->
    childText node "version".toList = some text ->
    exists entry, raw.managed.lookup key = some entry ∧
      (entry.version = some (env.substituteIn leaf (young ++ decl :: old) text) <->
        env.substituteIn decl old text = env.substituteIn leaf (young ++ decl :: old) text)
  /-- A dependency with a version: its text must mean the same in both POMs.  Where it is not
  resolved by the declaring POM, what that POM's management puts in its place must do. -/
  dependency : forall node dep text, env.Depends decl old node dep ->
    env.Undeclared dep.key (leaf :: young) (decl :: old) ->
    childText node "version".toList = some text ->
    dep ∈ raw.dependencies ∧
      (dep.version = some (env.substituteIn leaf (young ++ decl :: old) text) <->
        if unusable (some (env.substituteIn decl old text)) then
          env.managedVersion decl old dep.key =
            some (env.substituteIn leaf (young ++ decl :: old) text)
        else env.substituteIn decl old text = env.substituteIn leaf (young ++ decl :: old) text)
  /-- A dependency without a version has the text of the entry that manages it. -/
  managedDependency : forall node dep, env.Depends decl old node dep ->
    env.Undeclared dep.key (leaf :: young) (decl :: old) ->
    childText node "version".toList = none ->
    forall between origin rest entry text, decl :: old = between ++ origin :: rest ->
      env.Declares origin rest dep.key entry ->
      env.Unmanaged dep.key between (origin :: rest) ->
      childText entry "version".toList = some text ->
      dep ∈ raw.dependencies ∧
        (dep.version = some (env.substituteIn leaf (young ++ decl :: old) text) <->
          env.substituteIn origin rest text = env.substituteIn leaf (young ++ decl :: old) text)
  /-- The text means the same when no property that comes up in it is changed and it is
  resolved in both POMs. -/
  unchanged : forall g older text,
    Unchanged (env.propsOf g older) (env.propsOf leaf (young ++ decl :: old)) text ->
    Settled (env.substituteIn g older text) ->
    Settled (env.substituteIn leaf (young ++ decl :: old) text) ->
    env.substituteIn g older text = env.substituteIn leaf (young ++ decl :: old) text
  /-- A single reference to plain values means the same exactly when the values are the same. -/
  reference : forall g older name value leafValue,
    valueOf (env.propsOf g older) name = some value ->
    valueOf (env.propsOf leaf (young ++ decl :: old)) name = some leafValue ->
    Settled value -> Settled leafValue ->
    (env.substituteIn g older (placeholder name.val) =
      env.substituteIn leaf (young ++ decl :: old) (placeholder name.val) <-> value = leafValue)

theorem inherited_versions_iff {path : Text} {root : Option Text} {leaf decl : Generation}
    {young old : List Generation}
    (h : env.lineage (maxDepth + 1) path root = leaf :: (young ++ decl :: old)) :
    exists raw, env.parseEffectivePomRaw (maxDepth + 1) path root = some raw ∧
      env.InheritedVersions raw leaf young decl old := by
  have hlinked : Linked ((leaf :: young) ++ decl :: old) := by
    rw [List.cons_append, ← h]
    exact env.linked_lineage (maxDepth + 1) path root
  rw [parseEffectivePomRaw_eq, h]
  refine ⟨_, rfl, ?_⟩
  constructor
  case props_eq => rfl
  case merged =>
    intro g parent older hchain name hname
    exact env.valueOf_propsOf hchain hname
  case managed =>
    intro key node text hdecl hyoung htext
    rcases env.inherited_entry hlinked hdecl hyoung with ⟨raw, hraw, hlookup⟩
    refine ⟨_, (Option.some.inj hraw) ▸ hlookup, ?_⟩
    rw [htext]
    exact Option.some_inj
  case dependency =>
    intro node dep text hdecl hyoung htext
    rcases env.inherited_dependency hlinked hdecl hyoung with ⟨raw, hraw, hmem⟩
    refine ⟨(Option.some.inj hraw) ▸ hmem, ?_⟩
    rw [hdecl.version, htext]
    show (if unusable (some _) then _ else some _) = _ <-> _
    split
    · exact Iff.rfl
    · exact Option.some_inj
  case managedDependency =>
    intro node dep hdecl hyoung htext between origin rest entry text hchain horigin hbetween hentry
    rcases env.inherited_dependency hlinked hdecl hyoung with ⟨raw, hraw, hmem⟩
    refine ⟨(Option.some.inj hraw) ▸ hmem, ?_⟩
    have hbelow : Linked (between ++ origin :: rest) := by
      rw [← hchain]
      exact linked_of_append hlinked
    rcases env.inherited_entry hbelow horigin hbetween with ⟨below, hbelow, hlookup⟩
    rw [← hchain] at hbelow
    have hmanaged : (env.managedOf decl old).lookup dep.key = some {
        version := (childText entry "version".toList).map (env.substituteIn origin rest)
        scope := (childText entry "scope".toList).map (env.substituteIn origin rest) } := by
      rw [← hlookup, ← Option.some.inj hbelow]
      rfl
    rw [hdecl.version, htext, hmanaged, hentry]
    exact Option.some_inj
  case unchanged =>
    intro g older text hsame hsettled hsettled'
    exact substitute_unchanged env.order hsame hsettled hsettled'
  case reference =>
    intro g older name value leafValue hvalue hleaf hsettled hsettled'
    unfold substituteIn
    rw [substitute_reference env.order g.path hvalue hsettled,
      substitute_reference env.order leaf.path hleaf hsettled']

end Environment

/-!
# A parent with a version to override
-/

namespace Override

def parentDocument : Node :=
  .tag "project" [.leaf "groupId" "g", .leaf "artifactId" "parent", .leaf "version" "1",
    .tag "properties" [.leaf "v" "1"],
    .tag "dependencyManagement" [.tag "dependencies" [.tag "dependency"
      [.leaf "groupId" "g", .leaf "artifactId" "a", .leaf "version" "${v}"]]]]

def childDocument : Node :=
  .tag "project" [
    .tag "parent" [.leaf "groupId" "g", .leaf "artifactId" "parent", .leaf "version" "1"],
    .leaf "artifactId" "child", .tag "properties" [.leaf "v" "2"]]

def cache : Environment :=
  .ofDocuments
    (fun path =>
      if path = ['p'] then some parentDocument
      else if path = ['c'] then some childDocument
      else none)
    { locatePom := fun _ _ _ => some ['p'], locateJar := fun _ _ _ => none }

def leaf : Generation where
  path := ['c']
  project := childDocument
  remaining := maxDepth

def parent : Generation where
  path := ['p']
  project := parentDocument
  remaining := maxDepth - 1

theorem lineage_eq : cache.lineage (maxDepth + 1) ['c'] none = leaf :: ([] ++ parent :: []) := rfl

end Override

theorem override_inherited :
    exists raw, Override.cache.parseEffectivePomRaw (maxDepth + 1) ['c'] none = some raw ∧
      Override.cache.InheritedVersions raw Override.leaf [] Override.parent [] :=
  Override.cache.inherited_versions_iff Override.lineage_eq

/-- The child sets `v` to 2, but the entry it inherits has the version 1. -/
theorem override_lost :
    (Override.cache.parseEffectivePomRaw (maxDepth + 1) ['c'] none).map (fun raw =>
      ((raw.managed.lookup (['g'], ['a'])).bind ManagedDep.version,
        substitute (Override.cache.order.entries ['c'] raw.props) "${v}".toList)) =
      some (some ['1'], ['2']) := by
  rfl

end Classpath
end JavaVsixLite
