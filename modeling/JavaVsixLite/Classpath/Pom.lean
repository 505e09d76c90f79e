import Mathlib.Data.List.TakeWhile
import JavaVsixLite.Foundation.Pathnames
import JavaVsixLite.Foundation.Placeholders
import JavaVsixLite.Foundation.Tables

/-!
# Effective POMs

A POM is read from the project or from the local cache and merged with its chain of parents:
properties, managed dependencies and dependencies.  The files, the XML parser, the place of an
artifact in the cache and the order in which a hash map is iterated are given.

Of an XML document only the elements are kept, each with the text it starts with.
-/

namespace JavaVsixLite
namespace Classpath

open Foundation
open Foundation.Placeholders

def maxPomBytes : Nat := 4 * 1024 * 1024

/-- Cap on the depth of the search, and on the recursion over parents and BOMs. -/
def maxDepth : Nat := 25

def maxNodes : Nat := 2000

abbrev Coordinate := Text × Text

/-!
# XML
-/

def isMark (c : Char) : Bool :=
  c == '$' || c == '{' || c == '}'

theorem plain_filter (name : Text) : Plain (name.filter (fun c => !isMark c)) := by
  have hmark : forall c : Char, isMark c = true -> c ∉ name.filter (fun c => !isMark c) := by
    intro c hc hmem
    simp [List.mem_filter, hc] at hmem
  exact ⟨hmark '$' rfl, hmark '{' rfl, hmark '}' rfl⟩

def xmlName (name : String) : Placeholders.Name :=
  ⟨name.toList.filter (fun c => !isMark c), plain_filter name.toList⟩

inductive Node where
  | element (name : Placeholders.Name) (text : Option Text) (children : List Node)

namespace Node

def name : Node -> Placeholders.Name
  | element name _ _ => name

def text : Node -> Option Text
  | element _ text _ => text

def children : Node -> List Node
  | element _ _ children => children

def hasTagName (node : Node) (tag : Text) : Bool :=
  node.name.val == tag

mutual

def descendants : Node -> List Node
  | element name text children => element name text children :: descendantsOf children

def descendantsOf : List Node -> List Node
  | [] => []
  | node :: rest => descendants node ++ descendantsOf rest

end

def child (node : Node) (tag : Text) : Option Node :=
  node.children.find? (fun n => n.hasTagName tag)

def elements (node : Node) (tag : Text) : List Node :=
  node.children.filter (fun n => n.hasTagName tag)

end Node

/-- The characters with the property `White_Space`. -/
def isWhitespace (c : Char) : Bool :=
  (9 <= c.val && c.val <= 13) || c.val == 0x20 || c.val == 0x85 || c.val == 0xA0 ||
    c.val == 0x1680 || (0x2000 <= c.val && c.val <= 0x200A) || c.val == 0x2028 ||
    c.val == 0x2029 || c.val == 0x202F || c.val == 0x205F || c.val == 0x3000

def trim (text : Text) : Text :=
  ((text.dropWhile isWhitespace).reverse.dropWhile isWhitespace).reverse

/-- `str::trim_start` -/
def trimStart (text : Text) : Text :=
  text.dropWhile isWhitespace

theorem mem_dropWhile {c : Char} {text : Text} {p : Char -> Bool} (h : c ∈ text)
    (hc : p c = false) : c ∈ text.dropWhile p := by
  rw [← List.takeWhile_append_dropWhile (p := p) (l := text)] at h
  cases List.mem_append.mp h with
  | inl htake =>
    rw [List.mem_takeWhile_imp htake] at hc
    cases hc
  | inr hdrop => exact hdrop

theorem mem_trim {c : Char} {text : Text} (h : c ∈ text) (hc : isWhitespace c = false) :
    c ∈ trim text := by
  unfold trim
  rw [List.mem_reverse]
  apply mem_dropWhile _ hc
  rw [List.mem_reverse]
  exact mem_dropWhile h hc

def childText (node : Node) (tag : Text) : Option Text :=
  (((node.child tag).bind Node.text).map trim).filter (fun text => !text.isEmpty)

/-!
# Substitution
-/

abbrev Props := Table Placeholders.Name Text

def substituteEntry (state : Text × Bool) (entry : Placeholders.Name × Text) : Text × Bool :=
  if placeholder entry.1.val <:+: state.1 then
    (replace (placeholder entry.1.val) entry.2 state.1, true)
  else state

def substitutePass (entries : List (Placeholders.Name × Text)) (value : Text) : Text × Bool :=
  entries.foldl substituteEntry (value, false)

def substitutePasses (entries : List (Placeholders.Name × Text)) : Nat -> Text -> Text
  | 0, value => value
  | passes + 1, value =>
    let result := substitutePass entries value
    if result.2 then substitutePasses entries passes result.1 else result.1

/-- References to references are resolved by a few passes. -/
def substitute (entries : List (Placeholders.Name × Text)) (value : Text) : Text :=
  substitutePasses entries 5 value

/-- The order in which the property map of a POM is iterated. -/
structure HashOrder where
  entries : Text -> Props -> List (Placeholders.Name × Text)
  perm (path : Text) (props : Props) :
    (entries path props).Perm (props.entries.map (fun entry => (entry.1, entry.2)))

/-!
# The data of a POM
-/

structure RawDep where
  group : Text
  artifact : Text
  version : Option Text
  scope : Text
  optional : Bool
  classifier : Option Text
  exclusions : List Coordinate

def RawDep.key (dep : RawDep) : Coordinate :=
  (dep.group, dep.artifact)

structure ManagedDep where
  version : Option Text
  scope : Option Text

abbrev Managed := Table Coordinate ManagedDep

structure RawEffective where
  group : Text
  version : Text
  props : Props
  managed : Managed
  dependencies : List RawDep
  modules : List Text
  degraded : List Text

structure EffectivePom where
  dependencies : List RawDep
  modules : List Text
  degraded : List Text

/-- What a POM takes over from its parent. -/
structure Handed where
  props : Props
  managed : Managed
  dependencies : List RawDep
  group : Option Text
  version : Option Text

def coordStr (group artifact version : Text) : Text :=
  group ++ ':' :: (artifact ++ ':' :: version)

/-!
# Merging a POM with what its parent hands down
-/

def overlayProperties (project : Node) (props : Props) : Props :=
  match project.child "properties".toList with
  | none => props
  | some properties =>
    properties.children.foldl (fun props prop =>
      match prop.text with
      | some text => props.insert prop.name (trim text)
      | none => props) props

def projectVersion : Placeholders.Name := xmlName "project.version"
def projectGroupId : Placeholders.Name := xmlName "project.groupId"
def projectArtifactId : Placeholders.Name := xmlName "project.artifactId"
def pomVersion : Placeholders.Name := xmlName "pom.version"
def projectParentVersion : Placeholders.Name := xmlName "project.parent.version"
def pomParentVersion : Placeholders.Name := xmlName "pom.parent.version"
def projectParentGroupId : Placeholders.Name := xmlName "project.parent.groupId"

def insertImplicit (group artifact version : Text) (parentGroup parentVersion : Option Text)
    (props : Props) : Props :=
  let props := (((props.insert projectVersion version).insert projectGroupId group).insert
    projectArtifactId artifact).insert pomVersion version
  let props := match parentVersion with
    | some v => (props.insert projectParentVersion v).insert pomParentVersion v
    | none => props
  match parentGroup with
  | some g => props.insert projectParentGroupId g
  | none => props

/-- One managed entry.  The first one for its coordinates stays; an import takes its place
with the entries of the BOM. -/
def manage (subst : Text -> Text) (bom : Text -> Text -> Text -> Option RawEffective)
    (own : Managed) (dep : Node) : Managed :=
  match (childText dep "groupId".toList).map subst,
    (childText dep "artifactId".toList).map subst with
  | some g, some a =>
    let scope := (childText dep "scope".toList).map subst
    let version := (childText dep "version".toList).map subst
    if scope = some "import".toList then
      match version.bind (bom g a) with
      | some imported => own ∪ imported.managed
      | none => own
    else own ∪ AList.singleton (g, a) { version := version, scope := scope }
  | _, _ => own

def managedNodes (project : Node) : List Node :=
  match (project.child "dependencyManagement".toList).bind
    (fun management => management.child "dependencies".toList) with
  | some deps => deps.elements "dependency".toList
  | none => []

def ownManaged (subst : Text -> Text) (bom : Text -> Text -> Text -> Option RawEffective)
    (project : Node) : Managed :=
  (managedNodes project).foldl (manage subst bom) ∅

/-- A version that is missing, empty or not resolved is left to the management. -/
def unusable (version : Option Text) : Bool :=
  version.all (fun v => v.isEmpty || decide (opening <:+: v))

def exclusion (subst : Text -> Text) (excl : Node) : Option Coordinate :=
  match (childText excl "groupId".toList).map subst,
    (childText excl "artifactId".toList).map subst with
  | some g, some a => some (g, a)
  | _, _ => none

def exclusionsOf (subst : Text -> Text) (dep : Node) : List Coordinate :=
  match dep.child "exclusions".toList with
  | some list => (list.elements "exclusion".toList).filterMap (exclusion subst)
  | none => []

def ownDependency (subst : Text -> Text) (managed : Managed) (dep : Node) : Option RawDep :=
  match (childText dep "groupId".toList).map subst,
    (childText dep "artifactId".toList).map subst with
  | some g, some a =>
    let version := (childText dep "version".toList).map subst
    let scope := (childText dep "scope".toList).map subst
    let entry := managed.lookup (g, a)
    some {
      group := g
      artifact := a
      version := if unusable version then entry.bind ManagedDep.version else version
      scope := (if scope.all List.isEmpty then entry.bind ManagedDep.scope else scope).getD
        "compile".toList
      optional := (childText dep "optional".toList).any
        (fun o => (subst o).map Char.toLower == "true".toList)
      classifier := (childText dep "classifier".toList).map subst
      exclusions := exclusionsOf subst dep }
  | _, _ => none

def dependencyNodes (project : Node) : List Node :=
  match project.child "dependencies".toList with
  | some deps => deps.elements "dependency".toList
  | none => []

/-- The POM's own declaration of a coordinate wins over the inherited one. -/
def inheritDependencies (inherited own : List RawDep) : List RawDep :=
  inherited.filter (fun dep => !own.any (fun d => d.key == dep.key)) ++ own

def modulesOf (subst : Text -> Text) (project : Node) : List Text :=
  match project.child "modules".toList with
  | some mods => ((mods.elements "module".toList).filterMap Node.text).map (fun t => subst (trim t))
  | none => []

/-- `order` is the order of the property map of this POM. -/
def parseEffectivePomRawFromDoc (order : Props -> List (Placeholders.Name × Text))
    (bom : Text -> Text -> Text -> Option RawEffective) (project : Node) (parent : Handed) :
    RawEffective :=
  let own := overlayProperties project parent.props
  let ownText := fun tag => (childText project tag).map (substitute (order own))
  let group := (ownText "groupId".toList <|> parent.group).getD []
  let version := (ownText "version".toList <|> parent.version).getD []
  let props := insertImplicit group ((ownText "artifactId".toList).getD []) version parent.group
    parent.version own
  let subst := substitute (order props)
  let managed := ownManaged subst bom project ∪ parent.managed
  { group := group
    version := version
    props := props
    managed := managed
    dependencies := inheritDependencies parent.dependencies
      ((dependencyNodes project).filterMap (ownDependency subst managed))
    modules := modulesOf subst project
    degraded := [] }

/-!
# The chain of parents
-/

structure Locator where
  locatePom : Text -> Text -> Text -> Option Text
  locateJar : Text -> Text -> Text -> Option Text

/-- The file system, the XML parser and the cache. -/
structure Environment where
  platform : Platform
  metadataLen : Text -> Option Nat
  readToString : Text -> Option Text
  isFile : Text -> Bool
  isDir : Text -> Bool
  canonicalize : Text -> Option Text
  parseXml : Text -> Option Node
  locator : Locator
  order : HashOrder

def isAbsolute (P : Platform) (path : Text) : Bool :=
  P.startsAtTwoSeps path || (P.hasRoot path && (P == .unix || P.hasDrive path))

def componentText (P : Platform) : Component -> Text
  | .drive name => name
  | .root => [P.mainSep]
  | .parent => ['.', '.']
  | .normal name => name

def isName : Component -> Bool
  | .parent => true
  | .normal _ => true
  | _ => false

/-- `Path::parent`: the start of the path up to its last component, if that is a name. -/
def parentPath (P : Platform) (path : Text) : Option Text :=
  match (P.components path).getLast? with
  | some last =>
    if isName last then
      path.inits.find? (fun start => P.components start == (P.components path).dropLast)
    else none
  | none => none

def fileName (P : Platform) (path : Text) : Option Text :=
  match (P.components path).getLast? with
  | some (.normal name) => some name
  | _ => none

/-- `PathBuf::pop` -/
def popPath (P : Platform) (path : Text) : Text :=
  (parentPath P path).getD path

def normalizeStep (P : Platform) (state : Option (Text × Nat)) (component : Component) :
    Option (Text × Nat) :=
  state.bind (fun (out, depth) =>
    match component with
    | .drive _ | .root => some (P.join out (componentText P component), depth)
    | .parent => if depth = 0 then none else some (popPath P out, depth - 1)
    | .normal name => some (P.join out name, depth + 1))

def lexicalNormalize (P : Platform) (path : Text) : Option Text :=
  ((P.components path).foldl (normalizeStep P) (some ([], 0))).map Prod.fst

/-- A relative parent of a POM of the project, inside the project. -/
def projectLocalParent (env : Environment) (pomPath rel projectRoot : Text) : Option Text := do
  if rel.isEmpty || isAbsolute env.platform rel then none
  else
    let directory <- parentPath env.platform pomPath
    let candidate <- lexicalNormalize env.platform (env.platform.join directory rel)
    let root <- lexicalNormalize env.platform projectRoot
    if env.platform.startsWith candidate root && env.isFile candidate then
      let canon <- env.canonicalize candidate
      let canonRoot <- env.canonicalize projectRoot
      if env.platform.startsWith canon canonRoot then some candidate else none
    else none

namespace Environment

variable (env : Environment)

/-- The `project` element of the POM. -/
def readProject (path : Text) : Option Node := do
  if (env.metadataLen path).getD 18446744073709551615 > maxPomBytes then none
  else
    let text <- env.readToString path
    let doc <- env.parseXml text
    doc.descendants.find? (fun n => n.hasTagName "project".toList)

/-- Where the parent of a POM is read, with the root of the project when it is part of it. -/
def parentLink (path : Text) (root : Option Text) (parent : Node) :
    Option (Text × Option Text) :=
  let rel := (childText parent "relativePath".toList).getD "../pom.xml".toList
  match root.bind (projectLocalParent env path rel) with
  | some localPath => some (localPath, root)
  | none => do
      let g <- childText parent "groupId".toList
      let a <- childText parent "artifactId".toList
      let v <- childText parent "version".toList
      let p <- env.locator.locatePom g a v
      some (p, none)

/-- What the parent hands down, and the record left when it cannot be read. -/
def handDown (path : Text) (project : Node) (parsed : Option RawEffective) :
    Handed × List Text :=
  match project.child "parent".toList with
  | none => ({ props := ∅, managed := ∅, dependencies := [], group := none, version := none }, [])
  | some parent =>
    match parsed with
    | some effective =>
      ({ props := effective.props
         managed := effective.managed
         dependencies := effective.dependencies
         group := some effective.group
         version := some effective.version }, effective.degraded)
    | none =>
      let text := fun tag => childText parent tag
      let child := (childText project "artifactId".toList <|> fileName env.platform path).getD []
      ({ props := ∅
         managed := ∅
         dependencies := []
         group := text "groupId".toList
         version := text "version".toList },
        [child ++ ": parent ".toList ++ coordStr ((text "groupId".toList).getD ['?'])
          ((text "artifactId".toList).getD ['?']) ((text "version".toList).getD ['?']) ++
          " unreadable".toList])

def merge (bom : Text -> Text -> Text -> Option RawEffective) (path : Text) (project : Node)
    (parsed : Option RawEffective) : RawEffective :=
  let handed := env.handDown path project parsed
  let raw := parseEffectivePomRawFromDoc (env.order.entries path) bom project handed.1
  { raw with degraded := handed.2 ++ raw.degraded }

/-- `remaining` counts the levels of parents and BOMs that may still be read, so the depth of
the chain is `maxDepth + 1 - remaining`. -/
def parseEffectivePomRaw : Nat -> Text -> Option Text -> Option RawEffective
  | 0, _, _ => none
  | remaining + 1, path, root =>
    (env.readProject path).map (fun project =>
      let parsed := ((project.child "parent".toList).bind (env.parentLink path root)).bind
        (fun link => parseEffectivePomRaw remaining link.1 link.2)
      let bom := fun g a v =>
        (env.locator.locatePom g a v).bind (fun p => parseEffectivePomRaw remaining p none)
      env.merge bom path project parsed)

def parseEffectivePom (path : Text) (root : Option Text) : Option EffectivePom :=
  (env.parseEffectivePomRaw (maxDepth + 1) path root).map (fun raw =>
    { dependencies := raw.dependencies, modules := raw.modules, degraded := raw.degraded })

end Environment

/-!
# Documents at given paths
-/

def tableOrder : HashOrder where
  entries := fun _ props => props.entries.map (fun entry => (entry.1, entry.2))
  perm := fun _ _ => List.Perm.refl _

def Environment.ofDocuments (documents : Text -> Option Node) (locator : Locator) :
    Environment where
  platform := .unix
  metadataLen := fun path => (documents path).map (fun _ => path.length)
  readToString := fun path => (documents path).map (fun _ => path)
  isFile := fun path => (documents path).isSome
  isDir := fun _ => false
  canonicalize := some
  parseXml := documents
  locator := locator
  order := tableOrder

def Node.tag (name : String) (children : List Node) : Node :=
  .element (xmlName name) none children

def Node.leaf (name text : String) : Node :=
  .element (xmlName name) (some text.toList) []

end Classpath
end JavaVsixLite
