import JavaVsixLite.Members.SourceClass

/-!
# The two member walks

`collectMembers` serves completion and hover, `memberNames` the diagnostics.
They are separate recursions over one hierarchy that crosses between open
documents, closed sources and class files.
-/

namespace JavaVsixLite

/-- A declaration of an open document is known by its node. -/
inductive ResolvedType where
  | inProject (node : Nat) (args : List TypeRef)
  | external (fqn : String) (args : List TypeRef)
  | array (element : TypeRef)
  | primitive (p : PrimitiveType)
  | void
  | null
deriving DecidableEq

inductive ClassSource where
  | closed (imports : Imports) (td : TypeDecl)
  | compiled (c : ExternalClass)

/--
What a request sees.  `resolveTypeNode` resolves a clause of the declaration at
a node in the context of its own document; `known` tells which names exist.
-/
structure Workspace where
  decl : Nat -> TypeDecl
  hasDocument : Nat -> Bool
  resolveTypeNode : Nat -> TypeNode -> Option ResolvedType
  getNamed : String -> Option Nat
  isDuplicate : String -> Bool
  byNode : Nat -> Nat -> Option Nat
  known : String -> Bool
  sources : String -> Option ClassSource
  toUppercase : Char -> List Char

namespace Workspace

def closedOnly (known : String -> Bool)
    (sources : String -> Option ClassSource) : Workspace where
  decl := fun _ => TypeDecl.plain "" "" []
  hasDocument := fun _ => false
  resolveTypeNode := fun _ _ => none
  getNamed := fun _ => none
  isDuplicate := fun _ => false
  byNode := fun _ _ => none
  known := known
  sources := sources
  toUppercase := fun c => [c.toUpper]

def classOf (w : Workspace) (fqn : String) : Option ExternalClass :=
  (w.sources fqn).map (fun source =>
    match source with
    | .closed imports td => toExternalClass w.toUppercase w.known imports td
    | .compiled c => c)

def fromTypeRef (w : Workspace) : TypeRef -> Option ResolvedType
  | .primitive p => some (.primitive p)
  | .void => some .void
  | .null => some .null
  | .array element => some (.array element)
  | .named (.named binary) args =>
    match w.getNamed binary with
    | some node => some (.inProject node args)
    | none =>
      if w.isDuplicate binary then none
      else if (w.classOf binary).isSome then some (.external binary args)
      else none
  | .named (.localClass document declaration) args =>
    (w.byNode document declaration).map (fun node => .inProject node args)
  | _ => none

/-- The clauses of a declaration in source order, with what they resolve to. -/
def resolvedClauses (w : Workspace) (node : Nat) : List (Option ResolvedType) :=
  (w.decl node).superNodes.map (fun clause =>
    if w.hasDocument (w.decl node).doc then w.resolveTypeNode node clause
    else none)

end Workspace

def maxResolveDepth : Nat := 64

def enumType : ResolvedType := .external "java.lang.Enum" []

def objectType : ResolvedType := .external "java.lang.Object" []

def arrayMembers (display : String) : List ExternalMember :=
  [ { name := "length", kind := .field, signature := "int length"
      isStatic := false },
    { name := "clone", kind := .method, signature := display ++ " clone()"
      isStatic := false } ]

/-!
# Collecting members
-/

inductive HierMember where
  | inProject (m : Member)
  | external (m : ExternalMember)
deriving DecidableEq

def HierMember.name : HierMember -> String
  | .inProject m => m.name
  | .external m => m.name

structure MemberAcc where
  out : List HierMember
  seen : List String
  visitedNode : List Nat
  visitedFqn : List String

def MemberAcc.empty : MemberAcc := ⟨[], [], [], []⟩

def MemberAcc.push (acc : MemberAcc) (signature : String) (m : HierMember) :
    MemberAcc :=
  if signature ∈ acc.seen then acc
  else { acc with seen := signature :: acc.seen, out := acc.out ++ [m] }

def pushExternal (acc : MemberAcc) (m : ExternalMember) : MemberAcc :=
  acc.push m.signature (.external m)

/-- The own members a walk offers, nested types also behind a type name. -/
def offeredMembers (staticOnly : Bool) (td : TypeDecl) : List Member :=
  td.ownMembers.filter (fun m =>
    !staticOnly || m.isStatic || m.kind matches .nestedType _)

def offeredLombok (toUppercase : Char -> List Char) (staticOnly : Bool)
    (td : TypeDecl) : List ExternalMember :=
  (lombokMembers toUppercase td).filter (fun m => !staticOnly || m.isStatic)

def offeredExternal (staticOnly : Bool) (c : ExternalClass) :
    List ExternalMember :=
  c.members.filter (fun m =>
    m.kind != .constructor && (!staticOnly || m.isStatic))

/-- The use-site substitution, empty when the arguments do not line up. -/
def useSiteEnv (metadata : ClassMetadata) (args : List TypeRef) : TypeEnv :=
  if metadata.typeParameters.length = args.length then metadata.environment args
  else []

/-- A fully understood hierarchy is followed through its structured types. -/
def externalSupertypes (w : Workspace) (c : ExternalClass)
    (args : List TypeRef) : List ResolvedType :=
  match c.metadata with
  | some metadata =>
    if metadata.hierarchyComplete then
      metadata.supertypes.filterMap (fun sup =>
        w.fromTypeRef (sup.substitute (useSiteEnv metadata args)))
    else c.supers.map (fun fqn => .external fqn [])
  | none => c.supers.map (fun fqn => .external fqn [])

/-- The budget is `maxResolveDepth + 1` less the depth. -/
def walkMembers (w : Workspace) (staticOnly : Bool) :
    Nat -> ResolvedType -> MemberAcc -> MemberAcc
  | 0, _, acc => acc
  | budget + 1, .inProject node _, acc =>
    if node ∈ acc.visitedNode then acc
    else
      let td := w.decl node
      let start := { acc with visitedNode := node :: acc.visitedNode }
      let own := (offeredMembers staticOnly td).foldl
        (fun acc m => acc.push m.signature (.inProject m)) start
      let lombok :=
        (offeredLombok w.toUppercase staticOnly td).foldl pushExternal own
      let inherited := ((w.resolvedClauses node).filterMap id).foldl
        (fun acc sup => walkMembers w staticOnly budget sup acc) lombok
      if td.kind = .enum then
        (enumSyntheticMembers td.name).foldl pushExternal
          (walkMembers w staticOnly budget enumType inherited)
      else inherited
  | budget + 1, .array element, acc =>
    let display := element.render ++ "[]"
    let own :=
      if staticOnly then acc else (arrayMembers display).foldl pushExternal acc
    walkMembers w staticOnly budget objectType own
  | budget + 1, .external fqn args, acc =>
    if fqn ∈ acc.visitedFqn then acc
    else
      let start := { acc with visitedFqn := fqn :: acc.visitedFqn }
      match w.classOf fqn with
      | none => start
      | some c =>
        (externalSupertypes w c args).foldl
          (fun acc sup => walkMembers w staticOnly budget sup acc)
          ((offeredExternal staticOnly c).foldl pushExternal start)
  | _ + 1, _, acc => acc

def collectMembers (w : Workspace) (staticOnly : Bool) (ty : ResolvedType) :
    List HierMember :=
  (walkMembers w staticOnly (maxResolveDepth + 1) ty MemberAcc.empty).out

/-!
# Member names
-/

structure DiagState where
  names : List String
  complete : Bool
  visitedNode : List Nat
  visitedFqn : List String

def DiagState.empty : DiagState := ⟨[], true, [], []⟩

def DiagState.giveUp (s : DiagState) : DiagState :=
  { s with complete := false }

def DiagState.addNames (s : DiagState) (names : List String) : DiagState :=
  { s with names := names ++ s.names }

/-- The names a class contributes; a constructor is never named by a member. -/
def externalNames (c : ExternalClass) : List String :=
  (c.members.filter (fun m => m.kind != .constructor)).map ExternalMember.name

def diagWalk (w : Workspace) : Nat -> ResolvedType -> DiagState -> DiagState
  | 0, _, s => s.giveUp
  | budget + 1, .inProject node _, s =>
    if node ∈ s.visitedNode then s
    else
      let td := w.decl node
      let start :=
        DiagState.addNames { s with visitedNode := node :: s.visitedNode }
          (td.ownMembers.map Member.name)
      let inherited := (w.resolvedClauses node).foldl
        (fun s clause =>
          match clause with
          | some sup => diagWalk w budget sup s
          | none => s.giveUp)
        start
      if td.kind = .enum then
        (diagWalk w budget enumType inherited).addNames
          ((enumSyntheticMembers td.name).map ExternalMember.name)
      else inherited
  | _ + 1, .array element, s =>
    s.addNames ((arrayMembers (element.render ++ "[]")).map ExternalMember.name)
  | budget + 1, .external fqn _, s =>
    if fqn ∈ s.visitedFqn then s
    else
      let start := { s with visitedFqn := fqn :: s.visitedFqn }
      match w.classOf fqn with
      | none => start.giveUp
      | some c =>
        c.supers.foldl
          (fun s sup => diagWalk w budget (.external sup []) s)
          (start.addNames (externalNames c))
  | _ + 1, _, s => s

/-- Every reference type has the members of `java.lang.Object`. -/
def memberNames (w : Workspace) (ty : ResolvedType) : List String × Bool :=
  let s := diagWalk w (maxResolveDepth + 1) ty DiagState.empty
  match ty with
  | .primitive _ => (s.names, s.complete)
  | .void => (s.names, s.complete)
  | .null => (s.names, s.complete)
  | _ =>
    match w.classOf "java.lang.Object" with
    | some object => (object.members.map ExternalMember.name ++ s.names, s.complete)
    | none => (s.names, false)

end JavaVsixLite
