import JavaVsixLite.Types.TypeRef

/-!
# Class tables

The subtype engine sees the project and its dependencies through one finite
table: what is known about a class-like type, and whether an open document
declares it.  A name the table does not answer is unknown, never absent.
-/

namespace JavaVsixLite

structure TypeParameter where
  id : TypeVariableId
  bounds : List TypeRef
deriving DecidableEq

/--
An explicit supertype that could not be resolved is recorded as
`TypeRef.unknown`; `hierarchyComplete` is false when any supertype is not fully
understood.
-/
structure ClassMetadata where
  typeParameters : List TypeParameter
  supertypes : List TypeRef
  hierarchyComplete : Bool
deriving DecidableEq

structure ClassEntry where
  metadata : ClassMetadata
  inProject : Bool

structure ClassTable where
  entries : List (TypeId × ClassEntry)

namespace ClassTable

def entry (T : ClassTable) (id : TypeId) : Option ClassEntry :=
  (T.entries.find? (fun row => row.1 == id)).map (fun row => row.2)

/-- The facts of a class, `none` when it is unresolvable or ambiguous. -/
def classFacts (T : ClassTable) (id : TypeId) : Option ClassMetadata :=
  (T.entry id).map (fun e => e.metadata)

def declaresInProject (T : ClassTable) (binary : String) : Bool :=
  (T.entry (TypeId.named binary)).any (fun e => e.inProject)

/-- The bounds of a class-owned variable; any other owner names no class. -/
def variableBounds (T : ClassTable) (v : TypeVariableId) :
    Option (List TypeRef) :=
  match T.classFacts (TypeId.named v.owner) with
  | none => none
  | some facts =>
    (facts.typeParameters[v.index]?).map (fun p => p.bounds)

end ClassTable

namespace ClassMetadata

/-- The use-site substitution of a class's own parameters. -/
def environment (facts : ClassMetadata) (args : List TypeRef) : TypeEnv :=
  (facts.typeParameters.map (fun p => p.id)).zip args

def isRaw (facts : ClassMetadata) (args : List TypeRef) : Bool :=
  args.isEmpty && !facts.typeParameters.isEmpty

def superInstances (facts : ClassMetadata) (args : List TypeRef) :
    List TypeRef :=
  facts.supertypes.map (fun sup =>
    if facts.isRaw args then sup.erase
    else sup.substitute (facts.environment args))

end ClassMetadata

end JavaVsixLite
