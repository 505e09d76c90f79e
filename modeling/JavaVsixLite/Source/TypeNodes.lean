import JavaVsixLite.Types.ClassTable

/-!
# Declared types in source

The type nodes of a declaration and their lowering to structured types.  How a
base name maps to a binary name is left to the callee `resolveNamed`, which is
told whether the name was written with dots.
-/

namespace JavaVsixLite

/-- `scoped` keeps its segments in source order; `broken` is a recovery node. -/
inductive TypeNode where
  | primitive (p : PrimitiveType)
  | void
  | name (simple : String)
  | scoped (qualifier : List String) (simple : String)
  | generic (base : TypeNode) (args : List TypeNode)
  | array (element : TypeNode) (dims : Nat)
  | annotated (inner : TypeNode)
  | wildcard (isSuper : Bool) (bound : Option TypeNode)
  | broken

namespace TypeNode

def dotted (qualifier : List String) (simple : String) : String :=
  String.intercalate "." (qualifier ++ [simple])

def baseTypeName : TypeNode -> Option String
  | .name simple => some simple
  | .generic base _ => baseTypeName base
  | .scoped _ simple => some simple
  | .array element _ => baseTypeName element
  | .annotated inner => baseTypeName inner
  | _ => none

abbrev Resolver := String -> Bool -> Option String

abbrev VariableScope := List (String × TypeVariableId)

def variableNamed (vars : VariableScope) (simple : String) :
    Option TypeVariableId :=
  (vars.reverse.find? (fun entry => entry.1 == simple)).map (fun entry => entry.2)

def ofBinary : Option String -> TypeRef
  | some binary => TypeRef.ofName binary
  | none => .unknown

def withArgs (base : TypeRef) (args : List TypeRef) : TypeRef :=
  match base with
  | .named id _ => .named id args
  | _ => .unknown

mutual
def lower (vars : VariableScope) (resolveNamed : Resolver) :
    TypeNode -> TypeRef
  | .primitive p => .primitive p
  | .void => .void
  | .name simple =>
    match variableNamed vars simple with
    | some v => .typeVariable v
    | none => ofBinary (resolveNamed simple false)
  | .scoped qualifier simple =>
    ofBinary (resolveNamed (dotted qualifier simple) true)
  | .generic base args =>
    withArgs (lower vars resolveNamed base) (lowerArgs vars resolveNamed args)
  | .array element dims =>
    Nat.rec (lower vars resolveNamed element) (fun _ t => .array t) dims
  | .annotated inner => lower vars resolveNamed inner
  | .wildcard true bound => .wildcard none (lowerBound vars resolveNamed bound)
  | .wildcard false bound => .wildcard (lowerBound vars resolveNamed bound) none
  | .broken => .unknown

def lowerArgs (vars : VariableScope) (resolveNamed : Resolver) :
    List TypeNode -> List TypeRef
  | [] => []
  | node :: rest =>
    lower vars resolveNamed node :: lowerArgs vars resolveNamed rest

def lowerBound (vars : VariableScope) (resolveNamed : Resolver) :
    Option TypeNode -> Option TypeRef
  | none => none
  | some node => some (lower vars resolveNamed node)
end

/--
Parameters are numbered in order; a bound sees the parameters before it and its
own.
-/
def lowerTypeParameters (owner : String) (resolveNamed : Resolver) :
    Nat -> VariableScope -> List (String × List TypeNode) ->
      VariableScope × List TypeParameter
  | _, names, [] => (names, [])
  | index, names, (simple, bounds) :: rest =>
    let id : TypeVariableId := ⟨owner, index⟩
    let names' := names ++ [(simple, id)]
    let lowered := lowerTypeParameters owner resolveNamed (index + 1) names' rest
    (lowered.1,
      { id := id, bounds := bounds.map (lower names' resolveNamed) } :: lowered.2)

end TypeNode

end JavaVsixLite
