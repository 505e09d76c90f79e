import JavaVsixLite.Expressions.Typer

/-!
# The type of an expression

`resolveReceiver` types an expression from its form.  Calls and creations are
answered by the overload engine in the `unique` lookup, and by the first method
of the name and by the written type in the `first` lookup.
-/

namespace JavaVsixLite
namespace Expressions

open Scopes (Step)

namespace Typer

def stringType : ResolvedType := .external "java.lang.String" []

/-!
# Members
-/

/-- Fields and methods are separate namespaces. -/
inductive MemberNamespace where
  | method
  | field
deriving DecidableEq

def MemberNamespace.matches : MemberNamespace -> HierMember -> Bool
  | .method, .inProject m => m.kind == .method
  | .field, .inProject m => m.kind == .field || m.kind == .enumConstant
  | .method, .external m => m.kind == .method
  | .field, .external m => m.kind == .field

def members (T : Typer) (current : Resolved) : List HierMember :=
  collectMembers T.workspace current.staticOnly current.ty

def findMemberHierOfKind (T : Typer) (current : Resolved) (name : String)
    (space : MemberNamespace) : Option HierMember :=
  (T.members current).find? (fun m => m.name == name && space.matches m)

def nestedExternal (T : Typer) (current : Resolved) (name : String) :
    Option String :=
  match current.staticOnly, current.ty with
  | true, .external fqn _ =>
    if (T.workspace.classOf (fqn ++ "$" ++ name)).isSome then
      some (fqn ++ "$" ++ name)
    else none
  | _, _ => none

def nestedInProject (T : Typer) (current : Resolved) (name : String) :
    Option Nat :=
  (T.members current).findSome? (fun m =>
    match m with
    | .inProject m =>
      match m.kind with
      | .nestedType _ => if m.name = name then T.byNode m.node else none
      | _ => none
    | .external _ => none)

def resolveMemberSegment (T : Typer) (lookup : MethodLookup)
    (current : Resolved) (name : String) : Option Resolved :=
  match T.nestedExternal current name with
  | some fqn => some (.static (.external fqn []))
  | none =>
    match T.nestedInProject current name with
    | some node => some (.static (.inProject node []))
    | none =>
      match T.findMemberHierOfKind current name .field with
      | some m => (T.memberResultType lookup m current).map .instance
      | none => none

def walkSegments (T : Typer) (lookup : MethodLookup) :
    Resolved -> List String -> Option Resolved
  | current, [] => some current
  | current, segment :: rest =>
    match T.resolveMemberSegment lookup current segment with
    | some next => walkSegments T lookup next rest
    | none => none

def qualifiedHead (T : Typer) (names : List String) :
    Option (String × List String) :=
  ((List.range names.length).reverse.map (fun k =>
      (String.intercalate "." (names.take (k + 1)), names.drop (k + 1)))).find?
    (fun split => (T.workspace.classOf split.1).isSome)

/-!
# Expressions
-/

def enclosingTypedecl (position : List Step) : Option Nat :=
  (Scopes.enclosingTypes position).head?

def resolveAsType (T : Typer) (text : String) (position : List Step) :
    Option Resolved :=
  match T.typeNamed position text with
  | some node => some (.static (.inProject node []))
  | none => (T.simpleToFqn text).map (fun fqn => .static (.external fqn []))

section Step

variable (T : Typer)
  (recurse : MethodLookup -> Nat -> Expr -> Option Resolved)

def resolveName (lookup : MethodLookup) (depth : Nat) (text : String)
    (position : List Step) : Option Resolved :=
  if depth > maxResolveDepth then none
  else
    match Scopes.lookupBinding T.context position text with
    | none => T.resolveAsType text position
    | some binding =>
      let v := T.declared binding.binder.site
      let inferred :=
        match v.value with
        | none => none
        | some value =>
          match recurse lookup (depth + 1) value with
          | none => none
          | some r =>
            if v.forEach then (T.iterableElementType r.ty).map .instance
            else some (.instance r.ty)
      match v.writtenNode with
      | some node => (T.resolveTypeNode node).map .instance
      | none =>
        if binding.kind = .param then
          match T.lambdaParameter binding.binder.site with
          | some ty =>
            (T.receiverTypeRef (maxResolveDepth - depth) ty).map .instance
          | none => inferred
        else inferred

def resolveScopedPath (lookup : MethodLookup) (e : Expr) : Option Resolved :=
  let names := T.identifiers e
  let walked :=
    match names with
    | [] => none
    | first :: rest =>
      match resolveName T recurse .first 0 first (T.start e) with
      | some head => T.walkSegments lookup head rest
      | none => none
  match walked with
  | some r => some r
  | none =>
    match T.qualifiedHead names with
    | some (fqn, rest) =>
      T.walkSegments lookup (.static (.external fqn [])) rest
    | none => none

def isString (r : Option Resolved) : Bool :=
  match r with
  | some ⟨.external fqn _, _⟩ => fqn == "java.lang.String"
  | _ => false

def resolveTernary (c a : Resolved) : Option Resolved :=
  if T.assignable (T.typeRef c.ty) (T.typeRef a.ty) = some true then some a
  else if T.assignable (T.typeRef a.ty) (T.typeRef c.ty) = some true then some c
  else none

def resolveCall (lookup : MethodLookup) (depth : Nat) (site : Nat)
    (object : Option Expr) (method : String) (position : List Step) :
    Option Resolved :=
  match lookup with
  | .unique =>
    match T.methodCall site with
    | some result => (T.workspace.fromTypeRef result).map .instance
    | none => none
  | .first =>
    let receiver :=
      match object with
      | some e => recurse lookup (depth + 1) e
      | none => (enclosingTypedecl position).map (fun node =>
        .instance (.inProject node []))
    match receiver with
    | none => none
    | some current =>
      match T.findMemberHierOfKind current method .method with
      | some m => (T.memberResultType lookup m current).map .instance
      | none => none

def endsWithAny (text : String) (suffixes : List Char) : Bool :=
  match text.toList.reverse with
  | last :: _ => suffixes.contains last
  | [] => false

/-- One level of `resolve_receiver_depth`, in the order of its match arms. -/
def resolveStep (lookup : MethodLookup) (depth : Nat) : Expr -> Option Resolved
  | .this position => (enclosingTypedecl position).map (fun node =>
    .instance (.inProject node []))
  | .super position =>
    match enclosingTypedecl position with
    | none => none
    | some node =>
      match T.superNodes node with
      | [] => none
      | first :: _ => (T.resolveTypeNode first).map .instance
  | .name text position =>
    resolveName T recurse lookup (depth + 1) text position
  | .call site object method position =>
    resolveCall T recurse lookup depth site object method position
  | .cast type _ => (T.resolveTypeNode type).map .instance
  | .arrayAccess array =>
    match recurse lookup (depth + 1) array with
    | some ⟨.array element, _⟩ =>
      (T.workspace.fromTypeRef element).map .instance
    | _ => none
  | .boolean => some (.instance (.primitive .boolean))
  | .integer text =>
    if endsWithAny text ['l', 'L'] then some (.instance (.primitive .long))
    else some (.instance (.primitive .int))
  | .floating text =>
    if endsWithAny text ['f', 'F'] then some (.instance (.primitive .float))
    else some (.instance (.primitive .double))
  | .character => some (.instance (.primitive .char))
  | .string => some (.instance stringType)
  | .null => some (.instance .null)
  | .fieldAccess object field =>
    match recurse lookup (depth + 1) object with
    | some current => T.resolveMemberSegment lookup current field
    | none => resolveScopedPath T recurse lookup (.fieldAccess object field)
  | .creation site type =>
    match lookup with
    | .unique =>
      match T.constructorCall site with
      | some result => (T.workspace.fromTypeRef result).map .instance
      | none => none
    | .first => (T.resolveTypeNode type).map .instance
  | .parenthesized inner => recurse lookup (depth + 1) inner
  | .ternary consequence alternative =>
    match recurse lookup (depth + 1) consequence,
        recurse lookup (depth + 1) alternative with
    | some c, some a => resolveTernary T c a
    | _, _ => none
  | .assignment left => recurse lookup (depth + 1) left
  | .binary .plus left right =>
    if isString (recurse lookup (depth + 1) left) ||
        isString (recurse lookup (depth + 1) right) then
      some (.instance stringType)
    else none
  | .binary .comparison _ _ => some (.instance (.primitive .boolean))
  | .binary .other _ _ => none
  | .instanceOf => some (.instance (.primitive .boolean))
  | .unary bang => if bang then some (.instance (.primitive .boolean)) else none
  | .other => none

end Step

def maxNesting : Nat := 64

/-- `nesting` is the number of levels that may still be entered. -/
@[grind =] def resolveReceiver (T : Typer) :
    Nat -> MethodLookup -> Nat -> Expr -> Option Resolved
  | 0, _, _, _ => none
  | nesting + 1, lookup, depth, e =>
    if depth > maxResolveDepth then none
    else resolveStep T (resolveReceiver T nesting) lookup depth e

def resolveReceiverType (T : Typer) (e : Expr) : Option Resolved :=
  T.resolveReceiver maxNesting .first 0 e

/-- The type of a value; a type name has none. -/
def resolveExpressionType (T : Typer) (e : Expr) : Option ResolvedType :=
  match T.resolveReceiver maxNesting .unique 0 e with
  | some r => if r.staticOnly then none else some r.ty
  | none => none

end Typer

end Expressions
end JavaVsixLite
