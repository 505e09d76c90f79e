import JavaVsixLite.Expressions.Conditional

/-!
# Expressions that are typed as in the language

`Clear` says, form by form and along the recursion of the resolver, what has to
hold of an expression for its answer to be the static type.
-/

namespace JavaVsixLite
namespace Expressions

open Scopes (Step Binding)
open Typer (enclosingTypedecl)

namespace Typer

def denotation (T : Typer) (r : Resolved) : Denotation :=
  if r.staticOnly then .type (T.typeRef r.ty) else .value (.ref (T.typeRef r.ty))

end Typer

/-!
# When an answer is right
-/

section Clear

variable (T : Typer) (J : Java)

def Right (e : Expr) (r : Resolved) : Prop := J.Denotes T e (T.denotation r)

def CalleeRight (recurse : MethodLookup -> Nat -> Expr -> Option Resolved)
    (clear : MethodLookup -> Nat -> Expr -> Prop) : Prop :=
  forall lookup depth e r, clear lookup depth e ->
    recurse lookup depth e = some r -> Right T J e r

def IsValue (e : Expr) : Prop := forall t, ¬ J.Denotes T e (.type t)

/-- Calls and creations the overload engine answers have the types given. -/
structure CallsGiven : Prop where
  methods : forall site t, T.methodCall site = some t -> J.callType site = .ref t
  creations : forall site t, T.constructorCall site = some t ->
    J.creationType site = .ref t

def fieldAt (cur : Resolved) (name : String) : Option TypeRef :=
  if cur.staticOnly then J.staticField (T.typeRef cur.ty) name
  else J.field (T.typeRef cur.ty) name

structure MemberTypeAt (cur : Resolved) (name : String) (t : TypeRef) : Prop where
  static : cur.staticOnly = true
  noField : J.staticField (T.typeRef cur.ty) name = none
  member : J.memberType (T.typeRef cur.ty) name = some t

/--
A dotted step: a nested type that is found first is the member type, and the
result of the first field found is the type of the field.
-/
structure SegmentClear (lookup : MethodLookup) (object : Expr)
    (name : String) : Prop where
  external : forall cur fqn, Right T J object cur ->
    T.nestedExternal cur name = some fqn ->
      MemberTypeAt T J cur name (TypeRef.ofName fqn)
  inProject : forall cur node, Right T J object cur ->
    T.nestedInProject cur name = some node ->
      MemberTypeAt T J cur name (.named (T.typeId node) [])
  field : forall cur m ty, Right T J object cur ->
    T.findMemberHierOfKind cur name .field = some m ->
    T.memberResultType lookup m cur = some ty ->
      fieldAt T J cur name = some (T.typeRef ty)

def spelled : Expr -> List String -> Expr
  | object, [] => object
  | object, name :: rest => spelled (.fieldAccess object name) rest

def SegmentsClear (lookup : MethodLookup) : Expr -> List String -> Prop
  | _, [] => True
  | object, name :: rest => SegmentClear T J lookup object name ∧
      SegmentsClear lookup (.fieldAccess object name) rest

section Step

variable (clear answered : MethodLookup -> Nat -> Expr -> Prop)

/-- A variable: its type is written without further dimensions, or inferred. -/
structure VariableClear (lookup : MethodLookup) (depth : Nat)
    (b : Binding) : Prop where
  written : forall node r, (T.declared b.binder.site).writtenNode = some node ->
    T.resolveTypeNode node = some r ->
      (T.declared b.binder.site).dims = 0 ∧
        (T.declared b.binder.site).varargs = false ∧
        T.typeRef r = J.typeNode node
  lambda : forall t r, (T.declared b.binder.site).writtenNode = none ->
    b.kind = .param -> T.lambdaParameter b.binder.site = some t ->
    T.receiverTypeRef (maxResolveDepth - depth) t = some r ->
      J.lambdaType b.binder.site = some (T.typeRef r)
  inferred : forall value, (T.declared b.binder.site).writtenNode = none ->
    (T.declared b.binder.site).value = some value ->
      clear lookup (depth + 1) value ∧ IsValue T J value
  element : forall value cur ty, (T.declared b.binder.site).writtenNode = none ->
    (T.declared b.binder.site).value = some value ->
    (T.declared b.binder.site).forEach = true -> Right T J value cur ->
    T.iterableElementType cur.ty = some ty ->
      J.element (T.typeRef cur.ty) = some (T.typeRef ty)

/-- The walk finds the variable the language means, or the type if there is none. -/
structure NameClear (lookup : MethodLookup) (depth : Nat) (text : String)
    (position : List Step) : Prop where
  bound : forall b, Scopes.lookupBinding T.context position text = some b ->
    J.variableNamed position text = some b.binder ∧
      VariableClear T J clear lookup depth b
  unbound : forall r, Scopes.lookupBinding T.context position text = none ->
    T.resolveAsType text position = some r ->
      J.variableNamed position text = none ∧
        J.typeName position text = some (T.typeRef r.ty)

/--
The identifiers of the expression spell it and are clear, or they spell nothing
at all.
-/
structure PathClear (lookup : MethodLookup) (e : Expr) : Prop where
  named : forall first rest, T.identifiers e = first :: rest ->
    NameClear T J clear .first 0 first (T.start e) ∧
      (e = spelled (.name first (T.start e)) rest ∧
          SegmentsClear T J lookup (.name first (T.start e)) rest ∨
        forall cur, Right T J (.name first (T.start e)) cur ->
          T.walkSegments lookup cur rest = none)
  qualified : forall fqn rest,
    T.qualifiedHead (T.identifiers e) = some (fqn, rest) ->
      (exists head, e = spelled head rest ∧
          J.Denotes T head (.type (TypeRef.ofName fqn)) ∧
          SegmentsClear T J lookup head rest) ∨
        T.walkSegments lookup (.static (.external fqn [])) rest = none

/-- The first method of the name has the result of the method that is called. -/
def FirstMethodRight (site : Nat) (method : String) (cur : Resolved) : Prop :=
  forall m ty, T.findMemberHierOfKind cur method .method = some m ->
    T.memberResultType .first m cur = some ty ->
      J.callType site = .ref (T.typeRef ty)

def ClearStep (lookup : MethodLookup) (depth : Nat) : Expr -> Prop
  | .this position => forall node, enclosingTypedecl position = some node ->
      classBody position = some (.declaration node) ∧
        (T.workspace.decl node).typeParameters = []
  | .super position => forall node first rest,
      enclosingTypedecl position = some node ->
      T.superNodes node = first :: rest ->
        classBody position = some (.declaration node) ∧
          (T.workspace.decl node).hasSuperclass = true ∧
          forall r, T.resolveTypeNode first = some r ->
            T.typeRef r = J.typeNode first
  | .name text position => NameClear T J clear lookup (depth + 1) text position
  | .call site object method position => lookup = .first ->
      match object with
      | some e => clear lookup (depth + 1) e ∧
          forall cur, Right T J e cur -> FirstMethodRight T J site method cur
      | none => forall node, enclosingTypedecl position = some node ->
          FirstMethodRight T J site method (.instance (.inProject node []))
  | .cast type further => forall r, T.resolveTypeNode type = some r ->
      further = [] ∧ T.typeRef r = J.typeNode type
  | .arrayAccess array => clear lookup (depth + 1) array ∧ IsValue T J array
  | .fieldAccess object field => clear lookup (depth + 1) object ∧
      SegmentClear T J lookup object field ∧
      (answered lookup (depth + 1) object ∨
        PathClear T J clear lookup (.fieldAccess object field))
  | .creation site type => lookup = .first ->
      forall r, T.resolveTypeNode type = some r ->
        J.creationType site = .ref (T.typeRef r)
  | .parenthesized inner => clear lookup (depth + 1) inner ∧ IsValue T J inner
  | .assignment left => clear lookup (depth + 1) left ∧ IsValue T J left
  | .ternary consequence alternative =>
    (clear lookup (depth + 1) consequence ∧ IsValue T J consequence) ∧
      (clear lookup (depth + 1) alternative ∧ IsValue T J alternative) ∧
      forall c a, J.Denotes T consequence (.value (.ref c)) ->
        J.Denotes T alternative (.value (.ref a)) ->
          ConditionalClear (J.constantFits consequence)
            (J.constantFits alternative) c a
  | .binary .plus left right =>
    (clear lookup (depth + 1) left ∧ IsValue T J left) ∧
      (clear lookup (depth + 1) right ∧ IsValue T J right)
  | _ => True

end Step

def Answered : Nat -> MethodLookup -> Nat -> Expr -> Prop
  | 0, _, _, _ => False
  | nesting + 1, lookup, depth, e => depth ≤ maxResolveDepth ∧
      match e with
      | .this position => (enclosingTypedecl position).isSome = true
      | .super position => exists node first rest,
          enclosingTypedecl position = some node ∧
            T.superNodes node = first :: rest ∧
            (T.resolveTypeNode first).isSome = true
      | .name text position => depth + 1 ≤ maxResolveDepth ∧ exists b node,
          Scopes.lookupBinding T.context position text = some b ∧
            (T.declared b.binder.site).writtenNode = some node ∧
            (T.resolveTypeNode node).isSome = true
      | .cast type _ => (T.resolveTypeNode type).isSome = true
      | .call site _ _ _ => lookup = .unique ∧ exists t,
          T.methodCall site = some t ∧ (T.workspace.fromTypeRef t).isSome = true
      | .creation site _ => lookup = .unique ∧ exists t,
          T.constructorCall site = some t ∧
            (T.workspace.fromTypeRef t).isSome = true
      | .parenthesized inner => Answered nesting lookup (depth + 1) inner
      | _ => False

/-- The condition along the levels the resolver enters. -/
def Clear : Nat -> MethodLookup -> Nat -> Expr -> Prop
  | 0, _, _, _ => True
  | nesting + 1, lookup, depth, e => depth ≤ maxResolveDepth ->
      ClearStep T J (Clear nesting) (Answered T nesting) lookup depth e

end Clear

end Expressions
end JavaVsixLite
