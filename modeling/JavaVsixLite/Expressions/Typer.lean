import JavaVsixLite.Calls.Inference
import JavaVsixLite.Members.Walks
import JavaVsixLite.Scopes.Bindings

/-!
# What expression typing reads

Expressions, the declarations behind their names, and the results of members.
A member of an open document has the type at its node, seen through the type
arguments of the receiver; an external member has a structured result, a
display text with placeholders, or only an erased class.
-/

namespace JavaVsixLite
namespace Expressions

open Scopes (Step Binder)

inductive Operator where
  | plus
  | comparison
  | other

/--
An expression.  `this`, `super` and names carry their position; calls and
creations are known by their site, written types by their node.  A cast lists
all types of an intersection.
-/
inductive Expr where
  | this (position : List Step)
  | super (position : List Step)
  | name (text : String) (position : List Step)
  | boolean
  | integer (text : String)
  | floating (text : String)
  | character
  | string
  | null
  | parenthesized (inner : Expr)
  | cast (type : Nat) (further : List Nat)
  | arrayAccess (array : Expr)
  | fieldAccess (object : Expr) (field : String)
  | assignment (left : Expr)
  | ternary (consequence alternative : Expr)
  | binary (operator : Operator) (left right : Expr)
  | instanceOf
  | unary (bang : Bool)
  | call (site : Nat) (object : Option Expr) (method : String)
      (position : List Step)
  | creation (site : Nat) (type : Nat)
  | other

/--
A declared variable.  `dims` counts the brackets after its name; `varargs` is a
spread parameter, whose type node is the element type.
-/
structure Variable where
  typeNode : Option Nat
  isVar : Bool
  dims : Nat
  varargs : Bool
  value : Option Expr
  forEach : Bool

/-- The written type, unless it is `var`. -/
def Variable.writtenNode (v : Variable) : Option Nat :=
  if v.isVar then none else v.typeNode

inductive MethodLookup where
  | first
  | unique
deriving DecidableEq

/-- A type behind a type name has its static members only. -/
structure Resolved where
  ty : ResolvedType
  staticOnly : Bool

def Resolved.instance (ty : ResolvedType) : Resolved := ⟨ty, false⟩

def Resolved.static (ty : ResolvedType) : Resolved := ⟨ty, true⟩

structure MemberFacts where
  name : String
  kind : ExternalMemberKind
  result : Option TypeRef

structure ExternalResult where
  structured : Option TypeRef
  retDisplay : Option String
  retFqn : Option String

/--
What a request asks other parts of the analysis.  Declarations are known by
their node, which is the site of their body in the syntax tree.  The type node
of a member is resolved in the member's own document.
-/
structure Typer where
  workspace : Workspace
  table : ClassTable
  memberFacts : TypeId -> List MemberFacts
  context : Scopes.Context
  typeId : Nat -> TypeId
  typeId_named : forall binary node,
    workspace.getNamed binary = some node -> typeId node = .named binary
  typeId_local : forall document declaration node,
    workspace.byNode document declaration = some node ->
      typeId node = .localClass document declaration
  declared : Nat -> Variable
  resolveTypeNode : Nat -> Option ResolvedType
  superNodes : Nat -> List Nat
  typeNamed : List Step -> String -> Option Nat
  simpleToFqn : String -> Option String
  byNode : Nat -> Option Nat
  enclosingType : Nat -> Option Nat
  memberTypeNode : Nat -> Option Nat
  resolveInDocument : Nat -> Nat -> Option ResolvedType
  externalResult : ExternalMember -> ResolvedType -> ExternalResult
  typeParams : String -> List String
  renderIn : TypeRef -> String
  resolveDisplayType : String -> Option String -> Option ResolvedType
  methodCall : Nat -> Option TypeRef
  constructorCall : Nat -> Option TypeRef
  lambdaParameter : Nat -> Option TypeRef
  assignable : TypeRef -> TypeRef -> Option Bool
  identifiers : Expr -> List String
  start : Expr -> List Step

namespace Typer

def typeRef (T : Typer) : ResolvedType -> TypeRef
  | .inProject node args => .named (T.typeId node) args
  | .external fqn args => .named (.named fqn) args
  | .primitive p => .primitive p
  | .void => .void
  | .null => .null
  | .array element => .array element

/-!
# Structured results
-/

/--
A variable or wildcard stands for its bound.  The budget is
`maxResolveDepth + 1` less the depth.
-/
def receiverTypeRef (T : Typer) : Nat -> TypeRef -> Option ResolvedType
  | 0, _ => none
  | budget + 1, .typeVariable v =>
    match T.table.variableBounds v with
    | none => none
    | some bounds => receiverTypeRef T budget
        ((bounds.find? (fun b => !b.containsUnknown)).getD TypeRef.objectRef)
  | budget + 1, .wildcard (some upper) _ => receiverTypeRef T budget upper
  | budget + 1, .wildcard none _ => receiverTypeRef T budget TypeRef.objectRef
  | _ + 1, .unknown => none
  | _ + 1, t => T.workspace.fromTypeRef t

/--
The argument of `Iterable` or `Collection` among the supertypes.  The types
seen are passed on from one supertype to the next.
-/
def iterableArgument (table : ClassTable) :
    Nat -> List TypeRef -> TypeRef -> Option TypeRef × List TypeRef
  | 0, seen, _ => (none, seen)
  | budget + 1, seen, .named id args =>
    if .named id args ∈ seen then (none, seen)
    else if id.asNamed = some "java.lang.Iterable" ∨
        id.asNamed = some "java.util.Collection" then
      (args.head?, .named id args :: seen)
    else
      match table.classFacts id with
      | none => (none, .named id args :: seen)
      | some facts =>
        if !facts.hierarchyComplete || facts.isRaw args then
          (none, .named id args :: seen)
        else
          (facts.supertypes.map
            (TypeRef.substitute (facts.environment args))).foldl
            (fun state sup =>
              match state.1 with
              | some found => (some found, state.2)
              | none => iterableArgument table budget state.2 sup)
            (none, .named id args :: seen)
  | _ + 1, seen, _ => (none, seen)

def isNamedOrArray : TypeRef -> Bool
  | .named _ _ => true
  | .array _ => true
  | _ => false

/-- What an enhanced `for` binds, never the type that is iterated itself. -/
def iterableElementType (T : Typer) : ResolvedType -> Option ResolvedType
  | .array element => T.workspace.fromTypeRef element
  | .external _ [] => none
  | .external _ (.wildcard _ _ :: _) => none
  | .external _ (.unknown :: _) => none
  | .external _ (first :: _) =>
    (T.workspace.fromTypeRef first).or
      (T.resolveDisplayType first.render none)
  | .inProject node args =>
    match (iterableArgument T.table (maxSubtypeDepth + 1) []
        (T.typeRef (.inProject node args))).1 with
    | none => none
    | some element =>
      if isNamedOrArray element && !element.containsUnknown then
        T.workspace.fromTypeRef element
      else none
  | _ => none

/-!
# Display templates
-/

def parseIndex (text : List Char) : Option Nat :=
  let digits := if text.head? = some '+' then text.tail else text
  if digits.isEmpty || !digits.all Char.isDigit then none
  else some (digits.foldl (fun n c => 10 * n + (c.toNat - '0'.toNat)) 0)

/-- Scans for placeholders; `inside` holds what stands after an open brace. -/
def scanTemplate (argCount : Nat) : Option (List Char) -> List Char -> Bool
  | none, [] => false
  | some _, [] => true
  | none, c :: rest =>
    if c = '\x7b' then scanTemplate argCount (some []) rest
    else scanTemplate argCount none rest
  | some inside, c :: rest =>
    if c = '\x7d' then
      match parseIndex inside.reverse with
      | some index => argCount ≤ index || scanTemplate argCount none rest
      | none => true
    else scanTemplate argCount (some (c :: inside)) rest

def templateHasMissingArg (template : String) (argCount : Nat) : Bool :=
  scanTemplate argCount none template.toList

def substituteTemplate (template : String) (args typeParams : List String) :
    String :=
  (List.range (max typeParams.length args.length)).foldl
    (fun out i =>
      out.replace ("\x7b" ++ toString i ++ "\x7d")
        ((args[i]?.or typeParams[i]?).getD "?"))
    template

def displayLooksUnresolved (display : String) : Bool :=
  display.toList.any (fun c => c ∈ ['?', '\x7b', '\x7d']) ||
    (display.toList.splitOnP (fun c =>
      !c.isAlphanum && c != '_' && c != '$')).any (fun part =>
        match part with
        | [c] => c.isUpper
        | _ => false)

/-!
# Results of members
-/

/-- The erased class is a last resort of the `first` lookup. -/
def externalResultType (T : Typer) (lookup : MethodLookup) (m : ExternalMember)
    (recv : Resolved) : Option ResolvedType :=
  let result := T.externalResult m recv.ty
  let erased := result.retFqn.map (fun fqn => ResolvedType.external fqn [])
  match result.structured.bind (T.receiverTypeRef (maxResolveDepth + 1)) with
  | some ty => some ty
  | none =>
    match result.retDisplay with
    | none => erased
    | some display =>
      let (args, params) :=
        match recv.ty with
        | .external fqn args => (args.map T.renderIn, T.typeParams fqn)
        | _ => ([], [])
      let substituted := substituteTemplate display args params
      if lookup = .unique ∧ (templateHasMissingArg display args.length ∨
          displayLooksUnresolved substituted) then none
      else
        match T.resolveDisplayType substituted result.retFqn with
        | some ty => some ty
        | none => if lookup = .unique then none else erased

def typeEnvironment (parameters : List TypeParameter) (args : List TypeRef) :
    Option TypeEnv :=
  if parameters.length = args.length then
    some ((parameters.map (fun p => p.id)).zip args)
  else if !args.isEmpty then none
  else
    some (parameters.map (fun p =>
      (p.id, (p.bounds.head?.map TypeRef.erase).getD TypeRef.objectRef)))

/-- The first member of the name, as seen through the receiver's arguments. -/
def memberTypeThrough (T : Typer) (recv : TypeRef) (declaring : TypeId)
    (name : String) (kind : ExternalMemberKind) : Option TypeRef :=
  match T.table.classFacts declaring,
      ((T.memberFacts declaring).find? (fun m =>
        m.name == name && m.kind == kind)).bind MemberFacts.result with
  | some facts, some declared =>
    if !declared.hasTypeVariable then none
    else
      match typeAsSupertype T.table recv declaring with
      | some (.named _ args) =>
        match typeEnvironment facts.typeParameters args with
        | none => none
        | some env =>
          if (declared.substitute env).hasTypeVariable then none
          else some (declared.substitute env)
      | _ => none
  | _, _ => none

def declaredResultType (T : Typer) (m : Member) (kind : ExternalMemberKind)
    (recv : Resolved) : Option ResolvedType :=
  match T.memberTypeNode m.node with
  | none => none
  | some typeNode =>
    match (T.enclosingType m.node).bind (fun declaring =>
        T.memberTypeThrough (T.typeRef recv.ty) (T.typeId declaring) m.name
          kind) with
    | some ty => T.receiverTypeRef (maxResolveDepth + 1) ty
    | none => T.resolveInDocument m.node typeNode

/-- An enum constant has the type of its enum; a nested type is no value. -/
def memberResultType (T : Typer) (lookup : MethodLookup) (m : HierMember)
    (recv : Resolved) : Option ResolvedType :=
  match m with
  | .external m => T.externalResultType lookup m recv
  | .inProject m =>
    match m.kind with
    | .method => T.declaredResultType m .method recv
    | .field => T.declaredResultType m .field recv
    | .enumConstant =>
      (T.enclosingType m.node).map (fun node => .inProject node [])
    | .nestedType _ => none

end Typer

end Expressions
end JavaVsixLite
