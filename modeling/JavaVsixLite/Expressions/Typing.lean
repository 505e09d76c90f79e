import JavaVsixLite.Expressions.Resolve
import JavaVsixLite.Scopes.Scoping
import JavaVsixLite.Subtyping.Engine

/-!
# Static types in the language

What an expression denotes: the body of the innermost class decides `this` and
`super`, the scope rules decide names, and the conditional operator promotes
its operands.  Calls, creations and written types have the types the language
gives them.
-/

namespace JavaVsixLite
namespace Expressions

open Scopes (Step Binder)

/-- A static type; anonymous classes and intersections have no structured one. -/
inductive JavaType where
  | ref (t : TypeRef)
  | anonymous (site : Nat)
  | intersection (types : List TypeRef)

/-- An expression stands for a value, a name in front of a dot also for a type. -/
inductive Denotation where
  | value (t : JavaType)
  | type (t : TypeRef)

/-!
# The innermost class body
-/

inductive ClassBody where
  | declaration (site : Nat)
  | anonymous (site : Nat)

def bodyOf (step : Step) : Option ClassBody :=
  match step.parent, step.role with
  | .typeDeclaration site _ _, _ => some (.declaration site)
  | .creation site _ _, .classBody => some (.anonymous site)
  | .enumConstant site _ _, .classBody => some (.anonymous site)
  | _, _ => none

def classBody (position : List Step) : Option ClassBody :=
  position.findSome? bodyOf

/-!
# The conditional operator
-/

def unboxed : TypeRef -> Option PrimitiveType
  | .primitive p => some p
  | .named (.named binary) _ => PrimitiveType.fromBoxFqn binary
  | _ => none

def boxed : TypeRef -> TypeRef
  | .primitive p => TypeRef.ofName p.boxFqn
  | t => t

/-- Binary numeric promotion, with the exception for `byte` and `short`. -/
def promote (p q : PrimitiveType) : PrimitiveType :=
  if p = q then p
  else if p ∈ [PrimitiveType.byte, .short] ∧ q ∈ [PrimitiveType.byte, .short] then
    .short
  else if p = .double ∨ q = .double then .double
  else if p = .float ∨ q = .float then .float
  else if p = .long ∨ q = .long then .long
  else .int

/-- Types a constant of type `int` may be narrowed to. -/
def isNarrow (p : PrimitiveType) : Bool :=
  p ∈ [PrimitiveType.byte, .short, .char]

/--
`t` is the type of a conditional expression with operands of the types `c` and `a`.  The
first two arguments tell whether an operand is an `int` constant that fits a type.
-/
def Conditional (fitsC fitsA : PrimitiveType -> Bool)
    (lub : TypeRef -> TypeRef -> TypeRef -> Prop) (c a t : TypeRef) : Prop :=
  if c = a then t = c
  else
    match unboxed c, unboxed a with
    | some p, some q =>
      if p = q then t = .primitive p
      else if p = .boolean ∨ q = .boolean then lub (boxed c) (boxed a) t
      else if isNarrow q && fitsC q then t = .primitive q
      else if isNarrow p && fitsA p then t = .primitive p
      else t = .primitive (promote p q)
    | _, _ => lub (boxed c) (boxed a) t

/-!
# Denotations
-/

/--
What the language knows beyond the tree.  `lub x y z` says that `z` writes the least upper
bound of two reference types.  Of two types in the subtype relation it is the larger one;
each of them writes it where they are subtypes of each other, as `G<?>` and
`G<? extends Object>` are.  No box is a subtype of another.
-/
structure Java where
  language : Scopes.Language
  ownParameter : Nat -> Nat -> TypeVariableId
  typeNode : Nat -> TypeRef
  implicitSuper : Nat -> TypeRef
  anonymousSuper : Nat -> TypeRef
  lambdaType : Nat -> Option TypeRef
  element : TypeRef -> Option TypeRef
  field : TypeRef -> String -> Option TypeRef
  anonymousField : Nat -> String -> Option TypeRef
  staticField : TypeRef -> String -> Option TypeRef
  memberType : TypeRef -> String -> Option TypeRef
  typeName : List Step -> String -> Option TypeRef
  packageType : Expr -> Option TypeRef
  callType : Nat -> JavaType
  creationType : Nat -> JavaType
  constantFits : Expr -> PrimitiveType -> Bool
  subtype : TypeRef -> TypeRef -> Prop
  lub : TypeRef -> TypeRef -> TypeRef -> Prop
  lub_right : forall x y, subtype x y -> lub x y y
  lub_left : forall x y, subtype y x -> lub x y x
  boxes_unrelated : forall x y p q, unboxed x = some p ->
    unboxed y = some q -> subtype (boxed x) (boxed y) -> p = q

namespace Java

variable (J : Java) (T : Typer)

/-- A class applied to its own type parameters. -/
def ownType (node : Nat) : TypeRef :=
  .named (T.typeId node) ((List.range (T.workspace.decl node).typeParameters.length).map
    (fun i => .typeVariable (J.ownParameter node i)))

def thisType : ClassBody -> JavaType
  | .declaration node => .ref (J.ownType T node)
  | .anonymous site => .anonymous site

/-- The `extends` clause stands first; without one the superclass is implicit. -/
def superclass (node : Nat) : TypeRef :=
  if (T.workspace.decl node).hasSuperclass then
    match T.superNodes node with
    | first :: _ => J.typeNode first
    | [] => J.implicitSuper node
  else J.implicitSuper node

def superType : ClassBody -> TypeRef
  | .declaration node => J.superclass T node
  | .anonymous site => J.anonymousSuper site

/-- The variable a name means: the innermost in scope, then static imports. -/
def variableNamed (position : List Step) (text : String) : Option Binder :=
  ((Scopes.scopes J.language position).map (fun entry => entry.2) ++
    J.language.staticFields).find? (fun b => b.name == text)

def withDims : Nat -> TypeRef -> TypeRef
  | 0, t => t
  | dims + 1, t => .array (withDims dims t)

def writtenType (v : Variable) (node : Nat) : TypeRef :=
  withDims (v.dims + if v.varargs then 1 else 0) (J.typeNode node)

def fieldOf : JavaType -> String -> Option TypeRef
  | .ref t, name => J.field t name
  | .anonymous site, name => J.anonymousField site name
  | .intersection _, _ => none

def refString : TypeRef := TypeRef.ofName "java.lang.String"

inductive Denotes : Expr -> Denotation -> Prop where
  | this {position body} : classBody position = some body ->
      Denotes (.this position) (.value (J.thisType T body))
  | super {position body} : classBody position = some body ->
      Denotes (.super position) (.value (.ref (J.superType T body)))
  | written {text position b node} :
      J.variableNamed position text = some b ->
      (T.declared b.site).writtenNode = some node ->
      Denotes (.name text position)
        (.value (.ref (J.writtenType (T.declared b.site) node)))
  | lambda {text position b t} :
      J.variableNamed position text = some b ->
      (T.declared b.site).writtenNode = none ->
      J.lambdaType b.site = some t ->
      Denotes (.name text position) (.value (.ref t))
  | inferred {text position b value t} :
      J.variableNamed position text = some b ->
      (T.declared b.site).writtenNode = none ->
      (T.declared b.site).value = some value ->
      (T.declared b.site).forEach = false ->
      Denotes value (.value t) -> Denotes (.name text position) (.value t)
  | element {text position b value t u} :
      J.variableNamed position text = some b ->
      (T.declared b.site).writtenNode = none ->
      (T.declared b.site).value = some value ->
      (T.declared b.site).forEach = true ->
      Denotes value (.value (.ref t)) -> J.element t = some u ->
      Denotes (.name text position) (.value (.ref u))
  | typeName {text position t} :
      J.variableNamed position text = none ->
      J.typeName position text = some t ->
      Denotes (.name text position) (.type t)
  | boolean : Denotes .boolean (.value (.ref (.primitive .boolean)))
  | integer {text} : Denotes (.integer text) (.value (.ref (.primitive
      (if Typer.endsWithAny text ['l', 'L'] then .long else .int))))
  | floating {text} : Denotes (.floating text) (.value (.ref (.primitive
      (if Typer.endsWithAny text ['f', 'F'] then .float else .double))))
  | character : Denotes .character (.value (.ref (.primitive .char)))
  | string : Denotes .string (.value (.ref refString))
  | null : Denotes .null (.value (.ref .null))
  | parenthesized {inner t} : Denotes inner (.value t) ->
      Denotes (.parenthesized inner) (.value t)
  | cast {type} : Denotes (.cast type []) (.value (.ref (J.typeNode type)))
  | intersection {type next further} :
      Denotes (.cast type (next :: further))
        (.value (.intersection ((type :: next :: further).map J.typeNode)))
  | arrayAccess {array t} : Denotes array (.value (.ref (.array t))) ->
      Denotes (.arrayAccess array) (.value (.ref t))
  | field {object field t u} : Denotes object (.value t) ->
      J.fieldOf t field = some u ->
      Denotes (.fieldAccess object field) (.value (.ref u))
  | staticField {object field t u} : Denotes object (.type t) ->
      J.staticField t field = some u ->
      Denotes (.fieldAccess object field) (.value (.ref u))
  | memberType {object field t u} : Denotes object (.type t) ->
      J.staticField t field = none -> J.memberType t field = some u ->
      Denotes (.fieldAccess object field) (.type u)
  | packageType {object field t} :
      J.packageType (.fieldAccess object field) = some t ->
      Denotes (.fieldAccess object field) (.type t)
  | assignment {left t} : Denotes left (.value t) ->
      Denotes (.assignment left) (.value t)
  | ternary {consequence alternative c a t} :
      Denotes consequence (.value (.ref c)) ->
      Denotes alternative (.value (.ref a)) ->
      Conditional (J.constantFits consequence) (J.constantFits alternative) J.lub c a t ->
      Denotes (.ternary consequence alternative) (.value (.ref t))
  | concatLeft {left right args} :
      Denotes left (.value (.ref (.named (.named "java.lang.String") args))) ->
      Denotes (.binary .plus left right) (.value (.ref refString))
  | concatRight {left right args} :
      Denotes right (.value (.ref (.named (.named "java.lang.String") args))) ->
      Denotes (.binary .plus left right) (.value (.ref refString))
  | comparison {left right} : Denotes (.binary .comparison left right)
      (.value (.ref (.primitive .boolean)))
  | instanceOf : Denotes .instanceOf (.value (.ref (.primitive .boolean)))
  | not : Denotes (.unary true) (.value (.ref (.primitive .boolean)))
  | call {site object method position} :
      Denotes (.call site object method position) (.value (J.callType site))
  | creation {site type} :
      Denotes (.creation site type) (.value (J.creationType site))

end Java

end Expressions
end JavaVsixLite
