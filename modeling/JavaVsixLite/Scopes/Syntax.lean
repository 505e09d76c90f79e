import Mathlib.Data.List.Basic

/-!
# The part of a syntax tree that scoping reads

Every constructor stands for the node kinds of the grammar that a name lookup
or the scope rules tell apart; all other kinds are `plain`.  A declared variable
is data of its node: no declaration position can hold a value.
-/

namespace JavaVsixLite
namespace Scopes

inductive PlainKind where
  | argumentList
  | binary
  | unary
  | update
  | arrayInitializer
  | arrayAccess
  | assignment
  | cast
  | returnStatement
  | throwStatement
  | yieldStatement
  | other
deriving DecidableEq

inductive LogicalOp where
  | and
  | or

inductive BlockKind where
  | block
  | constructorBody
  | switchBlock

inductive CallableKind where
  | method
  | constructor
  | compactConstructor
  | lambda
deriving DecidableEq

/-- A declared variable: its name and the site of its declaration. -/
structure Binder where
  name : String
  site : Nat
deriving DecidableEq

/--
Type declarations and class bodies carry a `site` that identifies them.  The
header of a declaration holds the expressions of its annotations.
-/
inductive Node where
  | identifier (name : String)
  | plain (kind : PlainKind) (children : List Node)
  | logical (op : LogicalOp) (left right : Node)
  | logicalNot (operand : Node)
  | parenthesized (expression : Node)
  | ternary (condition consequence alternative : Node)
  | instanceOf (left : Node) (binder : Option Binder) (pattern : Option Node)
  | typePattern (binder : Binder)
  | recordPattern (components : List Node)
  | recordPatternComponent (binder : Option Binder)
  | creation (site : Nat) (arguments : Node) (classBody : Option Node)
  | block (kind : BlockKind) (statements : List Node)
  | labeled (statement : Node)
  | localDeclaration (declarators : List Node)
  | declarator (binder : Binder) (value : Option Node)
  | ifStatement (condition consequence : Node) (alternative : Option Node)
  | whileStatement (condition body : Node)
  | doStatement (body condition : Node)
  | forStatement (init : List Node) (condition : Option Node)
      (update : List Node) (body : Node)
  | enhancedFor (binder : Binder) (value body : Node)
  | switchGroup (labels statements : List Node)
  | switchRule (label body : Node)
  | switchLabel (patterns : List Node) (guard : Option Node)
  | tryWithResources (resources : List Node) (body : Node)
      (handlers : List Node)
  | resource (binder : Option Binder) (value : Option Node)
  | catchClause (binder : Binder) (body : Node)
  | callable (kind : CallableKind) (header : List Node)
      (parameters : List Binder) (body : Option Node)
  | typeDeclaration (site : Nat) (header members : List Node)
  | enumConstant (site : Nat) (arguments : Option Node)
      (classBody : Option Node)

inductive Role where
  | left
  | right
  | operand
  | condition
  | consequence
  | alternative
  | pattern
  | arguments
  | classBody
  | value
  | guard
  | body
  | label (index : Nat)
  | header (index : Nat)
  | item (index : Nat)
  | init (index : Nat)
  | update (index : Nat)
  | handler (index : Nat)
deriving DecidableEq

def numbered (role : Nat -> Role) (nodes : List Node) : List (Role × Node) :=
  nodes.zipIdx.map (fun entry => (role entry.2, entry.1))

def optional (role : Role) (node : Option Node) : List (Role × Node) :=
  node.toList.map (fun child => (role, child))

namespace Node

def roles : Node -> List (Role × Node)
  | identifier _ => []
  | plain _ children => numbered .item children
  | logical _ left right => [(.left, left), (.right, right)]
  | logicalNot operand => [(.operand, operand)]
  | parenthesized expression => [(.value, expression)]
  | ternary condition consequence alternative =>
    [(.condition, condition), (.consequence, consequence),
      (.alternative, alternative)]
  | instanceOf left _ pattern => (.left, left) :: optional .pattern pattern
  | typePattern _ => []
  | recordPattern components => numbered .item components
  | recordPatternComponent _ => []
  | creation _ arguments classBody =>
    (.arguments, arguments) :: optional .classBody classBody
  | block _ statements => numbered .item statements
  | labeled statement => [(.body, statement)]
  | localDeclaration declarators => numbered .item declarators
  | declarator _ value => optional .value value
  | ifStatement condition consequence alternative =>
    (.condition, condition) :: (.consequence, consequence) ::
      optional .alternative alternative
  | whileStatement condition body => [(.condition, condition), (.body, body)]
  | doStatement body condition => [(.body, body), (.condition, condition)]
  | forStatement init condition update body =>
    numbered .init init ++ optional .condition condition ++
      numbered .update update ++ [(.body, body)]
  | enhancedFor _ value body => [(.value, value), (.body, body)]
  | switchGroup labels statements =>
    numbered .label labels ++ numbered .item statements
  | switchRule label body => [(.label 0, label), (.body, body)]
  | switchLabel patterns guard =>
    numbered .item patterns ++ optional .guard guard
  | tryWithResources resources body handlers =>
    numbered .item resources ++ [(.body, body)] ++ numbered .handler handlers
  | resource _ value => optional .value value
  | catchClause _ body => [(.body, body)]
  | callable _ header _ body => numbered .header header ++ optional .body body
  | typeDeclaration _ header members =>
    numbered .header header ++ numbered .item members
  | enumConstant _ arguments classBody =>
    optional .arguments arguments ++ optional .classBody classBody

def children (n : Node) : List Node :=
  n.roles.map (fun entry => entry.2)

end Node

@[simp] theorem map_numbered (role : Nat -> Role) (nodes : List Node) :
    (numbered role nodes).map (fun entry => entry.2) = nodes := by
  simp [numbered, Function.comp_def]

@[simp] theorem map_optional (role : Role) (node : Option Node) :
    (optional role node).map (fun entry => entry.2) = node.toList := by
  simp [optional, Function.comp_def]

@[simp] theorem mem_numbered {role : Nat -> Role} {nodes : List Node}
    {found : Role} {n : Node} :
    (found, n) ∈ numbered role nodes <->
      exists i, found = role i ∧ nodes[i]? = some n := by
  simp only [numbered, List.mem_map, Prod.mk.injEq, Prod.exists,
    List.mem_zipIdx_iff_getElem?]
  constructor
  · rintro ⟨child, i, hget, rfl, rfl⟩
    exact ⟨i, rfl, hget⟩
  · rintro ⟨i, rfl, hget⟩
    exact ⟨n, i, hget, rfl, rfl⟩

@[simp] theorem mem_optional {role found : Role} {node : Option Node}
    {n : Node} :
    (found, n) ∈ optional role node <-> found = role ∧ node = some n := by
  simp [optional, and_comm, eq_comm]

/-!
# Subtrees
-/

/-- `m` is `n` itself or one of its descendants. -/
inductive Subtree : Node -> Node -> Prop where
  | refl (n : Node) : Subtree n n
  | child {n c m : Node} : c ∈ n.children -> Subtree c m -> Subtree n m

theorem sizeOf_child_lt {n c : Node} (h : c ∈ n.children) :
    sizeOf c < sizeOf n := by
  have inList : forall (nodes : List Node), c ∈ nodes ->
      sizeOf c < sizeOf nodes :=
    fun _ hc => List.sizeOf_lt_of_mem hc
  have inOption : forall (node : Option Node), node = some c ->
      sizeOf c < sizeOf node := by
    rintro node rfl
    simp
  cases n <;>
    simp only [Node.children, Node.roles, List.map_cons, List.map_nil,
      List.map_append, map_numbered, map_optional, List.mem_append,
      List.mem_cons, List.not_mem_nil, or_false, Option.mem_toList] at h <;>
    grind

theorem Node.fromChildren {P : Node -> Prop}
    (step : forall n, (forall c, c ∈ n.children -> P c) -> P n) (n : Node) :
    P n := by
  induction hsize : sizeOf n using Nat.strongRecOn generalizing n with
  | ind size ih =>
    subst hsize
    exact step n (fun c hc => ih (sizeOf c) (sizeOf_child_lt hc) c rfl)

/-!
# Positions

A position is the path from a node up to the root, innermost step first.
-/

/-- One move from a child up to its parent. -/
structure Step where
  parent : Node
  role : Role

def Linked : Node -> List Step -> Prop
  | _, [] => True
  | n, step :: outer =>
    (step.role, n) ∈ step.parent.roles ∧ Linked step.parent outer

/-- An identifier of a compilation unit together with its ancestors. -/
structure Occurrence where
  name : String
  steps : List Step
  linked : Linked (.identifier name) steps

end Scopes
end JavaVsixLite
