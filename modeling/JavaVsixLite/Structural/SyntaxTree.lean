import JavaVsixLite.Foundation.Reports
import JavaVsixLite.Members.SourceClass

/-!
# Syntax trees

The tree the parser builds, and its nodes.  A node knows the nodes around it, so its
ancestors are given with it, nearest first.  The kinds are those the structural checks and
the rules of the language tell apart; an unnamed node is a token and its kind is its text.
-/

namespace JavaVsixLite
namespace Structural

inductive NodeKind where
  | program
  | packageDeclaration
  | identifier
  | scopedIdentifier
  | typeDeclaration (kind : TypeKind)
  | classBody
  | interfaceBody
  | enumBody
  | enumBodyDeclarations
  | annotationTypeBody
  | methodDeclaration
  | constructorDeclaration
  | fieldDeclaration
  | constantDeclaration
  | annotationTypeElementDeclaration
  | enumConstant
  | variableDeclarator
  | formalParameter
  | spreadParameter
  | modifiers
  | objectCreationExpression
  | error
  | other (name : String)
  | token (text : String)
deriving DecidableEq

inductive Field where
  | name
  | body
  | parameters
  | type
  | dimensions
  | typeParameters
deriving DecidableEq

/-- A missing node was put in by the parser to go on. -/
inductive Tree where
  | node (kind : NodeKind) (field : Option Field) (text : String) (missing : Bool)
      (children : List Tree)

namespace Tree

def kind : Tree -> NodeKind
  | node kind _ _ _ _ => kind

def field : Tree -> Option Field
  | node _ field _ _ _ => field

def text : Tree -> String
  | node _ _ text _ _ => text

def children : Tree -> List Tree
  | node _ _ _ _ children => children

def isNamed (tree : Tree) : Bool :=
  match tree.kind with
  | .token _ => false
  | _ => true

mutual

/-- Whether there is an error or a missing node at the tree or below it. -/
def hasError : Tree -> Bool
  | node kind _ _ missing children => kind == .error || missing || anyError children

def anyError : List Tree -> Bool
  | [] => false
  | tree :: rest => hasError tree || anyError rest

end

mutual

def size : Tree -> Nat
  | node _ _ _ _ children => 1 + sizes children

def sizes : List Tree -> Nat
  | [] => 0
  | tree :: rest => size tree + sizes rest

end

end Tree

structure Node where
  tree : Tree
  ancestors : List Tree

namespace Node

def root (tree : Tree) : Node :=
  ⟨tree, []⟩

def kind (node : Node) : NodeKind :=
  node.tree.kind

def text (node : Node) : String :=
  node.tree.text

def isNamed (node : Node) : Bool :=
  node.tree.isNamed

def hasError (node : Node) : Bool :=
  node.tree.hasError

def parent (node : Node) : Option Node :=
  match node.ancestors with
  | [] => none
  | tree :: rest => some ⟨tree, rest⟩

def below (node : Node) (tree : Tree) : Node :=
  ⟨tree, node.tree :: node.ancestors⟩

def children (node : Node) : List Node :=
  node.tree.children.map node.below

def namedChildren (node : Node) : List Node :=
  node.children.filter isNamed

def childByFieldName (node : Node) (field : Field) : Option Node :=
  node.children.find? (fun child => child.tree.field == some field)

@[simp]
theorem kind_below (node : Node) (tree : Tree) : (node.below tree).kind = tree.kind :=
  rfl

@[simp]
theorem parent_below (node : Node) (tree : Tree) : (node.below tree).parent = some node :=
  rfl

theorem parent_of_mem_children {node child : Node} (h : child ∈ node.children) :
    child.parent = some node := by
  unfold children at h
  rw [List.mem_map] at h
  rcases h with ⟨tree, htree, heq⟩
  rw [<- heq]
  rfl

theorem mem_children_of_mem_namedChildren {node child : Node} (h : child ∈ node.namedChildren) :
    child ∈ node.children :=
  List.mem_of_mem_filter h

theorem mem_children_of_childByFieldName {node child : Node} {field : Field}
    (h : node.childByFieldName field = some child) : child ∈ node.children :=
  List.mem_of_find?_eq_some h

end Node

/-!
# The nodes of a tree
-/

mutual

/-- The tree and everything below it, where the last child comes first. -/
def visitsFrom (ancestors : List Tree) : Tree -> List Node
  | .node kind field text missing children =>
    ⟨.node kind field text missing children, ancestors⟩ ::
      visitsAll (.node kind field text missing children :: ancestors) children

def visitsAll (ancestors : List Tree) : List Tree -> List Node
  | [] => []
  | tree :: rest => visitsAll ancestors rest ++ visitsFrom ancestors tree

end

namespace Node

def visits (node : Node) : List Node :=
  visitsFrom node.ancestors node.tree

theorem visitsAll_eq (ancestors : List Tree) (trees : List Tree) :
    visitsAll ancestors trees =
      (trees.map (fun tree => Node.mk tree ancestors)).reverse.flatMap visits := by
  induction trees with
  | nil => rfl
  | cons tree rest ih =>
    rw [visitsAll, ih, List.map_cons, List.reverse_cons, List.flatMap_append]
    simp [visits]

theorem visits_eq (node : Node) : node.visits = node :: node.children.reverse.flatMap visits := by
  cases node with
  | mk tree ancestors =>
    cases tree with
    | node kind field text missing children =>
      rw [visits, visitsFrom, visitsAll_eq]
      rfl

theorem mem_visits_self (node : Node) : node ∈ node.visits := by
  rw [visits_eq]
  exact List.mem_cons_self

theorem mem_visits_of_child {node child below : Node} (hchild : child ∈ node.children)
    (h : below ∈ child.visits) : below ∈ node.visits := by
  rw [visits_eq]
  apply List.mem_cons_of_mem
  rw [List.mem_flatMap]
  exact ⟨child, List.mem_reverse.mpr hchild, h⟩

def size (node : Node) : Nat :=
  node.tree.size

theorem sizes_eq (trees : List Tree) : Tree.sizes trees = (trees.map Tree.size).sum := by
  induction trees with
  | nil => rfl
  | cons tree rest ih => rw [Tree.sizes, ih, List.map_cons, List.sum_cons]

theorem sum_size_children_lt (node : Node) : (node.children.map size).sum < node.size := by
  cases node with
  | mk tree ancestors =>
    cases tree with
    | node kind field text missing children =>
      have hmap : ((Node.mk (.node kind field text missing children) ancestors).children.map
          size) = children.map Tree.size := by
        unfold Node.children
        rw [List.map_map]
        rfl
      rw [hmap]
      change _ < 1 + Tree.sizes children
      rw [sizes_eq]
      omega

/-!
# Errors
-/

theorem anyError_eq_false {trees : List Tree} :
    Tree.anyError trees = false <-> forall tree, tree ∈ trees -> tree.hasError = false := by
  induction trees with
  | nil => simp [Tree.anyError]
  | cons tree rest ih => simp [Tree.anyError, ih]

theorem hasError_child {node child : Node} (h : node.hasError = false)
    (hchild : child ∈ node.children) : child.hasError = false := by
  cases node with
  | mk tree ancestors =>
    cases tree with
    | node kind field text missing children =>
      unfold Node.children at hchild
      rw [List.mem_map] at hchild
      rcases hchild with ⟨tree, htree, heq⟩
      change (kind == .error || missing || Tree.anyError children) = false at h
      rw [Bool.or_eq_false_iff, anyError_eq_false] at h
      rw [<- heq]
      exact h.2 tree htree

end Node

/-!
# Descendants
-/

/-- The second node stands at or below the first. -/
inductive Below : Node -> Node -> Prop where
  | here (node : Node) : Below node node
  | child {node child below : Node} (h : child ∈ node.children) (rest : Below child below) :
      Below node below

mutual

theorem below_of_mem_visitsFrom (ancestors : List Tree) {below : Node} (tree : Tree)
    (h : below ∈ visitsFrom ancestors tree) : Below ⟨tree, ancestors⟩ below := by
  cases tree with
  | node kind field text missing children =>
    rw [visitsFrom, List.mem_cons] at h
    rcases h with heq | hbelow
    · rw [heq]
      exact .here _
    · rcases below_of_mem_visitsAll _ children hbelow with ⟨tree, htree, hrest⟩
      exact .child (List.mem_map_of_mem htree) hrest

theorem below_of_mem_visitsAll (ancestors : List Tree) {below : Node} (trees : List Tree)
    (h : below ∈ visitsAll ancestors trees) :
    exists tree, tree ∈ trees ∧ Below ⟨tree, ancestors⟩ below := by
  cases trees with
  | nil => cases h
  | cons tree rest =>
    rw [visitsAll, List.mem_append] at h
    rcases h with hrest | htree
    · rcases below_of_mem_visitsAll ancestors rest hrest with ⟨found, hfound, hbelow⟩
      exact ⟨found, List.mem_cons_of_mem tree hfound, hbelow⟩
    · exact ⟨tree, List.mem_cons_self, below_of_mem_visitsFrom ancestors tree htree⟩

end

theorem mem_visits_iff {node below : Node} : below ∈ node.visits <-> Below node below := by
  constructor
  · exact below_of_mem_visitsFrom node.ancestors node.tree
  · intro h
    induction h with
    | here node => exact node.mem_visits_self
    | child hchild rest ih => exact Node.mem_visits_of_child hchild ih

theorem Below.hasError_eq_false {a b : Node} (h : Below a b) (herr : a.hasError = false) :
    b.hasError = false := by
  induction h with
  | here node => exact herr
  | child hchild rest ih => exact ih (Node.hasError_child herr hchild)

theorem Below.parent {a b p : Node} (h : Below a b) (hp : b.parent = some p) :
    b = a ∨ Below a p := by
  induction h with
  | here node => exact Or.inl rfl
  | child hchild rest ih =>
    right
    rcases ih hp with heq | hbelow
    · rw [heq, Node.parent_of_mem_children hchild] at hp
      cases hp
      exact .here _
    · exact .child hchild hbelow

theorem Below.parent_of_root {tree : Tree} {b p : Node} (h : Below (Node.root tree) b)
    (hp : b.parent = some p) : Below (Node.root tree) p := by
  rcases h.parent hp with heq | hbelow
  · rw [heq] at hp
    cases hp
  · exact hbelow

end Structural
end JavaVsixLite
