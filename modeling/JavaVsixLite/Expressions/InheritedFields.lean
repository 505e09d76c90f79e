import JavaVsixLite.Expressions.Dimensions
import JavaVsixLite.Source.Readings

/-!
# Inherited fields

A bare name may mean a field that another document declares.  Its type node is
resolved with the imports and the package of the document that asks, and the
bodies around the node are looked up among the declarations of that document.
-/

namespace JavaVsixLite
namespace Expressions

open Scopes (Step Binding)

/-!
# Resolving a type node
-/

/--
The type node of a field, with the bodies around it and the type variables that
they bring into scope, and the imports of its document.
-/
structure FieldNode where
  doc : Nat
  node : TypeNode
  levels : List Level
  vars : TypeNode.VariableScope
  imports : Imports

/-- What a request sees of all documents. -/
structure Documents where
  workspace : Workspace
  table : TypeTable
  source : String -> Bool

namespace FieldNode

variable (D : Documents) (f : FieldNode)

/-- A body is found by its node among the declarations of the asking document. -/
def levelsFrom (current : Nat) : List Level :=
  if current = f.doc then f.levels else f.levels.map Level.foreign

def varsFrom (current : Nat) : TypeNode.VariableScope :=
  if current = f.doc then f.vars else []

def readingFrom (current : Nat) (imports : Imports) : Reading :=
  ⟨f.varsFrom current,
    NameSite.namedResolver ⟨f.levelsFrom current, imports, D.table, D.source⟩⟩

def resolveTypeNode (current : Nat) (imports : Imports) : Option ResolvedType :=
  D.workspace.fromTypeRef ((f.readingFrom D current imports).lower f.node)

/-- The field's type in its own document. -/
def ownType : Option ResolvedType := f.resolveTypeNode D f.doc f.imports

/-- How the imports and the package of a document alone read names. -/
def plainReading (imports : Imports) : Reading :=
  ⟨[], NameSite.namedResolver ⟨[], imports, D.table, D.source⟩⟩

/-- How the names in the node are read where the field stands. -/
def ownReading : Reading :=
  ⟨f.vars, NameSite.namedResolver ⟨f.levels, f.imports, D.table, D.source⟩⟩

theorem readingFrom_own (imports : Imports) :
    f.readingFrom D f.doc imports =
      ⟨f.vars, NameSite.namedResolver ⟨f.levels, imports, D.table, D.source⟩⟩ := by
  simp [readingFrom, varsFrom, levelsFrom]

theorem readingFrom_other {current : Nat} (imports : Imports)
    (h : current ≠ f.doc) :
    f.readingFrom D current imports = plainReading D imports := by
  have hresolver : NameSite.namedResolver
      ⟨f.levels.map Level.foreign, imports, D.table, D.source⟩ =
        NameSite.namedResolver ⟨[], imports, D.table, D.source⟩ := by
    funext name dotted
    exact namedResolver_foreign _ _ _ _ name dotted
  simp [readingFrom, varsFrom, levelsFrom, h, plainReading, hresolver]

end FieldNode

theorem fromTypeRef_inj (T : Typer) {t u : TypeRef} :
    T.workspace.fromTypeRef t = T.workspace.fromTypeRef u <->
      t = u ∨ T.workspace.fromTypeRef t = none ∧ T.workspace.fromTypeRef u = none := by
  constructor
  · intro h
    cases ht : T.workspace.fromTypeRef t with
    | none =>
      rw [ht] at h
      exact .inr ⟨rfl, h.symm⟩
    | some ty =>
      rw [ht] at h
      left
      rw [← T.typeRef_of_fromTypeRef ht, T.typeRef_of_fromTypeRef h.symm]
  · rintro (rfl | ⟨ht, hu⟩)
    · rfl
    · rw [ht, hu]

/--
Two readings give a node one type: they agree on its names, or both leave it
without a type.
-/
def SameType (w : Workspace) (first second : Reading) (node : TypeNode) : Prop :=
  Reading.Agree first second node ∨
    w.fromTypeRef (first.lower node) = none ∧
      w.fromTypeRef (second.lower node) = none

theorem fromTypeRef_eq_iff_sameType (T : Typer) (first second : Reading)
    (node : TypeNode) :
    T.workspace.fromTypeRef (first.lower node) =
        T.workspace.fromTypeRef (second.lower node) <->
      SameType T.workspace first second node := by
  rw [fromTypeRef_inj, Reading.lower_eq_iff_agree]
  rfl

/-!
# Bare uses
-/

/--
A name in a document with these imports that is bound to the field of another
document; `T` is the request made in the document.
-/
structure BareUse (D : Documents) (f : FieldNode) (T : Typer) (current : Nat)
    (imports : Imports) (text : String) (position : List Step) : Prop where
  workspace : T.workspace = D.workspace
  other : current ≠ f.doc
  field : exists b n, Scopes.lookupBinding T.context position text = some b ∧
    b.kind = .field ∧ (T.declared b.binder.site).writtenNode = some n ∧
    T.resolveTypeNode n = f.resolveTypeNode D current imports

theorem BareUse.type {D : Documents} {f : FieldNode} {T : Typer} {current : Nat}
    {imports : Imports} {text : String} {position : List Step}
    (use : BareUse D f T current imports text position) :
    T.resolveExpressionType (.name text position) =
      T.workspace.fromTypeRef
        ((FieldNode.plainReading D imports).lower f.node) := by
  rcases use.field with ⟨b, n, hbound, -, hwritten, hnode⟩
  rw [resolveExpressionType_name hbound hwritten, hnode, FieldNode.resolveTypeNode,
    f.readingFrom_other D imports use.other, use.workspace]

/--
A use of the field has the field's own type exactly when the imports and the
package of the asking document alone read the names of the type as they are read
where the field stands; and the types of the use under two lists of imports are
equal exactly when both lists read the names alike.
-/
theorem inherited_field_type_iff (D : Documents) (f : FieldNode) :
    (forall T current imports text position,
      BareUse D f T current imports text position ->
        (T.resolveExpressionType (.name text position) = f.ownType D <->
          SameType D.workspace (FieldNode.plainReading D imports)
            (f.ownReading D) f.node)) ∧
    (forall T T' current imports imports' text position,
      BareUse D f T current imports text position ->
      BareUse D f T' current imports' text position ->
        (T.resolveExpressionType (.name text position) =
            T'.resolveExpressionType (.name text position) <->
          SameType D.workspace (FieldNode.plainReading D imports)
            (FieldNode.plainReading D imports') f.node)) := by
  constructor
  · intro T current imports text position use
    rw [use.type, ← use.workspace, ← fromTypeRef_eq_iff_sameType, FieldNode.ownType,
      FieldNode.resolveTypeNode, f.readingFrom_own, ← use.workspace]
    rfl
  · intro T T' current imports imports' text position use use'
    rw [use.type, use'.type, use'.workspace, ← use.workspace,
      ← fromTypeRef_eq_iff_sameType]

/-!
# Two classes of one name

    package p;  class B { Foo part; }  class Foo {}
    package q;  import p.B;  class D extends B { .. part .. }  class Foo {}
-/

namespace TwoFoos

def binaryOf (node : Nat) : String :=
  match node with
  | 1 => "p.Foo"
  | 2 => "q.Foo"
  | 3 => "p.B"
  | _ => "q.D"

def workspace : Workspace :=
  { Workspace.closedOnly (fun _ => false) (fun _ => none) with
    getNamed := fun binary => [1, 2, 3, 4].find? (fun node => binaryOf node == binary) }

def documents : Documents :=
  ⟨workspace, ⟨["p.Foo", "q.Foo", "p.B", "q.D"]⟩, fun _ => false⟩

/-- The type node of `part` in `B`. -/
def part : FieldNode :=
  ⟨0, .name "Foo", [⟨some ("B", some "p.B"), [], []⟩], [], ⟨some "p", [], []⟩⟩

/-- The imports of `D`, and the same with `import p.Foo`. -/
def imports : Imports := ⟨some "q", [("B", "p.B")], []⟩

def withFoo : Imports := ⟨some "q", [("B", "p.B"), ("Foo", "p.Foo")], []⟩

/-- A request in `D`, whose document has these imports. -/
def typer (imports : Imports) : Typer :=
  { AnonymousBody.typer with
    workspace := workspace
    context := ⟨[], fun _ => [⟨"part", 30⟩], fun _ => none⟩
    typeId := fun node => .named (binaryOf node)
    typeId_named := by
      intro binary node h
      have hname := List.find?_some h
      rw [beq_iff_eq.mp hname]
    typeId_local := by
      intro document declaration node h
      cases h
    declared := fun _ => ⟨some 0, false, 0, false, none, false⟩
    resolveTypeNode := fun _ => part.resolveTypeNode documents 1 imports }

/-- In a method of `D`. -/
def position : List Step :=
  [⟨.typeDeclaration 4 [] [.plain .other []], .item 0⟩]

theorem bareUse (imports : Imports) :
    BareUse documents part (typer imports) 1 imports "part" position where
  workspace := rfl
  other := by decide
  field := ⟨⟨⟨"part", 30⟩, .field⟩, 0, rfl, rfl, rfl, rfl⟩

theorem imported_foo_kept :
    (typer withFoo).resolveExpressionType (.name "part" position) =
      part.ownType documents :=
  ((inherited_field_type_iff documents part).1 (typer withFoo) 1 withFoo "part"
    position (bareUse withFoo)).mpr (.inl (show _ = _ by decide))

/-- `part` is typed as the `Foo` of the package of `D`, until `D` imports the other. -/
theorem other_foo_taken :
    BareUse documents part (typer imports) 1 imports "part" position ∧
      (typer imports).resolveExpressionType (.name "part" position) =
        some (.inProject 2 []) ∧
      (typer imports).resolveExpressionType (.name "part" position) ≠
        part.ownType documents ∧
      (typer withFoo).resolveExpressionType (.name "part" position) =
        some (.inProject 1 []) := by
  have htype : (typer imports).resolveExpressionType (.name "part" position) =
      some (.inProject 2 []) := by
    rw [(bareUse imports).type]
    decide
  have hown : part.ownType documents = some (.inProject 1 []) := by
    decide
  refine ⟨bareUse imports, htype, ?_, ?_⟩
  · rw [htype, hown]
    decide
  · rw [(bareUse withFoo).type]
    decide

end TwoFoos

end Expressions
end JavaVsixLite
