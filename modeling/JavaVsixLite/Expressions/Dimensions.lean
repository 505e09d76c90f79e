import JavaVsixLite.Expressions.Soundness

/-!
# Dimensions of declared types

The checks of initializers, assignments and returns compare a type with the one
a declaration was written with.  Brackets may also stand after the declared name
or the parameter list, and a spread parameter is an array; the checks read the
type node alone.
-/

namespace JavaVsixLite
namespace Expressions

open Scopes (Step Binding)

/-!
# The checks
-/

/-- Two positions of a document. -/
structure Range where
  start : Nat
  stop : Nat
deriving DecidableEq

structure RelatedInformation where
  range : Range
  message : String
deriving DecidableEq

structure Diagnostic where
  range : Range
  code : String
  message : String
  related : Option RelatedInformation
deriving DecidableEq

def maxDiagnostics : Nat := 100

def incompatibleReturnCode : String := "jvl.incompatibleReturn"

def incompatibleAssignmentCode : String := "jvl.incompatibleAssignment"

/-- A variable declarator, whose variable is known by its site. -/
structure DeclaratorNode where
  site : Nat
  value : Option Expr
  valueRange : Range

/-- A declaration of locals or fields, which share one type node. -/
structure DeclarationNode where
  hasError : Bool
  typeNode : Option Nat
  isVar : Bool
  declarators : List DeclaratorNode

structure LinkedDeclaration where
  nameRange : Range
  name : String
  typeText : String

structure AssignmentNode where
  hasError : Bool
  operator : Option String
  left : Option Expr
  right : Option Expr
  rightRange : Range
  declaration : Option LinkedDeclaration

/-- A method; `dims` counts the brackets after its parameter list. -/
structure MethodNode where
  hasError : Bool
  typeNode : Option Nat
  typeText : String
  typeRange : Range
  name : Option String
  dims : Nat

structure ReturnNode where
  method : Option MethodNode
  expression : Option Expr
  range : Range
  expressionRange : Range

namespace Typer

variable (T : Typer)

def typeDisplay : ResolvedType -> String
  | .inProject node _ => (T.workspace.decl node).name
  | .external fqn [] => lastSegment fqn
  | .external fqn args =>
    lastSegment fqn ++ "<" ++ String.intercalate ", " (args.map TypeRef.render) ++ ">"
  | .primitive p => p.name
  | .void => "void"
  | .null => "null"
  | .array element => element.render ++ "[]"

def isAssignable (actual expected : ResolvedType) : Option Bool :=
  T.assignable (T.typeRef actual) (T.typeRef expected)

/-- The report on an actual and an expected type, if it is proven wrong. -/
def mismatch : Option (ResolvedType × ResolvedType) -> Option String
  | none => none
  | some (actual, expected) =>
    if T.isAssignable actual expected = some false then
      some ("incompatible types: " ++ T.typeDisplay actual ++
        " cannot be converted to " ++ T.typeDisplay expected)
    else none

/-- What the check of a declarator compares: its value and the written type. -/
def initializerTypes (d : DeclarationNode) (declarator : DeclaratorNode) :
    Option (ResolvedType × ResolvedType) :=
  if d.hasError || d.isVar then none
  else
    match d.typeNode.bind T.resolveTypeNode,
        declarator.value.bind T.resolveExpressionType with
    | some expected, some actual => some (actual, expected)
    | _, _ => none

def checkInitializers (out : List Diagnostic) (d : DeclarationNode) :
    List Diagnostic :=
  d.declarators.foldl (fun out declarator =>
    if maxDiagnostics ≤ out.length then out
    else
      match T.mismatch (T.initializerTypes d declarator) with
      | some message => out ++
          [⟨declarator.valueRange, incompatibleAssignmentCode, message, none⟩]
      | none => out) out

/-- What the check of a plain assignment compares: both sides. -/
def assignmentTypes (a : AssignmentNode) : Option (ResolvedType × ResolvedType) :=
  if a.hasError || a.operator != some "=" then none
  else
    match a.left.bind T.resolveExpressionType,
        a.right.bind T.resolveExpressionType with
    | some expected, some actual => some (actual, expected)
    | _, _ => none

def checkAssignment (out : List Diagnostic) (a : AssignmentNode) :
    List Diagnostic :=
  match T.mismatch (T.assignmentTypes a) with
  | some message => out ++
      [⟨a.rightRange, incompatibleAssignmentCode, message,
        a.declaration.map (fun found => ⟨found.nameRange,
          "'" ++ found.name ++ "' declared as '" ++ found.typeText ++ "' here"⟩)⟩]
  | none => out

/-- What the check of a `return` with a value compares. -/
def returnTypes (m : MethodNode) (e : Expr) : Option (ResolvedType × ResolvedType) :=
  match m.typeNode.bind T.resolveTypeNode, T.resolveExpressionType e with
  | some expected, some actual => some (actual, expected)
  | _, _ => none

def returnLink (m : MethodNode) : Option RelatedInformation :=
  m.name.map (fun name => ⟨m.typeRange,
    "method '" ++ name ++ "' declared to return '" ++ m.typeText ++ "' here"⟩)

def checkReturn (out : List Diagnostic) (r : ReturnNode) : List Diagnostic :=
  match r.method with
  | none => out
  | some m =>
    if m.hasError || m.typeNode.isNone then out
    else
      match m.typeText == "void", r.expression with
      | true, some _ => out ++ [⟨r.range, incompatibleReturnCode,
          "incompatible types: unexpected return value", returnLink m⟩]
      | false, none => out ++ [⟨r.range, incompatibleReturnCode,
          "incompatible types: missing return value", returnLink m⟩]
      | true, none => out
      | false, some e =>
        match T.mismatch (T.returnTypes m e) with
        | some message => out ++
            [⟨r.expressionRange, incompatibleReturnCode, message, returnLink m⟩]
        | none => out

end Typer

/-!
# Written types
-/

/-- The brackets after the name, and the dimension of a spread parameter. -/
def Variable.extraDims (v : Variable) : Nat :=
  v.dims + if v.varargs then 1 else 0

/-- All dimensions stand in the type node. -/
def Variable.Plain (v : Variable) : Prop :=
  v.dims = 0 ∧ v.varargs = false

theorem Variable.extraDims_eq_zero {v : Variable} :
    v.extraDims = 0 <-> v.Plain := by
  unfold Variable.extraDims Variable.Plain
  cases v.varargs <;> simp

/-- A type node with what its names stand for at its place. -/
structure NodeReading where
  node : TypeNode
  vars : TypeNode.VariableScope
  resolveNamed : TypeNode.Resolver

namespace NodeReading

def lowered (r : NodeReading) : TypeRef :=
  r.node.lower r.vars r.resolveNamed

def fullRef (r : NodeReading) (extra : Nat) : TypeRef :=
  Java.withDims extra r.lowered

end NodeReading

/--
What the type nodes of a program are, in the document of the request and in that
of a member.  Written types are lowered where they stand; the facts of a class
record the types of its fields with all dimensions.
-/
structure Spelling (T : Typer) where
  reading : Nat -> NodeReading
  memberReading : Nat -> Nat -> NodeReading
  resolves : forall n, T.resolveTypeNode n =
    T.workspace.fromTypeRef (reading n).lowered
  inDocument : forall m n, T.resolveInDocument m n =
    T.workspace.fromTypeRef (memberReading m n).lowered
  recorded : forall (m : Member) n declaring t, m.kind = .field ->
    T.memberTypeNode m.node = some n ->
    T.enclosingType m.node = some declaring ->
    ((T.memberFacts (T.typeId declaring)).find? (fun facts =>
      facts.name == m.name && facts.kind == .field)).bind MemberFacts.result =
        some t ->
      t = (memberReading m.node n).fullRef (T.declared m.node).extraDims

namespace Spelling

variable {T : Typer} (S : Spelling T)

def fullType (extra : Nat) (n : Nat) : Option ResolvedType :=
  T.workspace.fromTypeRef ((S.reading n).fullRef extra)

end Spelling

/-!
# Depth of arrays
-/

def arrayDepth : TypeRef -> Nat
  | .array element => arrayDepth element + 1
  | _ => 0

@[simp] theorem arrayDepth_withDims (dims : Nat) (t : TypeRef) :
    arrayDepth (Java.withDims dims t) = dims + arrayDepth t := by
  induction dims with
  | zero => simp [Java.withDims]
  | succ dims ih =>
    simp only [Java.withDims, arrayDepth, ih]
    omega

theorem arrayDepth_substitute (env : TypeEnv) :
    forall t : TypeRef, arrayDepth t ≤ arrayDepth (t.substitute env)
  | .array element => by
    simpa [arrayDepth, TypeRef.substitute] using arrayDepth_substitute env element
  | .primitive _ | .void | .null | .unknown | .typeVariable _ | .named _ _
  | .wildcard _ _ => Nat.zero_le _

@[simp] theorem substitute_withDims (env : TypeEnv) (dims : Nat) (t : TypeRef) :
    (Java.withDims dims t).substitute env =
      Java.withDims dims (t.substitute env) := by
  induction dims with
  | zero => rfl
  | succ dims ih => simp [Java.withDims, TypeRef.substitute, ih]

theorem array_of_fromTypeRef {w : Workspace} {t element : TypeRef}
    (h : w.fromTypeRef t = some (.array element)) : t = .array element := by
  unfold Workspace.fromTypeRef at h
  split at h
  all_goals first | (cases h; rfl) | cases h | skip
  · split at h
    · cases h
    · split at h
      · cases h
      · split at h <;> cases h
  · rcases Option.map_eq_some_iff.mp h with ⟨node, -, hnode⟩
    cases hnode

theorem fromTypeRef_withDims {w : Workspace} {extra : Nat} {t : TypeRef}
    (h : extra ≠ 0) :
    exists element, Java.withDims extra t = .array element ∧
      w.fromTypeRef (Java.withDims extra t) = some (.array element) := by
  cases extra with
  | zero => exact absurd rfl h
  | succ extra => exact ⟨_, rfl, rfl⟩

theorem fromTypeRef_ne_withDims {w : Workspace} {extra : Nat} {t u : TypeRef}
    {r : ResolvedType} (hextra : extra ≠ 0) (hdepth : arrayDepth t ≤ arrayDepth u)
    (h : w.fromTypeRef t = some r) :
    w.fromTypeRef (Java.withDims extra u) ≠ some r := by
  intro hsame
  rcases fromTypeRef_withDims (w := w) (t := u) hextra with
    ⟨element, hshape, hresolved⟩
  rw [hresolved] at hsame
  cases hsame
  have hlength := congrArg arrayDepth (hshape.trans (array_of_fromTypeRef h).symm)
  rw [arrayDepth_withDims] at hlength
  omega

/-!
# What the checks compare
-/

/-- A comparison, if it is made, is with the full type. -/
def Honours (full : Option ResolvedType)
    (comparison : Option (ResolvedType × ResolvedType)) : Prop :=
  forall actual expected, comparison = some (actual, expected) ->
    some expected = full

section Uses

variable {T : Typer}

theorem resolveExpressionType_null :
    T.resolveExpressionType .null = some .null := by
  rfl

variable {n : Nat} {recv : Resolved} {m : Member} {expected actual : ResolvedType}

theorem resolveExpressionType_name {text : String} {position : List Step} {b : Binding}
    (hbound : Scopes.lookupBinding T.context position text = some b)
    (hwritten : (T.declared b.binder.site).writtenNode = some n) :
    T.resolveExpressionType (.name text position) = T.resolveTypeNode n := by
  unfold Typer.resolveExpressionType Typer.maxNesting Typer.resolveReceiver
  simp only [Typer.resolveStep, Typer.resolveName, hbound, hwritten]
  cases T.resolveTypeNode n <;> rfl

/-- An object whose members are searched for a field, and the field found. -/
structure FieldRead (T : Typer) (object : Expr) (field : String)
    (recv : Resolved) (m : Member) (n : Nat) : Prop where
  object : T.resolveReceiver (Typer.maxNesting - 1) .unique 1 object = some recv
  external : T.nestedExternal recv field = none
  inProject : T.nestedInProject recv field = none
  found : T.findMemberHierOfKind recv field .field = some (.inProject m)
  kind : m.kind = .field
  typeNode : T.memberTypeNode m.node = some n

/-- The recorded type of a field, through the type arguments of the receiver. -/
def throughReceiver (T : Typer) (recv : Resolved) (m : Member) : Option TypeRef :=
  (T.enclosingType m.node).bind (fun declaring =>
    T.memberTypeThrough (T.typeRef recv.ty) (T.typeId declaring) m.name .field)

theorem resolveExpressionType_field {object : Expr} {field : String}
    (read : FieldRead T object field recv m n) :
    T.resolveExpressionType (.fieldAccess object field) =
      match throughReceiver T recv m with
      | some ty => T.receiverTypeRef (maxResolveDepth + 1) ty
      | none => T.resolveInDocument m.node n := by
  have hobject := read.object
  unfold Typer.resolveExpressionType Typer.maxNesting Typer.resolveReceiver
  simp only [Typer.maxNesting, Nat.reduceSub] at hobject
  simp only [Typer.resolveStep, hobject, Typer.resolveMemberSegment, read.external,
    read.inProject, read.found, Typer.memberResultType, read.kind,
    Typer.declaredResultType, read.typeNode, throughReceiver]
  cases hthrough : (T.enclosingType m.node).bind (fun declaring =>
      T.memberTypeThrough (T.typeRef recv.ty) (T.typeId declaring) m.name .field)
    with
  | some ty =>
    dsimp only
    cases T.receiverTypeRef (maxResolveDepth + 1) ty <;> rfl
  | none =>
    dsimp only
    cases T.resolveInDocument m.node n <;> rfl

/--
The full type of a field, as it is written or with the type arguments that the
receiver gives to the parameters of the declaring class.
-/
inductive SeenAs (S : Spelling T) (recv : Resolved) (m : Member) (n : Nat)
    (expected : ResolvedType) : Prop where
  | written :
      T.workspace.fromTypeRef
        ((S.memberReading m.node n).fullRef (T.declared m.node).extraDims) =
          some expected ->
      SeenAs S recv m n expected
  | instantiated {declaring : Nat} {facts : ClassMetadata} {id : TypeId}
      {args : List TypeRef} {env : TypeEnv} :
      T.enclosingType m.node = some declaring ->
      T.table.classFacts (T.typeId declaring) = some facts ->
      typeAsSupertype T.table (T.typeRef recv.ty) (T.typeId declaring) =
        some (.named id args) ->
      Typer.typeEnvironment facts.typeParameters args = some env ->
      T.receiverTypeRef (maxResolveDepth + 1)
        (((S.memberReading m.node n).fullRef
          (T.declared m.node).extraDims).substitute env) = some expected ->
      SeenAs S recv m n expected

theorem seenAs_of_through (S : Spelling T) {ty : TypeRef} (hkind : m.kind = .field)
    (hnode : T.memberTypeNode m.node = some n) (hthrough : throughReceiver T recv m = some ty)
    (h : T.receiverTypeRef (maxResolveDepth + 1) ty = some expected) :
    SeenAs S recv m n expected := by
  rcases Option.bind_eq_some_iff.mp hthrough with ⟨declaring, hdeclaring, hty⟩
  unfold Typer.memberTypeThrough at hty
  split at hty
  · rename_i facts declared hfacts hrecorded
    have hfull := S.recorded m n declaring declared hkind hnode hdeclaring hrecorded
    split at hty
    · cases hty
    · split at hty
      · rename_i id args hsuper
        split at hty
        · cases hty
        · rename_i env henv
          split at hty
          · cases hty
          · cases hty
            rw [hfull] at h
            exact .instantiated hdeclaring hfacts hsuper henv h
      · cases hty
  · cases hty

theorem not_seenAs (S : Spelling T) {r : ResolvedType} (hextra : (T.declared m.node).extraDims ≠ 0)
    (h : T.resolveInDocument m.node n = some r) : ¬ SeenAs S recv m n r := by
  rw [S.inDocument] at h
  intro hseen
  cases hseen with
  | written hfull =>
    exact fromTypeRef_ne_withDims hextra (Nat.le_refl _) h hfull
  | @instantiated declaring facts id args env hdeclaring hfacts hsuper henv hfull =>
    rw [NodeReading.fullRef, substitute_withDims] at hfull
    refine fromTypeRef_ne_withDims (u := (S.memberReading m.node n).lowered.substitute env)
      hextra (arrayDepth_substitute env _) h ?_
    rcases fromTypeRef_withDims (w := T.workspace)
      (t := (S.memberReading m.node n).lowered.substitute env) hextra with
      ⟨element, hshape, -⟩
    rw [hshape] at hfull ⊢
    exact hfull

theorem resolves_full_iff (w : Workspace) (reading : NodeReading) {extra : Nat} :
    (forall r, w.fromTypeRef reading.lowered = some r ->
      some r = w.fromTypeRef (reading.fullRef extra)) <->
      extra = 0 ∨ w.fromTypeRef reading.lowered = none := by
  constructor
  · intro h
    by_cases hextra : extra = 0
    · exact .inl hextra
    · right
      cases hresolved : w.fromTypeRef reading.lowered with
      | none => rfl
      | some r =>
        exact absurd (h r hresolved).symm
          (fromTypeRef_ne_withDims hextra (Nat.le_refl _) hresolved)
  · intro h r hresolved
    rcases h with hextra | hnone
    · rw [hextra, ← hresolved]
      rfl
    · rw [hnone] at hresolved
      cases hresolved

theorem initializerTypes_eq_some {d : DeclarationNode} {declarator : DeclaratorNode}
    (h : T.initializerTypes d declarator = some (actual, expected)) :
    exists n, d.typeNode = some n ∧ T.resolveTypeNode n = some expected := by
  unfold Typer.initializerTypes at h
  split at h
  · cases h
  · split at h
    · rename_i found value hexpected hactual
      cases h
      exact Option.bind_eq_some_iff.mp hexpected
    · cases h

theorem assignmentTypes_eq_some {a : AssignmentNode}
    (h : T.assignmentTypes a = some (actual, expected)) :
    exists left, a.left = some left ∧
      T.resolveExpressionType left = some expected := by
  unfold Typer.assignmentTypes at h
  split at h
  · cases h
  · split at h
    · rename_i found value hexpected hactual
      cases h
      exact Option.bind_eq_some_iff.mp hexpected
    · cases h

theorem returnTypes_eq_some {m : MethodNode} {e : Expr}
    (h : T.returnTypes m e = some (actual, expected)) :
    exists n, m.typeNode = some n ∧ T.resolveTypeNode n = some expected := by
  unfold Typer.returnTypes at h
  split at h
  · rename_i found value hexpected hactual
    cases h
    exact Option.bind_eq_some_iff.mp hexpected
  · cases h

/-- The assignment of `null`. -/
def AssignmentNode.plain (left : Expr) : AssignmentNode :=
  ⟨false, some "=", some left, some .null, ⟨0, 0⟩, none⟩

theorem assignmentTypes_plain {left : Expr} (h : T.resolveExpressionType left = some expected) :
    T.assignmentTypes (AssignmentNode.plain left) = some (.null, expected) := by
  simp [Typer.assignmentTypes, AssignmentNode.plain, h, resolveExpressionType_null]

theorem initializers_honour_iff (S : Spelling T) (site n : Nat) :
    (forall d declarator, d.typeNode = some n -> declarator.site = site ->
        Honours (S.fullType (T.declared site).extraDims n)
          (T.initializerTypes d declarator)) <->
      (T.declared site).Plain ∨ T.resolveTypeNode n = none := by
  rw [← Variable.extraDims_eq_zero, S.resolves, ← resolves_full_iff]
  constructor
  · intro h r hr
    rw [← S.resolves] at hr
    refine h ⟨false, some n, false, []⟩ ⟨site, some .null, ⟨0, 0⟩⟩ rfl rfl .null r ?_
    simp [Typer.initializerTypes, hr, resolveExpressionType_null]
  · intro h d declarator hnode _ actual expected hcompared
    rcases initializerTypes_eq_some hcompared with ⟨node, hsame, hexpected⟩
    rw [hnode] at hsame
    cases hsame
    exact h expected (S.resolves n ▸ hexpected)

theorem assignments_honour_iff (S : Spelling T) {text : String} {position : List Step} {b : Binding}
    (hbound : Scopes.lookupBinding T.context position text = some b)
    (hwritten : (T.declared b.binder.site).writtenNode = some n) :
    (forall a, a.left = some (.name text position) ->
        Honours (S.fullType (T.declared b.binder.site).extraDims n)
          (T.assignmentTypes a)) <->
      (T.declared b.binder.site).Plain ∨ T.resolveTypeNode n = none := by
  have hleft := resolveExpressionType_name hbound hwritten
  rw [← Variable.extraDims_eq_zero, S.resolves, ← resolves_full_iff]
  constructor
  · intro h r hr
    rw [← S.resolves] at hr
    exact h (AssignmentNode.plain (.name text position)) rfl .null r
      (assignmentTypes_plain (hleft.trans hr))
  · intro h a ha actual expected hcompared
    rcases assignmentTypes_eq_some hcompared with ⟨left, hsame, hexpected⟩
    rw [ha] at hsame
    cases hsame
    exact h expected (S.resolves n ▸ hleft.symm.trans hexpected)

theorem field_assignments_honour_iff (S : Spelling T) {object : Expr} {field : String}
    (read : FieldRead T object field recv m n) :
    (forall a, a.left = some (.fieldAccess object field) ->
        forall actual expected, T.assignmentTypes a = some (actual, expected) ->
          SeenAs S recv m n expected) <->
      (T.declared m.node).Plain ∨ (throughReceiver T recv m).isSome = true ∨
        T.resolveInDocument m.node n = none := by
  have hleft := resolveExpressionType_field read
  cases hthrough : throughReceiver T recv m with
  | some ty =>
    rw [hthrough] at hleft
    constructor
    · exact fun _ => .inr (.inl rfl)
    · intro _ a ha actual expected hcompared
      rcases assignmentTypes_eq_some hcompared with ⟨left, hsame, hexpected⟩
      rw [ha] at hsame
      cases hsame
      rw [hleft] at hexpected
      exact seenAs_of_through S read.kind read.typeNode hthrough hexpected
  | none =>
    rw [hthrough] at hleft
    dsimp only at hleft
    simp only [Option.isSome_none, Bool.false_eq_true, false_or]
    rw [← Variable.extraDims_eq_zero]
    constructor
    · intro h
      by_cases hextra : (T.declared m.node).extraDims = 0
      · exact .inl hextra
      · right
        cases hr : T.resolveInDocument m.node n with
        | none => rfl
        | some r =>
          have hseen : SeenAs S recv m n r :=
            h (AssignmentNode.plain (.fieldAccess object field)) rfl .null r
              (assignmentTypes_plain (hleft.trans hr))
          exact absurd hseen (not_seenAs S hextra hr)
    · intro h a ha actual expected hcompared
      rcases assignmentTypes_eq_some hcompared with ⟨left, hsame, hexpected⟩
      rw [ha] at hsame
      cases hsame
      have hwritten := hleft.symm.trans hexpected
      rw [S.inDocument] at h hwritten
      exact .written ((resolves_full_iff _ _).mpr h expected hwritten).symm

theorem returns_honour_iff (S : Spelling T) {m : MethodNode} (hnode : m.typeNode = some n) :
    (forall e, Honours (S.fullType m.dims n) (T.returnTypes m e)) <->
      m.dims = 0 ∨ T.resolveTypeNode n = none := by
  rw [S.resolves, ← resolves_full_iff]
  constructor
  · intro h r hr
    rw [← S.resolves] at hr
    refine h .null .null r ?_
    simp [Typer.returnTypes, hnode, hr, resolveExpressionType_null]
  · intro h e actual expected hcompared
    rcases returnTypes_eq_some hcompared with ⟨node, hsame, hexpected⟩
    rw [hnode] at hsame
    cases hsame
    exact h expected (S.resolves n ▸ hexpected)

/--
The checks of a declaration compare with the element type and all its dimensions
exactly when its type node has all of them, or resolves to nothing.  An assignment
to a field compares with them also where the recorded type of the field is used.
-/
theorem declared_dimensions_iff (S : Spelling T) :
    (forall site n, (T.declared site).writtenNode = some n ->
      ((forall d declarator, d.typeNode = some n -> declarator.site = site ->
          Honours (S.fullType (T.declared site).extraDims n)
            (T.initializerTypes d declarator)) <->
        (T.declared site).Plain ∨ T.resolveTypeNode n = none)) ∧
    (forall text position b n,
      Scopes.lookupBinding T.context position text = some b ->
      (T.declared b.binder.site).writtenNode = some n ->
      ((forall a, a.left = some (.name text position) ->
          Honours (S.fullType (T.declared b.binder.site).extraDims n)
            (T.assignmentTypes a)) <->
        (T.declared b.binder.site).Plain ∨ T.resolveTypeNode n = none)) ∧
    (forall object field recv m n, FieldRead T object field recv m n ->
      ((forall a, a.left = some (.fieldAccess object field) ->
          forall actual expected, T.assignmentTypes a = some (actual, expected) ->
            SeenAs S recv m n expected) <->
        (T.declared m.node).Plain ∨ (throughReceiver T recv m).isSome = true ∨
          T.resolveInDocument m.node n = none)) ∧
    (forall m n, m.typeNode = some n ->
      ((forall e, Honours (S.fullType m.dims n) (T.returnTypes m e)) <->
        m.dims = 0 ∨ T.resolveTypeNode n = none)) := by
  refine ⟨?_, ?_, ?_, ?_⟩
  · intro site n _
    exact initializers_honour_iff S site n
  · intro text position b n hbound hwritten
    exact assignments_honour_iff S hbound hwritten
  · intro object field recv m n read
    exact field_assignments_honour_iff S read
  · intro m n hnode
    exact returns_honour_iff S hnode

end Uses

/-!
# One array

    class A { void copy(int[] xs) { int ys[] = xs; } }
-/

namespace ArrayCopy

/-- The type nodes `int` and `int[]`. -/
def node (n : Nat) : TypeNode :=
  if n = 0 then .primitive .int else .array (.primitive .int) 1

def reading (n : Nat) : NodeReading :=
  ⟨node n, [], fun _ _ => none⟩

def declarationNode : Scopes.Node :=
  .localDeclaration [.declarator ⟨"ys", 21⟩ (some (.identifier "xs"))]

def method : Scopes.Node :=
  .callable .method [] [⟨"xs", 20⟩] (some (.block .block [declarationNode]))

/-- The `xs` after the equals sign. -/
def position : List Step :=
  [⟨.declarator ⟨"ys", 21⟩ (some (.identifier "xs")), .value⟩,
    ⟨declarationNode, .item 0⟩, ⟨.block .block [declarationNode], .item 0⟩,
    ⟨method, .body⟩, ⟨.typeDeclaration 1 [] [method], .item 0⟩]

def value : Expr := .name "xs" position

def parameter : Variable := ⟨some 1, false, 0, false, none, false⟩

def copied : Variable := ⟨some 0, false, 1, false, some value, false⟩

def typer : Typer :=
  { AnonymousBody.typer with
    context := ⟨[], fun _ => [], fun _ => none⟩
    declared := fun site => if site = 20 then parameter else copied
    resolveTypeNode := fun n => AnonymousBody.workspace.fromTypeRef (reading n).lowered
    memberTypeNode := fun _ => none
    resolveInDocument := fun _ n => AnonymousBody.workspace.fromTypeRef (reading n).lowered
    assignable := fun actual expected => (assignableRefs ⟨[]⟩ 4 actual expected).join }

def spelling : Spelling typer where
  reading := reading
  memberReading := fun _ => reading
  resolves := fun _ => rfl
  inDocument := fun _ _ => rfl
  recorded := by
    intro m n declaring t _ hnode
    cases hnode

def declarator : DeclaratorNode := ⟨21, some value, ⟨39, 41⟩⟩

/-- `int ys[] = xs;` -/
def declaration : DeclarationNode := ⟨false, some 0, false, [declarator]⟩

/-- `int[] ys = xs;` -/
def inFront : DeclarationNode := ⟨false, some 1, false, [declarator]⟩

theorem assignment_to_parameter_honoured :
    forall a, a.left = some value ->
      Honours (some (.array (.primitive .int))) (typer.assignmentTypes a) :=
  ((declared_dimensions_iff spelling).2.1 "xs" position
    ⟨⟨"xs", 20⟩, .param⟩ 1 rfl rfl).mpr (.inl ⟨rfl, rfl⟩)

theorem copied_array_reported :
    typer.checkInitializers [] declaration =
        [⟨⟨39, 41⟩, "jvl.incompatibleAssignment",
          "incompatible types: int[] cannot be converted to int", none⟩] ∧
      typer.checkInitializers [] inFront = [] ∧
      ¬ Honours (spelling.fullType (typer.declared 21).extraDims 0)
        (typer.initializerTypes declaration declarator) := by
  refine ⟨by decide, by decide, ?_⟩
  intro honours
  have hcompared : typer.initializerTypes declaration declarator =
      some (.array (.primitive .int), .primitive .int) := by
    decide
  cases honours _ _ hcompared

end ArrayCopy

end Expressions
end JavaVsixLite
