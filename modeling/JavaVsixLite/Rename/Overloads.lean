import JavaVsixLite.Calls.Inference
import JavaVsixLite.Calls.MethodCandidates
import JavaVsixLite.Members.Walks
import JavaVsixLite.Rename.References

/-!
# Overloads and references

A call is decided twice.  Overload resolution collects the methods of the name as
candidates and chooses one by the arguments; the search for references takes the
first method of the name among the members of the receiver, whose type it resolves
with a lookup of its own.
-/

namespace JavaVsixLite
namespace Overloads

open Foundation
open Rename (ByteRange Ident ReferenceTarget)
open Calls (ClassMember ClassFacts ClassKind MethodCandidate MethodMetadata)

/-!
# Two views of the declarations
-/

def memberSite : HierMember -> Rename.HierMember
  | .inProject m =>
    .inProject { node := m.node, name := m.name, kind := m.kind, isPrivate := m.isPrivate }
  | .external m => .external m.name m.kind

/--
What a request sees of the declarations.  `refs` is the view of the references, with
receivers that are a type and whether only its static members count.  The rest is the
view of the calls: `typeNode` gives the declaration of an identity and `typeId` the
identity of a declaration, `imports` and `metadata` are about declarations and members,
`compiled` gives the classes without a declaration, and `checkedReceiver` the receivers
whose type is certain.  Every method has a name, which no other declaration has.
-/
structure Sources (Expr : Type) where
  w : Workspace
  refs : Rename.Ctx Expr (ResolvedType × Bool)
  collects : refs.collectMembers = fun r => (collectMembers w r.2 r.1).map memberSite
  named : forall node m, m ∈ (w.decl node).ownMembers -> m.kind = .method ->
    (refs.declSite m.node).isSome = true
  sites : forall a b s, refs.declSite a = some s -> refs.declSite b = some s -> a = b
  typeNode : TypeId -> Option Nat
  typeId : Nat -> TypeId
  imports : Nat -> Imports
  metadata : Nat -> MethodMetadata
  compiled : TypeId -> Option ClassFacts
  objectOnClasspath : Bool
  checkedReceiver : Expr -> Option (TypeRef × Bool)

/-- A call by name.  `choose` is the choice by its arguments among the candidates. -/
structure Call (Expr : Type) where
  range : ByteRange
  name : String
  object : Option Expr
  steps : List Scopes.Step
  choose : List MethodCandidate -> Option MethodCandidate
  chosen : forall candidates c, choose candidates = some c -> c ∈ candidates

/-- The identifiers of a document, none at the place of another. -/
structure Document (Expr : Type) where
  identifiers : List (Ident Expr)
  distinct : forall i j, i ∈ identifiers -> j ∈ identifiers -> i.range = j.range -> i = j

section Views

variable {Expr : Type} (S : Sources Expr)

def classKind : TypeKind -> ClassKind
  | .classKind => .classType
  | .interface => .interfaceType
  | .enum => .enumType
  | .record => .recordType
  | TypeKind.annotation => .annotationType

def declaredMember (m : Member) : Option ClassMember :=
  (memberFromNode m).map (fun e =>
    { name := e.name
      isMethod := e.kind == .method
      metadata := some (S.metadata m.node)
      retDisplay := some m.typeText
      signature := e.signature })

def syntheticMember (e : ExternalMember) : ClassMember :=
  { name := e.name
    isMethod := e.kind == .method
    metadata := none
    retDisplay := none
    signature := e.signature }

def constructorMember (td : TypeDecl) (signature : String) : ClassMember :=
  { name := td.name
    isMethod := false
    metadata := none
    retDisplay := none
    signature := signature }

/-- `class_facts` of a declaration. -/
def sourceFacts (node : Nat) : ClassFacts :=
  let td := S.w.decl node
  { kind := classKind td.kind
    metadata := loweredMetadata S.w.known (S.imports node) td
    members :=
      (td.ownMembers.filter externallyVisible).filterMap (declaredMember S) ++
        td.constructors.map (constructorMember td) ++
        (if td.kind = .enum then (enumSyntheticMembers td.name).map syntheticMember else []) ++
        (lombokMembers S.w.toUppercase td).map syntheticMember }

def facts (id : TypeId) : Option ClassFacts :=
  match S.typeNode id with
  | some node => some (sourceFacts S node)
  | none => S.compiled id

/-- The type whose methods are candidates; without an object, the one around the call. -/
def callReceiver (call : Call Expr) : Option (TypeRef × Bool) :=
  match call.object with
  | some object => S.checkedReceiver object
  | none =>
    match (Scopes.enclosingTypes call.steps).head? with
    | none => none
    | some node => (S.refs.enclosing node).map (fun _ => (.named (S.typeId node) [], false))

/-- The candidate that `resolve_method_call` selects, with the type it was met at. -/
def resolveMethodCall (call : Call Expr) : Option (TypeRef × MethodCandidate) :=
  match callReceiver S call with
  | none => none
  | some (recv, staticOnly) =>
    match Calls.candidatesWithTypes (facts S) S.objectOnClasspath call.name staticOnly recv with
    | none => none
    | some found =>
      (call.choose (found.map Prod.snd)).bind (fun c => found.find? (fun e => e.2 == c))

def Call.ident (call : Call Expr) : Ident Expr :=
  { range := call.range
    text := call.name
    place := .invocation call.object
    steps := call.steps }

def scanReceiver (call : Call Expr) : Option (ResolvedType × Bool) :=
  match call.object with
  | some object => S.refs.resolveReceiverType object
  | none => Rename.enclosingTypedecl S.refs call.steps

/-!
# Selection and attribution
-/

def DeclaredAt (entry : TypeRef × MethodCandidate) (name : String) (m : Member) : Prop :=
  exists id args node, entry.1 = .named id args ∧ S.typeNode id = some node ∧
    m ∈ (S.w.decl node).ownMembers ∧ externallyVisible m = true ∧ m.kind = .method ∧
    m.name = name ∧ S.metadata m.node = entry.2.metadata ∧
    m.erased = entry.2.declaredSignature

def Selects (call : Call Expr) (m : Member) : Prop :=
  exists entry, resolveMethodCall S call = some entry ∧ DeclaredAt S entry call.name m

def SearchFor (m : Member) (target : ReferenceTarget) : Prop :=
  target.name = m.name ∧ S.refs.declSite m.node = some target.site

def targetAt (m : Member) (site : Rename.DeclSite) : ReferenceTarget :=
  { doc := site.doc
    nameRange := site.nameRange
    name := m.name
    tier := Rename.tierOf m.isPrivate }

/-- The call is among the references to the member, and to no other of its name. -/
structure AttributedTo (doc : Document Expr) (call : Call Expr) (m : Member) : Prop where
  found : exists target, SearchFor S m target ∧
    call.range ∈ (Rename.referencesInDoc S.refs doc.identifiers target true).ranges
  only : forall other target, other.name = call.name -> SearchFor S other target ->
    call.range ∈ (Rename.referencesInDoc S.refs doc.identifiers target true).ranges ->
    other.node = m.node

def methodNamed (name : String) : HierMember -> Bool
  | .inProject m => m.name == name && m.kind == .method
  | .external m => m.name == name && m.kind == .method

/-- No method of the name stands before this one among the members of the receiver. -/
def FirstOfName (call : Call Expr) (m : Member) : Prop :=
  exists r before x after, scanReceiver S call = some r ∧
    collectMembers S.w r.2 r.1 = before ++ .inProject x :: after ∧
    x.node = m.node ∧ methodNamed call.name (.inProject x) = true ∧
    forall y, y ∈ before -> methodNamed call.name y = false

end Views

/-!
# What the search finds
-/

section Search

variable {Expr : Type} {S : Sources Expr} {call : Call Expr}

theorem matches_memberSite (name : String) (y : HierMember) :
    ((memberSite y).name == name && Rename.MemberNamespace.method.matchesMember (memberSite y)) =
      methodNamed name y := by
  cases y with
  | inProject m =>
    cases hkind : m.kind <;>
      simp [memberSite, Rename.HierMember.name, methodNamed, hkind,
        Rename.MemberNamespace.matchesMember, Rename.MemberNamespace.matchesKind]
  | external m =>
    simp [memberSite, Rename.HierMember.name, methodNamed, Rename.MemberNamespace.matchesMember]

theorem findMember_eq (S : Sources Expr) (r : ResolvedType × Bool) (name : String) :
    Rename.findMemberHierOfKind S.refs r name .method =
      ((collectMembers S.w r.2 r.1).find? (methodNamed name)).map memberSite := by
  unfold Rename.findMemberHierOfKind
  rw [S.collects, List.find?_map]
  congr 2
  funext y
  exact matches_memberSite name y

theorem classify_call (S : Sources Expr) (call : Call Expr) :
    Rename.classify S.refs call.ident =
      Rename.ofReceiver S.refs (scanReceiver S call) call.name .method := by
  unfold scanReceiver
  cases hobject : call.object with
  | none => simp [Rename.classify, Call.ident, hobject]
  | some object => simp [Rename.classify, Call.ident, hobject]

theorem confirms_call_iff {target : ReferenceTarget} :
    Rename.confirms S.refs target call.ident = true <->
      exists r x, scanReceiver S call = some r ∧
        (collectMembers S.w r.2 r.1).find? (methodNamed call.name) = some (.inProject x) ∧
        S.refs.declSite x.node = some target.site := by
  unfold Rename.confirms
  rw [classify_call]
  cases hscan : scanReceiver S call with
  | none => simp [Rename.ofReceiver]
  | some r =>
    simp only [Rename.ofReceiver, Rename.memberOccurrence, findMember_eq, Option.some.injEq]
    cases hfound : (collectMembers S.w r.2 r.1).find? (methodNamed call.name) with
    | none =>
      constructor
      · intro h
        cases h
      · rintro ⟨r', x, rfl, hx, _⟩
        rw [hfound] at hx
        cases hx
    | some y =>
      cases y with
      | inProject x =>
        constructor
        · intro h
          exact ⟨r, x, rfl, hfound, beq_iff_eq.mp h⟩
        · rintro ⟨r', x', rfl, hx, hsite⟩
          rw [hfound] at hx
          cases hx
          exact beq_iff_eq.mpr hsite
      | external e =>
        constructor
        · intro h
          cases h
        · rintro ⟨r', x, rfl, hx, _⟩
          rw [hfound] at hx
          cases hx

theorem range_mem_references {doc : Document Expr} (hcall : call.ident ∈ doc.identifiers)
    {target : ReferenceTarget} :
    call.range ∈ (Rename.referencesInDoc S.refs doc.identifiers target true).ranges <->
      call.name = target.name ∧ Rename.confirms S.refs target call.ident = true := by
  rw [Rename.mem_referencesInDoc]
  constructor
  · rintro ⟨ident, hident, hname, hconfirms, hrange⟩
    have heq : ident = call.ident := doc.distinct ident call.ident hident hcall hrange
    rw [heq] at hname hconfirms
    exact ⟨hname, hconfirms⟩
  · rintro ⟨hname, hconfirms⟩
    exact ⟨call.ident, hcall, hname, hconfirms, rfl⟩

theorem firstOfName_iff {m : Member} :
    FirstOfName S call m <-> exists r x, scanReceiver S call = some r ∧
      (collectMembers S.w r.2 r.1).find? (methodNamed call.name) = some (.inProject x) ∧
      x.node = m.node := by
  constructor
  · rintro ⟨r, before, x, after, hscan, hsplit, hnode, hmethod, hbefore⟩
    refine ⟨r, x, hscan, ?_, hnode⟩
    rw [List.find?_eq_some_iff_append]
    refine ⟨hmethod, before, after, hsplit, ?_⟩
    intro y hy
    rw [hbefore y hy]
    rfl
  · rintro ⟨r, x, hscan, hfound, hnode⟩
    rcases List.find?_eq_some_iff_append.mp hfound with ⟨hmethod, before, after, hsplit, hbefore⟩
    refine ⟨r, before, x, after, hscan, hsplit, hnode, hmethod, ?_⟩
    intro y hy
    have hother := hbefore y hy
    rwa [Bool.not_eq_true'] at hother

theorem attributed_iff_found {doc : Document Expr} (hcall : call.ident ∈ doc.identifiers)
    {m : Member} (hselects : Selects S call m) :
    AttributedTo S doc call m <-> exists r x, scanReceiver S call = some r ∧
      (collectMembers S.w r.2 r.1).find? (methodNamed call.name) = some (.inProject x) ∧
      x.node = m.node := by
  rcases hselects with ⟨entry, _, id, args, node, _, _, hmem, _, hkind, hname, _, _⟩
  rcases Option.isSome_iff_exists.mp (S.named node m hmem hkind) with ⟨site, hsite⟩
  constructor
  · intro h
    rcases h.found with ⟨target, ⟨htarget, hdecl⟩, hrange⟩
    rcases confirms_call_iff.mp ((range_mem_references hcall).mp hrange).right with
      ⟨r, x, hscan, hfound, hx⟩
    exact ⟨r, x, hscan, hfound, S.sites x.node m.node target.site hx hdecl⟩
  · rintro ⟨r, x, hscan, hfound, hnode⟩
    constructor
    · exists targetAt m site, ⟨rfl, hsite⟩
      apply (range_mem_references hcall).mpr
      refine ⟨hname.symm, confirms_call_iff.mpr ⟨r, x, hscan, hfound, ?_⟩⟩
      rw [hnode]
      exact hsite
    · intro other target _ hsearch hrange
      rcases confirms_call_iff.mp ((range_mem_references hcall).mp hrange).right with
        ⟨r', x', hscan', hfound', hx'⟩
      rw [hscan] at hscan'
      cases hscan'
      rw [hfound] at hfound'
      cases hfound'
      rw [← hnode]
      exact S.sites other.node x.node target.site hsearch.right hx'

/--
The references put a call with the declaration that overload resolution selects, and
with no other one, exactly when that is the first method of the name among the members
of the receiver.
-/
theorem attributed_iff_first {doc : Document Expr} (hcall : call.ident ∈ doc.identifiers)
    {m : Member} (hselects : Selects S call m) :
    AttributedTo S doc call m <-> FirstOfName S call m := by
  rw [firstOfName_iff]
  exact attributed_iff_found hcall hselects

end Search

/-!
# The choice by value arguments
-/

def candidateOf (c : MethodCandidate) : Candidate :=
  { metadata := c.metadata.toMemberMetadata
    env := c.env
    inferred := c.inferred }

/-- The candidate that the phases select once its own variables are inferred. -/
def chooseByArguments (T : ClassTable) (ask : Ask) (args : List TypeRef)
    (candidates : List MethodCandidate) : Option MethodCandidate :=
  match candidates.mapM (fun c => inferMethodTypeArguments T ask args (candidateOf c)) with
  | none => none
  | some prepared =>
    match selectCandidate ask prepared args with
    | some (.selected best _) =>
      ((candidates.zip prepared).find? (fun e => e.2 == best)).map Prod.fst
    | _ => none

theorem chooseByArguments_mem {T : ClassTable} {ask : Ask} {args : List TypeRef}
    (candidates : List MethodCandidate) (c : MethodCandidate)
    (h : chooseByArguments T ask args candidates = some c) : c ∈ candidates := by
  unfold chooseByArguments at h
  split at h
  · cases h
  · split at h
    · rcases Option.map_eq_some_iff.mp h with ⟨⟨c', prepared⟩, hfind, rfl⟩
      exact (List.of_mem_zip (List.mem_of_find?_eq_some hfind)).left
    · cases h

/-!
# Two methods of one name
-/

namespace TwoMethods

def method (node : Nat) (name signature : String) : Member :=
  { node := node, name := name, kind := .method, isStatic := false, isPrivate := false
    isComponent := false, signature := signature, erased := some signature
    typeText := "void", isFinal := false, marks := Marks.none }

def takesInt : Member := method 2 "f" "void f(int)"

def takesString : Member := method 3 "f" "void f(String)"

/-- `class C { void f(int i) {} void f(String s) {} void g() { … } }` -/
def classC : TypeDecl :=
  { TypeDecl.plain "C" "C" [] with
    ownMembers := [takesInt, takesString, method 4 "g" "void g()"] }

def workspace : Workspace :=
  { Workspace.closedOnly (fun _ => false) (fun _ => none) with
    decl := fun node => if node = 1 then classC else TypeDecl.plain "" "" [] }

def imports : Imports := { package := none, single := [], wildcards := [] }

def refs : Rename.Ctx Unit (ResolvedType × Bool) where
  current := 0
  scopes := { importTexts := [], fields := fun _ => [], memberNames := fun _ => none }
  declSite := fun node => some ⟨0, ⟨node, node + 1⟩⟩
  isPrivate := fun _ => false
  imports := imports
  types := []
  enclosing := fun node => if node = 1 then some (.inProject 1 [], false) else none
  resolveReceiverType := fun _ => none
  collectMembers := fun r => (collectMembers workspace r.2 r.1).map memberSite

def stringType : TypeRef := TypeRef.ofName "java.lang.String"

def metadata (node : Nat) : MethodMetadata where
  parameters := some (if node = 2 then [.primitive .int] else if node = 3 then [stringType] else [])
  typeParameters := []
  isVarargs := false
  isStatic := false
  result := .void

def objectFacts : ClassFacts where
  kind := .classType
  metadata := { typeParameters := [], supertypes := [], hierarchyComplete := true }
  members := []

def sources : Sources Unit where
  w := workspace
  refs := refs
  collects := rfl
  named := fun _ _ _ _ => rfl
  sites := by
    intro a b s ha hb
    have hsame := ha.trans hb.symm
    injection hsame with hsite
    injection hsite with _ hrange
    injection hrange
  typeNode := fun id => if id = .named "C" then some 1 else none
  typeId := fun _ => .named "C"
  imports := fun _ => imports
  metadata := metadata
  compiled := fun id => if id = .named "java.lang.Object" then some objectFacts else none
  objectOnClasspath := true
  checkedReceiver := fun _ => none

/-- The call `f(…)` inside of `g`. -/
def call (args : List TypeRef) : Call Unit where
  range := ⟨10, 11⟩
  name := "f"
  object := none
  steps := [⟨.typeDeclaration 1 [] [], .item 0⟩]
  choose := chooseByArguments ⟨[]⟩ (OpenRecursion.run (assignableStep ⟨[]⟩) 1) args
  chosen := chooseByArguments_mem

def document (args : List TypeRef) : Document Unit where
  identifiers := [(call args).ident]
  distinct := by
    intro i j hi hj _
    rw [List.mem_singleton.mp hi, List.mem_singleton.mp hj]

def candidate (node : Nat) (signature : String) : TypeRef × MethodCandidate :=
  (TypeRef.ofName "C",
    { metadata := metadata node, env := [], inferred := [], resultDisplay := some "void"
      declaredSignature := some signature })

def both : List (TypeRef × MethodCandidate) :=
  [candidate 2 "void f(int)", candidate 3 "void f(String)"]

theorem candidates_eq :
    Calls.candidatesWithTypes (facts sources) true "f" false (TypeRef.ofName "C") = some both := by
  have hC : Calls.visitType (facts sources) true "f" false (TypeRef.ofName "C") ⟨[], []⟩ =
      some (⟨[[stringType], [.primitive .int]], both⟩, [TypeRef.ofName "java.lang.Object"]) := by
    decide
  have hObject : Calls.visitType (facts sources) true "f" false
      (TypeRef.ofName "java.lang.Object") ⟨[[stringType], [.primitive .int]], both⟩ =
      some (⟨[[stringType], [.primitive .int]], both⟩, []) := by
    decide
  refine (Calls.candidatesFrom_visit [] (by decide) hC).trans ?_
  refine (Calls.candidatesFrom_visit [] (by decide) hObject).trans ?_
  exact Calls.candidatesFrom_nil _ _

theorem resolve_eq (args : List TypeRef) :
    resolveMethodCall sources (call args) =
      ((call args).choose (both.map Prod.snd)).bind (fun c => both.find? (fun e => e.2 == c)) := by
  have hreceiver : callReceiver sources (call args) = some (TypeRef.ofName "C", false) := rfl
  unfold resolveMethodCall
  rw [hreceiver]
  dsimp only
  have hcandidates : Calls.candidatesWithTypes (facts sources) sources.objectOnClasspath
      (call args).name false (TypeRef.ofName "C") = some both := candidates_eq
  rw [hcandidates]

theorem selects_string : Selects sources (call [stringType]) takesString := by
  exists candidate 3 "void f(String)"
  constructor
  · rw [resolve_eq]
    decide
  · exact ⟨.named "C", [], 1, rfl, rfl, by decide, rfl, rfl, rfl, rfl, rfl⟩

theorem selects_int : Selects sources (call [.primitive .int]) takesInt := by
  exists candidate 2 "void f(int)"
  constructor
  · rw [resolve_eq]
    decide
  · exact ⟨.named "C", [], 1, rfl, rfl, by decide, rfl, rfl, rfl, rfl, rfl⟩

theorem call_mem (args : List TypeRef) : (call args).ident ∈ (document args).identifiers :=
  List.mem_singleton_self _

/-- `f("x")` selects `f(String)` and is a reference to `f(int)`. -/
theorem string_call_misattributed :
    Selects sources (call [stringType]) takesString ∧
      ¬ AttributedTo sources (document [stringType]) (call [stringType]) takesString ∧
      exists target, SearchFor sources takesInt target ∧
        (call [stringType]).range ∈ (Rename.referencesInDoc sources.refs
          (document [stringType]).identifiers target true).ranges := by
  refine ⟨selects_string, ?_, targetAt takesInt ⟨0, ⟨2, 3⟩⟩, ⟨rfl, rfl⟩, by decide⟩
  intro h
  have hnode := h.only takesInt (targetAt takesInt ⟨0, ⟨2, 3⟩⟩) rfl ⟨rfl, rfl⟩ (by decide)
  cases hnode

/-- `f(1)` selects the first of the two and is a reference to it. -/
theorem int_call_attributed :
    AttributedTo sources (document [.primitive .int]) (call [.primitive .int]) takesInt := by
  apply (attributed_iff_first (call_mem [.primitive .int]) selects_int).mpr
  exact ⟨_, [], takesInt, _, rfl, rfl, rfl, rfl, fun y hy => by cases hy⟩

end TwoMethods

end Overloads
end JavaVsixLite
