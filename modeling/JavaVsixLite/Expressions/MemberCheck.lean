import JavaVsixLite.Expressions.Soundness
import JavaVsixLite.Members.Completeness

/-!
# Unresolved members

`checkMember` reports an access when the type found for the receiver has no
member of the name and its hierarchy was read completely.  The report is an
error when the receiver is typed as in the language and every class on the way
up is read with the name, if it declares it, and with its supertypes.
-/

namespace JavaVsixLite
namespace Expressions

open Scopes (Step)
open Typer (MemberNamespace)

/-!
# The check
-/

/-- A capital first and a small letter somewhere, as in `Map.Entry`. -/
def looksLikeTypeName (text : String) : Bool :=
  (text.toList.head?.any Char.isUpper) && text.toList.any Char.isLower

/-- A field access or a call; `member` is missing while it is being typed. -/
structure MemberAccess where
  object : Option Expr
  member : Option String
  space : MemberNamespace

def kindWord : MemberNamespace -> String
  | .field => "field"
  | .method => "method"

/-- An erased generic result is found as `java.lang.Object`. -/
def isErased : ResolvedType -> Bool
  | .external fqn _ => fqn == "java.lang.Object"
  | _ => false

def checkMember (T : Typer) (access : MemberAccess) : Option String :=
  match access.object, access.member with
  | some object, some member =>
    if access.space == .field && looksLikeTypeName member then none
    else
      match T.resolveReceiverType object with
      | none => none
      | some resolved =>
        if isErased resolved.ty then none
        else
          let (names, complete) := memberNames T.workspace resolved.ty
          if complete && !names.contains member then
            some ("Cannot resolve " ++ kindWord access.space ++ " '" ++
              member ++ "'")
          else none
  | _, _ => none

/-!
# Members in the language
-/

/-- Which names a class declares, and its direct supertypes. -/
structure Hierarchy where
  declares : TypeId -> String -> Prop
  parent : TypeId -> TypeId -> Prop
  anonymous : Nat -> String -> Prop
  bounds : TypeVariableId -> List TypeId

def objectId : TypeId := .named "java.lang.Object"

namespace Hierarchy

variable (H : Hierarchy)

def Inherits (id : TypeId) (name : String) : Prop :=
  exists sup, Relation.ReflTransGen H.parent id sup ∧ H.declares sup name

def TypeHasMember : TypeRef -> String -> Prop
  | .named id _, name => H.Inherits id name
  | .array _, name => name = "length" ∨ name = "clone" ∨ H.declares objectId name
  | .typeVariable v, name => exists id, id ∈ H.bounds v ∧ H.Inherits id name
  | _, _ => False

def HasMember : Denotation -> String -> Prop
  | .value (.ref t), name => H.TypeHasMember t name
  | .value (.anonymous site), name => H.anonymous site name
  | .value (.intersection types), name =>
    exists t, t ∈ types ∧ H.TypeHasMember t name
  | .type t, name => H.TypeHasMember t name

end Hierarchy

/-!
# How the walk reads the classes
-/

namespace Typer

def classId (T : Typer) : ResolvedType -> Option TypeId
  | .inProject node _ => some (T.typeId node)
  | .external fqn _ => some (.named fqn)
  | _ => none

end Typer

/--
Every class found from the receiver is read with the name, if it declares it,
and with its supertypes; `java.lang.Object` is on top and read from the
symbol source.
-/
structure Described (T : Typer) (H : Hierarchy) (name : String)
    (receiver : ResolvedType) : Prop where
  declared : forall t id, Reachable T.workspace receiver t ->
    T.classId t = some id -> H.declares id name ->
      name ∈ contributedNames T.workspace t
  parents : forall t id sup, Reachable T.workspace receiver t ->
    T.classId t = some id -> H.parent id sup -> sup = objectId ∨
      exists u, u ∈ successors T.workspace t ∧ T.classId u = some sup
  object : forall c, T.workspace.classOf "java.lang.Object" = some c ->
    H.declares objectId name -> name ∈ c.members.map ExternalMember.name
  top : forall sup, ¬ H.parent objectId sup

section Walk

variable {T : Typer} {H : Hierarchy} {name : String} {receiver : ResolvedType}

theorem reached_of_inherits (described : Described T H name receiver)
    {id sup : TypeId} (hid : T.classId receiver = some id)
    (h : Relation.ReflTransGen H.parent id sup) :
    sup = objectId ∨ exists t, Reachable T.workspace receiver t ∧
      T.classId t = some sup := by
  induction h with
  | refl => exact .inr ⟨receiver, .refl, hid⟩
  | tail _ hparent ih =>
    rcases ih with rfl | ⟨t, hreachable, ht⟩
    · exact absurd hparent (described.top _)
    · rcases described.parents t _ _ hreachable ht hparent with hobject | found
      · exact .inl hobject
      · rcases found with ⟨u, hu, hsup⟩
        exact .inr ⟨u, hreachable.tail hu, hsup⟩

theorem object_named (described : Described T H name receiver)
    (hreference : (T.classId receiver).isSome = true ∨
      exists element, receiver = .array element)
    (hcomplete : (memberNames T.workspace receiver).2 = true)
    (h : H.declares objectId name) :
    name ∈ (memberNames T.workspace receiver).1 := by
  cases receiver with
  | inProject node args | external fqn args | array element =>
    cases hobject : T.workspace.classOf "java.lang.Object" with
    | none =>
      simp only [memberNames, hobject] at hcomplete
      cases hcomplete
    | some object =>
      simp only [memberNames, hobject]
      exact List.mem_append_left _ (described.object object hobject h)
  | _ =>
    rcases hreference with hsome | ⟨element, heq⟩
    · cases hsome
    · cases heq

theorem named_of_member (described : Described T H name receiver)
    (hcomplete : (memberNames T.workspace receiver).2 = true)
    (h : H.TypeHasMember (T.typeRef receiver) name) :
    name ∈ (memberNames T.workspace receiver).1 := by
  rcases finalState_of_memberNames hcomplete with ⟨hfinal, hnames⟩
  have inherited : forall id, T.classId receiver = some id ->
      H.Inherits id name -> name ∈ (memberNames T.workspace receiver).1 := by
    rintro id hid ⟨sup, hsup, hdeclares⟩
    rcases reached_of_inherits described hid hsup with rfl | ⟨t, ht, htid⟩
    · exact object_named described (.inl (by rw [hid]; rfl)) hcomplete hdeclares
    · exact hnames ((explored_of_reachable hfinal ht).names
        (described.declared t sup ht htid hdeclares))
  cases receiver with
  | inProject node args => exact inherited _ rfl h
  | external fqn args => exact inherited _ rfl h
  | array element =>
    have explored := (explored_of_reachable hfinal .refl).names
    rcases h with rfl | rfl | hobject
    · exact hnames (explored List.mem_cons_self)
    · exact hnames (explored (List.mem_cons_of_mem _ List.mem_cons_self))
    · exact object_named described (.inr ⟨element, rfl⟩) hcomplete hobject
  | _ => cases h

end Walk

/-!
# Reports
-/

def SameClass : TypeRef -> TypeRef -> Prop
  | .named id _, .named other _ => id = other
  | s, t => s = t

theorem sameClass_refl (t : TypeRef) : SameClass t t := by
  cases t <;> rfl

theorem named_of_sameClass {s : TypeRef} {id : TypeId} {args : List TypeRef}
    (same : SameClass s (.named id args)) : exists own, s = .named id own := by
  cases s with
  | named other own =>
    cases same
    exact ⟨own, rfl⟩
  | _ => cases same

theorem typeHasMember_of_sameClass {H : Hierarchy} {name : String}
    {s t : TypeRef} (same : SameClass s t) (h : H.TypeHasMember t name) :
    H.TypeHasMember s name := by
  unfold SameClass at same
  split at same <;> subst same <;> exact h

section Reports

variable (T : Typer) (J : Java) (H : Hierarchy)

def StandsFor (object : Expr) (r : Resolved) : Prop :=
  exists t, SameClass (T.typeRef r.ty) t ∧
    J.Denotes T object (if r.staticOnly then .type t else .value (.ref t))

/--
The receiver is typed as in the language; for `this` itself it is enough that
the innermost class body is that of a declaration.
-/
def ReceiverClear (object : Expr) : Prop :=
  Clear T J Typer.maxNesting .first 0 object ∨
    exists position node, object = .this position ∧
      classBody position = some (.declaration node)

/-- Whatever stands for the receiver and is read completely is read as it is. -/
def HierarchyRead (object : Expr) (member : String) : Prop :=
  forall r, StandsFor T J object r ->
    (memberNames T.workspace r.ty).2 = true -> Described T H member r.ty

/-- Every report names a member that the static type does not have. -/
def ReportProven (object : Expr) (member : String)
    (space : MemberNamespace) : Prop :=
  forall message, checkMember T ⟨some object, some member, space⟩ = some message ->
    exists d, J.Denotes T object d ∧ ¬ H.HasMember d member

variable {T J H} {object : Expr} {member : String}
  {space : MemberNamespace}

theorem receiver_stands (engine : EngineSound T J) (given : CallsGiven T J)
    (clear : ReceiverClear T J object) {r : Resolved}
    (h : T.resolveReceiverType object = some r) : StandsFor T J object r := by
  rcases clear with clear | ⟨position, node, rfl, hbody⟩
  · exact ⟨T.typeRef r.ty, sameClass_refl _,
      resolveReceiver_right engine given clear h⟩
  · have hnode := enclosingTypedecl_of_classBody hbody
    have hanswer : T.resolveReceiverType (.this position) =
        some (.instance (.inProject node [])) := by
      simp [Typer.resolveReceiverType, Typer.maxNesting, Typer.resolveReceiver,
        Typer.resolveStep, hnode]
    rw [hanswer] at h
    cases h
    exact ⟨J.ownType T node, rfl, .this hbody⟩

theorem checkMember_eq_some {message : String}
    (h : checkMember T ⟨some object, some member, space⟩ = some message) :
    exists r, T.resolveReceiverType object = some r ∧
      (memberNames T.workspace r.ty).2 = true ∧
      member ∉ (memberNames T.workspace r.ty).1 := by
  simp only [checkMember] at h
  split at h
  · cases h
  · split at h
    · cases h
    · rename_i r hr
      split at h
      · cases h
      · split at h
        · rename_i hreport
          rw [Bool.and_eq_true] at hreport
          refine ⟨r, hr, hreport.1, ?_⟩
          simpa using hreport.2
        · cases h

theorem reportProven_of_read (engine : EngineSound T J)
    (given : CallsGiven T J) (clear : ReceiverClear T J object)
    (hread : HierarchyRead T J H object member) :
    ReportProven T J H object member space := by
  intro message hreport
  rcases checkMember_eq_some hreport with ⟨r, hr, hcomplete, habsent⟩
  have stands := receiver_stands engine given clear hr
  have described := hread r stands hcomplete
  rcases stands with ⟨t, same, denotes⟩
  refine ⟨_, denotes, fun hmember => habsent ?_⟩
  apply named_of_member described hcomplete
  apply typeHasMember_of_sameClass same
  split at hmember <;> exact hmember

end Reports

namespace FirstOverload

/-- `a.m(...).c()` -/
def chain : Scopes.Node :=
  .plain .other
    [.plain .other [.identifier "a", .plain .argumentList [.plain .other []]],
      .plain .argumentList []]

/-- `void f(A a) { a.m(...).c(); }` -/
def method : Scopes.Node :=
  .callable .method [] [⟨"a", 20⟩] (some (.block .block [.plain .other [chain]]))

/-- The ancestors of `a` in the class `A`. -/
def position : List Step :=
  [⟨.plain .other [.identifier "a", .plain .argumentList [.plain .other []]],
      .item 0⟩,
    ⟨chain, .item 0⟩, ⟨.plain .other [chain], .item 0⟩,
    ⟨.block .block [.plain .other [chain]], .item 0⟩, ⟨method, .body⟩,
    ⟨.typeDeclaration 1 [] [method], .item 0⟩]

/-- `a.m(...)`, known by the site of the call. -/
def receiver (site : Nat) : Expr :=
  .call site (some (.name "a" position)) "m" position

def methodMember (node : Nat) (name signature typeText : String) : Member :=
  { AnonymousBody.count with
    node := node
    name := name
    kind := .method
    signature := signature
    typeText := typeText }

/-- `class A { B m(int i); C m(String s); ... } class B {} class C { void c(); }` -/
def ownMembers (node : Nat) : List Member :=
  if node = 1 then
    [methodMember 31 "m" "B m(int)" "B", methodMember 32 "m" "C m(String)" "C",
      methodMember 33 "f" "void f(A)" "void"]
  else if node = 3 then [methodMember 34 "c" "void c()" "void"]
  else []

def className (node : Nat) : TypeId :=
  if node = 1 then .named "A" else if node = 2 then .named "B"
  else if node = 3 then .named "C" else .localClass 0 node

def workspace : Workspace :=
  { Workspace.closedOnly (fun fqn => fqn = "java.lang.Object")
      (fun fqn => if fqn = "java.lang.Object" then some (.compiled ⟨[], [], none⟩)
        else none) with
    decl := fun node =>
      { TypeDecl.plain "A" "A" [] with ownMembers := ownMembers node }
    hasDocument := fun _ => true
    getNamed := fun binary => [1, 2, 3].find? (fun node =>
      className node == .named binary) }

def typer : Typer :=
  { AnonymousBody.typer with
    workspace := workspace
    context := ⟨[], fun _ => [], fun _ => none⟩
    typeId := className
    typeId_named := by
      intro binary node h
      simpa using List.find?_some h
    typeId_local := by
      intro document declaration node h
      cases h
    declared := fun site =>
      if site = 20 then ⟨some 5, false, 0, false, none, false⟩
      else ⟨none, false, 0, false, none, false⟩
    resolveTypeNode := fun node =>
      if node = 5 then some (.inProject 1 []) else none
    resolveInDocument := fun member _ =>
      if member = 31 then some (.inProject 2 [])
      else if member = 32 then some (.inProject 3 [])
      else some .void }

def java : Java :=
  { AnonymousBody.java with
    typeNode := fun _ => TypeRef.ofName "A"
    callType := fun site =>
      .ref (TypeRef.ofName (if site = 1 then "C" else "B")) }

def hierarchy : Hierarchy where
  declares := fun id name => (id, name) ∈
    [(TypeId.named "A", "m"), (.named "A", "f"), (.named "C", "c")]
  parent := fun id sup => sup = objectId ∧ id ≠ objectId
  anonymous := fun _ _ => False
  bounds := fun _ => []

theorem calls_given : CallsGiven typer java where
  methods := fun _ _ h => by cases h
  creations := fun _ _ h => by cases h

theorem call_denotes {site : Nat} {d : Denotation}
    (h : java.Denotes typer (receiver site) d) :
    d = .value (.ref (TypeRef.ofName (if site = 1 then "C" else "B"))) := by
  cases h with
  | call => rfl

theorem class_of_stands {site : Nat} {r : Resolved}
    (stands : StandsFor typer java (receiver site) r) :
    exists args, typer.typeRef r.ty =
      .named (.named (if site = 1 then "C" else "B")) args := by
  rcases stands with ⟨t, same, denotes⟩
  have hd := call_denotes denotes
  split at hd
  · cases hd
  · injection hd with hvalue
    injection hvalue with ht
    subst ht
    exact named_of_sameClass same

theorem described_of_declared {name : String} {ty : ResolvedType}
    (declared : forall t id, Reachable typer.workspace ty t ->
      typer.classId t = some id -> hierarchy.declares id name ->
        name ∈ contributedNames typer.workspace t)
    (hobject : ¬ hierarchy.declares objectId name) :
    Described typer hierarchy name ty where
  declared := declared
  parents := fun _ _ _ _ _ hparent => .inl hparent.1
  object := fun _ _ hdeclares => absurd hdeclares hobject
  top := fun _ hparent => hparent.2 rfl

theorem hierarchy_read : HierarchyRead typer java hierarchy (receiver 1) "c" := by
  rintro ⟨ty, static⟩ stands hcomplete
  rcases class_of_stands stands with ⟨args, hclass⟩
  cases ty with
  | inProject node own =>
    have hname : className node = .named "C" := by injection hclass
    have hnode : node = 3 := by grind [className]
    subst hnode
    apply described_of_declared
    · intro t id hreachable _ _
      rcases Relation.ReflTransGen.cases_head hreachable with rfl | ⟨u, hu, -⟩
      · show "c" ∈ ["c"]
        exact List.mem_cons_self
      · cases hu
    · simp [hierarchy, objectId]
  | external fqn own =>
    -- the class is open, and the symbol source does not have it
    have hfqn : fqn = "C" := by
      injection hclass with hid
      injection hid
    subst hfqn
    cases hcomplete
  | _ => cases hclass

theorem a_denotes {d : Denotation}
    (h : java.Denotes typer (.name "a" position) d) :
    d = .value (.ref (TypeRef.ofName "A")) := by
  have hnamed : java.variableNamed position "a" = some ⟨"a", 20⟩ := rfl
  cases h with
  | written hbound hwritten =>
    rw [hnamed] at hbound
    cases hbound
    cases hwritten
    rfl
  | lambda hbound hwritten =>
    rw [hnamed] at hbound
    cases hbound
    cases hwritten
  | inferred hbound hwritten =>
    rw [hnamed] at hbound
    cases hbound
    cases hwritten
  | element hbound hwritten =>
    rw [hnamed] at hbound
    cases hbound
    cases hwritten
  | typeName hbound =>
    rw [hnamed] at hbound
    cases hbound

theorem first_method_right {cur : Resolved}
    (right : Right typer java (.name "a" position) cur) :
    FirstMethodRight typer java 2 "m" cur := by
  intro m ty hfound hresult
  rcases cur with ⟨receiver, static⟩
  have hd := a_denotes right
  cases static with
  | true => cases hd
  | false =>
    have hclass : typer.typeRef receiver = TypeRef.ofName "A" := by
      injection hd with hvalue
      injection hvalue
    cases receiver with
    | inProject node own =>
      have hname : className node = .named "A" := by injection hclass
      have hnode : node = 1 := by grind [className]
      subst hnode
      cases hfound
      cases hresult
      rfl
    | external fqn own =>
      have hfqn : fqn = "A" := by
        injection hclass with hid
        injection hid
      subst hfqn
      cases hfound
    | _ => cases hclass

theorem name_clear : NameClear typer java (Clear typer java 62) .first 2 "a"
    position where
  bound := by
    intro b hb
    have hbinding : Scopes.lookupBinding typer.context position "a" =
        some ⟨⟨"a", 20⟩, .param⟩ := rfl
    rw [hbinding] at hb
    cases hb
    exact ⟨rfl,
      { written := by
          intro node r hnode hr
          cases hnode
          cases hr
          exact ⟨rfl, rfl, rfl⟩
        lambda := fun _ _ hnode => by cases hnode
        inferred := fun _ hnode => by cases hnode
        element := fun _ _ _ hnode => by cases hnode }⟩
  unbound := fun _ hnone => by cases hnone

theorem receiver_clear : ReceiverClear typer java (receiver 2) :=
  .inl (fun _ _ => ⟨fun _ => name_clear, fun _ => first_method_right⟩)

end FirstOverload

end Expressions
end JavaVsixLite
