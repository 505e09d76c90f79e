import JavaVsixLite.Foundation.Readouts
import JavaVsixLite.Fingerprint.Evaluation
import JavaVsixLite.Fingerprint.Lookups

/-!
# Symbolic classes are legible

A lowered class, read at a resolving `pick`, shows everything of its symbolic
class but the lookups behind the names.
-/

namespace JavaVsixLite
namespace Fingerprint

abbrev Legible {A B : Type} (ok : A -> Prop) (read : Pick -> A -> B)
    (notes : A -> List Lookup) : Prop :=
  Readouts.Legible Resolving Lookup.resolve ok read notes

/-!
# Types
-/

namespace SymType

mutual
def lookups : SymType -> List Lookup
  | .named lookup args => lookup :: lookupsAll args
  | .array element => lookups element
  | .extending bound => lookups bound
  | .superOf bound => lookups bound
  | _ => []

def lookupsAll : List SymType -> List Lookup
  | [] => []
  | type :: rest => lookups type ++ lookupsAll rest
end

def Qualified (type : SymType) : Prop :=
  forall lookup, lookup ∈ type.lookups -> lookup.Qualified

def isLeaf : SymType -> Bool
  | .named _ _ => false
  | .array _ => false
  | .extending _ => false
  | .superOf _ => false
  | _ => true

section Reading

variable {pick : Pick} (hp : Resolving pick)
include hp

theorem eval_named {lookup : Lookup} {args : List SymType}
    (hq : Qualified (.named lookup args)) :
    exists binary, lookup.resolve pick = some binary ∧
      eval pick (.named lookup args) = .named (.named binary) (evalAll pick args) := by
  have hsome := hp lookup (hq lookup List.mem_cons_self)
  rcases Option.isSome_iff_exists.mp hsome with ⟨binary, hbinary⟩
  exact ⟨binary, hbinary, by simp only [eval, hbinary]⟩

theorem eval_leaf {a b : SymType} (hleaf : a.isLeaf = true) (hb : Qualified b)
    (h : eval pick a = eval pick b) : a = b := by
  cases b with
  | named lookup args =>
    rcases eval_named hp hb with ⟨binary, _, heval⟩
    rw [heval] at h
    cases a <;> cases hleaf <;> cases h
  | _ => cases a <;> cases hleaf <;> cases h <;> rfl

theorem eval_eq_named {b : SymType} (hb : Qualified b) {binary : String} {args : List TypeRef}
    (h : eval pick b = .named (.named binary) args) :
    exists lookup types, b = .named lookup types ∧ lookup.resolve pick = some binary ∧
      evalAll pick types = args := by
  cases b with
  | named lookup types =>
    rcases eval_named hp hb with ⟨binary', hresolve, heval⟩
    rw [heval] at h
    cases h
    exact ⟨lookup, types, rfl, hresolve, rfl⟩
  | _ => cases h

theorem eval_eq_array {b : SymType} (hb : Qualified b) {element : TypeRef}
    (h : eval pick b = .array element) :
    exists type, b = .array type ∧ eval pick type = element := by
  cases b with
  | array type =>
    cases h
    exact ⟨type, rfl, rfl⟩
  | named lookup types =>
    rcases eval_named hp hb with ⟨_, _, heval⟩
    rw [heval] at h
    cases h
  | _ => cases h

theorem eval_eq_extending {b : SymType} (hb : Qualified b) {bound : TypeRef}
    (h : eval pick b = .wildcard (some bound) none) :
    exists type, b = .extending type ∧ eval pick type = bound := by
  cases b with
  | extending type =>
    cases h
    exact ⟨type, rfl, rfl⟩
  | named lookup types =>
    rcases eval_named hp hb with ⟨_, _, heval⟩
    rw [heval] at h
    cases h
  | _ => cases h

theorem eval_eq_superOf {b : SymType} (hb : Qualified b) {bound : TypeRef}
    (h : eval pick b = .wildcard none (some bound)) :
    exists type, b = .superOf type ∧ eval pick type = bound := by
  cases b with
  | superOf type =>
    cases h
    exact ⟨type, rfl, rfl⟩
  | named lookup types =>
    rcases eval_named hp hb with ⟨_, _, heval⟩
    rw [heval] at h
    cases h
  | _ => cases h

end Reading

theorem qualified_args {lookup : Lookup} {args : List SymType}
    (hq : Qualified (.named lookup args)) :
    forall l, l ∈ lookupsAll args -> l.Qualified := by
  intro l hl
  exact hq l (List.mem_cons_of_mem lookup hl)

theorem split_congr (wrap : SymType -> SymType) {a b : SymType} {r s : List Lookup}
    (h : a = b ∧ r = s) : wrap a = wrap b ∧ r = s :=
  ⟨congrArg wrap h.1, h.2⟩

mutual
theorem eval_legible {pick : Pick} (hp : Resolving pick) :
    forall a b : SymType, Qualified a -> Qualified b -> eval pick a = eval pick b ->
      (lookups a).map (Lookup.resolve pick) = (lookups b).map (Lookup.resolve pick) ∧
        forall r s, lookups a ++ r = lookups b ++ s -> a = b ∧ r = s
  | .named lookup args, b, ha, hb, h => by
    rcases eval_named hp ha with ⟨binary, hresolve, heval⟩
    rw [heval] at h
    rcases eval_eq_named hp hb h.symm with ⟨lookup', args', rfl, hresolve', hargs⟩
    rcases evalAll_legible hp args args' (qualified_args ha) (qualified_args hb) hargs.symm with
      ⟨hvalues, hsplit⟩
    constructor
    · simp only [lookups, List.map_cons, hresolve, hresolve', hvalues]
    · intro r s hnotes
      simp only [lookups, List.cons_append] at hnotes
      rcases List.cons.inj hnotes with ⟨hlookup, hrest⟩
      rcases hsplit r s hrest with ⟨htypes, hend⟩
      exact ⟨by rw [hlookup, htypes], hend⟩
  | .array element, b, ha, hb, h => by
    rcases eval_eq_array hp hb h.symm with ⟨element', rfl, helement⟩
    rcases eval_legible hp element element' ha hb helement.symm with ⟨hvalues, hsplit⟩
    exact ⟨hvalues, fun r s hnotes => split_congr _ (hsplit r s hnotes)⟩
  | .extending bound, b, ha, hb, h => by
    rcases eval_eq_extending hp hb h.symm with ⟨bound', rfl, hbound⟩
    rcases eval_legible hp bound bound' ha hb hbound.symm with ⟨hvalues, hsplit⟩
    exact ⟨hvalues, fun r s hnotes => split_congr _ (hsplit r s hnotes)⟩
  | .superOf bound, b, ha, hb, h => by
    rcases eval_eq_superOf hp hb h.symm with ⟨bound', rfl, hbound⟩
    rcases eval_legible hp bound bound' ha hb hbound.symm with ⟨hvalues, hsplit⟩
    exact ⟨hvalues, fun r s hnotes => split_congr _ (hsplit r s hnotes)⟩
  | .primitive p, b, _, hb, h => by
    cases eval_leaf hp rfl hb h
    exact ⟨rfl, fun _ _ hnotes => ⟨rfl, hnotes⟩⟩
  | .void, b, _, hb, h => by
    cases eval_leaf hp rfl hb h
    exact ⟨rfl, fun _ _ hnotes => ⟨rfl, hnotes⟩⟩
  | .variable v, b, _, hb, h => by
    cases eval_leaf hp rfl hb h
    exact ⟨rfl, fun _ _ hnotes => ⟨rfl, hnotes⟩⟩
  | .anything, b, _, hb, h => by
    cases eval_leaf hp rfl hb h
    exact ⟨rfl, fun _ _ hnotes => ⟨rfl, hnotes⟩⟩
  | .unknown, b, _, hb, h => by
    cases eval_leaf hp rfl hb h
    exact ⟨rfl, fun _ _ hnotes => ⟨rfl, hnotes⟩⟩

theorem evalAll_legible {pick : Pick} (hp : Resolving pick) :
    forall as bs : List SymType, (forall l, l ∈ lookupsAll as -> l.Qualified) ->
      (forall l, l ∈ lookupsAll bs -> l.Qualified) -> evalAll pick as = evalAll pick bs ->
      (lookupsAll as).map (Lookup.resolve pick) = (lookupsAll bs).map (Lookup.resolve pick) ∧
        forall r s, lookupsAll as ++ r = lookupsAll bs ++ s -> as = bs ∧ r = s
  | [], [], _, _, _ => ⟨rfl, fun _ _ hnotes => ⟨rfl, hnotes⟩⟩
  | [], b :: bs, _, _, h => by cases h
  | a :: as, [], _, _, h => by cases h
  | a :: as, b :: bs, ha, hb, h => by
    simp only [evalAll] at h
    rcases List.cons.inj h with ⟨hhead, htail⟩
    rcases eval_legible hp a b (fun l hl => ha l (List.mem_append_left _ hl))
        (fun l hl => hb l (List.mem_append_left _ hl)) hhead with ⟨hvalues, hsplit⟩
    rcases evalAll_legible hp as bs (fun l hl => ha l (List.mem_append_right _ hl))
        (fun l hl => hb l (List.mem_append_right _ hl)) htail with ⟨hvalues', hsplit'⟩
    constructor
    · simp only [lookupsAll, List.map_append, hvalues, hvalues']
    · intro r s hnotes
      simp only [lookupsAll, List.append_assoc] at hnotes
      rcases hsplit _ _ hnotes with ⟨hab, hrest⟩
      rcases hsplit' r s hrest with ⟨habs, hend⟩
      exact ⟨by rw [hab, habs], hend⟩
end

theorem legible : Legible Qualified (fun pick type => type.eval pick) lookups := by
  intro pick hp a b ha hb h
  exact eval_legible hp a b ha hb h

mutual
theorem containsUnknown_of_eval {pick : Pick} (hp : Resolving pick) :
    forall type : SymType, Qualified type -> (type.eval pick).containsUnknown = true ->
      type.containsUnknown = true
  | .unknown, _, _ => rfl
  | .named lookup args, hq, h => by
    rcases eval_named hp hq with ⟨binary, _, heval⟩
    rw [heval] at h
    exact containsUnknownArgs_of_evalAll hp args (qualified_args hq) h
  | .array element, hq, h => containsUnknown_of_eval hp element hq h
  | .extending bound, hq, h => by
    simp only [eval, TypeRef.containsUnknown, TypeRef.containsUnknownBound, Bool.or_false] at h
    exact containsUnknown_of_eval hp bound hq h
  | .superOf bound, hq, h => by
    simp only [eval, TypeRef.containsUnknown, TypeRef.containsUnknownBound, Bool.false_or] at h
    exact containsUnknown_of_eval hp bound hq h
  | .primitive _, _, h => by cases h
  | .void, _, h => by cases h
  | .variable _, _, h => by cases h
  | .anything, _, h => by cases h

theorem containsUnknownArgs_of_evalAll {pick : Pick} (hp : Resolving pick) :
    forall types : List SymType, (forall l, l ∈ lookupsAll types -> l.Qualified) ->
      TypeRef.containsUnknownArgs (evalAll pick types) = true ->
      containsUnknownArgs types = true
  | [], _, h => by cases h
  | type :: rest, hq, h => by
    simp only [evalAll, TypeRef.containsUnknownArgs, Bool.or_eq_true] at h
    simp only [containsUnknownArgs, Bool.or_eq_true]
    rcases h with h | h
    · exact Or.inl (containsUnknown_of_eval hp type
        (fun l hl => hq l (List.mem_append_left _ hl)) h)
    · exact Or.inr (containsUnknownArgs_of_evalAll hp rest
        (fun l hl => hq l (List.mem_append_right _ hl)) h)
end

end SymType

/-!
# Members
-/

namespace SymParameter

def lookups (p : SymParameter) : List Lookup :=
  p.bounds.flatMap SymType.lookups

def Qualified (p : SymParameter) : Prop :=
  forall type, type ∈ p.bounds -> type.Qualified

def view (p : SymParameter) : TypeVariableId × List SymType :=
  (p.id, p.bounds)

theorem legible : Legible Qualified (fun pick p => p.eval pick) lookups := by
  apply (Readouts.Legible.const.prod SymType.legible.list).comap view
  · intro a b h
    cases a
    cases b
    cases h
    rfl
  · intro a ha
    exact ⟨trivial, ha⟩
  · intro pick _ a b _ _ h
    exact congrArg (fun t : TypeParameter => (t.id, t.bounds)) h

end SymParameter

namespace SymMemberMetadata

def lookups (m : SymMemberMetadata) : List Lookup :=
  m.parameters.elim [] (fun types => types.flatMap SymType.lookups) ++
    (m.result.lookups ++ m.typeParameters.flatMap SymParameter.lookups)

structure Qualified (m : SymMemberMetadata) : Prop where
  parameters : forall types, m.parameters = some types -> forall t, t ∈ types -> t.Qualified
  result : m.result.Qualified
  typeParameters : forall p, p ∈ m.typeParameters -> p.Qualified

def view (m : SymMemberMetadata) :
    (String × Access × Bool × Bool × Bool) × Option (List SymType) × SymType ×
      List SymParameter :=
  ((m.declaringClass, m.access, m.isStatic, m.isAbstract, m.isVarargs), m.parameters, m.result,
    m.typeParameters)

theorem legible : Legible Qualified (fun pick m => m.eval pick) lookups := by
  apply (Readouts.Legible.const.prod (SymType.legible.list.option.prod
    (SymType.legible.prod SymParameter.legible.list))).comap view
  · intro a b h
    cases a
    cases b
    cases h
    rfl
  · intro m hm
    exact ⟨trivial, hm.parameters, hm.result, hm.typeParameters⟩
  · intro pick _ a b _ _ h
    exact congrArg (fun t : MemberMetadata =>
      ((t.declaringClass, t.access, t.isStatic, t.isAbstract, t.isVarargs), t.parameters,
        t.result, t.typeParameters)) h

end SymMemberMetadata

structure SymDetail where
  isStatic : Bool
  retDisplay : Option String
  ret : Option Lookup

namespace SymDetail

def Qualified (d : SymDetail) : Prop :=
  forall lookup, d.ret = some lookup -> lookup.Qualified

def eval (pick : Pick) (d : SymDetail) : Bool × Option String × Option String :=
  (d.isStatic, d.retDisplay, d.ret.bind (Lookup.resolve pick))

theorem ret_bind_eq_map {pick : Pick} (hp : Resolving pick) {a b : SymDetail} (ha : a.Qualified)
    (hb : b.Qualified)
    (h : a.ret.bind (Lookup.resolve pick) = b.ret.bind (Lookup.resolve pick)) :
    a.ret.map (Lookup.resolve pick) = b.ret.map (Lookup.resolve pick) := by
  cases hra : a.ret with
  | none =>
    cases hrb : b.ret with
    | none => rfl
    | some m =>
      have hsome := hp m (hb m hrb)
      rw [hra, hrb] at h
      simp only [Option.bind_none, Option.bind_some] at h
      rw [← h] at hsome
      cases hsome
  | some l =>
    have hsome := hp l (ha l hra)
    cases hrb : b.ret with
    | none =>
      rw [hra, hrb] at h
      simp only [Option.bind_none, Option.bind_some] at h
      rw [h] at hsome
      cases hsome
    | some m =>
      rw [hra, hrb] at h
      simp only [Option.bind_some] at h
      simp only [Option.map_some, h]

theorem lookup_legible :
    Legible Lookup.Qualified (fun pick lookup => lookup.resolve pick) (fun lookup => [lookup]) := by
  intro pick _ l m _ _ h
  constructor
  · simp only [List.map_cons, List.map_nil, h]
  · intro r s hnotes
    exact List.cons.inj hnotes

def view (d : SymDetail) : (Bool × Option String) × Option Lookup :=
  ((d.isStatic, d.retDisplay), d.ret)

def lookups (d : SymDetail) : List Lookup :=
  d.ret.elim [] (fun lookup => [lookup])

theorem legible : Legible Qualified (fun pick d => d.eval pick) lookups := by
  apply (Readouts.Legible.const.prod lookup_legible.option).comap view
  · intro a b h
    cases a
    cases b
    cases h
    rfl
  · intro d hd
    exact ⟨trivial, hd⟩
  · intro pick hp a b ha hb h
    rcases Prod.mk.inj h with ⟨hstatic, hrest⟩
    rcases Prod.mk.inj hrest with ⟨hdisplay, hret⟩
    exact Prod.ext (Prod.ext hstatic hdisplay) (ret_bind_eq_map hp ha hb hret)

end SymDetail

/-!
# Classes
-/

structure SymShape where
  id : String
  kind : TypeKind
  access : Access
  isAbstract : Bool
  isStatic : Bool
  enclosingClass : Option String
  headerBroken : Bool
  constructorsComplete : Bool
  typeParameters : List SymParameter
  supertypes : List SymType
  members : List ((String × ExternalMemberKind) × Option SymMemberMetadata)

namespace SymShape

def eval (pick : Pick) (s : SymShape) : Shape :=
  let supertypes := s.supertypes.map (SymType.eval pick)
  { metadata := some
      { id := s.id
        kind := s.kind
        access := s.access
        isAbstract := s.isAbstract
        isStatic := s.isStatic
        enclosingClass := s.enclosingClass
        typeParameters := s.typeParameters.map (SymParameter.eval pick)
        supertypes := supertypes
        hierarchyComplete := !s.headerBroken && !supertypes.any TypeRef.containsUnknown
        constructorsComplete := s.constructorsComplete }
    members := s.members.map
      (fun m => (m.1.1, m.1.2, m.2.map (SymMemberMetadata.eval pick))) }

def memberLookups (m : (String × ExternalMemberKind) × Option SymMemberMetadata) : List Lookup :=
  m.2.elim [] SymMemberMetadata.lookups

def lookups (s : SymShape) : List Lookup :=
  s.typeParameters.flatMap SymParameter.lookups ++
    (s.supertypes.flatMap SymType.lookups ++ s.members.flatMap memberLookups)

structure Qualified (s : SymShape) : Prop where
  typeParameters : forall p, p ∈ s.typeParameters -> p.Qualified
  supertypes : forall t, t ∈ s.supertypes -> t.Qualified
  members : forall m, m ∈ s.members -> forall x, m.2 = some x -> x.Qualified
  broken : s.supertypes.any SymType.containsUnknown = true -> s.headerBroken = true

/-- Where every lookup is answered, only a broken header leaves the hierarchy
open. -/
theorem hierarchyComplete_eq_not_broken {pick : Pick} (hp : Resolving pick) {s : SymShape}
    (hs : s.Qualified) :
    (!s.headerBroken && !(s.supertypes.map (SymType.eval pick)).any TypeRef.containsUnknown) =
      !s.headerBroken := by
  cases hany : (s.supertypes.map (SymType.eval pick)).any TypeRef.containsUnknown with
  | false => rw [Bool.not_false, Bool.and_true]
  | true =>
    rcases List.any_eq_true.mp hany with ⟨ref, href, hunknown⟩
    rcases List.mem_map.mp href with ⟨type, htype, rfl⟩
    have hsym := SymType.containsUnknown_of_eval hp type (hs.supertypes type htype) hunknown
    rw [hs.broken (List.any_eq_true.mpr ⟨type, htype, hsym⟩)]
    rfl

def view (s : SymShape) :
    (String × TypeKind × Access × Bool × Bool × Option String × Bool × Bool) ×
      List SymParameter × List SymType ×
      List ((String × ExternalMemberKind) × Option SymMemberMetadata) :=
  ((s.id, s.kind, s.access, s.isAbstract, s.isStatic, s.enclosingClass, s.headerBroken,
    s.constructorsComplete), s.typeParameters, s.supertypes, s.members)

theorem legible : Legible Qualified (fun pick s => s.eval pick) lookups := by
  apply (Readouts.Legible.const.prod (SymParameter.legible.list.prod (SymType.legible.list.prod
    (Readouts.Legible.const.prod SymMemberMetadata.legible.option).list))).comap view
  · intro a b h
    cases a
    cases b
    cases h
    rfl
  · intro s hs
    exact ⟨trivial, hs.typeParameters, hs.supertypes, fun m hm => ⟨trivial, hs.members m hm⟩⟩
  · intro pick hp a b ha hb h
    have hmetadata := Option.some.inj (congrArg Shape.metadata h)
    have hbroken := congrArg ClassMetadata.hierarchyComplete hmetadata
    simp only [hierarchyComplete_eq_not_broken hp ha, hierarchyComplete_eq_not_broken hp hb]
      at hbroken
    have hmembers := congrArg (fun shape : Shape =>
      shape.members.map (fun m => ((m.1, m.2.1), m.2.2))) h
    simp only [eval, List.map_map] at hmembers
    simp only [ClassMetadata.mk.injEq] at hmetadata
    rcases hmetadata with
      ⟨hid, hkind, haccess, habstract, hstatic, henclosing, hparameters, hsupertypes, _, hcomplete⟩
    simp only [view, hid, hkind, haccess, habstract, hstatic, henclosing, hcomplete,
      Bool.not_inj hbroken, Prod.mk.injEq, true_and]
    exact ⟨hparameters, hsupertypes, hmembers⟩

end SymShape

def SymMember.shape (m : SymMember) : (String × ExternalMemberKind) × Option SymMemberMetadata :=
  ((m.name, m.kind), m.metadata)

def SymMember.detail (m : SymMember) : SymDetail :=
  { isStatic := m.isStatic, retDisplay := m.retDisplay, ret := m.ret }

theorem SymMember.eq_of_views {a b : SymMember} (hshape : a.shape = b.shape)
    (hdetail : a.detail = b.detail) : a = b := by
  cases a
  cases b
  cases hshape
  cases hdetail
  rfl

namespace SymClass

def shape (c : SymClass) : SymShape :=
  { id := c.id
    kind := c.kind
    access := c.access
    isAbstract := c.isAbstract
    isStatic := c.isStatic
    enclosingClass := c.enclosingClass
    headerBroken := c.headerBroken
    constructorsComplete := c.constructorsComplete
    typeParameters := c.typeParameters
    supertypes := c.supertypes
    members := c.members.map SymMember.shape }

theorem shape_eval (pick : Pick) (c : SymClass) : (c.eval pick).shape = c.shape.eval pick := by
  simp only [eval, ExternalClass.shape, SymShape.eval, shape, List.map_map]
  rfl

def details (c : SymClass) : List SymDetail :=
  c.members.map SymMember.detail

theorem details_eval (pick : Pick) (c : SymClass) :
    (c.eval pick).members.map (fun m => (m.isStatic, m.retDisplay, m.retFqn)) =
      c.details.map (SymDetail.eval pick) := by
  simp only [eval, details, List.map_map]
  rfl

structure Qualified (c : SymClass) : Prop where
  shape : c.shape.Qualified
  details : forall d, d ∈ c.details -> d.Qualified
  supers : forall names, names ∈ c.supers -> 2 ≤ names.length

/-- The hashed part, the supertype names, the type parameter names and the details
of the members are all there is. -/
theorem eq_of_parts {c d : SymClass} (hshape : c.shape = d.shape) (hsupers : c.supers = d.supers)
    (htypeParams : c.typeParams = d.typeParams) (hdetails : c.details = d.details) : c = d := by
  have hmembers : c.members = d.members :=
    Readouts.list_eq_of_views SymMember.shape SymMember.detail
      (fun _ _ => SymMember.eq_of_views) c.members d.members
      (congrArg SymShape.members hshape) hdetails
  cases c
  cases d
  simp only [shape, SymShape.mk.injEq] at hshape
  simp only at hmembers hsupers htypeParams
  simp only [mk.injEq]
  tauto

/-- One reading of the hashed part, with what it leaves out, gives the class. -/
theorem recover {c d : SymClass} (hc : c.Qualified) (hd : d.Qualified)
    (hread : (c.eval pickFirst).shape = (d.eval pickFirst).shape)
    (hlookups : c.shape.lookups = d.shape.lookups) (hsupers : c.supers = d.supers)
    (htypeParams : c.typeParams = d.typeParams) (hdetails : c.details = d.details) : c = d := by
  rw [shape_eval, shape_eval] at hread
  have hshape := SymShape.legible.recovers pickFirst_resolving hc.shape hd.shape hread hlookups
  exact eq_of_parts hshape hsupers htypeParams hdetails

end SymClass

/-!
# Separation
-/

theorem SymParameter.qualified_lookups {p : SymParameter} (hp : p.Qualified) :
    forall l, l ∈ p.lookups -> l.Qualified := by
  intro l hl
  rcases List.mem_flatMap.mp hl with ⟨type, htype, hmem⟩
  exact hp type htype l hmem

theorem SymMemberMetadata.qualified_lookups {m : SymMemberMetadata} (hm : m.Qualified) :
    forall l, l ∈ m.lookups -> l.Qualified := by
  intro l hl
  rcases List.mem_append.mp hl with hparameters | hrest
  · cases htypes : m.parameters with
    | none =>
      rw [htypes] at hparameters
      cases hparameters
    | some types =>
      rw [htypes] at hparameters
      rcases List.mem_flatMap.mp hparameters with ⟨type, htype, hmem⟩
      exact hm.parameters types htypes type htype l hmem
  · rcases List.mem_append.mp hrest with hresult | htypeParameters
    · exact hm.result l hresult
    · rcases List.mem_flatMap.mp htypeParameters with ⟨p, hp, hmem⟩
      exact SymParameter.qualified_lookups (hm.typeParameters p hp) l hmem

theorem SymShape.qualified_lookups {s : SymShape} (hs : s.Qualified) :
    forall l, l ∈ s.lookups -> l.Qualified := by
  intro l hl
  rcases List.mem_append.mp hl with htypeParameters | hrest
  · rcases List.mem_flatMap.mp htypeParameters with ⟨p, hp, hmem⟩
    exact SymParameter.qualified_lookups (hs.typeParameters p hp) l hmem
  · rcases List.mem_append.mp hrest with hsupertypes | hmembers
    · rcases List.mem_flatMap.mp hsupertypes with ⟨type, htype, hmem⟩
      exact hs.supertypes type htype l hmem
    · rcases List.mem_flatMap.mp hmembers with ⟨m, hm, hmem⟩
      cases hmetadata : m.2 with
      | none =>
        simp only [memberLookups, hmetadata] at hmem
        cases hmem
      | some metadata =>
        simp only [memberLookups, hmetadata] at hmem
        exact SymMemberMetadata.qualified_lookups (hs.members m hm metadata hmetadata) l hmem

theorem SymDetail.qualified_lookups {d : SymDetail} (hd : d.Qualified) :
    forall l, l ∈ d.lookups -> l.Qualified := by
  intro l hl
  cases hret : d.ret with
  | none =>
    simp only [lookups, hret] at hl
    cases hl
  | some lookup =>
    simp only [lookups, hret] at hl
    rw [List.mem_singleton.mp hl]
    exact hd lookup hret

theorem placeSupers_injective {kind : TypeKind} {names others : List String}
    (h : forall name, name ∈ names -> 16 < name.length)
    (h' : forall name, name ∈ others -> 16 < name.length)
    (heq : placeSupers kind names = placeSupers kind others) : names = others := by
  unfold placeSupers at heq
  split at heq
  · exact (List.cons.inj heq).2
  · cases names with
    | nil =>
      cases others with
      | nil => rfl
      | cons other rest =>
        have hlength := h' other List.mem_cons_self
        rw [← (List.cons.inj heq).1] at hlength
        exact absurd hlength (by decide)
    | cons name rest =>
      cases others with
      | nil =>
        have hlength := h name List.mem_cons_self
        rw [(List.cons.inj heq).1] at hlength
        exact absurd hlength (by decide)
      | cons other rest' => exact heq

theorem filterMap_testPick {supers : List (List String)} (marked : List String)
    (h : forall names, names ∈ supers -> 2 ≤ names.length) :
    supers.filterMap (testPick 16 marked true) =
      supers.map (fun names => longName 16 (decide (names = marked))) := by
  induction supers with
  | nil => rfl
  | cons names rest ih =>
    rw [List.filterMap_cons_some (testPick_many 16 marked true (h names List.mem_cons_self)),
      ih (fun x hx => h x (List.mem_cons_of_mem names hx))]
    rfl

theorem length_longNames {supers : List (List String)} (marked : List String) :
    forall name, name ∈ supers.map (fun names => longName 16 (decide (names = marked))) ->
      16 < name.length := by
  intro name hname
  rcases List.mem_map.mp hname with ⟨names, _, rfl⟩
  rw [longName_length]
  omega

theorem supers_separate (kind : TypeKind) {supers others : List (List String)}
    (h : forall names, names ∈ supers -> 2 ≤ names.length)
    (h' : forall names, names ∈ others -> 2 ≤ names.length)
    (heq : forall pick : Pick, placeSupers kind (supers.filterMap pick) =
      placeSupers kind (others.filterMap pick)) : supers = others := by
  have hmarked : forall names other : List String, 2 ≤ names.length -> 2 ≤ other.length ->
      (forall marked : List String, True ->
        longName 16 (decide (names = marked)) = longName 16 (decide (other = marked))) ->
      names = other := by
    intro names other _ _ hvalues
    have hlength := congrArg String.length (hvalues names trivial)
    rw [longName_length, longName_length] at hlength
    exact (eq_marked (Nat.add_left_cancel hlength)).symm
  apply Readouts.list_eq_of_values ⟨[], trivial⟩ hmarked supers others h h'
  · intro marked _
    have hplaced := heq (testPick 16 marked true)
    rw [filterMap_testPick marked h, filterMap_testPick marked h'] at hplaced
    exact placeSupers_injective (length_longNames marked) (length_longNames marked) hplaced

theorem SymClass.separate {c d : SymClass} (hc : c.Qualified) (hd : d.Qualified)
    (heq : forall pick, c.eval pick = d.eval pick) : c = d := by
  have hshape : c.shape = d.shape := by
    apply SymShape.legible.separates ⟨pickFirst, pickFirst_resolving⟩ Lookup.separate
      (fun s hs => SymShape.qualified_lookups hs) hc.shape hd.shape
    intro pick _
    rw [← shape_eval, ← shape_eval, heq pick]
  have hdetails : c.details = d.details := by
    apply SymDetail.legible.list.separates ⟨pickFirst, pickFirst_resolving⟩ Lookup.separate
      (fun ds hds l hl => by
        rcases List.mem_flatMap.mp hl with ⟨detail, hdetail, hmem⟩
        exact SymDetail.qualified_lookups (hds detail hdetail) l hmem) hc.details hd.details
    intro pick _
    have hread := details_eval pick c
    rw [heq pick, details_eval pick d] at hread
    exact hread.symm
  have hkind : c.kind = d.kind := congrArg SymShape.kind hshape
  have hsupers : c.supers = d.supers := by
    apply supers_separate c.kind hc.supers hd.supers
    intro pick
    have hread := congrArg ExternalClass.supers (heq pick)
    simp only [eval, ← hkind] at hread
    exact hread
  have htypeParams := congrArg ExternalClass.typeParams (heq pickFirst)
  exact eq_of_parts hshape hsupers htypeParams hdetails

end Fingerprint
end JavaVsixLite
