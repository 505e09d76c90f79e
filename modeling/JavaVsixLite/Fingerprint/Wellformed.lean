import Mathlib.Data.List.TakeWhile
import JavaVsixLite.Fingerprint.Readings

/-!
# Symbolic classes of source are qualified

Every lookup that source text asks for has at least two candidates, or a path
with a qualifier.
-/

namespace JavaVsixLite
namespace Fingerprint

theorem splitHead_dotted {qualifier : List String} (h : qualifier ≠ []) (simple : String) :
    (splitHead (TypeNode.dotted qualifier simple)).isSome = true := by
  have hdot : '.' ∈ (TypeNode.dotted qualifier simple).toList := by
    unfold TypeNode.dotted
    rw [String.intercalate_append_of_ne_nil h (List.cons_ne_nil simple [])]
    simp
  unfold splitHead
  rw [List.span_eq_takeWhile_dropWhile]
  cases hdrop : (TypeNode.dotted qualifier simple).toList.dropWhile (fun c => c != '.') with
  | nil =>
    have hall := List.dropWhile_eq_nil_iff.mp hdrop '.' hdot
    cases hall
  | cons c rest => rfl

theorem two_le_headCandidates {imports : Imports} {name : String}
    (h : (splitHead name).isSome = true) : 2 ≤ (headCandidates imports name).length := by
  rcases Option.isSome_iff_exists.mp h with ⟨parts, hparts⟩
  simp only [headCandidates, hparts]
  exact two_le_candidates imports parts.1

section Types

variable (imports : Imports) (scope : List (String × String))

theorem lookupOf_simple (name : String) : (lookupOf imports scope name false).Qualified := by
  simp only [lookupOf, Bool.false_eq_true, if_false]
  cases scope.find? (fun entry => entry.1 == name) with
  | some entry => trivial
  | none => exact two_le_candidates imports name

theorem lookupOf_dotted {qualifier : List String} (h : qualifier ≠ []) (simple : String) :
    (lookupOf imports scope (TypeNode.dotted qualifier simple) true).Qualified := by
  have hsplit := splitHead_dotted h simple
  exact ⟨hsplit, two_le_headCandidates hsplit⟩

end Types

namespace SymType

theorem lookups_wrapArray (element : SymType) (dims : Nat) :
    lookups (wrapArray element dims) = lookups element := by
  induction dims with
  | zero => rfl
  | succ dims ih => exact ih

theorem qualified_named {lookup : Lookup} (h : lookup.Qualified) :
    Qualified (.named lookup []) := by
  intro l hl
  rw [List.mem_singleton.mp hl]
  exact h

theorem qualified_withArgs {args : List SymType} {base : SymType} (hbase : Qualified base)
    (hargs : forall l, l ∈ lookupsAll args -> l.Qualified) : Qualified (withArgs args base) := by
  intro l hl
  cases base with
  | named lookup old =>
    rcases List.mem_cons.mp hl with rfl | hrest
    · exact hbase l List.mem_cons_self
    · exact hargs l hrest
  | _ => cases hl

mutual
theorem qualified_ofNode (imports : Imports) (scope : List (String × String))
    (vars : TypeNode.VariableScope) :
    forall node : TypeNode, node.qualified = true ->
      Qualified (ofNode vars (lookupOf imports scope) node)
  | .name simple, _ => by
    simp only [ofNode]
    cases TypeNode.variableNamed vars simple with
    | some v =>
      intro l hl
      cases hl
    | none => exact qualified_named (lookupOf_simple imports scope simple)
  | .scoped qualifier simple, h => by
    simp only [TypeNode.qualified, Bool.not_eq_true', List.isEmpty_eq_false_iff] at h
    exact qualified_named (lookupOf_dotted imports scope h simple)
  | .generic base args, h => by
    simp only [TypeNode.qualified, Bool.and_eq_true] at h
    exact qualified_withArgs (qualified_ofNode imports scope vars base h.1)
      (qualified_ofNodes imports scope vars args h.2)
  | .array element dims, h => by
    have helement := qualified_ofNode imports scope vars element h
    intro l hl
    simp only [ofNode, lookups_wrapArray] at hl
    exact helement l hl
  | .annotated inner, h => qualified_ofNode imports scope vars inner h
  | .wildcard isSuper (some node), h => by
    have hnode := qualified_ofNode imports scope vars node h
    cases isSuper with
    | true => exact hnode
    | false => exact hnode
  | .wildcard isSuper none, _ => by
    intro l hl
    cases hl
  | .primitive p, _ => by
    intro l hl
    cases hl
  | .void, _ => by
    intro l hl
    cases hl
  | .broken, _ => by
    intro l hl
    cases hl

theorem qualified_ofNodes (imports : Imports) (scope : List (String × String))
    (vars : TypeNode.VariableScope) :
    forall nodes : List TypeNode, TypeNode.qualifiedAll nodes = true ->
      forall l, l ∈ lookupsAll (ofNodes vars (lookupOf imports scope) nodes) -> l.Qualified
  | [], _, l, hl => by cases hl
  | node :: rest, h, l, hl => by
    simp only [TypeNode.qualifiedAll, Bool.and_eq_true] at h
    simp only [ofNodes, lookupsAll] at hl
    rcases List.mem_append.mp hl with hnode | hrest
    · exact qualified_ofNode imports scope vars node h.1 l hnode
    · exact qualified_ofNodes imports scope vars rest h.2 l hrest
end

end SymType

/-!
# Members
-/

section Members

variable (imports : Imports) (scope : List (String × String))

theorem qualified_symType (vars : TypeNode.VariableScope) (type : WrittenType) :
    (symType (lookupOf imports scope) vars type).Qualified :=
  SymType.qualified_ofNode imports scope vars type.node type.qualified

theorem qualified_unknown : SymType.Qualified .unknown := by
  intro l hl
  cases hl

theorem qualified_wrapArray {element : SymType} (h : element.Qualified) (dims : Nat) :
    (SymType.wrapArray element dims).Qualified := by
  intro l hl
  rw [SymType.lookups_wrapArray] at hl
  exact h l hl

theorem qualified_symOrUnknown (vars : TypeNode.VariableScope) (type : Option WrittenType) :
    (symOrUnknown (lookupOf imports scope) vars type).Qualified := by
  cases type with
  | none => exact qualified_unknown
  | some type => exact qualified_symType imports scope vars type

theorem qualified_symTypeParametersFrom (owner : String)
    (parameters : List (String × List WrittenType)) :
    forall (index : Nat) (names : TypeNode.VariableScope) (p : SymParameter),
      p ∈ (symTypeParametersFrom owner (lookupOf imports scope) index names parameters).2 ->
      p.Qualified := by
  induction parameters with
  | nil =>
    intro index names p hp
    cases hp
  | cons parameter rest ih =>
    intro index names p hp
    simp only [symTypeParametersFrom] at hp
    rcases List.mem_cons.mp hp with rfl | hrest
    · intro type htype
      rcases List.mem_map.mp htype with ⟨bound, _, rfl⟩
      exact qualified_symType imports scope _ bound
    · exact ih (index + 1) _ p hrest

variable {vars : TypeNode.VariableScope} {binary : String} {m : SymMember}

theorem qualified_symParameter {parameter : Parameter} {type : SymType}
    (h : symParameter (lookupOf imports scope) vars parameter = some type) :
    type.Qualified := by
  cases parameter with
  | formal written dims =>
    cases written with
    | none => cases h
    | some written =>
      cases h
      exact qualified_wrapArray (qualified_symType imports scope vars written) dims
  | spread written =>
    cases written with
    | none =>
      cases h
      exact qualified_unknown
    | some written =>
      cases h
      exact qualified_symType imports scope vars written

theorem qualified_symParameters (vars : TypeNode.VariableScope)
    (parameters : Option (List Parameter)) :
    forall type, type ∈ (symParameters (lookupOf imports scope) vars parameters).1 ->
      type.Qualified := by
  intro type htype
  cases parameters with
  | none => cases htype
  | some parameters =>
    rcases List.mem_filterMap.mp htype with ⟨parameter, _, hparameter⟩
    exact qualified_symParameter imports scope hparameter

structure SymMember.Qualified (m : SymMember) : Prop where
  metadata : forall x, m.metadata = some x -> x.Qualified
  detail : m.detail.Qualified

theorem qualified_ret (type : Option WrittenType) :
    forall lookup, type.bind (symRet imports) = some lookup -> lookup.Qualified := by
  intro lookup h
  cases type with
  | none => cases h
  | some type =>
    simp only [Option.bind_some, symRet, Option.map_eq_some_iff] at h
    rcases h with ⟨simple, _, rfl⟩
    exact two_le_candidates imports simple

theorem qualified_header_parameters {broken : Bool} {parameters : List SymType}
    (h : forall type, type ∈ parameters -> type.Qualified) :
    forall types, (if broken then none else some parameters) = some types ->
      forall type, type ∈ types -> type.Qualified := by
  intro types htypes
  cases broken with
  | true => cases htypes
  | false =>
    cases htypes
    exact h

theorem qualified_symMethod (kind : TypeKind) (binary : String) (vars : TypeNode.VariableScope)
    (decl : MethodDecl) :
    (symMethod (lookupOf imports scope) imports kind binary vars decl).Qualified := by
  constructor
  · intro x hx
    cases hx
    constructor
    · exact qualified_header_parameters (qualified_symParameters imports scope _ decl.parameters)
    · exact qualified_symOrUnknown imports scope _ decl.result
    · exact qualified_symTypeParametersFrom imports scope _ decl.typeParameters 0 vars
  · exact qualified_ret imports decl.result

theorem qualified_symField (kind : TypeKind) (binary : String) (vars : TypeNode.VariableScope)
    (decl : FieldDecl) :
    (symField (lookupOf imports scope) imports kind binary vars decl).Qualified := by
  constructor
  · intro x hx
    cases hx
    constructor
    · intro types htypes
      cases htypes
    · exact qualified_wrapArray (qualified_symOrUnknown imports scope vars decl.type) decl.dims
    · intro p hp
      cases hp
  · exact qualified_ret imports decl.type

theorem qualified_symEnumConstant (binary name : String) :
    (symEnumConstant binary name).Qualified := by
  constructor
  · intro x hx
    cases hx
    constructor
    · intro types htypes
      cases htypes
    · exact SymType.qualified_named trivial
    · intro p hp
      cases hp
  · intro lookup h
    cases h

theorem qualified_symMemberFromNode {kind : TypeKind} {decl : MemberDecl}
    (h : symMemberFromNode (lookupOf imports scope) imports kind binary vars decl = some m) :
    m.Qualified := by
  cases decl with
  | enumConstant name =>
    cases h
    exact qualified_symEnumConstant binary name
  | method decl =>
    simp only [symMemberFromNode] at h
    split at h
    · cases h
      exact qualified_symMethod imports scope kind binary vars decl
    · cases h
  | field decl =>
    simp only [symMemberFromNode] at h
    split at h
    · cases h
      exact qualified_symField imports scope kind binary vars decl
    · cases h

theorem qualified_symConstructorMember {name : String} {access : Access}
    {parameters : Option (List SymType)} {typeParameters : List SymParameter} {isVarargs : Bool}
    (hparameters : forall types, parameters = some types -> forall type, type ∈ types ->
      type.Qualified)
    (htypeParameters : forall p, p ∈ typeParameters -> p.Qualified) :
    (symConstructorMember name binary access parameters typeParameters isVarargs).Qualified := by
  constructor
  · intro x hx
    cases hx
    constructor
    · exact hparameters
    · intro l hl
      cases hl
    · exact htypeParameters
  · intro lookup h
    cases h

theorem qualified_symConstructors {header : Header} {classAccess : Access}
    (h : m ∈ symConstructors (lookupOf imports scope) header binary classAccess vars) :
    m.Qualified := by
  unfold symConstructors at h
  split at h
  · cases h
  · split at h
    · split at h
      · rw [List.mem_singleton.mp h]
        apply qualified_symConstructorMember
        · intro types htypes
          cases htypes
          exact qualified_symParameters imports scope vars header.components
        · intro p hp
          cases hp
      · rw [List.mem_singleton.mp h]
        apply qualified_symConstructorMember
        · intro types htypes
          cases htypes
          intro type htype
          cases htype
        · intro p hp
          cases hp
    · rcases List.mem_filterMap.mp h with ⟨decl, _, hdecl⟩
      unfold symConstructorFromNode at hdecl
      split at hdecl
      · cases hdecl
        apply qualified_symConstructorMember
        · exact qualified_header_parameters
            (qualified_symParameters imports scope _ decl.parameters)
        · exact qualified_symTypeParametersFrom imports scope _ decl.typeParameters 0 vars
      · cases hdecl

theorem qualified_symEnumMembers {name : String} (h : m ∈ symEnumMembers imports name) :
    m.Qualified := by
  rcases List.mem_cons.mp h with rfl | h
  · constructor
    · intro x hx
      cases hx
    · intro lookup hlookup
      cases hlookup
  · rw [List.mem_singleton.mp h]
    constructor
    · intro x hx
      cases hx
    · intro lookup hlookup
      cases hlookup
      exact two_le_candidates imports name

theorem qualified_symSynthetic (s : SyntheticMember) : (symSynthetic imports s).Qualified := by
  constructor
  · intro x hx
    cases hx
  · intro lookup hlookup
    simp only [symSynthetic, SymMember.detail] at hlookup
    split at hlookup
    · cases hlookup
      trivial
    · rcases Option.map_eq_some_iff.mp hlookup with ⟨simple, _, rfl⟩
      exact two_le_candidates imports simple

end Members

/-!
# Classes
-/

section Classes

variable (toUppercase : Char -> List Char) (imports : Imports) (usesLombok : Bool)

theorem qualified_symMembers {loc : Located} {vars : TypeNode.VariableScope} {m : SymMember}
    (h : m ∈ symMembers toUppercase imports usesLombok loc vars) : m.Qualified := by
  unfold symMembers at h
  simp only [List.mem_append] at h
  rcases h with ((hdeclared | hconstructor) | henum) | hsynthetic
  · rcases List.mem_filterMap.mp hdeclared with ⟨decl, _, hdecl⟩
    exact qualified_symMemberFromNode imports _ hdecl
  · exact qualified_symConstructors imports _ hconstructor
  · split at henum
    · exact qualified_symEnumMembers imports henum
    · cases henum
  · split at hsynthetic
    · rcases List.mem_map.mp hsynthetic with ⟨s, _, rfl⟩
      exact qualified_symSynthetic imports s
    · cases hsynthetic

theorem qualified_symImplicitSupertype {loc : Located} {type : SymType}
    (h : type ∈ symImplicitSupertype loc) : type.Qualified := by
  unfold symImplicitSupertype at h
  split at h
  · rw [List.mem_singleton.mp h]
    intro l hl
    rcases List.mem_cons.mp hl with rfl | hl
    · trivial
    · rw [List.mem_singleton.mp hl]
      trivial
  · rw [List.mem_singleton.mp h]
    exact SymType.qualified_named trivial
  · split at h
    · cases h
    · rw [List.mem_singleton.mp h]
      exact SymType.qualified_named trivial
  · cases h

theorem qualified_symClass (loc : Located) :
    (symClass toUppercase imports usesLombok loc).Qualified := by
  constructor
  · constructor
    · exact qualified_symTypeParametersFrom imports _ loc.binary loc.header.typeParameters 0 []
    · intro type htype
      rcases List.mem_append.mp htype with himplicit | hwritten
      · exact qualified_symImplicitSupertype himplicit
      · rcases List.mem_map.mp hwritten with ⟨written, _, rfl⟩
        exact qualified_symType imports _ _ written
    · intro m hm
      rcases List.mem_map.mp hm with ⟨member, hmember, rfl⟩
      exact (qualified_symMembers toUppercase imports usesLombok hmember).metadata
    · intro hany
      exact Bool.or_eq_true_iff.mpr (Or.inr hany)
  · intro d hd
    rcases List.mem_map.mp hd with ⟨member, hmember, rfl⟩
    exact (qualified_symMembers toUppercase imports usesLombok hmember).detail
  · intro names hnames
    rcases List.mem_filterMap.mp hnames with ⟨type, _, htype⟩
    rcases Option.map_eq_some_iff.mp htype with ⟨simple, _, rfl⟩
    exact two_le_candidates imports simple

end Classes

end Fingerprint
end JavaVsixLite
