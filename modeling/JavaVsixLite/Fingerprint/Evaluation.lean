import JavaVsixLite.Fingerprint.Symbolic

/-!
# Lowering is evaluation

The lowered class of a declaration is its symbolic class, evaluated at the
`pick` of the reader.
-/

namespace JavaVsixLite
namespace Fingerprint

namespace SymType

mutual
theorem containsUnknown_eval (pick : Pick) :
    forall type : SymType, type.containsUnknown = true ->
      (type.eval pick).containsUnknown = true
  | .unknown, _ => rfl
  | .named lookup args, h => by
    simp only [containsUnknown] at h
    simp only [eval]
    cases lookup.resolve pick with
    | none => rfl
    | some binary => exact containsUnknownArgs_evalAll pick args h
  | .array element, h => containsUnknown_eval pick element h
  | .extending bound, h => by
    have hbound := containsUnknown_eval pick bound h
    simp only [eval, TypeRef.containsUnknown, TypeRef.containsUnknownBound, hbound,
      Bool.true_or]
  | .superOf bound, h => by
    have hbound := containsUnknown_eval pick bound h
    simp only [eval, TypeRef.containsUnknown, TypeRef.containsUnknownBound, hbound,
      Bool.or_true]

theorem containsUnknownArgs_evalAll (pick : Pick) :
    forall types : List SymType, containsUnknownArgs types = true ->
      TypeRef.containsUnknownArgs (evalAll pick types) = true
  | type :: rest, h => by
    simp only [containsUnknownArgs, Bool.or_eq_true] at h
    simp only [evalAll, TypeRef.containsUnknownArgs, Bool.or_eq_true]
    rcases h with h | h
    · exact Or.inl (containsUnknown_eval pick type h)
    · exact Or.inr (containsUnknownArgs_evalAll pick rest h)
end

theorem any_containsUnknown_eval (pick : Pick) {types : List SymType}
    (h : types.any containsUnknown = true) :
    (types.map (eval pick)).any TypeRef.containsUnknown = true := by
  rcases List.any_eq_true.mp h with ⟨type, hmem, hunknown⟩
  exact List.any_eq_true.mpr
    ⟨eval pick type, List.mem_map_of_mem hmem, containsUnknown_eval pick type hunknown⟩

end SymType

section Evaluation

variable (pick : Pick) (imports : Imports) (lookup : String -> Bool -> Lookup)

abbrev resolverOf : TypeNode.Resolver :=
  fun name dotted => (lookup name dotted).resolve pick

theorem resolver_eq (loc : Located) :
    loc.resolver pick imports = resolverOf pick (loc.lookup imports) := by
  funext name dotted
  exact resolveNamed_eq pick imports (nestedTypesInScope loc.binary loc.levels) name dotted

theorem lowerType_eq (vars : TypeNode.VariableScope) (type : WrittenType) :
    lowerType (resolverOf pick lookup) vars type = (symType lookup vars type).eval pick :=
  SymType.lower_eq_eval pick vars lookup type.node

theorem lowerTypeParametersFrom_eq (owner : String)
    (parameters : List (String × List WrittenType)) :
    forall (index : Nat) (names : TypeNode.VariableScope),
      TypeNode.lowerTypeParameters owner (resolverOf pick lookup) index names
          (parameters.map (fun p => (p.1, p.2.map WrittenType.node))) =
        ((symTypeParametersFrom owner lookup index names parameters).1,
          (symTypeParametersFrom owner lookup index names parameters).2.map
            (SymParameter.eval pick)) := by
  induction parameters with
  | nil =>
    intro index names
    rfl
  | cons parameter rest ih =>
    intro index names
    simp only [List.map_cons, TypeNode.lowerTypeParameters, symTypeParametersFrom, ih,
      SymParameter.eval, List.map_map]
    congr 2
    congr 1
    apply List.map_congr_left
    intro bound _
    exact lowerType_eq pick lookup _ bound

theorem lowerTypeParameters_eq (owner : String) (outer : TypeNode.VariableScope)
    (parameters : List (String × List WrittenType)) :
    lowerTypeParameters (resolverOf pick lookup) owner outer parameters =
      ((symTypeParameters lookup owner outer parameters).1,
        (symTypeParameters lookup owner outer parameters).2.map (SymParameter.eval pick)) :=
  lowerTypeParametersFrom_eq pick lookup owner parameters 0 outer

theorem lowerParameter_eq (vars : TypeNode.VariableScope) (parameter : Parameter) :
    lowerParameter (resolverOf pick lookup) vars parameter =
      (symParameter lookup vars parameter).map (SymType.eval pick) := by
  cases parameter with
  | formal type dims =>
    cases type with
    | none => rfl
    | some type =>
      simp only [lowerParameter, symParameter, Option.map_some, SymType.eval_wrapArray,
        lowerType_eq]
  | spread type =>
    cases type with
    | none => rfl
    | some type =>
      simp only [lowerParameter, symParameter, Option.map_some, SymType.eval, lowerType_eq]

theorem lowerParameters_eq (vars : TypeNode.VariableScope)
    (parameters : Option (List Parameter)) :
    lowerParameters (resolverOf pick lookup) vars parameters =
      ((symParameters lookup vars parameters).1.map (SymType.eval pick),
        (symParameters lookup vars parameters).2) := by
  cases parameters with
  | none => rfl
  | some parameters =>
    simp only [lowerParameters, symParameters, List.map_filterMap]
    congr 2
    funext parameter
    exact lowerParameter_eq pick lookup vars parameter

theorem resolveRetFqn_eq (type : WrittenType) :
    resolveRetFqn pick imports type = (symRet imports type).bind (Lookup.resolve pick) := by
  unfold resolveRetFqn symRet
  cases type.node.baseTypeName with
  | none => rfl
  | some simple => rfl

theorem lowerOrUnknown_eq (vars : TypeNode.VariableScope) (type : Option WrittenType) :
    lowerOrUnknown (resolverOf pick lookup) vars type =
      (symOrUnknown lookup vars type).eval pick := by
  cases type with
  | none => rfl
  | some type => exact lowerType_eq pick lookup vars type

theorem ret_eq (type : Option WrittenType) :
    type.bind (resolveRetFqn pick imports) =
      (type.bind (symRet imports)).bind (Lookup.resolve pick) := by
  cases type with
  | none => rfl
  | some type => exact resolveRetFqn_eq pick imports type

theorem lowerMethod_eq (kind : TypeKind) (binary : String) (vars : TypeNode.VariableScope)
    (decl : MethodDecl) :
    lowerMethod pick imports (resolverOf pick lookup) kind binary vars decl =
      (symMethod lookup imports kind binary vars decl).eval pick := by
  simp only [lowerMethod, symMethod, SymMember.eval, SymMemberMetadata.eval, ret_eq,
    lowerTypeParameters_eq, lowerParameters_eq, lowerOrUnknown_eq, Option.map_some]
  cases decl.headerBroken with
  | true => rfl
  | false => rfl

theorem lowerField_eq (kind : TypeKind) (binary : String) (vars : TypeNode.VariableScope)
    (decl : FieldDecl) :
    lowerField pick imports (resolverOf pick lookup) kind binary vars decl =
      (symField lookup imports kind binary vars decl).eval pick := by
  simp only [lowerField, symField, SymMember.eval, SymMemberMetadata.eval, ret_eq,
    lowerOrUnknown_eq, SymType.eval_wrapArray, Option.map_some, Option.map_none, List.map_nil]

theorem memberFromNode_eq (kind : TypeKind) (binary : String) (vars : TypeNode.VariableScope)
    (decl : MemberDecl) :
    memberFromNode pick imports (resolverOf pick lookup) kind binary vars decl =
      (symMemberFromNode lookup imports kind binary vars decl).map (SymMember.eval pick) := by
  cases decl with
  | enumConstant name => rfl
  | method decl =>
    simp only [memberFromNode, symMemberFromNode, lowerMethod_eq]
    cases decl.renders with
    | true => rfl
    | false => rfl
  | field decl =>
    simp only [memberFromNode, symMemberFromNode, lowerField_eq]
    cases decl.renders with
    | true => rfl
    | false => rfl

theorem constructorMember_eq (name binary : String) (access : Access)
    (parameters : Option (List SymType)) (typeParameters : List SymParameter)
    (isVarargs : Bool) :
    constructorMember name binary access
      (parameters.map (fun types => types.map (SymType.eval pick)))
        (typeParameters.map (SymParameter.eval pick)) isVarargs =
      (symConstructorMember name binary access parameters typeParameters isVarargs).eval pick :=
  rfl

theorem constructorMemberFromNode_eq (binary : String) (vars : TypeNode.VariableScope)
    (decl : ConstructorDecl) :
    constructorMemberFromNode (resolverOf pick lookup) binary vars decl =
      (symConstructorFromNode lookup binary vars decl).map (SymMember.eval pick) := by
  simp only [constructorMemberFromNode, symConstructorFromNode, lowerTypeParameters_eq,
    lowerParameters_eq]
  cases decl.renders with
  | false => rfl
  | true =>
    simp only [if_true, Option.map_some, ← constructorMember_eq]
    cases decl.headerBroken with
    | true => rfl
    | false => rfl

theorem constructorMembers_eq (header : Header) (binary : String) (classAccess : Access)
    (vars : TypeNode.VariableScope) :
    constructorMembers (resolverOf pick lookup) header binary classAccess vars =
      (symConstructors lookup header binary classAccess vars).map (SymMember.eval pick) := by
  unfold constructorMembers symConstructors
  split
  · rfl
  · split
    · split
      · simp only [recordCanonicalConstructor, lowerParameters_eq]
        rfl
      · rfl
    · rw [List.map_filterMap]
      congr 1
      funext decl
      exact constructorMemberFromNode_eq pick lookup binary vars decl

theorem intoExternal_eq (m : SyntheticMember) :
    m.intoExternal pick imports = (symSynthetic imports m).eval pick := by
  unfold SyntheticMember.intoExternal symSynthetic SymMember.eval
  cases m.retFqn with
  | some fqn => rfl
  | none =>
    cases m.retDisplay.bind displayBaseSimple with
    | none => rfl
    | some simple => rfl

theorem enumSyntheticMembers_eq (name : String) :
    enumSyntheticMembers name (pick (imports.candidates name)) =
      (symEnumMembers imports name).map (SymMember.eval pick) :=
  rfl

theorem implicitSupertype_eq (loc : Located) :
    implicitSupertype loc = (symImplicitSupertype loc).map (SymType.eval pick) := by
  unfold implicitSupertype symImplicitSupertype
  cases loc.header.kind with
  | classKind =>
    cases loc.header.hasSuperclass with
    | true => rfl
    | false => rfl
  | _ => rfl

theorem lowerSupers_eq (loc : Located) :
    lowerSupers pick imports loc =
      placeSupers loc.header.kind ((symSupers imports loc).filterMap pick) := by
  have hexplicit : loc.header.superNodes.filterMap (resolveRetFqn pick imports) =
      (symSupers imports loc).filterMap pick := by
    unfold symSupers
    rw [List.filterMap_filterMap]
    congr 1
    funext type
    unfold resolveRetFqn
    cases type.node.baseTypeName with
    | none => rfl
    | some simple => rfl
  unfold lowerSupers placeSupers
  rw [hexplicit]

end Evaluation

section Classes

variable (toUppercase : Char -> List Char) (pick : Pick) (imports : Imports) (usesLombok : Bool)

theorem members_eq_eval (loc : Located) (vars : TypeNode.VariableScope) :
    (loc.header.members.filter MemberDecl.externallyVisible).filterMap
          (memberFromNode pick imports (resolverOf pick (loc.lookup imports)) loc.header.kind
            loc.binary vars) ++
        constructorMembers (resolverOf pick (loc.lookup imports)) loc.header loc.binary
          (accessOf loc.header.modifiers .packageAccess) vars ++
        (if loc.header.kind = .enum then
          enumSyntheticMembers loc.header.name (pick (imports.candidates loc.header.name))
         else []) ++
        (if usesLombok then
          (synthesize toUppercase loc).map (SyntheticMember.intoExternal pick imports)
         else []) =
      (symMembers toUppercase imports usesLombok loc vars).map (SymMember.eval pick) := by
  have hsynthetic : SyntheticMember.intoExternal pick imports =
      SymMember.eval pick ∘ symSynthetic imports := by
    funext m
    exact intoExternal_eq pick imports m
  have hdeclared :
      memberFromNode pick imports (resolverOf pick (loc.lookup imports)) loc.header.kind
          loc.binary vars =
        fun decl => (symMemberFromNode (loc.lookup imports) imports loc.header.kind loc.binary
          vars decl).map (SymMember.eval pick) := by
    funext decl
    exact memberFromNode_eq pick imports (loc.lookup imports) loc.header.kind loc.binary vars decl
  unfold symMembers
  rw [List.map_append, List.map_append, List.map_append, List.map_filterMap, hdeclared,
    constructorMembers_eq, enumSyntheticMembers_eq, hsynthetic, apply_ite (List.map _),
    apply_ite (List.map _), List.map_map]
  rfl

theorem hierarchyComplete_eq (broken : Bool) (supertypes : List SymType) :
    (!broken && !(supertypes.map (SymType.eval pick)).any TypeRef.containsUnknown) =
      (!(broken || supertypes.any SymType.containsUnknown) &&
        !(supertypes.map (SymType.eval pick)).any TypeRef.containsUnknown) := by
  cases hany : supertypes.any SymType.containsUnknown with
  | false => rw [Bool.or_false]
  | true => rw [SymType.any_containsUnknown_eval pick hany, Bool.not_true, Bool.and_false,
      Bool.and_false]

theorem lowerMetadata_eq (loc : Located) :
    some (lowerMetadata pick imports loc) =
      ((symClass toUppercase imports usesLombok loc).eval pick).metadata := by
  have hsupers : (symImplicitSupertype loc).map (SymType.eval pick) ++
      loc.header.superNodes.map (lowerType (resolverOf pick (loc.lookup imports))
        (symTypeParameters (loc.lookup imports) loc.binary [] loc.header.typeParameters).1) =
      (symImplicitSupertype loc ++ loc.header.superNodes.map (symType (loc.lookup imports)
        (symTypeParameters (loc.lookup imports) loc.binary [] loc.header.typeParameters).1)).map
          (SymType.eval pick) := by
    rw [List.map_append, List.map_map]
    congr 1
    apply List.map_congr_left
    intro type _
    exact lowerType_eq pick (loc.lookup imports) _ type
  simp only [lowerMetadata, symClass, SymClass.eval, resolver_eq, lowerTypeParameters_eq,
    implicitSupertype_eq pick, hsupers]
  rw [hierarchyComplete_eq]

theorem toExternalClass_eq_eval (loc : Located) :
    toExternalClass toUppercase pick imports usesLombok loc =
      (symClass toUppercase imports usesLombok loc).eval pick := by
  have hmetadata := lowerMetadata_eq toUppercase pick imports usesLombok loc
  unfold toExternalClass
  simp only [resolver_eq, lowerTypeParameters_eq, lowerSupers_eq, members_eq_eval, hmetadata]
  rfl

end Classes

end Fingerprint
end JavaVsixLite
