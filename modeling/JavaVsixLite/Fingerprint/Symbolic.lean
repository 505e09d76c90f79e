import JavaVsixLite.Fingerprint.Lowering

/-!
# Declarations before names are looked up

What a lowered class depends on, with every lookup of a name left open.  A
`Lookup` says which questions `pick` is asked; evaluating a symbolic class at a
`pick` gives the lowered class.
-/

namespace JavaVsixLite
namespace Fingerprint

/-- How a name is looked up: not at all, as one of the candidates, or as a path
and then through the candidates of its head. -/
inductive Lookup where
  | fixed (binary : String)
  | candidates (names : List String)
  | dotted (name : String) (head : List String)

namespace Lookup

def resolve (pick : Pick) : Lookup -> Option String
  | .fixed binary => some binary
  | .candidates names => pick names
  | .dotted name head =>
    match importPathToBinary name (fun candidate => (pick [candidate]).isSome) with
    | some binary => some binary
    | none =>
      match splitHead name with
      | none => none
      | some (_, rest) =>
        match pick head with
        | none => none
        | some outer => pick [outer ++ "$" ++ nestedPath rest]

end Lookup

def headCandidates (imports : Imports) (name : String) : List String :=
  match splitHead name with
  | some (head, _) => imports.candidates head
  | none => []

def lookupOf (imports : Imports) (scope : List (String × String)) (name : String)
    (dotted : Bool) : Lookup :=
  if dotted then .dotted name (headCandidates imports name)
  else
    match scope.find? (fun entry => entry.1 == name) with
    | some entry => .fixed entry.2
    | none => .candidates (imports.candidates name)

theorem resolveNamed_eq (pick : Pick) (imports : Imports) (scope : List (String × String))
    (name : String) (dotted : Bool) :
    resolveNamed pick imports scope name dotted =
      (lookupOf imports scope name dotted).resolve pick := by
  cases dotted with
  | false =>
    simp only [resolveNamed, lookupOf, Bool.false_eq_true, if_false]
    cases scope.find? (fun entry => entry.1 == name) with
    | none => rfl
    | some entry => rfl
  | true =>
    simp only [resolveNamed, lookupOf, headCandidates, if_true, Lookup.resolve]
    cases importPathToBinary name (fun candidate => (pick [candidate]).isSome) with
    | some binary => rfl
    | none =>
      cases splitHead name with
      | none => rfl
      | some parts => rfl

/-!
# Types
-/

inductive SymType where
  | primitive (p : PrimitiveType)
  | void
  | variable (v : TypeVariableId)
  | named (lookup : Lookup) (args : List SymType)
  | array (element : SymType)
  | anything
  | extending (bound : SymType)
  | superOf (bound : SymType)
  | unknown

namespace SymType

mutual
@[grind =] def eval (pick : Pick) : SymType -> TypeRef
  | .primitive p => .primitive p
  | .void => .void
  | .variable v => .typeVariable v
  | .named lookup args =>
    match lookup.resolve pick with
    | some binary => .named (.named binary) (evalAll pick args)
    | none => .unknown
  | .array element => .array (eval pick element)
  | .anything => .wildcard none none
  | .extending bound => .wildcard (some (eval pick bound)) none
  | .superOf bound => .wildcard none (some (eval pick bound))
  | .unknown => .unknown

@[grind =] def evalAll (pick : Pick) : List SymType -> List TypeRef
  | [] => []
  | type :: rest => eval pick type :: evalAll pick rest
end

mutual
def containsUnknown : SymType -> Bool
  | .unknown => true
  | .named _ args => containsUnknownArgs args
  | .array element => containsUnknown element
  | .extending bound => containsUnknown bound
  | .superOf bound => containsUnknown bound
  | _ => false

def containsUnknownArgs : List SymType -> Bool
  | [] => false
  | type :: rest => containsUnknown type || containsUnknownArgs rest
end

def withArgs (args : List SymType) : SymType -> SymType
  | .named lookup _ => .named lookup args
  | _ => .unknown

def wrapArray (element : SymType) : Nat -> SymType
  | 0 => element
  | dims + 1 => .array (wrapArray element dims)

mutual
def ofNode (vars : TypeNode.VariableScope) (lookup : String -> Bool -> Lookup) :
    TypeNode -> SymType
  | .primitive p => .primitive p
  | .void => .void
  | .name simple =>
    match TypeNode.variableNamed vars simple with
    | some v => .variable v
    | none => .named (lookup simple false) []
  | .scoped qualifier simple => .named (lookup (TypeNode.dotted qualifier simple) true) []
  | .generic base args => withArgs (ofNodes vars lookup args) (ofNode vars lookup base)
  | .array element dims => wrapArray (ofNode vars lookup element) dims
  | .annotated inner => ofNode vars lookup inner
  | .wildcard isSuper bound => ofBound vars lookup isSuper bound
  | .broken => .unknown

def ofNodes (vars : TypeNode.VariableScope) (lookup : String -> Bool -> Lookup) :
    List TypeNode -> List SymType
  | [] => []
  | node :: rest => ofNode vars lookup node :: ofNodes vars lookup rest

def ofBound (vars : TypeNode.VariableScope) (lookup : String -> Bool -> Lookup)
    (isSuper : Bool) : Option TypeNode -> SymType
  | none => .anything
  | some node =>
    if isSuper then .superOf (ofNode vars lookup node)
    else .extending (ofNode vars lookup node)
end

theorem eval_wrapArray (pick : Pick) (element : SymType) (dims : Nat) :
    eval pick (wrapArray element dims) = Fingerprint.wrapArray (eval pick element) dims := by
  induction dims with
  | zero => rfl
  | succ dims ih => simp only [wrapArray, eval, Fingerprint.wrapArray, ih]

theorem eval_withArgs (pick : Pick) (args : List SymType) (base : SymType) :
    eval pick (withArgs args base) = TypeNode.withArgs (eval pick base) (evalAll pick args) := by
  cases base with
  | named lookup old =>
    simp only [withArgs, eval]
    cases lookup.resolve pick with
    | none => rfl
    | some binary => rfl
  | _ => rfl

theorem rec_eq_wrapArray (element : TypeRef) (dims : Nat) :
    (Nat.rec element (fun _ t => .array t) dims : TypeRef) =
      Fingerprint.wrapArray element dims := by
  induction dims with
  | zero => rfl
  | succ dims ih =>
    simp only [Fingerprint.wrapArray]
    rw [← ih]

mutual
theorem lower_eq_eval (pick : Pick) (vars : TypeNode.VariableScope)
    (lookup : String -> Bool -> Lookup) :
    forall node, TypeNode.lower vars (fun name dotted => (lookup name dotted).resolve pick) node =
      eval pick (ofNode vars lookup node)
  | .primitive p => rfl
  | .void => rfl
  | .name simple => by
    simp only [TypeNode.lower, ofNode]
    cases TypeNode.variableNamed vars simple with
    | some v => rfl
    | none =>
      simp only [eval]
      cases (lookup simple false).resolve pick with
      | none => rfl
      | some binary => rfl
  | .scoped qualifier simple => by
    simp only [TypeNode.lower, ofNode, eval]
    cases (lookup (TypeNode.dotted qualifier simple) true).resolve pick with
    | none => rfl
    | some binary => rfl
  | .generic base args => by
    simp only [TypeNode.lower, ofNode]
    rw [eval_withArgs, lower_eq_eval pick vars lookup base,
      lowerArgs_eq_evalAll pick vars lookup args]
  | .array element dims => by
    simp only [TypeNode.lower, ofNode]
    rw [eval_wrapArray, ← lower_eq_eval pick vars lookup element, rec_eq_wrapArray]
  | .annotated inner => by
    simp only [TypeNode.lower, ofNode]
    exact lower_eq_eval pick vars lookup inner
  | .wildcard true none => rfl
  | .wildcard false none => rfl
  | .wildcard true (some node) => by
    have hnode := lower_eq_eval pick vars lookup node
    simp only [TypeNode.lower, TypeNode.lowerBound, ofNode, ofBound, if_true, eval, hnode]
  | .wildcard false (some node) => by
    have hnode := lower_eq_eval pick vars lookup node
    simp only [TypeNode.lower, TypeNode.lowerBound, ofNode, ofBound, Bool.false_eq_true,
      if_false, eval, hnode]
  | .broken => rfl

theorem lowerArgs_eq_evalAll (pick : Pick) (vars : TypeNode.VariableScope)
    (lookup : String -> Bool -> Lookup) :
    forall nodes,
      TypeNode.lowerArgs vars (fun name dotted => (lookup name dotted).resolve pick) nodes =
        evalAll pick (ofNodes vars lookup nodes)
  | [] => rfl
  | node :: rest => by
    simp only [TypeNode.lowerArgs, ofNodes, evalAll]
    rw [lower_eq_eval pick vars lookup node, lowerArgs_eq_evalAll pick vars lookup rest]
end

end SymType

/-!
# Members and classes
-/

structure SymParameter where
  id : TypeVariableId
  bounds : List SymType

def SymParameter.eval (pick : Pick) (p : SymParameter) : TypeParameter :=
  { id := p.id, bounds := p.bounds.map (SymType.eval pick) }

structure SymMemberMetadata where
  declaringClass : String
  access : Access
  isStatic : Bool
  isAbstract : Bool
  parameters : Option (List SymType)
  result : SymType
  typeParameters : List SymParameter
  isVarargs : Bool

def SymMemberMetadata.eval (pick : Pick) (m : SymMemberMetadata) : MemberMetadata :=
  { declaringClass := m.declaringClass
    access := m.access
    isStatic := m.isStatic
    isAbstract := m.isAbstract
    parameters := m.parameters.map (fun types => types.map (SymType.eval pick))
    result := m.result.eval pick
    typeParameters := m.typeParameters.map (SymParameter.eval pick)
    isVarargs := m.isVarargs }

/-- `ret` is the lookup of the result type, if it has a name to look up. -/
structure SymMember where
  name : String
  kind : ExternalMemberKind
  isStatic : Bool
  ret : Option Lookup
  retDisplay : Option String
  metadata : Option SymMemberMetadata

def SymMember.eval (pick : Pick) (m : SymMember) : ExternalMember :=
  { name := m.name
    kind := m.kind
    isStatic := m.isStatic
    retFqn := m.ret.bind (Lookup.resolve pick)
    retDisplay := m.retDisplay
    metadata := m.metadata.map (SymMemberMetadata.eval pick) }

/-- `headerBroken` covers supertypes that no lookup can make known. -/
structure SymClass where
  id : String
  kind : TypeKind
  access : Access
  isAbstract : Bool
  isStatic : Bool
  enclosingClass : Option String
  supers : List (List String)
  typeParams : List String
  typeParameters : List SymParameter
  supertypes : List SymType
  headerBroken : Bool
  constructorsComplete : Bool
  members : List SymMember

def placeSupers (kind : TypeKind) (explicit : List String) : List String :=
  if kind = .enum then "java.lang.Enum" :: explicit
  else if explicit.isEmpty then ["java.lang.Object"]
  else explicit

def SymClass.eval (pick : Pick) (c : SymClass) : ExternalClass :=
  let supertypes := c.supertypes.map (SymType.eval pick)
  { supers := placeSupers c.kind (c.supers.filterMap pick)
    typeParams := c.typeParams
    members := c.members.map (SymMember.eval pick)
    metadata := some
      { id := c.id
        kind := c.kind
        access := c.access
        isAbstract := c.isAbstract
        isStatic := c.isStatic
        enclosingClass := c.enclosingClass
        typeParameters := c.typeParameters.map (SymParameter.eval pick)
        supertypes := supertypes
        hierarchyComplete := !c.headerBroken && !supertypes.any TypeRef.containsUnknown
        constructorsComplete := c.constructorsComplete } }

/-!
# The symbolic class of a declaration
-/

def symTypeParametersFrom (owner : String) (lookup : String -> Bool -> Lookup) :
    Nat -> TypeNode.VariableScope -> List (String × List WrittenType) ->
      TypeNode.VariableScope × List SymParameter
  | _, names, [] => (names, [])
  | index, names, (simple, bounds) :: rest =>
    let id : TypeVariableId := ⟨owner, index⟩
    let names' := names ++ [(simple, id)]
    let lowered := symTypeParametersFrom owner lookup (index + 1) names' rest
    (lowered.1,
      { id := id
        bounds := bounds.map (fun b => SymType.ofNode names' lookup b.node) } :: lowered.2)

section Declarations

variable (lookup : String -> Bool -> Lookup) (imports : Imports)

abbrev symType (vars : TypeNode.VariableScope) (type : WrittenType) : SymType :=
  SymType.ofNode vars lookup type.node

abbrev symTypeParameters (owner : String) (outer : TypeNode.VariableScope)
    (parameters : List (String × List WrittenType)) :
    TypeNode.VariableScope × List SymParameter :=
  symTypeParametersFrom owner lookup 0 outer parameters

def symParameter (vars : TypeNode.VariableScope) : Parameter -> Option SymType
  | .formal none _ => none
  | .formal (some type) dims => some (SymType.wrapArray (symType lookup vars type) dims)
  | .spread none => some (.array .unknown)
  | .spread (some type) => some (.array (symType lookup vars type))

def symParameters (vars : TypeNode.VariableScope) (parameters : Option (List Parameter)) :
    List SymType × Bool :=
  match parameters with
  | none => ([], false)
  | some parameters =>
    (parameters.filterMap (symParameter lookup vars), parameters.any Parameter.isSpread)

def symRet (type : WrittenType) : Option Lookup :=
  type.node.baseTypeName.map (fun simple => .candidates (imports.candidates simple))

def symOrUnknown (vars : TypeNode.VariableScope) : Option WrittenType -> SymType
  | none => .unknown
  | some type => symType lookup vars type

def symMethod (kind : TypeKind) (binary : String) (vars : TypeNode.VariableScope)
    (decl : MethodDecl) : SymMember :=
  let owner := methodOwner binary decl.name decl.parameters decl.parametersText
  let typeParameters := symTypeParameters lookup owner vars decl.typeParameters
  let parameters := symParameters lookup typeParameters.1 decl.parameters
  { name := decl.name
    kind := .method
    isStatic := decl.modifiers.isStatic
    ret := decl.result.bind (symRet imports)
    retDisplay := decl.result.map WrittenType.text
    metadata := some
      { declaringClass := binary
        access := memberAccess kind decl.modifiers
        isStatic := decl.modifiers.isStatic
        isAbstract := methodIsAbstract kind decl
        parameters := if decl.headerBroken then none else some parameters.1
        result := symOrUnknown lookup typeParameters.1 decl.result
        typeParameters := typeParameters.2
        isVarargs := parameters.2 } }

def symField (kind : TypeKind) (binary : String) (vars : TypeNode.VariableScope)
    (decl : FieldDecl) : SymMember :=
  { name := decl.name
    kind := .field
    isStatic := decl.isStatic
    ret := decl.type.bind (symRet imports)
    retDisplay := decl.type.map WrittenType.text
    metadata := some
      { declaringClass := binary
        access := memberAccess kind decl.modifiers
        isStatic := decl.isStatic
        isAbstract := false
        parameters := none
        result := SymType.wrapArray (symOrUnknown lookup vars decl.type) decl.dims
        typeParameters := []
        isVarargs := false } }

def symEnumConstant (binary name : String) : SymMember :=
  { name := name
    kind := .field
    isStatic := true
    ret := none
    retDisplay := none
    metadata := some
      { declaringClass := binary
        access := .publicAccess
        isStatic := true
        isAbstract := false
        parameters := none
        result := .named (.fixed binary) []
        typeParameters := []
        isVarargs := false } }

def symMemberFromNode (kind : TypeKind) (binary : String) (vars : TypeNode.VariableScope) :
    MemberDecl -> Option SymMember
  | .enumConstant name => some (symEnumConstant binary name)
  | .method decl =>
    if decl.renders then some (symMethod lookup imports kind binary vars decl) else none
  | .field decl =>
    if decl.renders then some (symField lookup imports kind binary vars decl) else none

def symConstructorMember (name binary : String) (access : Access)
    (parameters : Option (List SymType)) (typeParameters : List SymParameter)
    (isVarargs : Bool) : SymMember :=
  { name := name
    kind := .constructor
    isStatic := false
    ret := none
    retDisplay := none
    metadata := some
      { declaringClass := binary
        access := access
        isStatic := false
        isAbstract := false
        parameters := parameters
        result := .void
        typeParameters := typeParameters
        isVarargs := isVarargs } }

def symConstructorFromNode (binary : String) (vars : TypeNode.VariableScope)
    (decl : ConstructorDecl) : Option SymMember :=
  if decl.renders then
    let owner := methodOwner binary "<init>" decl.parameters decl.parametersText
    let typeParameters := symTypeParameters lookup owner vars decl.typeParameters
    let parameters := symParameters lookup typeParameters.1 decl.parameters
    some (symConstructorMember decl.name binary (accessOf decl.modifiers .packageAccess)
      (if decl.headerBroken then none else some parameters.1) typeParameters.2 parameters.2)
  else none

def symConstructors (header : Header) (binary : String) (classAccess : Access)
    (vars : TypeNode.VariableScope) : List SymMember :=
  if header.kind = .interface ∨ header.kind = TypeKind.annotation then []
  else if header.constructors.isEmpty then
    if header.kind = .record then
      let parameters := symParameters lookup vars header.components
      let access :=
        match header.compactConstructor with
        | some compact => accessOf compact.1 classAccess
        | none => classAccess
      [symConstructorMember header.name binary access (some parameters.1) [] parameters.2]
    else [symConstructorMember header.name binary classAccess (some []) [] false]
  else header.constructors.filterMap (symConstructorFromNode lookup binary vars)

def symSynthetic (m : SyntheticMember) : SymMember :=
  { name := m.name
    kind := .method
    isStatic := m.isStatic
    ret :=
      match m.retFqn with
      | some fqn => some (.fixed fqn)
      | none =>
        (m.retDisplay.bind displayBaseSimple).map
          (fun simple => .candidates (imports.candidates simple))
    retDisplay := m.retDisplay
    metadata := none }

def symEnumMembers (name : String) : List SymMember :=
  [ { name := "values", kind := .method, isStatic := true, ret := none
      retDisplay := some (name ++ "[]"), metadata := none },
    { name := "valueOf", kind := .method, isStatic := true
      ret := some (.candidates (imports.candidates name))
      retDisplay := some name, metadata := none } ]

end Declarations

def symImplicitSupertype (loc : Located) : List SymType :=
  match loc.header.kind with
  | .enum => [.named (.fixed "java.lang.Enum") [.named (.fixed loc.binary) []]]
  | .record => [.named (.fixed "java.lang.Record") []]
  | .classKind =>
    if loc.header.hasSuperclass then [] else [.named (.fixed "java.lang.Object") []]
  | _ => []

def Located.lookup (imports : Imports) (loc : Located) : String -> Bool -> Lookup :=
  lookupOf imports (nestedTypesInScope loc.binary loc.levels)

def symSupers (imports : Imports) (loc : Located) : List (List String) :=
  loc.header.superNodes.filterMap
    (fun type => type.node.baseTypeName.map imports.candidates)

section Classes

variable (toUppercase : Char -> List Char) (imports : Imports) (usesLombok : Bool)

def symMembers (loc : Located) (classNames : TypeNode.VariableScope) : List SymMember :=
  (loc.header.members.filter MemberDecl.externallyVisible).filterMap
      (symMemberFromNode (loc.lookup imports) imports loc.header.kind loc.binary classNames) ++
    symConstructors (loc.lookup imports) loc.header loc.binary
      (accessOf loc.header.modifiers .packageAccess) classNames ++
    (if loc.header.kind = .enum then symEnumMembers imports loc.header.name else []) ++
    (if usesLombok then (synthesize toUppercase loc).map (symSynthetic imports) else [])

def symClass (loc : Located) : SymClass :=
  let params := symTypeParameters (loc.lookup imports) loc.binary [] loc.header.typeParameters
  let supertypes :=
    symImplicitSupertype loc ++ loc.header.superNodes.map (symType (loc.lookup imports) params.1)
  let enclosing := enclosingBinary loc.binary
  { id := loc.binary
    kind := loc.header.kind
    access := accessOf loc.header.modifiers .packageAccess
    isAbstract :=
      loc.header.modifiers.isAbstract || loc.header.kind == .interface ||
        loc.header.kind == TypeKind.annotation
    isStatic :=
      enclosing.isNone || loc.header.modifiers.isStatic || loc.header.kind != .classKind
    enclosingClass := enclosing
    supers := symSupers imports loc
    typeParams := params.1.map (fun entry => entry.1)
    typeParameters := params.2
    supertypes := supertypes
    headerBroken := loc.header.headerBroken || supertypes.any SymType.containsUnknown
    constructorsComplete := constructorsComplete loc.header
    members := symMembers toUppercase imports usesLombok loc params.1 }

end Classes

end Fingerprint
end JavaVsixLite
