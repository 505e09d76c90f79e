import JavaVsixLite.Constructors.Creation

/-!
# The constructors a declaration has

A class or enum has the constructors it declares, or a default one.  A record
has those it declares and a canonical one over its components, which a declared
constructor with the types of the components takes the place of; a compact
constructor is the canonical one with a body.  The lowering lists the declared
constructors and adds another one only when nothing is declared.
-/

namespace JavaVsixLite
namespace Constructors

open Fingerprint (Header Located Parameter WrittenType Pick Access)

/-!
# Constructors of the language
-/

inductive JavaConstructor where
  | declared (decl : Fingerprint.ConstructorDecl)
  | default
  | canonical

/-- What a parameter's type denotes, below the type parameters of its constructor. -/
abbrev Denotation (τ : Type) := List (String × List WrittenType) -> Parameter -> τ

section Language

variable {τ : Type} (denotes : Denotation τ)

def typesOf (header : Header) : JavaConstructor -> List τ
  | .declared decl => (decl.parameters.getD []).map (denotes decl.typeParameters)
  | .default => []
  | .canonical => (header.components.getD []).map (denotes [])

def IsCanonical (header : Header) (decl : Fingerprint.ConstructorDecl) : Prop :=
  typesOf denotes header (.declared decl) = typesOf denotes header .canonical

instance [DecidableEq τ] (header : Header) (decl : Fingerprint.ConstructorDecl) :
    Decidable (IsCanonical denotes header decl) :=
  inferInstanceAs (Decidable (_ = _))

def declaredConstructors (header : Header) : List JavaConstructor :=
  header.constructors.map .declared

def implicitConstructor [DecidableEq τ] (header : Header) : List JavaConstructor :=
  if header.kind = .record then
    if header.constructors.any (fun decl => decide (IsCanonical denotes header decl)) then []
    else [.canonical]
  else if header.constructors.isEmpty then [.default]
  else []

/-- The constructors of a class, enum or record. -/
def javaConstructors [DecidableEq τ] (header : Header) : List JavaConstructor :=
  declaredConstructors header ++ implicitConstructor denotes header

end Language

/-!
# Constructors of the lowering
-/

section Lowering

variable (toUppercase : Char -> List Char) (pick : Pick) (imports : Imports)

def classNames (loc : Located) : TypeNode.VariableScope :=
  (Fingerprint.lowerTypeParameters (loc.resolver pick imports) loc.binary []
    loc.header.typeParameters).1

def classAccess (loc : Located) : Access :=
  Fingerprint.accessOf loc.header.modifiers .packageAccess

/-- How a constructor is lowered. -/
def memberOf (loc : Located) : JavaConstructor -> Option Fingerprint.ExternalMember
  | .declared decl =>
    Fingerprint.constructorMemberFromNode (loc.resolver pick imports) loc.binary
      (classNames pick imports loc) decl
  | .default =>
    some (Fingerprint.defaultConstructor loc.header loc.binary (classAccess loc))
  | .canonical =>
    some (Fingerprint.recordCanonicalConstructor (loc.resolver pick imports) loc.header
      loc.binary (classAccess loc) (classNames pick imports loc))

/-- The constructors among the members of a lowered class. -/
def listedConstructors (usesLombok : Bool) (loc : Located) : List Fingerprint.ExternalMember :=
  (Fingerprint.toExternalClass toUppercase pick imports usesLombok loc).members.filter
    (fun m => m.kind == .constructor)

end Lowering

/-!
# Parameter types
-/

section Parameters

variable (pick : Pick) (imports : Imports)

def parametersOf (header : Header) : JavaConstructor -> List Parameter
  | .declared decl => decl.parameters.getD []
  | .default => []
  | .canonical => header.components.getD []

/-- A parameter that is broken off before its type declares nothing. -/
def declaresType : Parameter -> Bool
  | .formal type _ => type.isSome
  | .spread _ => true

/-- The type variables the parameters are read with. -/
def namesAt (loc : Located) : JavaConstructor -> TypeNode.VariableScope
  | .declared decl =>
    (Fingerprint.lowerTypeParameters (loc.resolver pick imports)
      (Fingerprint.methodOwner loc.binary "<init>" decl.parameters decl.parametersText)
      (classNames pick imports loc) decl.typeParameters).1
  | _ => classNames pick imports loc

/-- The written type, with a dimension for each pair of brackets behind the name. -/
def parameterType (loc : Located) (vars : TypeNode.VariableScope) : Parameter -> TypeRef
  | .formal type dims =>
    TypeRef.array^[dims] (Fingerprint.lowerOrUnknown (loc.resolver pick imports) vars type)
  | .spread type =>
    .array (Fingerprint.lowerOrUnknown (loc.resolver pick imports) vars type)

def parameterTypes (loc : Located) (c : JavaConstructor) : List TypeRef :=
  ((parametersOf loc.header c).filter declaresType).map
    (parameterType pick imports loc (namesAt pick imports loc c))

/-- What a listed constructor says about its parameters. -/
structure TakesParameters (loc : Located) (c : JavaConstructor)
    (metadata : Fingerprint.MemberMetadata) : Prop where
  declaringClass : metadata.declaringClass = loc.binary
  parameters : metadata.parameters = some (parameterTypes pick imports loc c)
  isVarargs : metadata.isVarargs =
    (parametersOf loc.header c).any Fingerprint.Parameter.isSpread

end Parameters

/-- No parse error in the body or in the header of a constructor. -/
structure ErrorFree (header : Header) : Prop where
  declared : forall decl, decl ∈ header.constructors ->
    decl.renders = true ∧ decl.headerBroken = false
  compact : forall compact, header.compactConstructor = some compact -> compact.2 = false
  classified : header.unclassified = false

/-- A class, enum or record. -/
def HasConstructors (kind : TypeKind) : Prop :=
  kind ≠ .interface ∧ kind ≠ TypeKind.annotation

section Listed

variable {toUppercase : Char -> List Char} {pick : Pick} {imports : Imports}
  {usesLombok : Bool} {loc : Located}

theorem constructorsComplete_of_errorFree {header : Header} (h : ErrorFree header) :
    Fingerprint.constructorsComplete header = true := by
  have hdeclared : header.constructors.all (fun decl => !decl.headerBroken) = true := by
    rw [List.all_eq_true]
    intro decl hdecl
    rw [(h.declared decl hdecl).right]
    rfl
  have hcompact : header.compactConstructor.all (fun compact => !compact.2) = true := by
    cases hc : header.compactConstructor with
    | none => rfl
    | some compact =>
      rw [Option.all_some, h.compact compact hc]
      rfl
  rw [Fingerprint.constructorsComplete, hdeclared, hcompact, h.classified]
  rfl

theorem memberOf_kind {c : JavaConstructor} {m : Fingerprint.ExternalMember}
    (h : memberOf pick imports loc c = some m) : m.kind = .constructor := by
  cases c with
  | declared decl =>
    simp only [memberOf, Fingerprint.constructorMemberFromNode] at h
    split at h
    · cases h
      rfl
    · cases h
  | default =>
    cases h
    rfl
  | canonical =>
    cases h
    rfl

/-!
# What is listed
-/

theorem memberFromNode_kind {resolve : TypeNode.Resolver} {kind : TypeKind} {binary : String}
    {vars : TypeNode.VariableScope} {decl : Fingerprint.MemberDecl}
    {m : Fingerprint.ExternalMember}
    (h : Fingerprint.memberFromNode pick imports resolve kind binary vars decl = some m) :
    m.kind ≠ .constructor := by
  cases decl with
  | enumConstant name =>
    cases h
    intro hkind
    cases hkind
  | method decl =>
    simp only [Fingerprint.memberFromNode] at h
    split at h
    · cases h
      intro hkind
      cases hkind
    · cases h
  | field decl =>
    simp only [Fingerprint.memberFromNode] at h
    split at h
    · cases h
      intro hkind
      cases hkind
    · cases h

theorem filter_constructors_eq_nil {ms : List Fingerprint.ExternalMember}
    (h : forall m, m ∈ ms -> m.kind ≠ .constructor) :
    ms.filter (fun m => m.kind == .constructor) = [] := by
  rw [List.filter_eq_nil_iff]
  intro m hm hkind
  exact h m hm (beq_iff_eq.mp hkind)

/-- The declared constructors, or the one added when nothing is declared. -/
def loweredConstructors (header : Header) : List JavaConstructor :=
  if header.constructors.isEmpty then
    if header.kind = .record then [.canonical] else [.default]
  else declaredConstructors header

theorem constructorMembers_eq (hkind : HasConstructors loc.header.kind) :
    Fingerprint.constructorMembers (loc.resolver pick imports) loc.header loc.binary
        (classAccess loc) (classNames pick imports loc) =
      (loweredConstructors loc.header).filterMap (memberOf pick imports loc) := by
  have hlisted : ¬ (loc.header.kind = .interface ∨ loc.header.kind = TypeKind.annotation) := by
    rintro (hinterface | hannotation)
    · exact hkind.left hinterface
    · exact hkind.right hannotation
  unfold Fingerprint.constructorMembers loweredConstructors
  rw [if_neg hlisted]
  split
  · split <;> rfl
  · rw [declaredConstructors, List.filterMap_map]
    rfl

theorem listedConstructors_eq (hkind : HasConstructors loc.header.kind) :
    listedConstructors toUppercase pick imports usesLombok loc =
      (loweredConstructors loc.header).filterMap (memberOf pick imports loc) := by
  have hown : ((loc.header.members.filter Fingerprint.MemberDecl.externallyVisible).filterMap
      (Fingerprint.memberFromNode pick imports (loc.resolver pick imports) loc.header.kind
        loc.binary (classNames pick imports loc))).filter
      (fun m => m.kind == .constructor) = [] := by
    apply filter_constructors_eq_nil
    intro m hm
    rcases List.mem_filterMap.mp hm with ⟨decl, _, hdecl⟩
    exact memberFromNode_kind hdecl
  have hconstructors : ((loweredConstructors loc.header).filterMap
      (memberOf pick imports loc)).filter (fun m => m.kind == .constructor) =
        (loweredConstructors loc.header).filterMap (memberOf pick imports loc) := by
    rw [List.filter_eq_self]
    intro m hm
    rcases List.mem_filterMap.mp hm with ⟨c, _, hc⟩
    exact beq_iff_eq.mpr (memberOf_kind hc)
  have henum : (if loc.header.kind = .enum then
        Fingerprint.enumSyntheticMembers loc.header.name
          (pick (imports.candidates loc.header.name))
      else []).filter (fun m => m.kind == .constructor) = [] := by
    apply filter_constructors_eq_nil
    intro m hm hkind'
    split at hm
    · simp only [Fingerprint.enumSyntheticMembers, List.mem_cons, List.not_mem_nil,
        or_false] at hm
      rcases hm with hm | hm
      · rw [hm] at hkind'
        cases hkind'
      · rw [hm] at hkind'
        cases hkind'
    · cases hm
  have hlombok : (if usesLombok then
        (Fingerprint.synthesize toUppercase loc).map
          (Fingerprint.SyntheticMember.intoExternal pick imports)
      else []).filter (fun m => m.kind == .constructor) = [] := by
    apply filter_constructors_eq_nil
    intro m hm hkind'
    split at hm
    · rcases List.mem_map.mp hm with ⟨synthetic, _, hsynthetic⟩
      rw [← hsynthetic] at hkind'
      cases hkind'
    · cases hm
  have hmembers : (Fingerprint.toExternalClass toUppercase pick imports usesLombok loc).members =
      (loc.header.members.filter Fingerprint.MemberDecl.externallyVisible).filterMap
          (Fingerprint.memberFromNode pick imports (loc.resolver pick imports) loc.header.kind
            loc.binary (classNames pick imports loc)) ++
        Fingerprint.constructorMembers (loc.resolver pick imports) loc.header loc.binary
          (classAccess loc) (classNames pick imports loc) ++
        (if loc.header.kind = .enum then
          Fingerprint.enumSyntheticMembers loc.header.name
            (pick (imports.candidates loc.header.name))
         else []) ++
        (if usesLombok then
          (Fingerprint.synthesize toUppercase loc).map
            (Fingerprint.SyntheticMember.intoExternal pick imports)
         else []) := rfl
  rw [listedConstructors, hmembers, constructorMembers_eq hkind, List.filter_append,
    List.filter_append, List.filter_append, hown, hconstructors, henum, hlombok, List.nil_append,
    List.append_nil, List.append_nil]

theorem memberOf_isSome (hfree : ErrorFree loc.header) {c : JavaConstructor}
    (hc : c ∈ loweredConstructors loc.header) :
    (memberOf pick imports loc c).isSome = true := by
  cases c with
  | declared decl =>
    have hdecl : decl ∈ loc.header.constructors := by
      unfold loweredConstructors at hc
      split at hc
      · split at hc <;> cases List.mem_singleton.mp hc
      · rcases List.mem_map.mp hc with ⟨decl', hdecl', heq⟩
        cases heq
        exact hdecl'
    simp only [memberOf, Fingerprint.constructorMemberFromNode,
      (hfree.declared decl hdecl).left, if_true, Option.isSome_some]
  | default => rfl
  | canonical => rfl

theorem listedConstructors_map (hkind : HasConstructors loc.header.kind)
    (hfree : ErrorFree loc.header) :
    (listedConstructors toUppercase pick imports usesLombok loc).map some =
      (loweredConstructors loc.header).map (memberOf pick imports loc) := by
  rw [listedConstructors_eq hkind]
  have hsome : forall c, c ∈ loweredConstructors loc.header ->
      (memberOf pick imports loc c).isSome = true := fun c hc => memberOf_isSome hfree hc
  generalize loweredConstructors loc.header = cs at hsome ⊢
  induction cs with
  | nil => rfl
  | cons c rest ih =>
    rcases Option.isSome_iff_exists.mp (hsome c List.mem_cons_self) with ⟨m, hm⟩
    rw [List.filterMap_cons_some hm, List.map_cons, List.map_cons, hm,
      ih (fun c' hc' => hsome c' (List.mem_cons_of_mem c hc'))]

end Listed

section Parameters

variable {pick : Pick} {imports : Imports} {loc : Located}

theorem wrapArray_eq_iterate (element : TypeRef) (dims : Nat) :
    Fingerprint.wrapArray element dims = TypeRef.array^[dims] element := by
  induction dims with
  | zero => rfl
  | succ dims ih => rw [Fingerprint.wrapArray, ih, Function.iterate_succ_apply']

theorem lowerParameter_eq (vars : TypeNode.VariableScope) (parameter : Parameter) :
    Fingerprint.lowerParameter (loc.resolver pick imports) vars parameter =
      if declaresType parameter then some (parameterType pick imports loc vars parameter)
      else none := by
  cases parameter with
  | formal type dims =>
    cases type with
    | none => rfl
    | some type => exact congrArg some (wrapArray_eq_iterate _ dims)
  | spread type => cases type <;> rfl

theorem lowerParameters_eq (vars : TypeNode.VariableScope)
    (parameters : Option (List Parameter)) :
    Fingerprint.lowerParameters (loc.resolver pick imports) vars parameters =
      (((parameters.getD []).filter declaresType).map (parameterType pick imports loc vars),
        (parameters.getD []).any Fingerprint.Parameter.isSpread) := by
  cases parameters with
  | none => rfl
  | some parameters =>
    have htypes : parameters.filterMap
        (Fingerprint.lowerParameter (loc.resolver pick imports) vars) =
          (parameters.filter declaresType).map (parameterType pick imports loc vars) := by
      rw [← List.filterMap_eq_map, List.filterMap_filter]
      exact List.filterMap_congr (fun parameter _ => lowerParameter_eq vars parameter)
    rw [Fingerprint.lowerParameters, htypes]
    rfl

theorem takesParameters_of_memberOf (hfree : ErrorFree loc.header) {c : JavaConstructor}
    (hc : forall decl, c = .declared decl -> decl ∈ loc.header.constructors)
    {m : Fingerprint.ExternalMember} (h : memberOf pick imports loc c = some m) :
    exists metadata, m.metadata = some metadata ∧
      TakesParameters pick imports loc c metadata := by
  cases c with
  | declared decl =>
    have hdecl := hfree.declared decl (hc decl rfl)
    simp only [memberOf, Fingerprint.constructorMemberFromNode, hdecl.left, hdecl.right, if_true,
      lowerParameters_eq] at h
    cases h
    exact ⟨_, rfl, rfl, rfl, rfl⟩
  | default =>
    cases h
    exact ⟨_, rfl, rfl, rfl, rfl⟩
  | canonical =>
    simp only [memberOf, Fingerprint.recordCanonicalConstructor, lowerParameters_eq] at h
    cases h
    exact ⟨_, rfl, rfl, rfl, rfl⟩

end Parameters

/-!
# Records that lose their canonical constructor
-/

/-- The canonical constructor of a record is not crowded out. -/
def KeepsCanonical {τ : Type} (denotes : Denotation τ) (header : Header) : Prop :=
  header.kind ≠ .record ∨ header.constructors = [] ∨
    exists decl, decl ∈ header.constructors ∧ IsCanonical denotes header decl

section

variable {τ : Type} [DecidableEq τ] {denotes : Denotation τ} {header : Header}

theorem any_canonical_iff :
    header.constructors.any (fun decl => decide (IsCanonical denotes header decl)) = true <->
      exists decl, decl ∈ header.constructors ∧ IsCanonical denotes header decl := by
  rw [List.any_eq_true]
  simp only [decide_eq_true_eq]

theorem lowered_of_keeps (h : KeepsCanonical denotes header) :
    loweredConstructors header = javaConstructors denotes header := by
  unfold loweredConstructors javaConstructors implicitConstructor
  cases hempty : header.constructors.isEmpty with
  | true =>
    have hnil : header.constructors = [] := List.isEmpty_iff.mp hempty
    rw [declaredConstructors, hnil]
    by_cases hrecord : header.kind = .record
    · simp [hrecord]
    · simp [hrecord]
  | false =>
    by_cases hrecord : header.kind = .record
    · have hcanonical : exists decl, decl ∈ header.constructors ∧
          IsCanonical denotes header decl := by
        rcases h with h | h | h
        · exact absurd hrecord h
        · rw [h] at hempty
          cases hempty
        · exact h
      simp [hrecord, any_canonical_iff.mpr hcanonical]
    · simp [hrecord]

theorem lowered_of_not_keeps (h : ¬ KeepsCanonical denotes header) :
    javaConstructors denotes header = loweredConstructors header ++ [.canonical] := by
  have hrecord : header.kind = .record := by
    by_contra hnot
    exact h (Or.inl hnot)
  have hdeclared : ¬ header.constructors.isEmpty = true := by
    intro hempty
    exact h (Or.inr (Or.inl (List.isEmpty_iff.mp hempty)))
  have hcanonical : ¬ header.constructors.any
      (fun decl => decide (IsCanonical denotes header decl)) = true := by
    intro hany
    exact h (Or.inr (Or.inr (any_canonical_iff.mp hany)))
  rw [javaConstructors, implicitConstructor, if_pos hrecord, if_neg hcanonical,
    loweredConstructors, if_neg hdeclared]

end

theorem mem_constructors_of_java {τ : Type} [DecidableEq τ] {denotes : Denotation τ}
    {header : Header} {decl : Fingerprint.ConstructorDecl}
    (h : JavaConstructor.declared decl ∈ javaConstructors denotes header) :
    decl ∈ header.constructors := by
  rcases List.mem_append.mp h with hdeclared | himplicit
  · rcases List.mem_map.mp hdeclared with ⟨other, hother, heq⟩
    cases heq
    exact hother
  · unfold implicitConstructor at himplicit
    split at himplicit
    · split at himplicit
      · cases himplicit
      · cases List.mem_singleton.mp himplicit
    · split at himplicit
      · cases List.mem_singleton.mp himplicit
      · cases himplicit

/--
Without parse errors the constructors of a class, enum or record are complete,
and they are the ones the language gives exactly when the declaration is no
record that declares constructors, none of them with the types of its components.
Each of them is listed with the types its parameters are written with, the
canonical one with those of the components.
-/
theorem listedConstructors_exact_iff {τ : Type} [DecidableEq τ] (denotes : Denotation τ)
    (toUppercase : Char -> List Char) (pick : Pick) (imports : Imports) (usesLombok : Bool)
    (loc : Located) (hkind : HasConstructors loc.header.kind) (hfree : ErrorFree loc.header) :
    Fingerprint.constructorsComplete loc.header = true ∧
      ((listedConstructors toUppercase pick imports usesLombok loc).map some =
          (javaConstructors denotes loc.header).map (memberOf pick imports loc) <->
        KeepsCanonical denotes loc.header) ∧
      forall c, c ∈ javaConstructors denotes loc.header -> forall m,
        memberOf pick imports loc c = some m -> exists metadata, m.metadata = some metadata ∧
          TakesParameters pick imports loc c metadata := by
  refine ⟨constructorsComplete_of_errorFree hfree, ?_, ?_⟩
  · rw [listedConstructors_map hkind hfree]
    constructor
    · intro h
      by_contra hlost
      rw [lowered_of_not_keeps hlost] at h
      have hlength := congrArg List.length h
      simp at hlength
    · intro h
      rw [lowered_of_keeps h]
  · intro c hc m hm
    apply takesParameters_of_memberOf hfree _ hm
    rintro decl rfl
    exact mem_constructors_of_java hc

def writtenText : Denotation String
  | _, .formal (some type) _ => type.text
  | _, .spread (some type) => type.text ++ "..."
  | _, _ => ""

namespace PairRecord

def int : WrittenType where
  node := .primitive .int
  text := "int"
  qualified := rfl

/-- `Pair(int x)` -/
def one : Fingerprint.ConstructorDecl :=
  { name := "Pair", modifiers := .none, typeParameters := []
    parameters := some [.formal (some int) 0], parametersText := "(int x)"
    headerBroken := false, renders := true }

/-- `record Pair(int x, int y)` -/
def header (constructors : List Fingerprint.ConstructorDecl) : Header :=
  { name := "Pair", kind := .record, modifiers := .none, typeParameters := []
    superNodes := [], hasSuperclass := false, headerBroken := false, members := []
    constructors := constructors, compactConstructor := none
    components := some [.formal (some int) 0, .formal (some int) 0]
    unclassified := false, scopeNames := [], marks := .none }

def loc (constructors : List Fingerprint.ConstructorDecl) : Located :=
  { header := header constructors, binary := "Pair", levels := [[]] }

def imports : Imports :=
  { package := none, single := [], wildcards := [] }

def upper (c : Char) : List Char :=
  [c.toUpper]

/-- `new Pair(1, 2)` -/
def creation (constructors : List Fingerprint.ConstructorDecl) : Creation :=
  { entered := true, created := some (.named (.named "Pair") [])
    classFacts := fun _ => ClassFacts.ofExternal
      (Fingerprint.toExternalClass upper Fingerprint.pickFirst imports false (loc constructors))
    anonymous := false, qualified := false, surrounding := ["Main"]
    arguments := some [.primitive .int, .primitive .int], diamond := false, targetEnv := none
    package := none, inferDiamond := fun _ _ => .unknown }

theorem errorFree (constructors : List Fingerprint.ConstructorDecl)
    (h : forall decl, decl ∈ constructors -> decl.renders = true ∧ decl.headerBroken = false) :
    ErrorFree (header constructors) where
  declared := h
  compact := by
    intro compact hcompact
    cases hcompact
  classified := rfl

/--
`record Pair(int x, int y)` that declares `Pair(int x)`: the canonical constructor
is missing, and `new Pair(1, 2)` is reported.
-/
theorem canonical_lost :
    ErrorFree (header [one]) ∧ Fingerprint.constructorsComplete (header [one]) = true ∧
      (listedConstructors upper Fingerprint.pickFirst imports false (loc [one])).map some ≠
        (javaConstructors writtenText (header [one])).map
          (memberOf Fingerprint.pickFirst imports (loc [one])) ∧
      resolveConstructorCall (fun _ => none) (creation [one]) =
        some (.ok (.noApplicable 1)) := by
  refine ⟨?_, rfl, ?_, rfl⟩
  · apply errorFree
    intro decl hdecl
    rw [List.mem_singleton.mp hdecl]
    exact ⟨rfl, rfl⟩
  · intro h
    have hlength := congrArg List.length h
    exact absurd hlength (by decide)

/-- Without a declared constructor the canonical one is listed, with its two types. -/
theorem canonical_listed :
    Fingerprint.constructorsComplete (header []) = true ∧
      (listedConstructors upper Fingerprint.pickFirst imports false (loc [])).map some =
        (javaConstructors writtenText (header [])).map
          (memberOf Fingerprint.pickFirst imports (loc [])) ∧
      forall m, memberOf Fingerprint.pickFirst imports (loc []) .canonical = some m ->
        exists metadata, m.metadata = some metadata ∧
          metadata.parameters = some [.primitive .int, .primitive .int] := by
  have hexact := listedConstructors_exact_iff writtenText upper Fingerprint.pickFirst imports false
    (loc []) ⟨by decide, by decide⟩ (errorFree [] (fun _ hdecl => absurd hdecl List.not_mem_nil))
  refine ⟨hexact.left, hexact.right.left.mpr (Or.inr (Or.inl rfl)), ?_⟩
  intro m hm
  rcases hexact.right.right .canonical List.mem_cons_self m hm with ⟨metadata, hmetadata, htakes⟩
  exact ⟨metadata, hmetadata, htakes.parameters⟩

end PairRecord

end Constructors
end JavaVsixLite
