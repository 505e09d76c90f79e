import JavaVsixLite.Constructors.Listing

/-!
# Constructors that Lombok generates

Which constructors the annotations of a class ask for, as Lombok documents it:
`@NoArgsConstructor`, `@AllArgsConstructor` and `@RequiredArgsConstructor` always
generate theirs, `@Value`, `@Data` and `@Builder` only when the class has neither
a written constructor nor one of these three.  The lowering lists none of them.
-/

namespace JavaVsixLite
namespace Constructors

open Foundation
open Fingerprint (Header Located Pick FieldDecl)

/-!
# Annotations
-/

structure ConstructorAnnotations where
  data : Bool
  value : Bool
  builder : Bool
  allArgs : Bool
  requiredArgs : Bool
  noArgs : Bool

/-- What a field declaration says besides its modifiers. -/
structure FieldNotes where
  initialised : Bool
  nonNull : Bool
  nonFinal : Bool
  builderDefault : Bool

def ConstructorAnnotations.explicit (a : ConstructorAnnotations) : Bool :=
  a.allArgs || a.requiredArgs || a.noArgs

def instanceField : Fingerprint.MemberDecl -> Option FieldDecl
  | .field decl => if decl.isStatic || decl.isComponent then none else some decl
  | _ => none

/-- Instance fields, without those whose name starts with a dollar sign. -/
def eligibleFields (header : Header) : List FieldDecl :=
  (header.members.filterMap instanceField).filter
    (fun f => f.name.toList.head? != some '$')

section Annotated

variable (a : ConstructorAnnotations) (notes : String -> FieldNotes)

/-- `@Value` makes fields final that do not say otherwise. -/
def isFinal (f : FieldDecl) : Bool :=
  f.modifiers.isFinal || (a.value && !(notes f.name).nonFinal)

/-- `@Builder` takes the initialiser of a default away from the field. -/
def isInitialised (f : FieldDecl) : Bool :=
  (notes f.name).initialised && !(a.builder && (notes f.name).builderDefault)

def allArgsFields (header : Header) : List FieldDecl :=
  (eligibleFields header).filter (fun f => !(isFinal a notes f && isInitialised a notes f))

def requiredFields (header : Header) : List FieldDecl :=
  (eligibleFields header).filter
    (fun f => (isFinal a notes f || (notes f.name).nonNull) && !isInitialised a notes f)

/-- The constructor of `@Builder`, `@Value` or `@Data`; the first of them generates. -/
def implicitGenerated (header : Header) : List (List FieldDecl) :=
  if a.explicit || !header.constructors.isEmpty then []
  else if a.builder || a.value then [allArgsFields a notes header]
  else if a.data then [requiredFields a notes header]
  else []

/-- The fields that the generated constructors take, one list a constructor. -/
def generatedConstructors (header : Header) : List (List FieldDecl) :=
  (if a.noArgs then [[]] else []) ++
    (if a.allArgs then [allArgsFields a notes header] else []) ++
    (if a.requiredArgs then [requiredFields a notes header] else []) ++
    implicitGenerated a notes header

end Annotated

/-!
# Generated and listed constructors
-/

section Listed

variable {τ : Type} (denotes : Denotation τ)

def fieldType (f : FieldDecl) : τ :=
  denotes [] (.formal f.type f.dims)

/-- Some listed constructor has the types of the fields. -/
def ListsConstructor (pick : Pick) (imports : Imports) (loc : Located)
    (fields : List FieldDecl) : Prop :=
  exists c, c ∈ loweredConstructors loc.header ∧ (memberOf pick imports loc c).isSome = true ∧
    typesOf denotes loc.header c = fields.map (fieldType denotes)

/-- The class declares a constructor with the types of the fields. -/
def DeclaresConstructor (header : Header) (fields : List FieldDecl) : Prop :=
  exists decl, decl ∈ header.constructors ∧ decl.renders = true ∧
    typesOf denotes header (.declared decl) = fields.map (fieldType denotes)

theorem listsConstructor_iff {pick : Pick} {imports : Imports} {loc : Located}
    (hclass : loc.header.kind = .classKind) (fields : List FieldDecl) :
    ListsConstructor denotes pick imports loc fields <->
      (loc.header.constructors = [] ∧ fields = []) ∨
        DeclaresConstructor denotes loc.header fields := by
  have hrecord : loc.header.kind ≠ .record := by
    rw [hclass]
    decide
  unfold ListsConstructor loweredConstructors
  cases hempty : loc.header.constructors.isEmpty with
  | true =>
    have hnil : loc.header.constructors = [] := List.isEmpty_iff.mp hempty
    rw [if_pos rfl, if_neg hrecord]
    constructor
    · rintro ⟨c, hc, _, htypes⟩
      rw [List.mem_singleton.mp hc] at htypes
      exact Or.inl ⟨hnil, List.map_eq_nil_iff.mp htypes.symm⟩
    · rintro (⟨_, hfields⟩ | ⟨decl, hdecl, _⟩)
      · exists .default
        rw [hfields]
        exact ⟨List.mem_cons_self, rfl, rfl⟩
      · rw [hnil] at hdecl
        cases hdecl
  | false =>
    rw [if_neg (by decide)]
    constructor
    · rintro ⟨c, hc, hsome, htypes⟩
      right
      rcases List.mem_map.mp hc with ⟨decl, hdecl, heq⟩
      subst heq
      refine ⟨decl, hdecl, ?_, htypes⟩
      by_contra hrenders
      simp [memberOf, Fingerprint.constructorMemberFromNode, hrenders] at hsome
    · rintro (⟨hnil, _⟩ | ⟨decl, hdecl, hrenders, htypes⟩)
      · rw [hnil] at hempty
        cases hempty
      · refine ⟨.declared decl, List.mem_map_of_mem hdecl, ?_, htypes⟩
        simp [memberOf, Fingerprint.constructorMemberFromNode, hrenders]

end Listed

/--
The constructors of an annotated class are reported incomplete, or every generated
one is listed, exactly when each generated constructor repeats a declared one or,
without declared ones, takes no argument.  A report that no constructor applies is
only made of a complete list, each member of it rejecting the arguments.
-/
theorem generated_listed_iff {τ : Type} (denotes : Denotation τ)
    (a : ConstructorAnnotations) (notes : String -> FieldNotes)
    (toUppercase : Char -> List Char) (pick : Pick) (imports : Imports) (loc : Located)
    (hclass : loc.header.kind = .classKind) :
    ((Fingerprint.constructorsComplete loc.header = false ∨
        forall fields, fields ∈ generatedConstructors a notes loc.header ->
          ListsConstructor denotes pick imports loc fields) <->
      (Fingerprint.constructorsComplete loc.header = false ∨
        forall fields, fields ∈ generatedConstructors a notes loc.header ->
          (loc.header.constructors = [] ∧ fields = []) ∨
            DeclaresConstructor denotes loc.header fields)) ∧
    listedConstructors toUppercase pick imports true loc =
      (loweredConstructors loc.header).filterMap (memberOf pick imports loc) ∧
    (forall ask call n id typeArgs, call.created = some (.named id typeArgs) ->
      call.classFacts id = ClassFacts.ofExternal
        (Fingerprint.toExternalClass toUppercase pick imports true loc) ->
      resolveConstructorCall ask call = some (.ok (.noApplicable n)) ->
      Fingerprint.constructorsComplete loc.header = true ∧
        exists facts args, call.classFacts id = some facts ∧ call.arguments = some args ∧
          forall m, m ∈ listedConstructors toUppercase pick imports true loc ->
            forall metadata, m.metadata = some metadata -> forall phase,
              applicableIn ask (candidateOf call facts typeArgs args metadata) args phase =
                some (some false)) := by
  refine ⟨?_, ?_, ?_⟩
  · simp only [listsConstructor_iff denotes hclass]
  · apply listedConstructors_eq
    rw [hclass]
    exact ⟨by decide, by decide⟩
  · intro ask call n id typeArgs hcreated hfacts hreport
    rcases rejected_of_report hreport with
      ⟨id', typeArgs', facts, args, hcreated', hfacts', hcomplete, hargs, hrejected⟩
    rw [hcreated] at hcreated'
    cases hcreated'
    rw [hfacts] at hfacts'
    cases hfacts'
    refine ⟨hcomplete, _, args, hfacts, hargs, ?_⟩
    intro m hm metadata hmetadata phase
    apply hrejected metadata _ phase
    exact List.mem_filterMap.mpr ⟨m, hm, hmetadata⟩

namespace AnnotatedPoint

open PairRecord (int imports upper)

/-- `int x;` -/
def x : FieldDecl :=
  { name := "x", modifiers := .none, isStatic := false, isComponent := false
    type := some int, dims := 0, renders := true, marks := .none }

def header : Header :=
  { name := "Point", kind := .classKind, modifiers := .none, typeParameters := []
    superNodes := [], hasSuperclass := false, headerBroken := false, members := [.field x]
    constructors := [], compactConstructor := none, components := none
    unclassified := false, scopeNames := [], marks := .none }

def loc : Located :=
  { header := header, binary := "Point", levels := [[]] }

def plain : String -> FieldNotes :=
  fun _ => { initialised := false, nonNull := false, nonFinal := false, builderDefault := false }

def unannotated : ConstructorAnnotations :=
  { data := false, value := false, builder := false, allArgs := false
    requiredArgs := false, noArgs := false }

/-- `new Point(1)` -/
def creation : Creation :=
  { entered := true, created := some (.named (.named "Point") [])
    classFacts := fun _ => ClassFacts.ofExternal
      (Fingerprint.toExternalClass upper Fingerprint.pickFirst imports true loc)
    anonymous := false, qualified := false, surrounding := ["Main"]
    arguments := some [.primitive .int], diamond := false, targetEnv := none
    package := none, inferDiamond := fun _ _ => .unknown }

/--
`@AllArgsConstructor class Point { int x; }` has the constructor `Point(int)`, which
is not listed, and `new Point(1)` is reported.
-/
theorem generated_denied :
    generatedConstructors { unannotated with allArgs := true } plain header = [[x]] ∧
      Fingerprint.constructorsComplete header = true ∧
      ¬ ListsConstructor writtenText Fingerprint.pickFirst imports loc [x] ∧
      resolveConstructorCall (fun _ => none) creation = some (.ok (.noApplicable 1)) := by
  refine ⟨rfl, rfl, ?_, rfl⟩
  rw [listsConstructor_iff writtenText rfl]
  rintro (⟨_, hfields⟩ | ⟨decl, hdecl, _⟩)
  · cases hfields
  · cases hdecl

/-- `final int x = 0;`, the default of a builder -/
def defaulted : String -> FieldNotes :=
  fun _ => { initialised := true, nonNull := false, nonFinal := false, builderDefault := true }

def finalX : FieldDecl :=
  { x with modifiers := { Fingerprint.Modifiers.none with isFinal := true } }

-- The builder hands the field to the constructor that takes all of them.
example : generatedConstructors { unannotated with builder := true, allArgs := true } defaulted
    { header with members := [.field finalX] } = [[finalX]] := rfl

/-- `Point(int x)` -/
def declared : Fingerprint.ConstructorDecl :=
  { PairRecord.one with name := "Point" }

/-- The class with its constructor written out. -/
def written : Located :=
  { loc with header := { header with constructors := [declared] } }

/--
`@NoArgsConstructor` asks for the constructor that is listed anyway, `@Data` for none
where one is written, and `@AllArgsConstructor` for the one that is written.
-/
theorem generated_listed :
    (Fingerprint.constructorsComplete header = false ∨
      forall fields, fields ∈ generatedConstructors { unannotated with noArgs := true } plain
        header -> ListsConstructor writtenText Fingerprint.pickFirst imports loc fields) ∧
    (Fingerprint.constructorsComplete written.header = false ∨
      forall fields, fields ∈ generatedConstructors { unannotated with data := true } plain
        written.header ->
          ListsConstructor writtenText Fingerprint.pickFirst imports written fields) ∧
    (Fingerprint.constructorsComplete written.header = false ∨
      forall fields, fields ∈ generatedConstructors { unannotated with allArgs := true } plain
        written.header ->
          ListsConstructor writtenText Fingerprint.pickFirst imports written fields) := by
  refine ⟨?_, ?_, ?_⟩
  · apply (generated_listed_iff writtenText { unannotated with noArgs := true } plain upper
      Fingerprint.pickFirst imports loc rfl).left.mpr
    right
    intro fields hfields
    left
    exact ⟨rfl, List.mem_singleton.mp hfields⟩
  · apply (generated_listed_iff writtenText { unannotated with data := true } plain upper
      Fingerprint.pickFirst imports written rfl).left.mpr
    right
    intro fields hfields
    cases hfields
  · apply (generated_listed_iff writtenText { unannotated with allArgs := true } plain upper
      Fingerprint.pickFirst imports written rfl).left.mpr
    right
    intro fields hfields
    right
    rw [List.mem_singleton.mp hfields]
    exact ⟨declared, List.mem_cons_self, rfl, rfl⟩

end AnnotatedPoint

end Constructors
end JavaVsixLite
