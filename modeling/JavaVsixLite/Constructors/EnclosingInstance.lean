import Mathlib.Data.List.TakeDrop
import Mathlib.Data.List.TakeWhile
import JavaVsixLite.Constructors.Generated
import JavaVsixLite.Fingerprint.Coverage

/-!
# Enclosing instances

An inner class is created inside of an instance of the class it is a member of,
which the innermost class around the call that is this class or inherits from it
provides.  The resolver compares the name before the last separator of the class
with the names of the declarations around the call, and takes a class for inner
unless it is declared static.
-/

namespace JavaVsixLite
namespace Constructors

open Fingerprint (Located Pick Doc Decl findTypeByPath firstNamed
  firstNamed_mem lowerMetadata)

/-!
# Places
-/

/-- A class around the call: a local or anonymous one has no binary name. -/
structure Around where
  binary : Option String
  inherits : List String

def Around.isOrInherits (c : Around) (binary : String) : Prop :=
  c.binary = some binary ∨ binary ∈ c.inherits

/-- The call as the declarations around it let the resolver see it. -/
def Creation.inside (call : Creation) (around : List Around) : Creation :=
  { call with surrounding := around.filterMap Around.binary }

/-- Member types of interfaces and annotations are static without saying so. -/
def ImplicitlyStatic (outer : Located) : Prop :=
  outer.header.kind = .interface ∨ outer.header.kind = TypeKind.annotation

def Encloses (doc : Doc) (path : List String) (outer : Located) : Prop :=
  doc.find path.dropLast = some outer

def Inner (doc : Doc) (path : List String) (loc outer : Located) : Prop :=
  Encloses doc path outer ∧ loc.header.kind = .classKind ∧
    loc.header.modifiers.isStatic = false ∧ ¬ ImplicitlyStatic outer

/-- No class around the call provides an instance of the enclosing class. -/
def RequiresInstance (doc : Doc) (path : List String) (loc : Located) (around : List Around) :
    Prop :=
  exists outer, Inner doc path loc outer ∧
    forall c, c ∈ around -> ¬ c.isOrInherits outer.binary

/-!
# Names and nesting
-/

theorem enclosingBinary_nested (outer : String) {name : String} (h : '$' ∉ name.toList) :
    enclosingBinary (outer ++ "$" ++ name) = some outer := by
  have hchars : (outer ++ "$" ++ name).toList.reverse =
      name.toList.reverse ++ '$' :: outer.toList.reverse := by
    simp [String.toList_append]
  have hkept : forall c, c ∈ name.toList.reverse -> (c != '$') = true := by
    intro c hc
    rw [bne_iff_ne]
    intro heq
    rw [heq] at hc
    exact h (List.mem_reverse.mp hc)
  unfold enclosingBinary
  rw [hchars, List.span_eq_takeWhile_dropWhile, List.takeWhile_append_of_pos hkept,
    List.dropWhile_append_of_pos hkept]
  simp [List.takeWhile, List.dropWhile]

theorem findTypeByPath_nested (last : String) (path : List String) :
    forall {qualifyName : String -> String} {levels : List (List String)}
      {types : List (Bool × Decl)} {loc outer : Located},
      findTypeByPath qualifyName levels types path = some outer ->
      findTypeByPath qualifyName levels types (path ++ [last]) = some loc ->
      loc.binary = outer.binary ++ "$" ++ loc.header.name := by
  induction path with
  | nil =>
    intro qualifyName levels types loc outer houter hloc
    cases houter
  | cons name rest ih =>
    intro qualifyName levels types loc outer houter hloc
    rw [List.cons_append] at hloc
    unfold findTypeByPath at houter hloc
    cases hfirst : firstNamed types name with
    | none =>
      rw [hfirst] at hloc
      cases hloc
    | some decl =>
      rw [hfirst] at houter hloc
      cases rest with
      | nil =>
        cases houter
        simp only [List.nil_append] at hloc
        unfold findTypeByPath at hloc
        cases hlast : firstNamed decl.types last with
        | none =>
          rw [hlast] at hloc
          cases hloc
        | some inner =>
          rw [hlast] at hloc
          cases hloc
          rw [← (firstNamed_mem hlast).left]
          rfl
      | cons next rest =>
        exact ih houter hloc

theorem nested_of_encloses {doc : Doc} {path : List String} {loc outer : Located}
    (h : doc.find path = some loc) (houter : Encloses doc path outer) :
    loc.binary = outer.binary ++ "$" ++ loc.header.name := by
  cases path with
  | nil => cases h
  | cons name rest =>
    have hlast := List.dropLast_append_getLast (List.cons_ne_nil name rest)
    rw [← hlast] at h
    exact findTypeByPath_nested _ _ houter h

/-!
# When the report is right
-/

section Report

variable (toUppercase : Char -> List Char) (pick : Pick) (doc : Doc) (path : List String)

/-- The checks that come before the report, and the name that is looked for. -/
def AsksForInstance (call : Creation) (loc : Located) (around : List Around) : Prop :=
  call.entered = true ∧ call.qualified = false ∧ loc.header.kind = .classKind ∧
    loc.header.modifiers.isStatic = false ∧
    (loc.header.modifiers.isAbstract = true -> call.anonymous = true) ∧
    exists enclosing, enclosingBinary loc.binary = some enclosing ∧
      forall c, c ∈ around -> c.binary ≠ some enclosing

/--
The class is a member of a class, an enum or a record, no class around the call
inherits from that one, and the separator is not part of its simple name or that one
is not around the call.
-/
def NamedByNesting (loc : Located) (around : List Around) : Prop :=
  exists outer, Encloses doc path outer ∧ ¬ ImplicitlyStatic outer ∧
    forall c, c ∈ around -> outer.binary ∉ c.inherits ∧
      ('$' ∈ loc.header.name.toList -> c.binary ≠ some outer.binary)

variable {doc path}

theorem requiresInstance_of_named {call : Creation} {loc : Located} {around : List Around}
    (hfind : doc.find path = some loc) (hasks : AsksForInstance call loc around) :
    RequiresInstance doc path loc around <-> NamedByNesting doc path loc around := by
  rcases hasks with ⟨_, _, hkind, hstatic, _, enclosing, henclosing, haround⟩
  constructor
  · rintro ⟨outer, ⟨hencloses, _, _, himplicit⟩, hnone⟩
    exists outer, hencloses, himplicit
    intro c hc
    constructor
    · intro hinherits
      exact hnone c hc (Or.inr hinherits)
    · intro _ hbinary
      exact hnone c hc (Or.inl hbinary)
  · rintro ⟨outer, hencloses, himplicit, hnone⟩
    exists outer, ⟨hencloses, hkind, hstatic, himplicit⟩
    intro c hc hprovides
    cases hprovides with
    | inl hbinary =>
      have hplain : '$' ∉ loc.header.name.toList := by
        intro hname
        exact (hnone c hc).right hname hbinary
      rw [nested_of_encloses hfind hencloses,
        enclosingBinary_nested outer.binary hplain] at henclosing
      apply haround c hc
      rw [hbinary, Option.some.inj henclosing]
    | inr hinherits => exact (hnone c hc).left hinherits

theorem lowered_isStatic (imports : Imports) (loc : Located) :
    (lowerMetadata pick imports loc).isStatic = false <->
      (enclosingBinary loc.binary).isSome = true ∧ loc.header.modifiers.isStatic = false ∧
        loc.header.kind = .classKind := by
  simp [lowerMetadata, Option.isSome_iff_ne_none, and_assoc]

theorem needs_iff_asks (ask : Ask) {call : Creation} {loc : Located} {around : List Around}
    {id : TypeId} {typeArgs : List TypeRef} (hcreated : call.created = some (.named id typeArgs))
    (hfacts : call.classFacts id = ClassFacts.ofExternal
      (Fingerprint.toExternalClass toUppercase pick doc.imports doc.usesLombok loc)) :
    resolveConstructorCall ask (call.inside around) = some (.error .needsEnclosingInstance) <->
      AsksForInstance call loc around := by
  rw [resolve_needs_iff]
  constructor
  · rintro ⟨hentered, id', typeArgs', facts, hcreated', hfacts', ⟨_, _, _, habstract⟩,
      hstatic, hqualified, enclosing, henclosing, haround⟩
    cases hcreated.symm.trans hcreated'
    cases hfacts.symm.trans hfacts'
    rcases (lowered_isStatic pick doc.imports loc).mp hstatic with ⟨_, hmodifier, hkind⟩
    refine ⟨hentered, hqualified, hkind, hmodifier, ?_, enclosing, henclosing, ?_⟩
    · intro hdeclared
      apply Bool.eq_true_of_not_eq_false
      intro hanonymous
      apply habstract
      exact ⟨hkind, by simp [lowerMetadata, hdeclared], hanonymous⟩
    · intro c hc hbinary
      exact haround (List.mem_filterMap.mpr ⟨c, hc, hbinary⟩)
  · rintro ⟨hentered, hqualified, hkind, hmodifier, habstract, enclosing, henclosing, haround⟩
    have hstatic : (lowerMetadata pick doc.imports loc).isStatic = false := by
      apply (lowered_isStatic pick doc.imports loc).mpr
      exact ⟨Option.isSome_iff_exists.mpr ⟨enclosing, henclosing⟩, hmodifier, hkind⟩
    have hlowered : (lowerMetadata pick doc.imports loc).kind = .classKind := hkind
    refine ⟨hentered, id, typeArgs, _, hcreated, hfacts, ⟨?_, ?_, ?_, ?_⟩,
      hstatic, hqualified, enclosing, henclosing, ?_⟩
    · rw [hlowered]
      decide
    · rw [hlowered]
      decide
    · rw [hlowered]
      decide
    · rintro ⟨_, hdeclared, hanonymous⟩
      have hmodified : loc.header.modifiers.isAbstract = true := by
        simpa [lowerMetadata, hkind] using hdeclared
      have hnamed : call.anonymous = false := hanonymous
      rw [habstract hmodified] at hnamed
      cases hnamed
    · intro hmem
      rcases List.mem_filterMap.mp hmem with ⟨c, hc, hbinary⟩
      exact haround c hc hbinary

/--
The report of a missing instance is right exactly where the checks do not lead to it,
or the class is an inner one of a class that nothing around the call inherits from,
and no separator in its name hides which one that is.
-/
theorem needs_requires_iff (ask : Ask) {call : Creation} {loc : Located} {around : List Around}
    (hfind : doc.find path = some loc) {id : TypeId} {typeArgs : List TypeRef}
    (hcreated : call.created = some (.named id typeArgs))
    (hfacts : call.classFacts id = ClassFacts.ofExternal
      (Fingerprint.toExternalClass toUppercase pick doc.imports doc.usesLombok loc)) :
    (resolveConstructorCall ask (call.inside around) = some (.error .needsEnclosingInstance) ->
        RequiresInstance doc path loc around) <->
      (AsksForInstance call loc around -> NamedByNesting doc path loc around) := by
  constructor
  · intro h hasks
    apply (requiresInstance_of_named hfind hasks).mp
    exact h ((needs_iff_asks toUppercase pick ask hcreated hfacts).mpr hasks)
  · intro h hneeds
    have hasks := (needs_iff_asks toUppercase pick ask hcreated hfacts).mp hneeds
    exact (requiresInstance_of_named hfind hasks).mpr (h hasks)

end Report

/-!
# Two nestings
-/

namespace NestedClasses

open PairRecord (imports upper)

def header (name : String) (kind : TypeKind) : Fingerprint.Header :=
  { name := name, kind := kind, modifiers := .none, typeParameters := []
    superNodes := [], hasSuperclass := false, headerBroken := false, members := []
    constructors := [], compactConstructor := none, components := none
    unclassified := false, scopeNames := [], marks := .none }

/-- A type `Outer` of the given kind with `class Inner {}` in it. -/
def doc (kind : TypeKind) : Doc :=
  { imports := imports, usesLombok := false
    types := [(true, .mk (header "Outer" kind) true
      [(true, .mk (header "Inner" .classKind) true [])])] }

def inner : Located :=
  { header := header "Inner" .classKind, binary := "Outer$Inner", levels := [[], []] }

/-- `new Outer.Inner()` -/
def creation (kind : TypeKind) : Creation :=
  { entered := true, created := some (.named (.named "Outer$Inner") [])
    classFacts := fun _ => ClassFacts.ofExternal
      (Fingerprint.toExternalClass upper Fingerprint.pickFirst (doc kind).imports
        (doc kind).usesLombok inner)
    anonymous := false, qualified := false, surrounding := []
    arguments := some [], diamond := false, targetEnv := none
    package := none, inferDiamond := fun _ _ => .unknown }

def unrelated : Around :=
  { binary := some "Main", inherits := ["java.lang.Object"] }

def subclass : Around :=
  { binary := some "Main", inherits := ["Outer", "java.lang.Object"] }

/--
A member class of an interface needs no instance, and a class that extends `Outer`
has one; both creations are reported.
-/
theorem instance_demanded :
    ((doc .interface).find ["Outer", "Inner"] = some inner ∧
      resolveConstructorCall (fun _ => none) ((creation .interface).inside [unrelated]) =
        some (.error .needsEnclosingInstance) ∧
      ¬ RequiresInstance (doc .interface) ["Outer", "Inner"] inner [unrelated]) ∧
    (doc .classKind).find ["Outer", "Inner"] = some inner ∧
      resolveConstructorCall (fun _ => none) ((creation .classKind).inside [subclass]) =
        some (.error .needsEnclosingInstance) ∧
      ¬ RequiresInstance (doc .classKind) ["Outer", "Inner"] inner [subclass] := by
  refine ⟨⟨rfl, rfl, ?_⟩, rfl, rfl, ?_⟩
  · rintro ⟨outer, ⟨hencloses, _, _, himplicit⟩, _⟩
    cases hencloses
    exact himplicit (Or.inl rfl)
  · rintro ⟨outer, ⟨hencloses, _⟩, hnone⟩
    cases hencloses
    apply hnone subclass (List.mem_singleton_self subclass)
    exact Or.inr (List.mem_cons_self)

/-- Away from `Outer` its member class needs an instance. -/
theorem instance_required :
    resolveConstructorCall (fun _ => none) ((creation .classKind).inside [unrelated]) =
        some (.error .needsEnclosingInstance) ∧
      RequiresInstance (doc .classKind) ["Outer", "Inner"] inner [unrelated] := by
  have hreport : resolveConstructorCall (fun _ => none)
      ((creation .classKind).inside [unrelated]) = some (.error .needsEnclosingInstance) := rfl
  have hfind : (doc .classKind).find ["Outer", "Inner"] = some inner := rfl
  have hcreated : (creation .classKind).created = some (.named (.named "Outer$Inner") []) := rfl
  have hfacts : (creation .classKind).classFacts (.named "Outer$Inner") =
      ClassFacts.ofExternal (Fingerprint.toExternalClass upper Fingerprint.pickFirst
        (doc .classKind).imports (doc .classKind).usesLombok inner) := rfl
  constructor
  · exact hreport
  · apply (needs_requires_iff upper Fingerprint.pickFirst (fun _ => none) hfind hcreated
      hfacts).mpr _ hreport
    intro _
    refine ⟨_, rfl, ?_, ?_⟩
    · rintro (h | h)
      · cases h
      · cases h
    · intro c hc
      rw [List.mem_singleton.mp hc]
      constructor
      · decide
      · intro h
        exact absurd h (by decide)

end NestedClasses

end Constructors
end JavaVsixLite
