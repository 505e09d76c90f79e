import JavaVsixLite.Expressions.Soundness
import JavaVsixLite.Subtyping.Hierarchy
import Mathlib.Logic.Relation

/-!
# What an enhanced `for` binds

The element type of a class type is the argument of its `Iterable` supertype.
For a class of an open document it is searched along the hierarchy, for any
other class the first type argument is taken.
-/

namespace JavaVsixLite
namespace Expressions

open Typer (iterableArgument)

/-!
# Supertypes of a type
-/

def SuperStep (table : ClassTable) (t sup : TypeRef) : Prop :=
  exists id args facts, t = .named id args ∧ table.classFacts id = some facts ∧
    sup ∈ facts.superInstances args

def iterableId : TypeId := .named "java.lang.Iterable"

def collectionId : TypeId := .named "java.util.Collection"

/-- An `Iterable` of these elements is a supertype. -/
def IterableOf (table : ClassTable) (t element : TypeRef) : Prop :=
  exists rest, Relation.ReflTransGen (SuperStep table) t
    (.named iterableId (element :: rest))

theorem IterableOf.head {table : ClassTable} {t sup element : TypeRef}
    (hstep : SuperStep table t sup) (h : IterableOf table sup element) :
    IterableOf table t element := by
  rcases h with ⟨rest, hpath⟩
  exact ⟨rest, hpath.head hstep⟩

/-- The library declares a collection to be an `Iterable` of its elements. -/
def CollectionIterates (table : ClassTable) : Prop :=
  forall element rest, IterableOf table (.named collectionId (element :: rest)) element

/-- No class has two parameterizations of `Iterable` among its supertypes. -/
def IteratesOnce (table : ClassTable) : Prop :=
  forall t e e', IterableOf table t e -> IterableOf table t e' -> e = e'

/-!
# The walk along the hierarchy
-/

theorem exists_of_foldl_first {α β σ : Type}
    (step : Option β × σ -> α -> Option β × σ)
    (keeps : forall hit s place, (step (some hit, s) place).1 = some hit)
    (places : List α) {found : β} :
    forall state : Option β × σ, (places.foldl step state).1 = some found ->
      state.1 = some found ∨
        exists place s, place ∈ places ∧ (step (none, s) place).1 = some found := by
  induction places with
  | nil =>
    intro state h
    exact .inl h
  | cons place rest ih =>
    intro state h
    rw [List.foldl_cons] at h
    rcases ih _ h with hhere | ⟨later, s, hlater, hfound⟩
    · rcases state with ⟨answer, s⟩
      cases answer with
      | some hit =>
        rw [keeps] at hhere
        exact .inl hhere
      | none => exact .inr ⟨place, s, List.mem_cons_self, hhere⟩
    · exact .inr ⟨later, s, List.mem_cons_of_mem _ hlater, hfound⟩

theorem superStep_of_substitute {table : ClassTable} {id : TypeId}
    {args : List TypeRef} {facts : ClassMetadata} {sup : TypeRef}
    (hfacts : table.classFacts id = some facts) (hraw : facts.isRaw args = false)
    (hsup : sup ∈ facts.supertypes) :
    SuperStep table (.named id args) (sup.substitute (facts.environment args)) := by
  refine ⟨id, args, facts, rfl, hfacts, List.mem_map.mpr ⟨sup, hsup, ?_⟩⟩
  simp [hraw]

theorem id_of_asNamed {id : TypeId} {binary : String}
    (h : id.asNamed = some binary) : id = .named binary := by
  cases id <;> cases h
  rfl

theorem iterableArgument_sound {table : ClassTable}
    (collection : CollectionIterates table) (budget : Nat) :
    forall (seen : List TypeRef) (t element : TypeRef),
      (iterableArgument table budget seen t).1 = some element ->
        IterableOf table t element := by
  induction budget with
  | zero =>
    intro seen t element h
    cases h
  | succ budget ih =>
    intro seen t element h
    cases t with
    | named id args =>
      unfold iterableArgument at h
      split at h
      · cases h
      · split at h
        · rename_i hid
          rcases List.head?_eq_some_iff.mp h with ⟨rest, rfl⟩
          rcases hid with hid | hid
          · rw [id_of_asNamed hid]
            exact ⟨rest, .refl⟩
          · rw [id_of_asNamed hid]
            exact collection element rest
        · split at h
          · cases h
          · rename_i facts hfacts
            split at h
            · cases h
            · rename_i hcomplete
              rcases exists_of_foldl_first _ (fun _ _ _ => rfl) _ _ h
                with hnone | ⟨sup, s, hsup, hfound⟩
              · cases hnone
              · rcases List.mem_map.mp hsup with ⟨declared, hdeclared, rfl⟩
                have hraw : facts.isRaw args = false := by
                  simp only [Bool.or_eq_true, not_or] at hcomplete
                  simpa using hcomplete.2
                exact (ih s _ element hfound).head
                  (superStep_of_substitute hfacts hraw hdeclared)
    | _ => cases h

/-!
# The element of a class type
-/

def isClassType : ResolvedType -> Bool
  | .inProject _ _ => true
  | .external _ _ => true
  | _ => false

def isOpenArgument : TypeRef -> Bool
  | .wildcard _ _ => true
  | .unknown => true
  | _ => false

def walkAnswer (T : Typer) (ty : ResolvedType) : Option TypeRef :=
  (iterableArgument T.table (maxSubtypeDepth + 1) [] (T.typeRef ty)).1

/--
An answer is the element of the `Iterable` among the supertypes, and so the
answer of the walk.
-/
def ElementRight (T : Typer) (ty : ResolvedType) : Prop :=
  forall element, T.iterableElementType ty = some element ->
    IterableOf T.table (T.typeRef ty) (T.typeRef element) ∧
      forall walked, walkAnswer T ty = some walked -> walked = T.typeRef element

/--
A class outside the open documents iterates over its first type argument.  An
argument that does not resolve is looked up by its text, which has to lead to the
element.
-/
def IteratesFirstArgument (T : Typer) : ResolvedType -> Prop
  | .external fqn (first :: rest) =>
    isOpenArgument first = false ->
      match T.workspace.fromTypeRef first with
      | some _ =>
        IterableOf T.table (T.typeRef (.external fqn (first :: rest))) first
      | none => forall named, T.resolveDisplayType first.render none = some named ->
          IterableOf T.table (T.typeRef (.external fqn (first :: rest)))
            (T.typeRef named)
  | _ => True

theorem iterableElementType_external (T : Typer) (fqn : String) (first : TypeRef)
    (rest : List TypeRef) :
    T.iterableElementType (.external fqn (first :: rest)) =
      if isOpenArgument first then none
      else (T.workspace.fromTypeRef first).or
        (T.resolveDisplayType first.render none) := by
  cases first <;> rfl

theorem external_elements_iff (T : Typer) (fqn : String) (args : List TypeRef) :
    (forall element, T.iterableElementType (.external fqn args) = some element ->
        IterableOf T.table (T.typeRef (.external fqn args)) (T.typeRef element)) <->
      IteratesFirstArgument T (.external fqn args) := by
  cases args with
  | nil =>
    constructor
    · exact fun _ => trivial
    · intro _ element h
      cases h
  | cons first rest =>
    rw [iterableElementType_external]
    unfold IteratesFirstArgument
    cases hopen : isOpenArgument first with
    | true => simp [hopen]
    | false =>
      cases hfirst : T.workspace.fromTypeRef first with
      | none => simp [hopen, hfirst]
      | some ty => simp [hopen, hfirst, T.typeRef_of_fromTypeRef hfirst]

theorem inProject_element (T : Typer) {node : Nat} {args : List TypeRef}
    {element : ResolvedType}
    (h : T.iterableElementType (.inProject node args) = some element) :
    walkAnswer T (.inProject node args) = some (T.typeRef element) := by
  simp only [Typer.iterableElementType] at h
  unfold walkAnswer
  split at h
  · cases h
  · rename_i found hfound
    split at h
    · rw [hfound, T.typeRef_of_fromTypeRef h]
    · cases h

/--
The element type of a class type is right exactly when the class is declared in
an open document, or iterates over its first type argument.
-/
theorem element_type_iff (T : Typer) (collection : CollectionIterates T.table)
    (once : IteratesOnce T.table) (ty : ResolvedType)
    (hclass : isClassType ty = true) :
    ElementRight T ty <-> IteratesFirstArgument T ty := by
  cases ty with
  | inProject node args =>
    constructor
    · exact fun _ => trivial
    · intro _ element h
      have hwalk := inProject_element T h
      refine ⟨iterableArgument_sound collection _ _ _ _ hwalk, ?_⟩
      intro walked hwalked
      rw [hwalk] at hwalked
      exact (Option.some.inj hwalked).symm
  | external fqn args =>
    rw [← external_elements_iff]
    constructor
    · exact fun right element h => (right element h).1
    · intro right element h
      refine ⟨right element h, ?_⟩
      intro walked hwalked
      exact once _ _ _ (iterableArgument_sound collection _ _ _ _ hwalked)
        (right element h)
  | _ => cases hclass

/-!
# One class of a library

    interface Tagged<T> extends Iterable<String>
-/

namespace TaggedRows

def parameter (owner : String) : TypeParameter := ⟨⟨owner, 0⟩, []⟩

def stringRef : TypeRef := TypeRef.ofName "java.lang.String"

def integerRef : TypeRef := TypeRef.ofName "java.lang.Integer"

def tagged : ClassMetadata :=
  ⟨[parameter "lib.Tagged"], [.named iterableId [stringRef]], true⟩

def collection : ClassMetadata :=
  ⟨[parameter "java.util.Collection"],
    [.named iterableId [.typeVariable ⟨"java.util.Collection", 0⟩]], true⟩

def table : ClassTable :=
  ⟨[(.named "lib.Tagged", ⟨tagged, false⟩), (collectionId, ⟨collection, false⟩)]⟩

def typer : Typer :=
  { AnonymousBody.typer with
    workspace := Workspace.closedOnly (fun _ => false)
      (fun _ => some (.compiled ⟨[], [], none⟩))
    table := table
    typeId := fun node => .localClass 0 node
    typeId_named := by
      intro binary node h
      cases h
    typeId_local := by
      intro document declaration node h
      cases h }

theorem classFacts_cases {id : TypeId} {facts : ClassMetadata}
    (h : table.classFacts id = some facts) :
    id = .named "lib.Tagged" ∧ facts = tagged ∨
      id = collectionId ∧ facts = collection := by
  rcases mem_entries_of_classFacts h with ⟨entry, hmem, hfacts⟩
  simp only [table, List.mem_cons, Prod.mk.injEq, List.not_mem_nil, or_false] at hmem
  rcases hmem with ⟨hid, hentry⟩ | ⟨hid, hentry⟩
  · exact .inl ⟨hid, by rw [← hfacts, hentry]⟩
  · exact .inr ⟨hid, by rw [← hfacts, hentry]⟩

theorem collection_iterates : CollectionIterates table := by
  intro element rest
  refine ⟨[], .single ⟨_, _, collection, rfl, rfl, ?_⟩⟩
  simp [ClassMetadata.superInstances, ClassMetadata.isRaw, collection, parameter,
    ClassMetadata.environment, TypeRef.substitute]

theorem superStep_unique : Relator.RightUnique (SuperStep table) := by
  intro t sup sup' h h'
  rcases h with ⟨id, args, facts, rfl, hfacts, hsup⟩
  rcases h' with ⟨id', args', facts', hsame, hfacts', hsup'⟩
  cases hsame
  rw [hfacts] at hfacts'
  cases hfacts'
  rcases classFacts_cases hfacts with ⟨-, rfl⟩ | ⟨-, rfl⟩
  · rw [List.mem_singleton.mp hsup, List.mem_singleton.mp hsup']
  · rw [List.mem_singleton.mp hsup, List.mem_singleton.mp hsup']

theorem iterable_is_last {args : List TypeRef} {t : TypeRef}
    (h : Relation.ReflTransGen (SuperStep table) (.named iterableId args) t) :
    t = .named iterableId args := by
  rcases Relation.ReflTransGen.cases_head h with hsame | ⟨sup, hstep, -⟩
  · exact hsame.symm
  · rcases hstep with ⟨id, args', facts, hid, hfacts, -⟩
    cases hid
    rcases classFacts_cases hfacts with ⟨hname, -⟩ | ⟨hname, -⟩
    · exact absurd hname (by decide)
    · exact absurd hname (by decide)

theorem iterates_once : IteratesOnce table := by
  intro t e e' h h'
  rcases h with ⟨rest, hpath⟩
  rcases h' with ⟨rest', hpath'⟩
  rcases Relation.ReflTransGen.total_of_right_unique superStep_unique hpath hpath'
    with hto | hto
  · cases iterable_is_last hto
    rfl
  · cases iterable_is_last hto
    rfl

/-- A collection of strings is iterated as strings. -/
theorem collection_element_right :
    ElementRight typer (.external "java.util.Collection" [stringRef]) :=
  (element_type_iff typer collection_iterates iterates_once
    (.external "java.util.Collection" [stringRef]) rfl).mpr
      (fun _ => collection_iterates stringRef [])

/-- `Tagged<Integer>` is iterated as strings, and answered with integers. -/
theorem tagged_element_wrong :
    typer.iterableElementType (.external "lib.Tagged" [integerRef]) =
        some (.external "java.lang.Integer" []) ∧
      walkAnswer typer (.external "lib.Tagged" [integerRef]) = some stringRef ∧
      IterableOf table (.named (.named "lib.Tagged") [integerRef]) stringRef ∧
      ¬ ElementRight typer (.external "lib.Tagged" [integerRef]) := by
  have hanswer : typer.iterableElementType (.external "lib.Tagged" [integerRef]) =
      some (.external "java.lang.Integer" []) := rfl
  have hwalk : walkAnswer typer (.external "lib.Tagged" [integerRef]) =
      some stringRef := by
    decide
  refine ⟨hanswer, hwalk, iterableArgument_sound collection_iterates _ _ _ _ hwalk, ?_⟩
  intro right
  have hsame := (right _ hanswer).2 _ hwalk
  revert hsame
  decide

end TaggedRows

end Expressions
end JavaVsixLite
