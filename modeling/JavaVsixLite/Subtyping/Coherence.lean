import JavaVsixLite.Subtyping.Nesting

/-!
# Coherence of decided assignability

Assignability should be a preorder as far as it is decided: no type is refuted
against itself, and two proofs in a row leave nothing to refute.  The first
holds.  The second fails where a walk substitutes a wildcard into a larger
argument, which is then compared by equality as if the wildcard were a type.
-/

namespace JavaVsixLite

open Foundation
open Foundation.Verdict
open TypeRef (Proper)

variable {T : ClassTable}

/-- Some walk of the comparison meets a buried wildcard, be it proved there or not. -/
def walksBuried (T : ClassTable) : Question -> Bool
  | (.named id args, .named target targetArgs) =>
    (tracedViews T target (maxSubtypeDepth + 1) [] id (traced args)).any
      (fun view => meetsBuried view targetArgs)
  | _ => false

theorem ComparesBuried.walksBuried {q : Question} (h : ComparesBuried T q) :
    walksBuried T q = true := by
  unfold ComparesBuried at h
  split at h
  · rcases h with ⟨view, hview, _, hmeets⟩
    exact List.any_eq_true.mpr ⟨view, hview, hmeets⟩
  · cases h

theorem buriesNothing_of_closed (qs : List Question)
    (hclosed : forall q, q ∈ qs -> forall q', q' ∈ followUps T q -> q' ∈ qs)
    (hclear : forall q, q ∈ qs -> walksBuried T q = false) :
    forall q, q ∈ qs -> BuriesNothing T q := by
  intro q hq q' hrests hburied
  have hmem : q' ∈ qs := by
    clear hburied
    induction hrests with
    | refl => exact hq
    | tail _ hstep ih => exact hclosed _ ih _ hstep.mem_followUps
  have hwalks := hburied.walksBuried
  rw [hclear q' hmem] at hwalks
  cases hwalks

/-!
# Coherence
-/

namespace NestedParameter

def objectId : TypeId := TypeId.named "java.lang.Object"

def classG : TypeId := TypeId.named "demo.G"

def classH : TypeId := TypeId.named "demo.H"

def parameterT : TypeVariableId := ⟨"demo.G", 0⟩

def listOf (element : TypeRef) : TypeRef :=
  .named (.named "java.util.List") [element]

def stringRef : TypeRef := TypeRef.ofName "java.lang.String"

def extendsObject : TypeRef := .wildcard (some TypeRef.objectRef) none

def row (id : TypeId) (parameters : List TypeParameter)
    (supertypes : List TypeRef) : TypeId × ClassEntry :=
  (id,
    { metadata :=
        { typeParameters := parameters,
          supertypes := supertypes,
          hierarchyComplete := true },
      inProject := false })

def table : ClassTable where
  entries :=
    [ row objectId [] [],
      row (.named "java.lang.String") [] [TypeRef.objectRef],
      row (.named "java.util.List") [⟨⟨"java.util.List", 0⟩, []⟩]
        [TypeRef.objectRef],
      row classH [⟨⟨"demo.H", 0⟩, []⟩] [TypeRef.objectRef],
      row classG [⟨parameterT, []⟩]
        [.named classH [listOf (.typeVariable parameterT)]] ]

def rank (id : TypeId) : Nat :=
  if id = objectId then 0 else if id = classG then 2 else 1

theorem proper_listOf {t : TypeRef} (ht : Proper t) : Proper (listOf t) := by
  apply Proper.named
  intro t' ht'
  rw [List.mem_singleton.mp ht']
  exact ht

theorem proper_generic (id : TypeId) {t : TypeRef} (ht : Proper t) :
    Proper (.named id [t]) := by
  apply Proper.named
  intro t' ht'
  rw [List.mem_singleton.mp ht']
  exact ht

theorem table_acyclic : table.Acyclic := by
  apply acyclic_of_rank rank
  · intro r hr sup hsup
    simp only [table, List.mem_cons, List.not_mem_nil, or_false] at hr
    rcases hr with heq | heq | heq | heq | heq
    all_goals
      subst heq
      simp only [row, List.mem_cons, List.not_mem_nil, or_false] at hsup
    all_goals
      subst hsup
      right
    · exact ⟨objectId, [], rfl, by decide, by simp, by simp [objectId]⟩
    · exact ⟨objectId, [], rfl, by decide, by simp, by simp [objectId]⟩
    · exact ⟨objectId, [], rfl, by decide, by simp, by simp [objectId]⟩
    · refine ⟨classH, _, rfl, by decide, ?_, by decide⟩
      exact Proper.args
        (proper_generic classH (proper_listOf (.typeVariable parameterT)))
  · intro r hr p hp t ht
    have hbounds : p.bounds = [] := by
      simp only [table, List.mem_cons, List.not_mem_nil, or_false] at hr
      rcases hr with heq | heq | heq | heq | heq
      all_goals
        subst heq
        simp only [row, List.mem_cons, List.not_mem_nil, or_false] at hp
      all_goals
        subst hp
        rfl
    rw [hbounds] at ht
    cases ht

theorem nests : NestsParameter table classG
    { typeParameters := [⟨parameterT, []⟩],
      supertypes := [.named classH [listOf (.typeVariable parameterT)]],
      hierarchyComplete := true }
    classH [listOf (.typeVariable parameterT)]
    (listOf (.typeVariable parameterT)) parameterT where
  known := by decide
  complete := rfl
  supertype := List.mem_singleton_self _
  others := by
    intro sup hsup
    exact Or.inl (List.mem_singleton.mp hsup)
  target := by decide
  notObject := by decide
  parameter := List.mem_singleton_self _
  argument := List.mem_singleton_self _
  compared := Or.inl ⟨_, _, rfl⟩
  mentioned := by decide

/-- Where the first arguments refute, the buried wildcard of the second is not met. -/
example (id : TypeId) :
    BuriesNothing table
      (.named id [TypeRef.objectRef, .named classG [extendsObject]],
        .named id [stringRef, .wildcard (some (.named classH [listOf extendsObject])) none]) := by
  have hrefuted : ¬ Contained table [TypeRef.objectRef, .named classG [extendsObject]]
      [stringRef, .wildcard (some (.named classH [listOf extendsObject])) none] := by
    rintro ⟨fuel, h⟩
    have hapart : argumentContains (asking table fuel) TypeRef.objectRef stringRef =
        some (some false) := by
      simp [argumentContains, TypeRef.objectRef, stringRef, TypeRef.ofName]
    rcases typeArgsContain_proved h with hnil | ⟨_, _, hall⟩
    · cases hnil
    · have hproved := hall _ List.mem_cons_self
      rw [hapart] at hproved
      cases hproved
  intro q' hrests hburied
  rcases Relation.ReflTransGen.cases_head hrests with rfl | ⟨q, hstep, _⟩
  · rcases hburied with ⟨view, hview, hcontained, _⟩
    rw [tracedViews_succ] at hview
    simp only [walkRule, List.not_mem_nil, if_false, if_true, List.mem_singleton] at hview
    rw [hview, traced_map_snd] at hcontained
    exact hrefuted hcontained
  · cases hstep with
    | asks hrule => cases hrule
    | tries hrule _ _ => cases hrule
    | walks hrule hview hcontained _ =>
      cases hrule
      rw [views_succ] at hview
      simp only [walkRule, List.not_mem_nil, if_false, if_true, List.mem_singleton] at hview
      rw [hview] at hcontained
      exact hrefuted hcontained

end NestedParameter

end JavaVsixLite
