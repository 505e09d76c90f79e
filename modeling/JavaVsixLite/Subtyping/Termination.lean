import JavaVsixLite.Subtyping.Caution

/-!
# Termination of the subtype engine

The guards of a walk bound one walk.  A nested comparison starts a new walk with
fresh guards, so termination rests on the chains of nested comparisons.  An
earlier verdict can cut one off, and of those that are left every chain must be
finite.
-/

namespace JavaVsixLite

open Foundation
open Foundation.Verdict

/-- Some amount of fuel answers the comparison. -/
def Answers (T : ClassTable) (actual expected : TypeRef) : Prop :=
  exists fuel v, assignableRefs T fuel actual expected = some v

variable {T : ClassTable} {ask : Ask} {q : Question}

theorem answers_iff_terminates {actual expected : TypeRef} :
    Answers T actual expected <->
      OpenRecursion.Terminates (assignableStep T) (actual, expected) := by
  constructor
  · rintro ⟨fuel, v, h⟩
    exact ⟨v, fuel, h⟩
  · rintro ⟨v, fuel, h⟩
    exact ⟨fuel, v, h⟩

/-- The comparison of `q` visits that of `q'`, earlier ones not having decided. -/
def Visited (T : ClassTable) (q' q : Question) : Prop :=
  OpenRecursion.Asks (assignableStep T) (stepPlan T) q' q

/-- `q'` is one of the follow-up questions of `q`, visited or not. -/
def FollowUpOf (T : ClassTable) (q' q : Question) : Prop :=
  q' ∈ followUps T q

theorem acc_visited_of_followUps (h : Acc (FollowUpOf T) q) : Acc (Visited T) q := by
  induction h with
  | intro q _ ih =>
    apply Acc.intro
    intro q' hvisited
    exact ih q' (visits_stepPlan hvisited)

/-!
# Chains without swapped sides

A nested comparison keeps its sides unless the expected argument is a lower
bounded wildcard.  While the sides are kept the expected type shrinks with every
walk, so only the bounds of variables can repeat.
-/

/-- `t'` is what a variable or wildcard `t` is compared as. -/
inductive BoundOf (T : ClassTable) : TypeRef -> TypeRef -> Prop where
  | variableBound {v : TypeVariableId} {bounds : List TypeRef} {b : TypeRef} :
      T.variableBounds v = some bounds -> b ∈ effectiveBounds bounds ->
      BoundOf T b (.typeVariable v)
  | upperBound (upper : TypeRef) (lower : Option TypeRef) :
      BoundOf T upper (.wildcard (some upper) lower)
  | unbounded (lower : Option TypeRef) :
      BoundOf T TypeRef.objectRef (.wildcard none lower)

/-- The ways a comparison leads to a nested one. -/
inductive FollowUpCase (T : ClassTable) (a e : TypeRef) : Question -> Prop where
  | bound {b : TypeRef} : BoundOf T b a -> FollowUpCase T a e (b, e)
  | boxed (p : PrimitiveType) : a = .primitive p ->
      FollowUpCase T a e (TypeRef.ofName p.boxFqn, e)
  | elements {x y : TypeRef} : a = .array x -> e = .array y -> FollowUpCase T a e (x, y)
  | arguments {id eid : TypeId} {args eargs view : List TypeRef} {pair q : Question} :
      a = .named id args -> e = .named eid eargs ->
      view ∈ views T eid (maxSubtypeDepth + 1) [] a -> pair ∈ view.zip eargs ->
      argumentRule pair.1 pair.2 = .asks q -> FollowUpCase T a e q

theorem followUps_cases {a e : TypeRef} (hq : q ∈ followUps T (a, e)) : FollowUpCase T a e q := by
  cases a with
  | primitive p =>
    cases e with
    | named id args =>
      cases id with
      | localClass document declaration => cases hq
      | named eb =>
        simp only [followUps, stepRule] at hq
        split at hq
        · cases hq
        · split at hq
          · cases hq
          · rw [List.mem_singleton.mp hq]
            exact .boxed p rfl
    | _ => cases hq
  | typeVariable v =>
    simp only [followUps] at hq
    cases hbounds : T.variableBounds v with
    | none => cases e <;> simp [stepRule, hbounds, StepRule.followUps] at hq
    | some bounds =>
      cases e <;> simp only [stepRule, hbounds, StepRule.followUps] at hq
      all_goals
        first
          | cases hq
          | (rcases List.mem_map.mp hq with ⟨b, hb, heq⟩
             rw [← heq]
             exact .bound (.variableBound hbounds hb))
  | wildcard upper lower =>
    cases upper with
    | none =>
      cases e <;> cases hq <;>
        first | exact .bound (.unbounded lower) | contradiction
    | some u =>
      cases e <;> cases hq <;>
        first | exact .bound (.upperBound u lower) | contradiction
  | array x =>
    cases e with
    | array y =>
      have hmem : q = (x, y) := by
        cases x <;> cases y <;>
          simp [followUps, stepRule, elementRule, StepRule.followUps] at hq <;>
            exact hq
      rw [hmem]
      exact .elements rfl rfl
    | named id args => cases id <;> cases hq
    | _ => cases hq
  | named id args =>
    cases e with
    | named eid eargs =>
      rcases List.mem_flatMap.mp hq with ⟨view, hview, hmem⟩
      rcases mem_argumentFollowUps.mp hmem with ⟨pair, hpair, hrule⟩
      have hzip : pair ∈ view.zip eargs := by
        unfold argumentPairs at hpair
        split at hpair
        · cases hpair
        · exact hpair
      exact .arguments rfl rfl hview hzip hrule
    | primitive p => cases id <;> cases hq
    | _ => cases hq
  | _ => cases e <;> cases hq

theorem argumentRule_keeps_sides {x y : TypeRef} (hlower : y.containsLowerBound = false)
    (h : argumentRule x y = .asks q) :
    sizeOf q.2 < sizeOf y ∧ q.2.containsLowerBound = false := by
  cases y with
  | wildcard upper lower =>
    cases lower with
    | some l => cases hlower
    | none =>
      cases upper with
      | none =>
        unfold argumentRule at h
        cases h
      | some u =>
        have hq : q.2 = u := by
          unfold argumentRule at h
          split at h <;> simp_all <;> rw [← h]
        rw [hq]
        refine ⟨?_, by simpa [TypeRef.containsLowerBound,
          TypeRef.containsLowerBoundUpper] using hlower⟩
        simp only [TypeRef.wildcard.sizeOf_spec, Option.some.sizeOf_spec]
        omega
  | _ =>
    cases x <;> simp [argumentRule] at h

inductive KeptSides (T : ClassTable) (a e : TypeRef) : Question -> Prop where
  | smaller {q : Question} : sizeOf q.2 < sizeOf e ->
      q.2.containsLowerBound = false -> KeptSides T a e q
  | bound {b : TypeRef} : BoundOf T b a -> KeptSides T a e (b, e)
  | boxed (p : PrimitiveType) : a = .primitive p ->
      KeptSides T a e (TypeRef.ofName p.boxFqn, e)

theorem followUps_keep_sides {a e : TypeRef} (hlower : e.containsLowerBound = false)
    (hq : q ∈ followUps T (a, e)) : KeptSides T a e q := by
  cases followUps_cases hq with
  | bound hbound => exact .bound hbound
  | boxed p heq => exact .boxed p heq
  | elements _ heq =>
    subst heq
    refine .smaller ?_ hlower
    simp only [TypeRef.array.sizeOf_spec]
    omega
  | @arguments id eid args eargs view pair _ _ heq _ hpair hrule =>
    subst heq
    have harg : pair.2 ∈ eargs := (List.of_mem_zip hpair).right
    have hargLower : pair.2.containsLowerBound = false := by
      simp only [TypeRef.containsLowerBound, TypeRef.containsLowerBoundArgs_eq,
        List.any_eq_false, Bool.not_eq_true] at hlower
      exact hlower pair.2 harg
    rcases argumentRule_keeps_sides hargLower hrule with ⟨hsize, hkept⟩
    refine .smaller ?_ hkept
    have hargSize := List.sizeOf_lt_of_mem harg
    simp only [TypeRef.named.sizeOf_spec]
    omega

theorem acc_of_kept_sides (hbounds : WellFounded (BoundOf T)) (n : Nat) :
    forall (a e : TypeRef), sizeOf e = n ->
      e.containsLowerBound = false ->
      Acc (FollowUpOf T) (a, e) := by
  induction n using Nat.strong_induction_on with
  | h n ih =>
    intro a e hsize hlower
    have hsmaller : forall q : Question, sizeOf q.2 < sizeOf e ->
        q.2.containsLowerBound = false ->
        Acc (FollowUpOf T) q := by
      intro q hlt hkept
      exact ih (sizeOf q.2) (by omega) q.1 q.2 rfl hkept
    have hnamed : forall b : String,
        Acc (FollowUpOf T) (TypeRef.ofName b, e) := by
      intro b
      apply Acc.intro
      intro q hq
      cases followUps_keep_sides hlower hq with
      | smaller hlt hkept => exact hsmaller q hlt hkept
      | bound hbound => cases hbound
      | boxed p heq => cases heq
    -- the expected type stays, so the chain follows the bounds
    induction a using hbounds.induction with
    | h a iha =>
      apply Acc.intro
      intro q hq
      cases followUps_keep_sides hlower hq with
      | smaller hlt hkept => exact hsmaller q hlt hkept
      | bound hbound => exact iha _ hbound
      | boxed p heq => exact hnamed p.boxFqn

/-!
# Chains below a table without lower bounds

A swap of the sides uses up a lower bounded wildcard of each side.  Where the
supertypes and bounds of the class table have none, a walk brings in no new
ones, so the two types together have fewer levels of them after every swap.
-/

namespace TypeRef

mutual
/-- How deeply lower bounded wildcards are nested in one another. -/
@[grind =] def lowerDepth : TypeRef -> Nat
  | .named _ args => lowerDepthArgs args
  | .array element => lowerDepth element
  | .wildcard upper lower => max (lowerDepthUpper upper) (lowerDepthLower lower)
  | _ => 0

@[grind =] def lowerDepthArgs : List TypeRef -> Nat
  | [] => 0
  | t :: rest => max (lowerDepth t) (lowerDepthArgs rest)

@[grind =] def lowerDepthUpper : Option TypeRef -> Nat
  | none => 0
  | some t => lowerDepth t

@[grind =] def lowerDepthLower : Option TypeRef -> Nat
  | none => 0
  | some t => lowerDepth t + 1
end

theorem lowerDepthArgs_le {args : List TypeRef} {n : Nat} :
    lowerDepthArgs args ≤ n <-> forall t, t ∈ args -> lowerDepth t ≤ n := by
  induction args with
  | nil => simp [lowerDepthArgs]
  | cons t rest ih => simp [lowerDepthArgs, ih]

theorem lowerDepth_le_of_mem {args : List TypeRef} {t : TypeRef} (id : TypeId) (h : t ∈ args) :
    lowerDepth t ≤ lowerDepth (.named id args) := by
  rw [show lowerDepth (.named id args) = lowerDepthArgs args from rfl]
  exact lowerDepthArgs_le.mp le_rfl t h

theorem lowerDepth_substitute {env : TypeEnv} {n : Nat}
    (henv : forall entry, entry ∈ env -> lowerDepth entry.2 ≤ n) {t : TypeRef}
    (h : t.containsLowerBound = false) :
    lowerDepth (t.substitute env) ≤ n := by
  induction t using induct with
  | typeVariable v =>
    simp only [substitute]
    cases hfind : env.find? (fun entry => entry.1 == v) with
    | none => exact Nat.zero_le n
    | some entry => exact henv entry (List.mem_of_find?_eq_some hfind)
  | named id args ih =>
    simp only [containsLowerBound, containsLowerBoundArgs_eq, List.any_eq_false,
      Bool.not_eq_true] at h
    simp only [substitute, substituteArgs_eq, lowerDepth, lowerDepthArgs_le, List.mem_map]
    rintro _ ⟨t, ht, rfl⟩
    exact ih t ht (h t ht)
  | array element ih => exact ih h
  | wildcard upper lower ihu _ =>
    cases lower with
    | some l => cases h
    | none =>
      cases upper with
      | none => exact Nat.zero_le n
      | some u =>
        simp only [containsLowerBound, containsLowerBoundUpper, Option.isSome_none,
          Bool.false_or] at h
        have hupper := ihu u rfl h
        simpa [substitute, substituteBound, lowerDepth, lowerDepthUpper, lowerDepthLower]
          using hupper
  | _ => exact Nat.zero_le n

theorem lowerDepth_of_not_containsLowerBound {t : TypeRef} (h : t.containsLowerBound = false) :
    lowerDepth t = 0 := by
  induction t using induct with
  | named id args ih =>
    simp only [containsLowerBound, containsLowerBoundArgs_eq, List.any_eq_false,
      Bool.not_eq_true] at h
    rw [show lowerDepth (.named id args) = lowerDepthArgs args from rfl, ← Nat.le_zero,
      lowerDepthArgs_le]
    intro t ht
    rw [ih t ht (h t ht)]
  | array element ih => exact ih h
  | wildcard upper lower ihu _ =>
    cases lower with
    | some l => cases h
    | none =>
      cases upper with
      | none => rfl
      | some u =>
        have hupper : lowerDepth u = 0 := ihu u rfl h
        simpa [lowerDepth, lowerDepthUpper, lowerDepthLower] using hupper
  | _ => rfl

theorem lowerDepth_erase_le (t : TypeRef) : lowerDepth t.erase ≤ lowerDepth t := by
  induction t using induct with
  | named id args _ => exact Nat.zero_le _
  | array element ih => exact ih
  | _ => exact le_rfl

end TypeRef

open TypeRef (lowerDepth)

/-- No supertype and no bound in the class table has a lower bounded wildcard. -/
structure ClassTable.LowerFree (T : ClassTable) : Prop where
  supertypes : forall {id facts}, T.classFacts id = some facts ->
    forall sup, sup ∈ facts.supertypes -> sup.containsLowerBound = false
  bounds : forall {v bounds}, T.variableBounds v = some bounds ->
    forall b, b ∈ bounds -> b.containsLowerBound = false

theorem lowerDepth_superInstance (hfree : T.LowerFree) {id : TypeId} {facts : ClassMetadata}
    (hfacts : T.classFacts id = some facts) {args : List TypeRef} {sup : TypeRef}
    (h : sup ∈ facts.superInstances args) :
    lowerDepth sup ≤ lowerDepth (.named id args) := by
  rcases List.mem_map.mp h with ⟨declared, hdeclared, rfl⟩
  have hlower := hfree.supertypes hfacts declared hdeclared
  split
  · have herased := TypeRef.lowerDepth_erase_le declared
    rw [TypeRef.lowerDepth_of_not_containsLowerBound hlower] at herased
    omega
  · apply TypeRef.lowerDepth_substitute _ hlower
    intro entry hentry
    exact TypeRef.lowerDepth_le_of_mem id (List.of_mem_zip hentry).right

theorem lowerDepth_view (hfree : T.LowerFree) {target : TypeId} (budget : Nat)
    (seen : List TypeRef) (actual : TypeRef) {view : List TypeRef}
    (h : view ∈ views T target budget seen actual) {x : TypeRef} (hx : x ∈ view) :
    lowerDepth x ≤ lowerDepth actual := by
  induction budget generalizing seen actual with
  | zero => cases h
  | succ budget ih =>
    rw [views_succ] at h
    cases hrule : walkRule T target budget seen actual with
    | stops v =>
      rw [hrule] at h
      cases h
    | meets args =>
      rw [hrule] at h
      rw [List.mem_singleton.mp h] at hx
      rcases named_of_walkRule_meets hrule with ⟨id, rfl⟩
      exact TypeRef.lowerDepth_le_of_mem id hx
    | climbs facts args =>
      rw [hrule] at h
      rcases walkRule_climbs hrule with ⟨id, rfl, hfacts, _⟩
      rcases List.mem_flatMap.mp h with ⟨sup, hsup, hview⟩
      exact (ih _ sup hview).trans (lowerDepth_superInstance hfree hfacts hsup)

/-- What a nested comparison leaves of the two types. -/
inductive Descends (T : ClassTable) (a e : TypeRef) : Question -> Prop where
  | smaller {q : Question} : lowerDepth q.1 ≤ lowerDepth a -> lowerDepth q.2 ≤ lowerDepth e ->
      sizeOf q.2 < sizeOf e -> Descends T a e q
  | swapped {q : Question} : lowerDepth q.1 + lowerDepth q.2 < lowerDepth a + lowerDepth e ->
      Descends T a e q
  | bound {b : TypeRef} : BoundOf T b a -> lowerDepth b ≤ lowerDepth a ->
      Descends T a e (b, e)
  | boxed (p : PrimitiveType) : a = .primitive p ->
      Descends T a e (TypeRef.ofName p.boxFqn, e)

theorem argumentRule_descends {x y : TypeRef} (h : argumentRule x y = .asks q) :
    lowerDepth q.1 + lowerDepth q.2 < lowerDepth x + lowerDepth y ∨
      lowerDepth q.1 ≤ lowerDepth x ∧ lowerDepth q.2 ≤ lowerDepth y ∧
        sizeOf q.2 < sizeOf y := by
  unfold argumentRule at h
  split at h
  all_goals cases h
  · right
    refine ⟨?_, ?_, ?_⟩
    · exact le_max_left _ _
    · exact le_max_left _ _
    · simp only [TypeRef.wildcard.sizeOf_spec, Option.some.sizeOf_spec]
      omega
  · right
    refine ⟨Nat.zero_le _, le_max_left _ _, ?_⟩
    simp only [TypeRef.wildcard.sizeOf_spec, Option.some.sizeOf_spec]
    omega
  · left
    simp only [lowerDepth, TypeRef.lowerDepthLower]
    omega
  · right
    refine ⟨le_rfl, le_max_left _ _, ?_⟩
    simp only [TypeRef.wildcard.sizeOf_spec, Option.some.sizeOf_spec]
    omega
  · left
    simp only [lowerDepth, TypeRef.lowerDepthLower, TypeRef.lowerDepthUpper]
    omega

theorem lowerDepth_bound (hfree : T.LowerFree) {a b : TypeRef} (h : BoundOf T b a) :
    lowerDepth b ≤ lowerDepth a := by
  cases h with
  | @variableBound v bounds b hbounds hb =>
    have hlower : b.containsLowerBound = false := by
      unfold effectiveBounds at hb
      split at hb
      · rw [List.mem_singleton.mp hb]
        rfl
      · exact hfree.bounds hbounds b hb
    rw [TypeRef.lowerDepth_of_not_containsLowerBound hlower]
    exact Nat.zero_le _
  | upperBound upper lower => exact le_max_left _ _
  | unbounded lower => exact Nat.zero_le _

theorem followUps_descend (hfree : T.LowerFree) {a e : TypeRef} (hq : q ∈ followUps T (a, e)) :
    Descends T a e q := by
  cases followUps_cases hq with
  | bound hbound => exact .bound hbound (lowerDepth_bound hfree hbound)
  | boxed p heq => exact .boxed p heq
  | elements hactual hexpected =>
    subst hactual hexpected
    refine .smaller le_rfl le_rfl ?_
    simp only [TypeRef.array.sizeOf_spec]
    omega
  | @arguments id eid args eargs view pair _ _ heq hview hpair hrule =>
    subst heq
    have hactual := lowerDepth_view hfree _ _ _ hview (List.of_mem_zip hpair).left
    have hexpected := TypeRef.lowerDepth_le_of_mem eid (List.of_mem_zip hpair).right
    have hsize := List.sizeOf_lt_of_mem (List.of_mem_zip hpair).right
    rcases argumentRule_descends hrule with hswapped | ⟨hleft, hright, hsmaller⟩
    · exact .swapped (by omega)
    · refine .smaller (hleft.trans hactual) (hright.trans hexpected) ?_
      simp only [TypeRef.named.sizeOf_spec]
      omega

/--
The induction is on the levels of lower bounds, then on the expected type; where
both stay, the chain follows the bounds.
-/
theorem acc_of_lowerFree (hfree : T.LowerFree) (hbounds : WellFounded (BoundOf T))
    (depth size : Nat) (a e : TypeRef) (hdepth : lowerDepth a + lowerDepth e ≤ depth)
    (hsize : sizeOf e = size) :
    Acc (FollowUpOf T) (a, e) := by
  induction depth using Nat.strong_induction_on generalizing size a e with
  | h depth ihdepth =>
    induction size using Nat.strong_induction_on generalizing a e with
    | h size ihsize =>
      have hswapped : forall q : Question, lowerDepth q.1 + lowerDepth q.2 < depth ->
          Acc (FollowUpOf T) q := by
        intro q hlt
        exact ihdepth (lowerDepth q.1 + lowerDepth q.2) hlt _ q.1 q.2 le_rfl rfl
      have hsmaller : forall q : Question, lowerDepth q.1 + lowerDepth q.2 ≤ depth ->
          sizeOf q.2 < sizeOf e -> Acc (FollowUpOf T) q := by
        intro q hle hlt
        exact ihsize (sizeOf q.2) (by omega) q.1 q.2 hle rfl
      have hdescends : forall a' : TypeRef, lowerDepth a' + lowerDepth e ≤ depth ->
          (forall b, BoundOf T b a' -> lowerDepth b ≤ lowerDepth a' ->
            Acc (FollowUpOf T) (b, e)) ->
          (forall p : PrimitiveType, a' = .primitive p ->
            Acc (FollowUpOf T) (TypeRef.ofName p.boxFqn, e)) ->
          Acc (FollowUpOf T) (a', e) := by
        intro a' hle hbound hboxed
        apply Acc.intro
        intro q hq
        cases followUps_descend hfree hq with
        | smaller hleft hright hlt => exact hsmaller q (by omega) hlt
        | swapped hlt => exact hswapped q (by omega)
        | bound hstep hkept => exact hbound _ hstep hkept
        | boxed p heq => exact hboxed p heq
      have hnamed : forall b : String, Acc (FollowUpOf T) (TypeRef.ofName b, e) := by
        intro b
        apply hdescends _ (le_trans (Nat.add_le_add_right (Nat.zero_le _) _) hdepth)
        · intro b' hstep _
          cases hstep
        · intro p heq
          cases heq
      clear hsize
      induction a using hbounds.induction with
      | h a iha =>
        apply hdescends a hdepth
        · intro b hstep hkept
          exact iha b hstep (by omega)
        · intro p _
          exact hnamed p.boxFqn

/-!
# Finite chains of questions
-/

namespace Contravariant

def classN : TypeId := TypeId.named "demo.N"

def classC : TypeId := TypeId.named "demo.C"

def refC : TypeRef := .named classC []

def superC : TypeRef := .named classN [.wildcard none (some refC)]

def table : ClassTable where
  entries :=
    [ (.named "java.lang.Object",
        { metadata :=
            { typeParameters := [], supertypes := [], hierarchyComplete := true }
          inProject := false }),
      (classN,
        { metadata :=
            { typeParameters := [{ id := ⟨"demo.N", 0⟩, bounds := [] }]
              supertypes := [TypeRef.objectRef]
              hierarchyComplete := true }
          inProject := true }),
      (classC,
        { metadata :=
            { typeParameters := []
              supertypes := [.named classN [superC]]
              hierarchyComplete := true }
          inProject := true }) ]

/-- The first arguments decide, and the endless comparison of the second is not visited. -/
example (id : TypeId) :
    Acc (Visited table)
      (.named id [TypeRef.objectRef, refC],
        .named id [refC, .wildcard (some superC) none]) := by
  have hplan : stepPlan table
      (.named id [TypeRef.objectRef, refC],
        .named id [refC, .wildcard (some superC) none]) = .done (some false) := by
    change walkPlan table id [refC, .wildcard (some superC) none] (maxSubtypeDepth + 1) []
      (.named id [TypeRef.objectRef, refC]) = _
    rw [walkPlan, walkRule, if_neg List.not_mem_nil, if_pos rfl]
    rfl
  apply Acc.intro
  intro q hvisited
  rw [Visited, OpenRecursion.Asks, hplan] at hvisited
  cases hvisited

theorem visits_itself : Visited table (refC, superC) (refC, superC) := by
  exact OpenRecursion.Plan.Visits.here _

theorem comparison_diverges :
    ¬ OpenRecursion.Terminates (assignableStep table) (refC, superC) := by
  intro h
  have hacc := OpenRecursion.acc_of_terminates (eval_stepPlan table) h
  generalize hq : (refC, superC) = q at hacc
  induction hacc with
  | intro q _ ih => exact ih q (hq ▸ visits_itself) hq

end Contravariant

end JavaVsixLite
