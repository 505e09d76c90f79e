import JavaVsixLite.Subtyping.Questions

/-!
# Cautious runs

Some of the comparisons that the engine decides by structural equality are open
questions.  A cautious run is a run of the engine that leaves them undecided, so
that a verdict it still reaches rests on none of them.
-/

namespace JavaVsixLite

open Foundation
open Foundation.Verdict

/-- The argument pairs and the array elements that a cautious run leaves undecided. -/
structure Doubts where
  arguments : TypeRef -> TypeRef -> Bool
  elements : TypeRef -> TypeRef -> Bool

namespace Doubts

def nothing : Doubts where
  arguments := fun _ _ => false
  elements := fun _ _ => false

variable (d : Doubts)

def contains (ask : Ask) (x y : TypeRef) : Option Verdict :=
  match argumentRule x y with
  | .compares =>
    if d.arguments x y then some none else some (some (decide (x = y)))
  | rule => rule.eval ask x y

def containsArgs (ask : Ask) (actual expected : List TypeRef) : Option Verdict :=
  match lengthVerdict actual.length expected.length with
  | some v => some v
  | none =>
    allProved (fun pair => d.contains ask pair.1 pair.2) false
      (argumentPairs actual expected)

def walk (T : ClassTable) (ask : Ask) (target : TypeId) (targetArgs : List TypeRef) :
    Nat -> List TypeRef -> TypeRef -> Option Verdict
  | 0, _, _ => some none
  | budget + 1, seen, actual =>
    match walkRule T target budget seen actual with
    | .stops v => some v
    | .meets args => d.containsArgs ask args targetArgs
    | .climbs facts args =>
      anyProved (walk T ask target targetArgs budget (actual :: seen))
        (!facts.hierarchyComplete) (facts.superInstances args)

def leaves : Question -> Bool
  | (.array x, .array y) => d.elements x y
  | _ => false

def step (T : ClassTable) (ask : Ask) (q : Question) : Option Verdict :=
  if d.leaves q then some none
  else
    match stepRule T q with
    | .walks actual target targetArgs =>
      d.walk T ask target targetArgs (maxSubtypeDepth + 1) [] actual
    | rule => rule.eval T ask

def run (T : ClassTable) (fuel : Nat) (actual expected : TypeRef) : Option Verdict :=
  OpenRecursion.run (d.step T) fuel (actual, expected)

/-- Before a walk meets a view no branch can prove the subtype relation. -/
theorem walk_of_views_nil {T : ClassTable} {ask : Ask} {target : TypeId}
    {targetArgs : List TypeRef} (hobject : target ≠ .named "java.lang.Object")
    (budget : Nat) (seen : List TypeRef) (actual : TypeRef)
    (h : views T target budget seen actual = []) :
    d.walk T ask target targetArgs budget seen actual ≠ some (some true) := by
  intro hv
  induction budget generalizing seen actual with
  | zero => cases hv
  | succ budget ih =>
    rw [walk] at hv
    rw [views_succ] at h
    cases hrule : walkRule T target budget seen actual with
    | stops w =>
      rw [hrule] at hv
      rcases walkRule_stops hrule with hnone | ⟨_, htarget, _⟩
      · rw [hnone] at hv
        cases hv
      · exact hobject htarget
    | meets args =>
      rw [hrule] at h
      cases h
    | climbs facts args =>
      rw [hrule] at h hv
      rcases anyProved_true hv with ⟨sup, hsup, hproved⟩
      exact ih (actual :: seen) sup (List.flatMap_eq_nil_iff.mp h sup hsup) hproved

/-!
# Without doubts
-/

theorem contains_nothing (ask : Ask) (x y : TypeRef) :
    nothing.contains ask x y = argumentContains ask x y := by
  rw [argumentContains_eq_eval]
  unfold contains
  cases argumentRule x y <;> rfl

theorem containsArgs_nothing (ask : Ask) (actual expected : List TypeRef) :
    nothing.containsArgs ask actual expected = typeArgsContain ask actual expected := by
  have hcontains : (fun pair : TypeRef × TypeRef => nothing.contains ask pair.1 pair.2) =
      fun pair => argumentContains ask pair.1 pair.2 :=
    funext (fun pair => contains_nothing ask pair.1 pair.2)
  rw [typeArgsContain_eq]
  unfold containsArgs
  cases lengthVerdict actual.length expected.length with
  | some v => rfl
  | none => exact congrArg (fun f => allProved f false (argumentPairs actual expected)) hcontains

theorem walk_nothing (T : ClassTable) (ask : Ask) (target : TypeId)
    (targetArgs : List TypeRef) (budget : Nat) (seen : List TypeRef) (actual : TypeRef) :
    nothing.walk T ask target targetArgs budget seen actual =
      isSubtype T ask target targetArgs budget seen actual := by
  induction budget generalizing seen actual with
  | zero => rfl
  | succ budget ih =>
    rw [isSubtype_succ, walk]
    cases walkRule T target budget seen actual with
    | stops v => rfl
    | meets args => exact containsArgs_nothing ask args targetArgs
    | climbs facts args =>
      have hsame : nothing.walk T ask target targetArgs budget (actual :: seen) =
          isSubtype T ask target targetArgs budget (actual :: seen) :=
        funext (fun sup => ih (actual :: seen) sup)
      simp only [hsame]

theorem leaves_nothing (q : Question) : nothing.leaves q = false := by
  unfold leaves
  split <;> rfl

theorem step_nothing (T : ClassTable) : nothing.step T = assignableStep T := by
  funext ask q
  rw [assignableStep_eq_eval, step, leaves_nothing]
  cases stepRule T q with
  | walks actual target targetArgs => exact walk_nothing T ask _ _ _ _ _
  | _ => rfl

theorem run_nothing (T : ClassTable) (fuel : Nat) (actual expected : TypeRef) :
    nothing.run T fuel actual expected = assignableRefs T fuel actual expected := by
  rw [run, step_nothing]
  rfl

end Doubts

end JavaVsixLite
