import JavaVsixLite.Subtyping.Engine

/-!
# The questions a comparison asks

What one step does is read off the two types and the class table alone, before
any verdict is known: it is decided on the spot, it hands over to one nested
comparison, it tries the bounds of a variable in order, or it walks the
hierarchy of a named type.  The nested comparisons of a step are its follow-up
questions.
-/

namespace JavaVsixLite

open Foundation
open Foundation.Verdict

/-!
# The rule of an argument pair
-/

inductive ArgumentRule where
  | decided (v : Verdict)
  | asks (q : Question)
  | compares

def argumentRule : TypeRef -> TypeRef -> ArgumentRule
  | _, .wildcard none none => .decided (some true)
  | .unknown, _ => .decided none
  | _, .unknown => .decided none
  | .typeVariable _, _ => .decided none
  | _, .typeVariable _ => .decided none
  | .wildcard (some actualUpper) none, .wildcard (some expectedUpper) none =>
    .asks (actualUpper, expectedUpper)
  | .wildcard none none, .wildcard (some expectedUpper) none =>
    .asks (TypeRef.objectRef, expectedUpper)
  | .wildcard _ (some actualLower), .wildcard _ (some expectedLower) =>
    .asks (expectedLower, actualLower)
  | .wildcard _ _, .wildcard (some _) none => .decided none
  | .wildcard _ _, .wildcard none (some _) => .decided none
  | actual, .wildcard (some expectedUpper) none => .asks (actual, expectedUpper)
  | actual, .wildcard none (some expectedLower) => .asks (expectedLower, actual)
  | .wildcard _ _, _ => .decided (some false)
  | _, _ => .compares

def ArgumentRule.eval (ask : Ask) (x y : TypeRef) :
    ArgumentRule -> Option Verdict
  | .decided v => some v
  | .asks q => ask q
  | .compares => some (some (decide (x = y)))

theorem argumentContains_eq_eval (ask : Ask) (x y : TypeRef) :
    argumentContains ask x y = (argumentRule x y).eval ask x y := by
  unfold argumentRule
  split <;> simp [argumentContains, ArgumentRule.eval]

def lengthVerdict (actual expected : Nat) : Option Verdict :=
  if expected = 0 then some (some true)
  else if actual ≠ expected then some none
  else none

/-- The pairs `typeArgsContain` inspects: none unless both lists line up. -/
def argumentPairs (actual expected : List TypeRef) : List Question :=
  match lengthVerdict actual.length expected.length with
  | some _ => []
  | none => actual.zip expected

def argumentFollowUps (actual expected : List TypeRef) : List Question :=
  (argumentPairs actual expected).filterMap (fun pair =>
    match argumentRule pair.1 pair.2 with
    | .asks q => some q
    | _ => none)

/-!
# The views of a walk

A walk stops at a type, meets the expected class there, or climbs to the direct
supertypes.  The views are the argument lists under which it meets the expected
class, in the order of the walk.
-/

inductive WalkRule where
  | stops (v : Verdict)
  | meets (args : List TypeRef)
  | climbs (facts : ClassMetadata) (args : List TypeRef)

def walkRule (T : ClassTable) (target : TypeId) (budget : Nat)
    (seen : List TypeRef) : TypeRef -> WalkRule
  | .named id args =>
    if .named id args ∈ seen then .stops none
    else if id = target then .meets args
    else if target = .named "java.lang.Object" then .stops (some true)
    else if budget = maxSubtypeDepth ∧ T.classFacts target = none then
      .stops none
    else
      match T.classFacts id with
      | none => .stops none
      | some facts => .climbs facts args
  | _ => .stops none

theorem isSubtype_succ (T : ClassTable) (ask : Ask) (target : TypeId)
    (targetArgs : List TypeRef) (budget : Nat) (seen : List TypeRef)
    (actual : TypeRef) :
    isSubtype T ask target targetArgs (budget + 1) seen actual =
      match walkRule T target budget seen actual with
      | .stops v => some v
      | .meets args => typeArgsContain ask args targetArgs
      | .climbs facts args =>
        anyProved (isSubtype T ask target targetArgs budget (actual :: seen))
          (!facts.hierarchyComplete) (facts.superInstances args) := by
  cases actual with
  | named id args =>
    unfold isSubtype walkRule
    repeat' split
    all_goals first | rfl | simp_all
  | _ => rfl

theorem isSubtype_unknown (T : ClassTable) (ask : Ask) (target : TypeId)
    (targetArgs : List TypeRef) (budget : Nat) (seen : List TypeRef) :
    isSubtype T ask target targetArgs budget seen .unknown = some none := by
  cases budget <;> rfl

variable {T : ClassTable} {target : TypeId} {v : Verdict} {actual expected : List TypeRef}
  {ask : Ask}

theorem walkRule_stops {budget : Nat} {seen : List TypeRef} {actual : TypeRef}
    (h : walkRule T target budget seen actual = .stops v) :
    v = none ∨ v = some true ∧ target = .named "java.lang.Object" ∧
      forall args, actual ≠ .named target args := by
  cases actual with
  | named id args =>
    simp only [walkRule] at h
    repeat' split at h
    all_goals cases h
    · exact Or.inl rfl
    · rename_i hid hobject
      refine Or.inr ⟨rfl, hobject, ?_⟩
      intro args' heq
      exact hid (TypeRef.named.inj heq).left
    · exact Or.inl rfl
    · exact Or.inl rfl
  | _ =>
    cases h
    exact Or.inl rfl

theorem walkRule_climbs {budget : Nat} {seen : List TypeRef} {actual : TypeRef}
    {facts : ClassMetadata} {args : List TypeRef}
    (h : walkRule T target budget seen actual = .climbs facts args) :
    exists id, actual = .named id args ∧ T.classFacts id = some facts ∧
      id ≠ target ∧ target ≠ .named "java.lang.Object" ∧
      ¬ (budget = maxSubtypeDepth ∧ T.classFacts target = none) := by
  cases actual with
  | named id args' =>
    simp only [walkRule] at h
    repeat' split at h
    all_goals cases h
    exact ⟨id, rfl, by assumption, by assumption, by assumption,
      by assumption⟩
  | _ => cases h

theorem named_of_walkRule_meets {budget : Nat} {seen : List TypeRef} {actual : TypeRef}
    {args : List TypeRef} (h : walkRule T target budget seen actual = .meets args) :
    exists id, actual = .named id args := by
  cases actual with
  | named id args' =>
    simp only [walkRule] at h
    repeat' split at h
    all_goals cases h
    exact ⟨id, rfl⟩
  | _ => cases h

def views (T : ClassTable) (target : TypeId) :
    Nat -> List TypeRef -> TypeRef -> List (List TypeRef)
  | 0, _, _ => []
  | budget + 1, seen, actual =>
    match walkRule T target budget seen actual with
    | .stops _ => []
    | .meets args => [args]
    | .climbs facts args =>
      (facts.superInstances args).flatMap
        (views T target budget (actual :: seen))

theorem views_succ (T : ClassTable) (target : TypeId) (budget : Nat)
    (seen : List TypeRef) (actual : TypeRef) :
    views T target (budget + 1) seen actual =
      match walkRule T target budget seen actual with
      | .stops _ => []
      | .meets args => [args]
      | .climbs facts args =>
        (facts.superInstances args).flatMap
          (views T target budget (actual :: seen)) := rfl

/-!
# The rule of a step
-/

inductive StepRule where
  | decided (v : Verdict)
  | asks (q : Question)
  | tries (bounds : List TypeRef) (e : TypeRef)
  | walks (actual : TypeRef) (target : TypeId) (targetArgs : List TypeRef)

def elementRule : TypeRef -> TypeRef -> StepRule
  | .primitive x, .primitive y => .decided (some (x == y))
  | .primitive _, _ => .decided (some false)
  | _, .primitive _ => .decided (some false)
  | x, y => .asks (x, y)

def stepRule (T : ClassTable) : Question -> StepRule
  | (.unknown, _) => .decided none
  | (_, .unknown) => .decided none
  | (.null, e) => .decided (some e.isReference)
  | (_, .null) => .decided (some false)
  | (.void, .void) => .decided (some true)
  | (.void, _) => .decided (some false)
  | (_, .void) => .decided (some false)
  | (.typeVariable v, e) =>
    match T.variableBounds v with
    | none => .decided none
    | some bounds => .tries (effectiveBounds bounds) e
  | (_, .typeVariable _) => .decided none
  | (.wildcard (some upper) _, e) => .asks (upper, e)
  | (.wildcard none _, e) => .asks (TypeRef.objectRef, e)
  | (_, .wildcard _ _) => .decided none
  | (.primitive a, .primitive e) => .decided (primitiveAssignable a e)
  | (.primitive _, .named (.localClass _ _) _) => .decided (some false)
  | (.primitive a, .named (.named eb) eargs) =>
    if T.declaresInProject eb then .decided (some false)
    else
      match PrimitiveType.fromBoxFqn eb with
      | some ep => .decided (boxAssignable a ep)
      | none => .asks (TypeRef.ofName a.boxFqn, .named (.named eb) eargs)
  | (.primitive _, _) => .decided (some false)
  | (.named (.named b) _, .primitive e) => .decided (unboxAssignable b e)
  | (_, .primitive _) => .decided (some false)
  | (.array a, .array e) => elementRule a e
  | (.array _, .named (.named b) _) => .decided (some (arraySupertype b))
  | (.array _, _) => .decided (some false)
  | (_, .array _) => .decided (some false)
  | (.named id args, .named eid eargs) => .walks (.named id args) eid eargs

def StepRule.eval (T : ClassTable) (ask : Ask) : StepRule -> Option Verdict
  | .decided v => some v
  | .asks q => ask q
  | .tries bounds e => anyProved (fun b => ask (b, e)) false bounds
  | .walks actual target targetArgs =>
    isSubtype T ask target targetArgs (maxSubtypeDepth + 1) [] actual

def StepRule.followUps (T : ClassTable) : StepRule -> List Question
  | .decided _ => []
  | .asks q => [q]
  | .tries bounds e => bounds.map (fun b => (b, e))
  | .walks actual target targetArgs =>
    (views T target (maxSubtypeDepth + 1) [] actual).flatMap
      (fun view => argumentFollowUps view targetArgs)

/-- The nested comparisons of one step, in the order they are met. -/
def followUps (T : ClassTable) (q : Question) : List Question :=
  (stepRule T q).followUps T

theorem elementAssignable_eq_eval (T : ClassTable) (ask : Ask) (x y : TypeRef) :
    elementAssignable ask x y = (elementRule x y).eval T ask := by
  cases x <;> cases y <;> rfl

theorem assignableStep_eq_eval (T : ClassTable) (ask : Ask) (q : Question) :
    assignableStep T ask q = (stepRule T q).eval T ask := by
  rcases q with ⟨a, e⟩
  cases a with
  | typeVariable v =>
    cases hbounds : T.variableBounds v <;> cases e <;>
      simp [assignableStep, stepRule, StepRule.eval, hbounds]
  | wildcard upper lower =>
    cases upper <;> cases e <;> rfl
  | primitive p =>
    cases e with
    | named id args =>
      cases id with
      | named eb =>
        cases hdeclared : T.declaresInProject eb <;>
          cases hbox : PrimitiveType.fromBoxFqn eb <;>
            simp [assignableStep, stepRule, StepRule.eval, hdeclared, hbox]
      | localClass document declaration => rfl
    | _ => rfl
  | named id args =>
    cases id <;> cases e <;> rfl
  | array element =>
    cases e with
    | array element' => exact elementAssignable_eq_eval T ask element element'
    | named id args => cases id <;> rfl
    | _ => rfl
  | _ => cases e <;> rfl

/-!
# A step is determined by its follow-up questions
-/

theorem mem_argumentFollowUps {q : Question} :
    q ∈ argumentFollowUps actual expected <->
      exists pair, pair ∈ argumentPairs actual expected ∧
        argumentRule pair.1 pair.2 = .asks q := by
  unfold argumentFollowUps
  rw [List.mem_filterMap]
  constructor
  · rintro ⟨pair, hpair, hrule⟩
    refine ⟨pair, hpair, ?_⟩
    split at hrule
    · rename_i heq
      rw [heq, Option.some.inj hrule]
    · cases hrule
  · rintro ⟨pair, hpair, hrule⟩
    exact ⟨pair, hpair, by rw [hrule]⟩

theorem typeArgsContain_eq (ask : Ask) (actual expected : List TypeRef) :
    typeArgsContain ask actual expected =
      match lengthVerdict actual.length expected.length with
      | some v => some v
      | none =>
        allProved (fun pair => argumentContains ask pair.1 pair.2) false
          (argumentPairs actual expected) := by
  unfold typeArgsContain argumentPairs lengthVerdict
  cases expected with
  | nil => rfl
  | cons e erest =>
    cases actual with
    | nil => rfl
    | cons a arest =>
      by_cases hlen : arest.length = erest.length <;> simp [hlen]

theorem isSubtype_isSome {targetArgs : List TypeRef} (budget : Nat) (seen : List TypeRef)
    (actual : TypeRef)
    (h : forall view, view ∈ views T target budget seen actual ->
      (typeArgsContain ask view targetArgs).isSome) :
    (isSubtype T ask target targetArgs budget seen actual).isSome := by
  induction budget generalizing seen actual with
  | zero => rfl
  | succ budget ih =>
    rw [isSubtype_succ]
    rw [views_succ] at h
    cases hrule : walkRule T target budget seen actual with
    | stops v => rfl
    | meets args =>
      rw [hrule] at h
      exact h args List.mem_cons_self
    | climbs facts args =>
      rw [hrule] at h
      apply anyProved_isSome
      intro sup hsup
      apply ih
      intro view hview
      exact h view (List.mem_flatMap.mpr ⟨sup, hsup, hview⟩)

/-!
# The plan of a step

What a step asks next depends on the answers so far: a walk stops at the first
view that proves, and an argument list at the first pair that refutes.
-/

abbrev QuestionPlan := OpenRecursion.Plan Question Verdict Verdict

def argumentPlan (pair : Question) : QuestionPlan :=
  match argumentRule pair.1 pair.2 with
  | .decided v => .done v
  | .asks q => .ask q .done
  | .compares => .done (some (decide (pair.1 = pair.2)))

def argumentsPlan (actual expected : List TypeRef) : QuestionPlan :=
  match lengthVerdict actual.length expected.length with
  | some v => .done v
  | none => allPlan argumentPlan false (argumentPairs actual expected)

def walkPlan (T : ClassTable) (target : TypeId) (targetArgs : List TypeRef) :
    Nat -> List TypeRef -> TypeRef -> QuestionPlan
  | 0, _, _ => .done none
  | budget + 1, seen, actual =>
    match walkRule T target budget seen actual with
    | .stops v => .done v
    | .meets args => argumentsPlan args targetArgs
    | .climbs facts args =>
      anyPlan (walkPlan T target targetArgs budget (actual :: seen))
        (!facts.hierarchyComplete) (facts.superInstances args)

def stepPlan (T : ClassTable) (q : Question) : QuestionPlan :=
  match stepRule T q with
  | .decided v => .done v
  | .asks q' => .ask q' .done
  | .tries bounds e => anyPlan (fun b => .ask (b, e) .done) false bounds
  | .walks actual target targetArgs =>
    walkPlan T target targetArgs (maxSubtypeDepth + 1) [] actual

theorem eval_ask_done (ask : Ask) (q : Question) :
    OpenRecursion.Plan.eval ask (.ask q .done : QuestionPlan) = ask q := by
  rw [OpenRecursion.Plan.eval]
  cases ask q <;> rfl

theorem eval_argumentPlan (ask : Ask) (pair : Question) :
    (argumentPlan pair).eval ask = argumentContains ask pair.1 pair.2 := by
  rw [argumentContains_eq_eval, argumentPlan]
  cases argumentRule pair.1 pair.2 with
  | asks q => exact eval_ask_done ask q
  | _ => rfl

theorem eval_argumentsPlan (ask : Ask) (actual expected : List TypeRef) :
    (argumentsPlan actual expected).eval ask = typeArgsContain ask actual expected := by
  rw [typeArgsContain_eq, argumentsPlan]
  cases lengthVerdict actual.length expected.length with
  | some v => rfl
  | none =>
    rw [eval_allPlan]
    simp only [eval_argumentPlan]

theorem eval_walkPlan (ask : Ask) (targetArgs : List TypeRef) (budget : Nat)
    (seen : List TypeRef) (actual : TypeRef) :
    (walkPlan T target targetArgs budget seen actual).eval ask =
      isSubtype T ask target targetArgs budget seen actual := by
  induction budget generalizing seen actual with
  | zero => rfl
  | succ budget ih =>
    rw [isSubtype_succ, walkPlan]
    cases walkRule T target budget seen actual with
    | stops v => rfl
    | meets args => exact eval_argumentsPlan ask args targetArgs
    | climbs facts args =>
      simp only [eval_anyPlan, ih]

theorem eval_stepPlan (T : ClassTable) (ask : Ask) (q : Question) :
    assignableStep T ask q = (stepPlan T q).eval ask := by
  rw [assignableStep_eq_eval, stepPlan]
  cases stepRule T q with
  | decided v => rfl
  | asks q' => exact (eval_ask_done ask q').symm
  | tries bounds e =>
    simp only [eval_anyPlan, eval_ask_done]
    rfl
  | walks actual target targetArgs => exact (eval_walkPlan ask targetArgs _ _ _).symm

theorem assignableStep_monotone (T : ClassTable) :
    OpenRecursion.Monotone (assignableStep T) :=
  OpenRecursion.monotone_of_plan (eval_stepPlan T)

/-!
# Visited questions are follow-up questions
-/

variable {answers : Question -> Verdict -> Prop} {q : Question}

theorem visits_argumentsPlan (h : (argumentsPlan actual expected).Visits answers q) :
    q ∈ argumentFollowUps actual expected := by
  unfold argumentsPlan at h
  split at h
  · cases h
  · rcases visits_allPlan h with ⟨pair, hpair, hvisits⟩
    apply mem_argumentFollowUps.mpr
    refine ⟨pair, hpair, ?_⟩
    unfold argumentPlan at hvisits
    split at hvisits
    · cases hvisits
    · rename_i q' hrule
      cases hvisits with
      | here _ => exact hrule
      | later _ hdone => cases hdone
    · cases hvisits

theorem visits_walkPlan {targetArgs : List TypeRef} (budget : Nat) (seen : List TypeRef)
    (actual : TypeRef)
    (h : (walkPlan T target targetArgs budget seen actual).Visits answers q) :
    exists view, view ∈ views T target budget seen actual ∧
      q ∈ argumentFollowUps view targetArgs := by
  induction budget generalizing seen actual with
  | zero => cases h
  | succ budget ih =>
    rw [walkPlan] at h
    rw [views_succ]
    cases hrule : walkRule T target budget seen actual with
    | stops v =>
      rw [hrule] at h
      cases h
    | meets args =>
      rw [hrule] at h
      exact ⟨args, List.mem_cons_self, visits_argumentsPlan h⟩
    | climbs facts args =>
      rw [hrule] at h
      rcases visits_anyPlan h with ⟨sup, hsup, hvisits⟩
      rcases ih (actual :: seen) sup hvisits with ⟨view, hview, hq⟩
      exact ⟨view, List.mem_flatMap.mpr ⟨sup, hsup, hview⟩, hq⟩

theorem visits_ask_done {q' : Question}
    (h : OpenRecursion.Plan.Visits answers q (.ask q' .done : QuestionPlan)) : q = q' := by
  cases h with
  | here _ => rfl
  | later _ hdone => cases hdone

theorem visits_stepPlan {q' : Question} (h : (stepPlan T q').Visits answers q) :
    q ∈ followUps T q' := by
  unfold stepPlan at h
  unfold followUps
  cases hrule : stepRule T q' with
  | decided v =>
    rw [hrule] at h
    cases h
  | asks q'' =>
    rw [hrule] at h
    rw [visits_ask_done h]
    exact List.mem_singleton_self _
  | tries bounds e =>
    rw [hrule] at h
    rcases visits_anyPlan h with ⟨b, hb, hvisits⟩
    rw [visits_ask_done hvisits]
    exact List.mem_map.mpr ⟨b, hb, rfl⟩
  | walks actual target targetArgs =>
    rw [hrule] at h
    rcases visits_walkPlan _ _ _ h with ⟨view, hview, hq⟩
    exact List.mem_flatMap.mpr ⟨view, hview, hq⟩

end JavaVsixLite
