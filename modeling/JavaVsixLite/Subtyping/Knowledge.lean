import JavaVsixLite.Subtyping.Simulation

/-!
# Verdicts and knowledge

A verdict should not change when more becomes known, be it the unknown parts of
the two types or the classes the table does not answer.  Structural equality of
type arguments and the origin of a box type are the two places where it can.
-/

namespace JavaVsixLite

open Foundation
open Foundation.Verdict
open TypeRef

/-!
# Unknown parts of the compared types
-/

/-- No refinement of the two types reverses a verdict about them. -/
def UnknownAbsorbing (T : ClassTable) (a e : TypeRef) : Prop :=
  forall a' e', Refines a a' -> Refines e e' ->
    forall b fuel fuel', assignableRefs T fuel a e = some (some b) ->
      assignableRefs T fuel' a' e' ≠ some (some (!b))

/-- Nothing understood tells the two apart, and something is not understood. -/
def Confusable (x y : TypeRef) : Prop :=
  Compatible x y ∧ (x.containsUnknown = true ∨ y.containsUnknown = true)

/-- An array of primitives met by an array of an unknown element type. -/
def ConfusableElements : TypeRef -> TypeRef -> Bool
  | .unknown, .primitive _ => true
  | .primitive _, .unknown => true
  | _, _ => false

/-- The comparisons that are decided by a part of the types that was not understood. -/
def confusions : Doubts where
  arguments := fun x y =>
    Compatible x y && (x.containsUnknown || y.containsUnknown)
  elements := ConfusableElements

/-- A verdict is reached by what was understood alone. -/
def RestsOnKnown (T : ClassTable) (a e : TypeRef) : Prop :=
  forall b fuel, assignableRefs T fuel a e = some (some b) ->
    exists fuel', confusions.run T fuel' a e = some (some b)

theorem refining_refines : Refining Refines where
  refl := refines_refl
  cases := refines_cases
  substitute := fun params _ _ hargs sup =>
    substitute_refines (zip_refines params hargs) sup

variable {x x' y y' : TypeRef}

theorem eq_iff_of_not_confusable (h : ¬ Confusable x y) (hx : Refines x x') (hy : Refines y y') :
    x = y <-> x' = y' := by
  by_cases hcompatible : Compatible x y
  · have hknown : x.containsUnknown = false ∧ y.containsUnknown = false := by
      constructor
      · exact Bool.eq_false_iff.mpr (fun hu => h ⟨hcompatible, Or.inl hu⟩)
      · exact Bool.eq_false_iff.mpr (fun hu => h ⟨hcompatible, Or.inr hu⟩)
    rw [eq_of_refines hknown.left hx, eq_of_refines hknown.right hy]
  · constructor
    · intro heq
      subst heq
      exact absurd (compatible_refl x) hcompatible
    · intro heq
      subst heq
      exact absurd (compatible_of_refines x hx hy (compatible_refl x'))
        hcompatible

theorem not_confusable_of_arguments (h : confusions.arguments x y = false) :
    ¬ Confusable x y := by
  rintro ⟨hcompatible, hunknown⟩
  have hdoubt : confusions.arguments x y = true := by
    simpa [confusions, hcompatible] using hunknown
  rw [h] at hdoubt
  cases hdoubt

theorem elementRule_agrees (h : ConfusableElements x y = false) (hx : Refines x x')
    (hy : Refines y y') {v w : Verdict} (hv : elementRule x y = .decided v)
    (hw : elementRule x' y' = .decided w) :
    Agrees v w := by
  rcases refines_cases hx with hunknown | hcx
  · subst hunknown
    cases y with
    | primitive p => cases h
    | _ => cases hv
  · rcases refines_cases hy with hunknown | hcy
    · subst hunknown
      cases hcx with
      | primitive p => cases h
      | _ => cases hv
    · cases hcx <;> cases hcy <;> cases hv <;> cases hw <;>
        exact agrees_refl _

theorem stable_confusions : Stable Refines confusions where
  arguments := fun hx hy h =>
    eq_iff_of_not_confusable (not_confusable_of_arguments h) hx hy
  elements := fun hx hy h _ _ hv hw => elementRule_agrees h hx hy hv hw

theorem originsKept_refl (T : ClassTable) : OriginsKept T T where
  gained := by
    intro b hb hb'
    rw [hb] at hb'
    cases hb'
  lost := by
    intro b hb hb'
    rw [hb] at hb'
    cases hb'

/-- No refinement reverses what a cautious run proves. -/
theorem confusions_run_absorbs {T : ClassTable} {a a' e e' : TypeRef} {b : Bool} {fuel fuel' : Nat}
    (ha : Refines a a') (he : Refines e e')
    (h : confusions.run T fuel a e = some (some b)) :
    assignableRefs T fuel' a' e' ≠ some (some (!b)) := by
  intro hrun
  exact runs_agree refining_refines T.extendedBy_refl (originsKept_refl T)
    stable_confusions fuel fuel' ⟨ha, he⟩ h hrun b rfl rfl

theorem unknownAbsorbing_of_restsOnKnown {T : ClassTable} {a e : TypeRef}
    (h : RestsOnKnown T a e) :
    UnknownAbsorbing T a e := by
  intro a' e' ha he b fuel fuel' hrun
  rcases h b fuel hrun with ⟨fuel'', hcautious⟩
  exact confusions_run_absorbs ha he hcautious

/-!
Between two parameterizations of one class whose arguments are all compared by
structural equality, the condition is exact: two refinements of arguments that
are equal to themselves differ, and arguments that differ only in what is not
understood have a common refinement.
-/

/-- Every argument pair is compared by structural equality. -/
def ComparedArguments (xs ys : List TypeRef) : Prop :=
  List.Forall₂ (fun x y => argumentRule x y = .compares) xs ys

variable {xs xs' ys ys' : List TypeRef}

theorem argumentRule_compares_of_refines (h : argumentRule x y = .compares) (hx : Refines x x')
    (hy : Refines y y') :
    argumentRule x' y' = .compares := by
  have hrelated := argumentRule_related refining_refines hx hy
  rw [h] at hrelated
  generalize argumentRule x' y' = rule at *
  cases hrelated
  rfl

theorem ComparedArguments.refine (h : ComparedArguments xs ys)
    (hx : List.Forall₂ Refines xs xs') (hy : List.Forall₂ Refines ys ys') :
    ComparedArguments xs' ys' := by
  unfold ComparedArguments at h ⊢
  induction h generalizing xs' ys' with
  | nil =>
    cases hx
    cases hy
    exact .nil
  | cons hrule _ ih =>
    cases hx with
    | cons hhead htail =>
      cases hy with
      | cons hhead' htail' =>
        exact .cons (argumentRule_compares_of_refines hrule hhead hhead') (ih htail htail')

theorem zip_all_eq (h : xs.length = ys.length) :
    (xs.zip ys).all (fun pair => decide (pair.1 = pair.2)) = decide (xs = ys) := by
  induction xs generalizing ys with
  | nil =>
    cases ys with
    | nil => rfl
    | cons y ys => cases h
  | cons x xs ih =>
    cases ys with
    | nil => cases h
    | cons y ys => simp [ih (Nat.succ.inj h)]

theorem ComparedArguments.rule (h : ComparedArguments xs ys) {pair : Question}
    (hpair : pair ∈ xs.zip ys) : argumentRule pair.1 pair.2 = .compares := by
  induction h with
  | nil => cases hpair
  | cons hrule _ ih =>
    rcases List.mem_cons.mp hpair with hhead | htail
    · rw [hhead]
      exact hrule
    · exact ih htail

/-- The cautious run between two parameterizations of one class. -/
theorem run_compared (d : Doubts) (T : ClassTable) (fuel : Nat) (id : TypeId)
    (h : ComparedArguments xs ys) :
    d.run T (fuel + 1) (.named id xs) (.named id ys) =
      allProved (fun pair =>
          if d.arguments pair.1 pair.2 then some none
          else some (some (decide (pair.1 = pair.2))))
        false (xs.zip ys) := by
  have hcontains : forall pair, pair ∈ xs.zip ys -> forall ask : Ask,
      d.contains ask pair.1 pair.2 =
        if d.arguments pair.1 pair.2 then some none
        else some (some (decide (pair.1 = pair.2))) := by
    intro pair hpair ask
    rw [Doubts.contains, h.rule hpair]
  have hlength := List.Forall₂.length_eq h
  have hdoubt : d.leaves (.named id xs, .named id ys) = false := rfl
  rw [Doubts.run, OpenRecursion.run_succ, Doubts.step, hdoubt]
  change d.walk T _ id ys (maxSubtypeDepth + 1) [] (.named id xs) = _
  rw [Doubts.walk, walkRule, if_neg List.not_mem_nil, if_pos rfl]
  cases hys : ys with
  | nil =>
    rw [hys] at hlength
    rw [List.eq_nil_of_length_eq_zero hlength]
    rfl
  | cons y rest =>
    have hpairs : lengthVerdict xs.length (y :: rest).length = none := by
      rw [← hys, hlength, hys]
      simp [lengthVerdict]
    have hzip : argumentPairs xs (y :: rest) = xs.zip (y :: rest) := by
      rw [argumentPairs, hpairs]
    change d.containsArgs _ xs (y :: rest) = _
    rw [Doubts.containsArgs, hpairs, hzip, ← hys]
    exact allProved_congr (fun pair hpair => hcontains pair hpair _) false

theorem assignableRefs_same_class (T : ClassTable) (fuel : Nat) (id : TypeId)
    (h : ComparedArguments xs ys) :
    assignableRefs T (fuel + 1) (.named id xs) (.named id ys) =
      some (some (decide (xs = ys))) := by
  rw [← Doubts.run_nothing, run_compared _ T fuel id h, ← zip_all_eq (List.Forall₂.length_eq h)]
  apply allProved_of_decided
  intro pair _
  rfl

theorem unknownAbsorbing_same_class (T : ClassTable) (id : TypeId) (h : ComparedArguments xs ys)
    (habsorbing : UnknownAbsorbing T (.named id xs) (.named id ys))
    (hx : List.Forall₂ Refines xs xs') (hy : List.Forall₂ Refines ys ys') :
    xs = ys <-> xs' = ys' := by
  have hrefined := assignableRefs_same_class T 0 id (h.refine hx hy)
  have hkept := habsorbing (.named id xs') (.named id ys')
    (refines_of_congruent (.named id hx)) (refines_of_congruent (.named id hy))
    (decide (xs = ys)) 1 1 (assignableRefs_same_class T 0 id h)
  rw [hrefined] at hkept
  by_cases heq : xs = ys <;> by_cases heq' : xs' = ys' <;> simp_all

theorem known_of_absorbing_equal (T : ClassTable) (id : TypeId) (h : ComparedArguments xs xs)
    (habsorbing : UnknownAbsorbing T (.named id xs) (.named id xs)) :
    forall x, x ∈ xs -> x.containsUnknown = false := by
  intro x hx
  by_contra hunknown
  have hany : xs.any containsUnknown = true := by
    rw [List.any_eq_true]
    exact ⟨x, hx, by simpa using hunknown⟩
  rcases exists_distinct_args (fun t _ ht => exists_distinct_refinements ht) hany with
    ⟨xs', xs'', hleft, hright, hne⟩
  exact hne ((unknownAbsorbing_same_class T id h habsorbing hleft hright).mp rfl)

theorem forall₂_compatible (hlength : xs.length = ys.length)
    (h : forall pair, pair ∈ xs.zip ys -> Compatible pair.1 pair.2) :
    List.Forall₂ Compatible xs ys := by
  rw [List.forall₂_iff_zip]
  exact ⟨hlength, fun hpair => h _ hpair⟩

theorem distinguished_of_absorbing_unequal (T : ClassTable) (id : TypeId)
    (h : ComparedArguments xs ys) (hne : xs ≠ ys)
    (habsorbing : UnknownAbsorbing T (.named id xs) (.named id ys)) :
    exists pair, pair ∈ xs.zip ys ∧ pair.1 ≠ pair.2 ∧
      confusions.arguments pair.1 pair.2 = false := by
  by_contra hnone
  have hcompatible : List.Forall₂ Compatible xs ys := by
    apply forall₂_compatible (List.Forall₂.length_eq h)
    intro pair hpair
    by_cases heq : pair.1 = pair.2
    · rw [heq]
      exact compatible_refl _
    · by_contra hapart
      apply hnone
      exact ⟨pair, hpair, heq, by simp [confusions, hapart]⟩
  rcases exists_common_refinements (fun x _ y hxy => exists_common_refinement hxy)
    hcompatible with ⟨zs, hx, hy⟩
  exact hne ((unknownAbsorbing_same_class T id h habsorbing hx hy).mpr rfl)

theorem restsOnKnown_same_class (T : ClassTable) (id : TypeId) (h : ComparedArguments xs ys)
    (habsorbing : UnknownAbsorbing T (.named id xs) (.named id ys)) :
    RestsOnKnown T (.named id xs) (.named id ys) := by
  intro b fuel hrun
  cases fuel with
  | zero => cases hrun
  | succ fuel =>
    rw [assignableRefs_same_class T fuel id h] at hrun
    cases hrun
    refine ⟨1, ?_⟩
    rw [run_compared confusions T 0 id h]
    by_cases heq : xs = ys
    · subst heq
      have hknown := known_of_absorbing_equal T id h habsorbing
      rw [← zip_all_eq rfl]
      apply allProved_of_decided
      intro pair hpair
      have hleft := hknown _ (List.of_mem_zip hpair).left
      have hright := hknown _ (List.of_mem_zip hpair).right
      simp [confusions, hleft, hright]
    · rcases distinguished_of_absorbing_unequal T id h heq habsorbing with
        ⟨pair, hpair, hne, hdoubt⟩
      rw [decide_eq_false heq]
      apply allProved_of_refuted
      · intro pair _
        split <;> rfl
      · exact ⟨pair, hpair, by simp [hdoubt, hne]⟩

theorem not_unknownAbsorbing_of_elements (T : ClassTable) (h : ConfusableElements x y = true) :
    ¬ UnknownAbsorbing T (.array x) (.array y) := by
  intro habsorbing
  unfold ConfusableElements at h
  split at h
  · rename_i p
    refine habsorbing (.array (.primitive p)) (.array (.primitive p))
      (refines_unknown _) (refines_refl _) false 1 1 rfl ?_
    cases p <;> rfl
  · rename_i p
    refine habsorbing (.array (.primitive p)) (.array (.primitive p))
      (refines_refl _) (refines_unknown _) false 1 1 rfl ?_
    cases p <;> rfl
  · cases h

/--
Verdicts absorb unknown parts as long as they stay the same without the
comparisons that equate arguments told apart by nothing that was understood.
Between two parameterizations of one class the condition is exact, and two
arrays whose elements are so compared are always reversed.
-/
theorem unknown_absorbing_unless_confused (T : ClassTable) :
    (forall a e, RestsOnKnown T a e -> UnknownAbsorbing T a e) ∧
    (forall id xs ys, ComparedArguments xs ys ->
      (UnknownAbsorbing T (.named id xs) (.named id ys) <->
        RestsOnKnown T (.named id xs) (.named id ys))) ∧
    (forall x y, ConfusableElements x y = true ->
      ¬ UnknownAbsorbing T (.array x) (.array y)) := by
  refine ⟨?_, ?_, ?_⟩
  · intro a e h
    exact unknownAbsorbing_of_restsOnKnown h
  · intro id xs ys h
    exact ⟨restsOnKnown_same_class T id h, unknownAbsorbing_of_restsOnKnown⟩
  · intro x y h
    exact not_unknownAbsorbing_of_elements T h

namespace NestedLists

def listOf (element : TypeRef) : TypeRef :=
  .named (.named "java.util.List") [element]

def stringRef : TypeRef := TypeRef.ofName "java.lang.String"

def noClasses : ClassTable := ⟨[]⟩

/-- A list of lists of something unknown against a list of lists of strings. -/
theorem unknown_element_reverses :
    ¬ UnknownAbsorbing noClasses (listOf (listOf .unknown))
      (listOf (listOf stringRef)) := by
  intro h
  exact h (listOf (listOf stringRef)) (listOf (listOf stringRef)) (by decide)
    (by decide) false 1 1 (by decide) (by decide)

def pairOf (first second : TypeRef) : TypeRef :=
  .named (.named "demo.Pair") [first, second]

/-- The first arguments decide, whatever the elements of the second are. -/
theorem pair_of_unknown_absorbs :
    assignableRefs noClasses 1 (pairOf stringRef (listOf .unknown))
        (pairOf TypeRef.objectRef (listOf stringRef)) = some (some false) ∧
      UnknownAbsorbing noClasses (pairOf stringRef (listOf .unknown))
        (pairOf TypeRef.objectRef (listOf stringRef)) := by
  refine ⟨by decide, (unknown_absorbing_unless_confused noClasses).left _ _ ?_⟩
  intro b fuel hrun
  cases fuel with
  | zero => cases hrun
  | succ fuel =>
    have hrefused : assignableRefs noClasses (fuel + 1) (pairOf stringRef (listOf .unknown))
        (pairOf TypeRef.objectRef (listOf stringRef)) = some (some false) := by
      apply assignableRefs_same_class
      exact .cons rfl (.cons rfl .nil)
    rw [hrefused] at hrun
    cases hrun
    exact ⟨1, by decide⟩

end NestedLists

/-!
# Unknown classes
-/

/-- No verdict under the first table is reversed under the second. -/
def KnowledgeMonotone (T T' : ClassTable) : Prop :=
  forall a e b fuel fuel', assignableRefs T fuel a e = some (some b) ->
    assignableRefs T' fuel' a e ≠ some (some (!b))

theorem refining_eq : Refining (Eq : TypeRef -> TypeRef -> Prop) where
  refl := fun _ => rfl
  cases := by
    intro t t' h
    subst h
    cases t with
    | unknown => exact Or.inl rfl
    | named id args => exact Or.inr (.named id (List.forall₂_same.mpr (by simp)))
    | wildcard upper lower =>
      refine Or.inr (.wildcard ?_ ?_)
      · cases upper <;> simp
      · cases lower <;> simp
    | array element => exact Or.inr (.array rfl)
    | _ => exact Or.inr (by constructor)
  substitute := by
    intro params args args' h sup
    rw [List.forall₂_eq_eq_eq] at h
    rw [h]

theorem stable_eq : Stable Eq Doubts.nothing where
  arguments := by
    intro x y x' y' hx hy _
    rw [hx, hy]
  elements := by
    intro x y x' y' hx hy _ v w hv hw
    subst hx hy
    rw [hv] at hw
    exact agrees_of_eq (StepRule.decided.inj hw)

variable {T T' : ClassTable}

theorem knowledgeMonotone_of_originsKept (hext : T.ExtendedBy T') (h : OriginsKept T T') :
    KnowledgeMonotone T T' := by
  intro a e b fuel fuel' hrun hrun'
  rw [← Doubts.run_nothing] at hrun
  exact runs_agree refining_eq hext h stable_eq fuel fuel' ⟨rfl, rfl⟩ hrun hrun' b rfl rfl

/-- A raw target is reached by every walk that meets its class. -/
theorem isSubtype_of_views {ask : Ask} {target : TypeId} (budget : Nat) (seen : List TypeRef)
    (actual : TypeRef) (h : views T target budget seen actual ≠ []) :
    isSubtype T ask target [] budget seen actual = some (some true) := by
  induction budget generalizing seen actual with
  | zero => exact absurd rfl h
  | succ budget ih =>
    rw [views_succ] at h
    rw [isSubtype_succ]
    cases hrule : walkRule T target budget seen actual with
    | stops v =>
      rw [hrule] at h
      exact absurd rfl h
    | meets args => rfl
    | climbs facts args =>
      rw [hrule] at h
      apply anyProved_of_proved
      · intro sup _
        apply isSubtype_isSome
        intro view _
        rfl
      · by_contra hnone
        apply h
        rw [List.flatMap_eq_nil_iff]
        intro sup hsup
        by_contra hviews
        exact hnone ⟨sup, hsup, ih (actual :: seen) sup hviews⟩

theorem assignableRefs_declared {b : String} (h : T.declaresInProject b = true)
    (p : PrimitiveType) :
    assignableRefs T 1 (.primitive p) (TypeRef.ofName b) = some (some false) := by
  simp [assignableRefs, OpenRecursion.run, assignableStep, TypeRef.ofName, h]

theorem assignableRefs_boxed (p : PrimitiveType) {b : String}
    (h : b = "java.lang.Object" ∨
      views T (.named b) (maxSubtypeDepth + 1) [] (TypeRef.ofName p.boxFqn) ≠ []) :
    assignableRefs T 1 (TypeRef.ofName p.boxFqn) (TypeRef.ofName b) = some (some true) := by
  rcases h with hobject | hviews
  · subst hobject
    cases p <;> rfl
  · exact isSubtype_of_views _ _ _ hviews

/-- What takes boxes takes some primitive unless an open document owns it. -/
theorem exists_boxing_verdict {b : String} (h : TakesBoxes T b)
    (hdeclared : T.declaresInProject b = false) :
    exists p, assignableRefs T 2 (.primitive p) (TypeRef.ofName b) = some (some true) := by
  have hstep : forall p : PrimitiveType, PrimitiveType.fromBoxFqn b = none ->
      assignableRefs T 2 (.primitive p) (TypeRef.ofName b) =
        assignableRefs T 1 (TypeRef.ofName p.boxFqn) (TypeRef.ofName b) := by
    intro p hbox
    rw [assignableRefs, OpenRecursion.run_succ]
    simp [assignableStep, TypeRef.ofName, hdeclared, hbox, assignableRefs]
  cases hbox : PrimitiveType.fromBoxFqn b with
  | some p =>
    refine ⟨p, ?_⟩
    simp [assignableRefs, OpenRecursion.run, assignableStep, TypeRef.ofName, hdeclared,
      hbox, boxAssignable]
  | none =>
    rcases h with hobject | ⟨p, hviews⟩
    · exact ⟨.int, (hstep .int hbox).trans (assignableRefs_boxed .int (.inl hobject))⟩
    · exact ⟨p, (hstep p hbox).trans (assignableRefs_boxed p (.inr hviews))⟩

theorem originsKept_of_knowledgeMonotone (h : KnowledgeMonotone T T') : OriginsKept T T' where
  gained := by
    intro b hT hT' htakes
    rcases exists_boxing_verdict htakes hT with ⟨p, hrun⟩
    exact h _ _ true 2 1 hrun (assignableRefs_declared hT' p)
  lost := by
    intro b hT hT' htakes
    rcases exists_boxing_verdict htakes hT' with ⟨p, hrun⟩
    exact h _ _ false 1 2 (assignableRefs_declared hT p) hrun

/--
More known classes reverse no verdict exactly as long as no class that takes a
boxed primitive belongs to an open document in one of the two tables only.
-/
theorem knowledge_monotone_iff (hext : T.ExtendedBy T') :
    KnowledgeMonotone T T' <-> OriginsKept T T' :=
  ⟨originsKept_of_knowledgeMonotone, knowledgeMonotone_of_originsKept hext⟩

namespace OpenIntegerSource

def integer : ClassMetadata where
  typeParameters := []
  supertypes := [TypeRef.ofName "java.lang.Number"]
  hierarchyComplete := true

def before : ClassTable := ⟨[]⟩

/-- The table once the source of `java.lang.Integer` is an open document. -/
def after : ClassTable :=
  ⟨[(.named "java.lang.Integer", { metadata := integer, inProject := true })]⟩

/-- The table once the class file of `java.lang.Integer` is found instead. -/
def classpath : ClassTable :=
  ⟨[(.named "java.lang.Integer", { metadata := integer, inProject := false })]⟩

theorem before_extendedBy (T : ClassTable) : before.ExtendedBy T where
  complete := by
    intro id e he
    cases he
  incomplete := by
    intro id e he
    cases he

theorem classFacts_eq (id : TypeId) : after.classFacts id = classpath.classFacts id := by
  by_cases hid : TypeId.named "java.lang.Integer" = id <;>
    simp [ClassTable.classFacts, ClassTable.entry, after, classpath, hid]

theorem classpath_extendedBy : classpath.ExtendedBy after where
  complete := by
    intro id facts hfacts _
    rw [classFacts_eq]
    exact hfacts
  incomplete := by
    intro id facts hfacts _
    refine ⟨facts, ?_, rfl, fun _ hsup _ => hsup⟩
    rw [classFacts_eq]
    exact hfacts

/-- Opening the source takes away that an `int` fits an `Integer`. -/
theorem opening_reverses :
    (before.ExtendedBy after ∧ ¬ KnowledgeMonotone before after) ∧
      (classpath.ExtendedBy after ∧ ¬ KnowledgeMonotone classpath after) := by
  refine ⟨⟨before_extendedBy after, ?_⟩, ⟨classpath_extendedBy, ?_⟩⟩
  · intro h
    exact h (.primitive .int) (TypeRef.ofName "java.lang.Integer") true 1 1
      (by decide) (by decide)
  · intro h
    exact h (.primitive .int) (TypeRef.ofName "java.lang.Integer") true 1 1
      (by decide) (by decide)

theorem not_declared (b : String) : classpath.declaresInProject b = false := by
  by_cases hb : "java.lang.Integer" = b <;>
    simp [ClassTable.declaresInProject, ClassTable.entry, classpath, hb]

theorem classpath_keeps :
    before.ExtendedBy classpath ∧ KnowledgeMonotone before classpath := by
  refine ⟨before_extendedBy classpath, ?_⟩
  apply (knowledge_monotone_iff (before_extendedBy classpath)).mpr
  constructor
  · intro b _ hdeclared
    rw [not_declared] at hdeclared
    cases hdeclared
  · intro b hdeclared _
    cases hdeclared

end OpenIntegerSource

end JavaVsixLite
