import Mathlib.Data.List.Forall2
import Mathlib.Data.Option.Basic
import JavaVsixLite.Types.TypeRef

/-!
# Types that know more

A type refines another when it replaces some of the occurrences of
`TypeRef.unknown` by arbitrary types.  Two types are compatible when they have a
common refinement, so that nothing understood about them tells them apart.
-/

namespace JavaVsixLite

inductive Congruent (R : TypeRef -> TypeRef -> Prop) :
    TypeRef -> TypeRef -> Prop where
  | primitive (p : PrimitiveType) : Congruent R (.primitive p) (.primitive p)
  | void : Congruent R .void .void
  | null : Congruent R .null .null
  | named (id : TypeId) {args args' : List TypeRef} :
      List.Forall₂ R args args' ->
      Congruent R (.named id args) (.named id args')
  | array {element element' : TypeRef} : R element element' ->
      Congruent R (.array element) (.array element')
  | typeVariable (v : TypeVariableId) :
      Congruent R (.typeVariable v) (.typeVariable v)
  | wildcard {upper upper' lower lower' : Option TypeRef} :
      Option.Rel R upper upper' -> Option.Rel R lower lower' ->
      Congruent R (.wildcard upper lower) (.wildcard upper' lower')

namespace TypeRef

/-!
# Matching up to unknown parts

The two flags say on which side an unknown part matches everything.
-/

mutual
@[grind =] def matchesUpTo (left right : Bool) : TypeRef -> TypeRef -> Bool
  | .unknown, .unknown => true
  | .unknown, _ => left
  | _, .unknown => right
  | .primitive p, .primitive q => p == q
  | .void, .void => true
  | .null, .null => true
  | .named id args, .named id' args' =>
    id == id' && matchesArgsUpTo left right args args'
  | .array element, .array element' => matchesUpTo left right element element'
  | .typeVariable v, .typeVariable v' => v == v'
  | .wildcard upper lower, .wildcard upper' lower' =>
    matchesBoundUpTo left right upper upper' &&
      matchesBoundUpTo left right lower lower'
  | _, _ => false

@[grind =] def matchesArgsUpTo (left right : Bool) :
    List TypeRef -> List TypeRef -> Bool
  | [], [] => true
  | t :: rest, t' :: rest' =>
    matchesUpTo left right t t' && matchesArgsUpTo left right rest rest'
  | _, _ => false

@[grind =] def matchesBoundUpTo (left right : Bool) :
    Option TypeRef -> Option TypeRef -> Bool
  | none, none => true
  | some t, some t' => matchesUpTo left right t t'
  | _, _ => false
end

/-- Some unknown parts of `t` are replaced in `t'`, and nothing else changes. -/
def Refines (t t' : TypeRef) : Prop :=
  matchesUpTo true false t t' = true

def Compatible (t t' : TypeRef) : Prop :=
  matchesUpTo true true t t' = true

instance (t t' : TypeRef) : Decidable (Refines t t') :=
  inferInstanceAs (Decidable (_ = _))

instance (t t' : TypeRef) : Decidable (Compatible t t') :=
  inferInstanceAs (Decidable (_ = _))

variable {left right : Bool} {args : List TypeRef} {bound : Option TypeRef} {t t' : TypeRef}

theorem matchesArgsUpTo_iff {args' : List TypeRef} :
    matchesArgsUpTo left right args args' = true <->
      List.Forall₂ (fun t t' => matchesUpTo left right t t' = true)
        args args' := by
  induction args generalizing args' with
  | nil => cases args' <;> simp [matchesArgsUpTo]
  | cons t rest ih =>
    cases args' with
    | nil => simp [matchesArgsUpTo]
    | cons t' rest' => simp [matchesArgsUpTo, ih]

theorem matchesBoundUpTo_iff {bound' : Option TypeRef} :
    matchesBoundUpTo left right bound bound' = true <->
      Option.Rel (fun t t' => matchesUpTo left right t t' = true)
        bound bound' := by
  cases bound <;> cases bound' <;> simp [matchesBoundUpTo]

theorem congruent_iff (ht : t ≠ .unknown) (ht' : t' ≠ .unknown) :
    matchesUpTo left right t t' = true <->
      Congruent (fun t t' => matchesUpTo left right t t' = true) t t' := by
  constructor
  · intro h
    cases t <;> cases t' <;>
      simp only [matchesUpTo, Bool.and_eq_true, beq_iff_eq, ne_eq,
        not_true_eq_false, matchesArgsUpTo_iff, matchesBoundUpTo_iff,
        reduceCtorEq] at h ht ht'
    case primitive.primitive => rw [h]; exact .primitive _
    case void.void => exact .void
    case null.null => exact .null
    case named.named =>
      rw [h.left]
      exact .named _ h.right
    case array.array => exact .array h
    case typeVariable.typeVariable => rw [h]; exact .typeVariable _
    case wildcard.wildcard => exact .wildcard h.left h.right
  · intro h
    cases h <;>
      simp_all [matchesUpTo, matchesArgsUpTo_iff, matchesBoundUpTo_iff]

theorem matchesUpTo_refl (left right : Bool) (t : TypeRef) :
    matchesUpTo left right t t = true := by
  induction t using induct with
  | named id args ih =>
    simp only [matchesUpTo, beq_self_eq_true, Bool.true_and,
      matchesArgsUpTo_iff]
    exact List.forall₂_same.mpr ih
  | array element ih => exact ih
  | wildcard upper lower ihu ihl =>
    simp only [matchesUpTo, Bool.and_eq_true, matchesBoundUpTo_iff]
    constructor
    · cases upper <;> simp [ihu]
    · cases lower <;> simp [ihl]
  | _ => simp [matchesUpTo]

/-!
# Refinements
-/

theorem forall₂_eq_of_forall {R : TypeRef -> TypeRef -> Prop}
    {ts ts' : List TypeRef} (h : List.Forall₂ R ts ts')
    (heq : forall t, t ∈ ts -> forall t', R t t' -> t' = t) : ts' = ts := by
  induction h with
  | nil => rfl
  | cons hhead _ ih =>
    rw [heq _ List.mem_cons_self _ hhead,
      ih (fun t ht => heq t (List.mem_cons_of_mem _ ht))]

theorem rel_eq_of_forall {R : TypeRef -> TypeRef -> Prop} {bound' : Option TypeRef}
    (h : Option.Rel R bound bound') (heq : forall t, t ∈ bound -> forall t', R t t' -> t' = t) :
    bound' = bound := by
  cases h with
  | none => rfl
  | some hbound => rw [heq _ rfl _ hbound]


theorem refines_refl (t : TypeRef) : Refines t t :=
  matchesUpTo_refl true false t

theorem refines_unknown (t : TypeRef) : Refines .unknown t := by
  cases t <;> rfl

theorem refines_cases (h : Refines t t') : t = .unknown ∨ Congruent Refines t t' := by
  by_cases ht : t = .unknown
  · exact Or.inl ht
  · have ht' : t' ≠ .unknown := by
      intro heq
      subst heq
      cases t <;> first | exact ht rfl | cases h
    exact Or.inr ((congruent_iff ht ht').mp h)

theorem refines_of_congruent (h : Congruent Refines t t') : Refines t t' := by
  apply (congruent_iff ?_ ?_).mpr h
  · intro heq
    subst heq
    cases h
  · intro heq
    subst heq
    cases h

theorem forall₂_refines_refl (ts : List TypeRef) :
    List.Forall₂ Refines ts ts :=
  List.forall₂_same.mpr (fun t _ => refines_refl t)

def RefinesEntry (entry entry' : TypeVariableId × TypeRef) : Prop :=
  entry.1 = entry'.1 ∧ Refines entry.2 entry'.2

theorem substitute_typeVariable_refines (v : TypeVariableId)
    {env env' : TypeEnv} (h : List.Forall₂ RefinesEntry env env') :
    Refines (substitute env (.typeVariable v))
      (substitute env' (.typeVariable v)) := by
  induction h with
  | nil => exact refines_refl _
  | cons hhead _ ih =>
    rename_i entry entry' rest rest' _
    have hkey : (entry'.1 == v) = (entry.1 == v) := by
      rw [hhead.left]
    cases hv : entry.1 == v with
    | true =>
      rw [hv] at hkey
      simpa [substitute, hv, hkey] using hhead.right
    | false =>
      rw [hv] at hkey
      simpa [substitute, hv, hkey] using ih

theorem substitute_refines {env env' : TypeEnv}
    (h : List.Forall₂ RefinesEntry env env') (t : TypeRef) :
    Refines (t.substitute env) (t.substitute env') := by
  induction t using induct with
  | named id ts ih =>
    apply refines_of_congruent
    simp only [substitute, substituteArgs_eq]
    apply Congruent.named
    rw [List.forall₂_map_left_iff, List.forall₂_map_right_iff]
    exact List.forall₂_same.mpr ih
  | array element ih => exact ih
  | typeVariable v => exact substitute_typeVariable_refines v h
  | wildcard upper lower ihu ihl =>
    apply refines_of_congruent
    simp only [substitute, substituteBound_eq]
    apply Congruent.wildcard
    · cases upper with
      | none => exact .none
      | some u => exact .some (ihu u rfl)
    · cases lower with
      | none => exact .none
      | some u => exact .some (ihl u rfl)
  | _ => exact refines_refl _

theorem zip_refines (params : List TypeVariableId) {args' : List TypeRef}
    (h : List.Forall₂ Refines args args') :
    List.Forall₂ RefinesEntry (params.zip args) (params.zip args') := by
  induction h generalizing params with
  | nil => simp
  | cons hhead _ ih =>
    cases params with
    | nil => exact .nil
    | cons param rest => exact .cons ⟨rfl, hhead⟩ (ih rest)

theorem eq_of_refines (hknown : t.containsUnknown = false) (h : Refines t t') : t' = t := by
  induction t using induct generalizing t' with
  | named id args ih =>
    rcases refines_cases h with hunknown | hcongruent
    · cases hunknown
    · cases hcongruent with
      | named _ hargs =>
        simp only [containsUnknown, containsUnknownArgs_eq,
          List.any_eq_false, Bool.not_eq_true] at hknown
        rw [forall₂_eq_of_forall hargs (fun t ht t' => ih t ht (hknown t ht))]
  | array element ih =>
    rcases refines_cases h with hunknown | hcongruent
    · cases hunknown
    · cases hcongruent with
      | array helement => rw [ih hknown helement]
  | wildcard upper lower ihu ihl =>
    rcases refines_cases h with hunknown | hcongruent
    · cases hunknown
    · cases hcongruent with
      | wildcard hu hl =>
        simp only [containsUnknown, containsUnknownBound_eq,
          Bool.or_eq_false_iff] at hknown
        rw [rel_eq_of_forall hu (fun t ht t' => ihu t ht (by
            rw [Option.mem_def.mp ht] at hknown
            exact hknown.left)),
          rel_eq_of_forall hl (fun t ht t' => ihl t ht (by
            rw [Option.mem_def.mp ht] at hknown
            exact hknown.right))]
  | unknown => cases hknown
  | _ =>
    rcases refines_cases h with hunknown | hcongruent
    · cases hunknown
    · cases hcongruent
      rfl

/-!
# Compatible types
-/

theorem compatible_refl (t : TypeRef) : Compatible t t :=
  matchesUpTo_refl true true t

theorem compatible_unknown_left (t : TypeRef) : Compatible .unknown t := by
  cases t <;> rfl

theorem compatible_unknown_right (t : TypeRef) : Compatible t .unknown := by
  cases t <;> rfl

theorem compatible_cases (h : Compatible t t') :
    t = .unknown ∨ t' = .unknown ∨ Congruent Compatible t t' := by
  by_cases ht : t = .unknown
  · exact Or.inl ht
  · by_cases ht' : t' = .unknown
    · exact Or.inr (Or.inl ht')
    · exact Or.inr (Or.inr ((congruent_iff ht ht').mp h))

theorem compatible_of_congruent (h : Congruent Compatible t t') : Compatible t t' := by
  apply (congruent_iff ?_ ?_).mpr h
  · intro heq
    subst heq
    cases h
  · intro heq
    subst heq
    cases h

/-- What is compatible with a refinement of `x` is compatible with `x`. -/
def PointwiseReflected (x : TypeRef) : Prop :=
  forall {x' y y' : TypeRef}, Refines x x' -> Refines y y' ->
    Compatible x' y' -> Compatible x y

theorem forall₂_compatible_of_refines {xs xs' ys ys' : List TypeRef}
    (hpoint : forall x, x ∈ xs -> PointwiseReflected x)
    (hx : List.Forall₂ Refines xs xs') (hy : List.Forall₂ Refines ys ys')
    (h : List.Forall₂ Compatible xs' ys') : List.Forall₂ Compatible xs ys := by
  induction hx generalizing ys ys' with
  | nil =>
    cases h
    cases hy
    exact .nil
  | cons hhead _ ih =>
    cases h with
    | cons hhead' htail' =>
      cases hy with
      | cons hheady htaily =>
        exact .cons (hpoint _ List.mem_cons_self hhead hheady hhead')
          (ih (fun x hx => hpoint x (List.mem_cons_of_mem _ hx)) htaily
            htail')

theorem rel_compatible_of_refines {x x' y y' : Option TypeRef}
    (hpoint : forall t, t ∈ x -> PointwiseReflected t)
    (hx : Option.Rel Refines x x') (hy : Option.Rel Refines y y')
    (h : Option.Rel Compatible x' y') : Option.Rel Compatible x y := by
  cases hx with
  | none =>
    cases h
    cases hy
    exact .none
  | some hbound =>
    cases h with
    | some hbound' =>
      cases hy with
      | some hboundy => exact .some (hpoint _ rfl hbound hboundy hbound')

theorem pointwiseReflected_of_congruent {x : TypeRef}
    (h : forall {x' y y' : TypeRef}, Congruent Refines x x' ->
      Congruent Refines y y' -> Congruent Compatible x' y' ->
      Congruent Compatible x y) : PointwiseReflected x := by
  intro x' y y' hx hy hcompatible
  rcases refines_cases hx with hunknown | hcx
  · rw [hunknown]
    exact compatible_unknown_left y
  · rcases refines_cases hy with hunknown | hcy
    · rw [hunknown]
      exact compatible_unknown_right x
    · rcases compatible_cases hcompatible with hunknown | hunknown | hc
      · subst hunknown
        cases hcx
      · subst hunknown
        cases hcy
      · exact compatible_of_congruent (h hcx hcy hc)

theorem compatible_of_refines (x : TypeRef) : PointwiseReflected x := by
  induction x using induct with
  | unknown =>
    intro x' y y' _ _ _
    exact compatible_unknown_left y
  | named id args ih =>
    apply pointwiseReflected_of_congruent
    intro x' y y' hcx hcy hc
    cases hcx with
    | named _ hx =>
      cases hc with
      | named _ h =>
        cases hcy with
        | named _ hy =>
          exact .named id (forall₂_compatible_of_refines ih hx hy h)
  | array element ih =>
    apply pointwiseReflected_of_congruent
    intro x' y y' hcx hcy hc
    cases hcx with
    | array hx =>
      cases hc with
      | array h =>
        cases hcy with
        | array hy => exact .array (ih hx hy h)
  | wildcard upper lower ihu ihl =>
    apply pointwiseReflected_of_congruent
    intro x' y y' hcx hcy hc
    cases hcx with
    | wildcard hxu hxl =>
      cases hc with
      | wildcard hu hl =>
        cases hcy with
        | wildcard hyu hyl =>
          exact .wildcard (rel_compatible_of_refines ihu hxu hyu hu)
            (rel_compatible_of_refines ihl hxl hyl hl)
  | _ =>
    apply pointwiseReflected_of_congruent
    intro x' y y' hcx hcy hc
    cases hcx
    cases hc
    cases hcy
    constructor

theorem exists_common_refinements {xs ys : List TypeRef}
    (hpoint : forall x, x ∈ xs -> forall y, Compatible x y ->
      exists z, Refines x z ∧ Refines y z)
    (h : List.Forall₂ Compatible xs ys) :
    exists zs, List.Forall₂ Refines xs zs ∧ List.Forall₂ Refines ys zs := by
  induction h with
  | nil => exact ⟨[], .nil, .nil⟩
  | cons hhead _ ih =>
    rcases hpoint _ List.mem_cons_self _ hhead with ⟨z, hxz, hyz⟩
    rcases ih (fun x hx => hpoint x (List.mem_cons_of_mem _ hx)) with
      ⟨zs, hxzs, hyzs⟩
    exact ⟨z :: zs, .cons hxz hxzs, .cons hyz hyzs⟩

theorem exists_common_bound {x y : Option TypeRef}
    (hpoint : forall t, t ∈ x -> forall u, Compatible t u ->
      exists z, Refines t z ∧ Refines u z)
    (h : Option.Rel Compatible x y) :
    exists z, Option.Rel Refines x z ∧ Option.Rel Refines y z := by
  cases h with
  | none => exact ⟨none, .none, .none⟩
  | some hbound =>
    rcases hpoint _ rfl _ hbound with ⟨z, hxz, hyz⟩
    exact ⟨some z, .some hxz, .some hyz⟩

theorem exists_common_refinement {x y : TypeRef} (h : Compatible x y) :
    exists z, Refines x z ∧ Refines y z := by
  induction x using induct generalizing y with
  | unknown => exact ⟨y, refines_unknown y, refines_refl y⟩
  | named id args ih =>
    rcases compatible_cases h with hunknown | hunknown | hc
    · cases hunknown
    · exact ⟨_, refines_refl _, hunknown ▸ refines_unknown _⟩
    · cases hc with
      | named _ hargs =>
        rcases exists_common_refinements (fun t ht u => ih t ht) hargs with
          ⟨zs, hxs, hys⟩
        exact ⟨.named id zs, refines_of_congruent (.named id hxs),
          refines_of_congruent (.named id hys)⟩
  | array element ih =>
    rcases compatible_cases h with hunknown | hunknown | hc
    · cases hunknown
    · exact ⟨_, refines_refl _, hunknown ▸ refines_unknown _⟩
    · cases hc with
      | array helement =>
        rcases ih helement with ⟨z, hxz, hyz⟩
        exact ⟨.array z, hxz, hyz⟩
  | wildcard upper lower ihu ihl =>
    rcases compatible_cases h with hunknown | hunknown | hc
    · cases hunknown
    · exact ⟨_, refines_refl _, hunknown ▸ refines_unknown _⟩
    · cases hc with
      | wildcard hu hl =>
        rcases exists_common_bound (fun t ht u => ihu t ht) hu with
          ⟨zu, hxu, hyu⟩
        rcases exists_common_bound (fun t ht u => ihl t ht) hl with
          ⟨zl, hxl, hyl⟩
        exact ⟨.wildcard zu zl, refines_of_congruent (.wildcard hxu hxl),
          refines_of_congruent (.wildcard hyu hyl)⟩
  | _ =>
    rcases compatible_cases h with hunknown | hunknown | hc
    · cases hunknown
    · exact ⟨_, refines_refl _, hunknown ▸ refines_unknown _⟩
    · cases hc
      exact ⟨_, refines_refl _, refines_refl _⟩

/-!
# A type that is not understood completely
-/

theorem exists_distinct_args
    (hpoint : forall t, t ∈ args -> t.containsUnknown = true -> exists t' t'', Refines t t' ∧
      Refines t t'' ∧ t' ≠ t'')
    (h : args.any containsUnknown = true) :
    exists args' args'', List.Forall₂ Refines args args' ∧
      List.Forall₂ Refines args args'' ∧ args' ≠ args'' := by
  rcases List.any_eq_true.mp h with ⟨t, ht, hunknown⟩
  rcases hpoint t ht hunknown with ⟨t', t'', hleft, hright, hne⟩
  rcases List.append_of_mem ht with ⟨before, after, hargs⟩
  subst hargs
  refine ⟨before ++ t' :: after, before ++ t'' :: after, ?_, ?_, ?_⟩
  · exact List.rel_append (forall₂_refines_refl before)
      (.cons hleft (forall₂_refines_refl after))
  · exact List.rel_append (forall₂_refines_refl before)
      (.cons hright (forall₂_refines_refl after))
  · intro heq
    exact hne (List.cons.inj (List.append_cancel_left heq)).left

theorem exists_distinct_bound
    (hpoint : forall t, t ∈ bound -> t.containsUnknown = true -> exists t' t'', Refines t t' ∧
      Refines t t'' ∧ t' ≠ t'')
    (h : bound.any containsUnknown = true) :
    exists bound' bound'', Option.Rel Refines bound bound' ∧
      Option.Rel Refines bound bound'' ∧ bound' ≠ bound'' := by
  cases bound with
  | none => cases h
  | some t =>
    rcases hpoint t rfl h with ⟨t', t'', hleft, hright, hne⟩
    exact ⟨some t', some t'', .some hleft, .some hright,
      fun heq => hne (Option.some.inj heq)⟩

theorem rel_refines_refl (bound : Option TypeRef) :
    Option.Rel Refines bound bound := by
  cases bound with
  | none => exact .none
  | some t => exact .some (refines_refl t)

theorem exists_distinct_refinements (h : t.containsUnknown = true) :
    exists t' t'', Refines t t' ∧ Refines t t'' ∧ t' ≠ t'' := by
  induction t using induct with
  | unknown =>
    exact ⟨.void, .null, refines_unknown _, refines_unknown _, by decide⟩
  | named id args ih =>
    simp only [containsUnknown, containsUnknownArgs_eq] at h
    rcases exists_distinct_args ih h with ⟨args', args'', hleft, hright, hne⟩
    exact ⟨.named id args', .named id args'',
      refines_of_congruent (.named id hleft),
      refines_of_congruent (.named id hright),
      fun heq => hne (TypeRef.named.inj heq).right⟩
  | array element ih =>
    rcases ih h with ⟨t', t'', hleft, hright, hne⟩
    exact ⟨.array t', .array t'', hleft, hright,
      fun heq => hne (TypeRef.array.inj heq)⟩
  | wildcard upper lower ihu ihl =>
    simp only [containsUnknown, containsUnknownBound_eq,
      Bool.or_eq_true] at h
    rcases h with hupper | hlower
    · rcases exists_distinct_bound ihu hupper with
        ⟨bound', bound'', hleft, hright, hne⟩
      exact ⟨.wildcard bound' lower, .wildcard bound'' lower,
        refines_of_congruent (.wildcard hleft (rel_refines_refl lower)),
        refines_of_congruent (.wildcard hright (rel_refines_refl lower)),
        fun heq => hne (TypeRef.wildcard.inj heq).left⟩
    · rcases exists_distinct_bound ihl hlower with
        ⟨bound', bound'', hleft, hright, hne⟩
      exact ⟨.wildcard upper bound', .wildcard upper bound'',
        refines_of_congruent (.wildcard (rel_refines_refl upper) hleft),
        refines_of_congruent (.wildcard (rel_refines_refl upper) hright),
        fun heq => hne (TypeRef.wildcard.inj heq).right⟩
  | _ => cases h

end TypeRef

end JavaVsixLite
