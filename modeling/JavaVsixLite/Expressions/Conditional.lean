import JavaVsixLite.Expressions.Typing

/-!
# Conditional expressions

The resolver takes the operand type the other operand is assignable to.  Among
types it can answer this is the type of the language, except for a primitive
second operand whose box is the third, and for constants.
-/

namespace JavaVsixLite
namespace Expressions

open Foundation

def IsConcrete : TypeRef -> Prop
  | .primitive _ => True
  | .void => True
  | .null => True
  | .named _ _ => True
  | .array _ => True
  | _ => False

theorem Typer.typeRef_concrete (T : Typer) (ty : ResolvedType) :
    IsConcrete (T.typeRef ty) := by
  cases ty <;> trivial

/-!
# What the engine proves about primitive targets
-/

variable {table : ClassTable} {fuel : Nat} {p q : PrimitiveType}

theorem assignableRefs_step {actual expected : TypeRef} {v : Verdict}
    (h : assignableRefs table fuel actual expected = some v) :
    exists ask, assignableStep table ask (actual, expected) = some v := by
  cases fuel with
  | zero => cases h
  | succ fuel => exact ⟨_, h⟩

theorem widens_of_primitive
    (h : assignableRefs table fuel (.primitive p) (.primitive q) = some (some true)) :
    p = q ∨ p.widensTo q = true := by
  rcases assignableRefs_step h with ⟨ask, hstep⟩
  simp only [assignableStep, Option.some.injEq, primitiveAssignable] at hstep
  split at hstep
  · rename_i hwidens
    simpa using hwidens
  · unfold constantNarrowing at hstep
    split at hstep <;> cases hstep

theorem widens_of_unboxing {t : TypeRef} (hconcrete : IsConcrete t)
    (h : assignableRefs table fuel t (.primitive q) = some (some true)) :
    exists p, unboxed t = some p ∧ (p = q ∨ p.widensTo q = true) := by
  cases t with
  | primitive p => exact ⟨p, rfl, widens_of_primitive h⟩
  | named id args =>
    rcases assignableRefs_step h with ⟨ask, hstep⟩
    cases id with
    | localClass document declaration => simp [assignableStep] at hstep
    | named binary =>
      simp only [assignableStep, Option.some.injEq, unboxAssignable] at hstep
      split at hstep
      · rename_i p hbox
        exact ⟨p, hbox, by simpa using hstep⟩
      · cases hstep
  | void =>
    rcases assignableRefs_step h with ⟨ask, hstep⟩
    simp [assignableStep] at hstep
  | null =>
    rcases assignableRefs_step h with ⟨ask, hstep⟩
    simp [assignableStep, TypeRef.isReference] at hstep
  | array element =>
    rcases assignableRefs_step h with ⟨ask, hstep⟩
    simp [assignableStep] at hstep
  | typeVariable v => cases hconcrete
  | wildcard upper lower => cases hconcrete
  | unknown => cases hconcrete

theorem eq_void_of_assignable {t : TypeRef} (hconcrete : IsConcrete t)
    (h : assignableRefs table fuel t .void = some (some true)) : t = .void := by
  rcases assignableRefs_step h with ⟨ask, hstep⟩
  cases t with
  | void => rfl
  | null => simp [assignableStep, TypeRef.isReference] at hstep
  | typeVariable v => cases hconcrete
  | wildcard upper lower => cases hconcrete
  | unknown => cases hconcrete
  | primitive p => simp [assignableStep] at hstep
  | named id args => simp [assignableStep] at hstep
  | array element => simp [assignableStep] at hstep

theorem promote_widens (h : p.widensTo q = true) : promote p q = q ∧ promote q p = q := by
  revert h
  cases p <;> cases q <;> decide

theorem not_boolean_of_widens (h : p.widensTo q = true) :
    p ≠ .boolean ∧ q ≠ .boolean ∧ p ≠ q := by
  revert h
  cases p <;> cases q <;> decide

/-!
# The operand taken
-/

/--
The positive answers are the engine's and true of the language, and a box is
found assignable to its own primitive type.
-/
structure EngineSound (T : Typer) (J : Java) : Prop where
  answers : forall a e, T.assignable a e = some true ->
    exists fuel, assignableRefs T.table fuel a e = some (some true)
  unboxes : forall binary args p, PrimitiveType.fromBoxFqn binary = some p ->
    T.assignable (.named (.named binary) args) (.primitive p) = some true
  proves : forall a e, T.assignable a e = some true -> e.isReference = true ->
    J.subtype (boxed a) e

/--
Operands with one primitive type between them are the same type, or the third
is the primitive one; and neither is a constant that fits the other's type.
-/
structure ConditionalClear (fitsC fitsA : PrimitiveType -> Bool)
    (c a : TypeRef) : Prop where
  unboxes : forall p, unboxed c = some p -> unboxed a = some p ->
    a = c ∨ a = .primitive p
  fitsAlternative : forall q, unboxed a = some q -> isNarrow q = true ->
    fitsC q = false
  fitsConsequence : forall p, unboxed c = some p -> isNarrow p = true ->
    fitsA p = false

section Operands

variable {T : Typer} {J : Java} {c a : TypeRef}
  {fitsC fitsA : PrimitiveType -> Bool}

theorem conditional_of_promote (clear : ConditionalClear fitsC fitsA c a)
    {p q : PrimitiveType} (hc : unboxed c = some p) (ha : unboxed a = some q)
    (hne : p ≠ q) (hp : p ≠ .boolean) (hq : q ≠ .boolean) :
    Conditional fitsC fitsA J.lub c a (.primitive (promote p q)) := by
  have hca : c ≠ a := by
    rintro rfl
    rw [hc] at ha
    exact hne (Option.some.inj ha)
  have hfitsC : (isNarrow q && fitsC q) = false := by
    cases hnarrow : isNarrow q with
    | false => rfl
    | true => simp [clear.fitsAlternative q ha hnarrow]
  have hfitsA : (isNarrow p && fitsA p) = false := by
    cases hnarrow : isNarrow p with
    | false => rfl
    | true => simp [clear.fitsConsequence p hc hnarrow]
  simp [Conditional, hca, hc, ha, hne, hp, hq, hfitsC, hfitsA]

theorem conditional_of_lub (hca : c ≠ a) (h : unboxed c = none ∨ unboxed a = none)
    {t : TypeRef} (hlub : J.lub (boxed c) (boxed a) t) :
    Conditional fitsC fitsA J.lub c a t := by
  rcases h with hc | ha
  · simpa [Conditional, hca, hc] using hlub
  · cases hc : unboxed c <;> simpa [Conditional, hca, hc, ha] using hlub

theorem boxed_of_reference {t : TypeRef} (h : t.isReference = true) :
    boxed t = t := by
  cases t <;> first | rfl | cases h

theorem conditional_alternative (engine : EngineSound T J)
    (hconcrete : IsConcrete c) (haConcrete : IsConcrete a)
    (clear : ConditionalClear fitsC fitsA c a)
    (h : T.assignable c a = some true) :
    Conditional fitsC fitsA J.lub c a a := by
  by_cases hca : c = a
  · simp [Conditional, hca]
  rcases engine.answers c a h with ⟨fuel, hfuel⟩
  by_cases hreference : a.isReference = true
  · have hsub : J.subtype (boxed c) (boxed a) := by
      rw [boxed_of_reference hreference]
      exact engine.proves c a h hreference
    have hlub : J.lub (boxed c) (boxed a) a := by
      rw [boxed_of_reference hreference] at hsub ⊢
      exact J.lub_right _ _ hsub
    cases hc : unboxed c with
    | none => exact conditional_of_lub hca (.inl hc) hlub
    | some p =>
      cases ha : unboxed a with
      | none => exact conditional_of_lub hca (.inr ha) hlub
      | some q =>
        have hpq := J.boxes_unrelated c a p q hc ha hsub
        subst hpq
        rcases clear.unboxes p hc ha with hsame | hprimitive
        · exact absurd hsame.symm hca
        · rw [hprimitive] at hreference
          cases hreference
  · cases a with
    | primitive q =>
      rcases widens_of_unboxing hconcrete hfuel with ⟨p, hp, heq | hwidens⟩
      · subst heq
        have ha : unboxed (.primitive p) = some p := rfl
        simp [Conditional, hca, hp, ha]
      · rcases not_boolean_of_widens hwidens with ⟨hpb, hqb, hne⟩
        have htype : Conditional fitsC fitsA J.lub c (.primitive q) (.primitive (promote p q)) :=
          conditional_of_promote clear hp rfl hne hpb hqb
        rwa [(promote_widens hwidens).1] at htype
    | void => exact absurd (eq_void_of_assignable hconcrete hfuel) hca
    | null => exact absurd rfl hreference
    | named id args => exact absurd rfl hreference
    | array element => exact absurd rfl hreference
    | typeVariable v => cases haConcrete
    | wildcard upper lower => cases haConcrete
    | unknown => cases haConcrete

theorem unboxing_answered (engine : EngineSound T J)
    (hreference : c.isReference = true) {p : PrimitiveType}
    (hc : unboxed c = some p) : T.assignable c (.primitive p) = some true := by
  cases c with
  | named id args =>
    cases id with
    | localClass document declaration => cases hc
    | named binary => exact engine.unboxes binary args p hc
  | primitive q => cases hreference
  | _ => cases hc

theorem conditional_consequence (engine : EngineSound T J)
    (hconcrete : IsConcrete c) (haConcrete : IsConcrete a)
    (clear : ConditionalClear fitsC fitsA c a)
    (hfirst : T.assignable c a ≠ some true)
    (h : T.assignable a c = some true) :
    Conditional fitsC fitsA J.lub c a c := by
  by_cases hca : c = a
  · simp [Conditional, hca]
  rcases engine.answers a c h with ⟨fuel, hfuel⟩
  by_cases hreference : c.isReference = true
  · have hsub : J.subtype (boxed a) (boxed c) := by
      rw [boxed_of_reference hreference]
      exact engine.proves a c h hreference
    have hlub : J.lub (boxed c) (boxed a) c := by
      rw [boxed_of_reference hreference] at hsub ⊢
      exact J.lub_left _ _ hsub
    cases hc : unboxed c with
    | none => exact conditional_of_lub hca (.inl hc) hlub
    | some p =>
      cases ha : unboxed a with
      | none => exact conditional_of_lub hca (.inr ha) hlub
      | some q =>
        have hpq := J.boxes_unrelated a c q p ha hc hsub
        subst hpq
        rcases clear.unboxes q hc ha with hsame | rfl
        · exact absurd hsame.symm hca
        · -- a box is unboxed to its own primitive type at once
          exact absurd (unboxing_answered engine hreference hc) hfirst
  · cases c with
    | primitive p =>
      rcases widens_of_unboxing haConcrete hfuel with ⟨q, hq, heq | hwidens⟩
      · subst heq
        rcases clear.unboxes q rfl hq with hsame | hsame
        · exact absurd hsame.symm hca
        · exact absurd hsame.symm hca
      · rcases not_boolean_of_widens hwidens with ⟨hqb, hpb, hne⟩
        have htype : Conditional fitsC fitsA J.lub (.primitive p) a (.primitive (promote p q)) :=
          conditional_of_promote clear rfl hq hne.symm hpb hqb
        rwa [(promote_widens hwidens).2] at htype
    | void => exact absurd (eq_void_of_assignable haConcrete hfuel).symm hca
    | null => exact absurd rfl hreference
    | named id args => exact absurd rfl hreference
    | array element => exact absurd rfl hreference
    | typeVariable v => cases hconcrete
    | wildcard upper lower => cases hconcrete
    | unknown => cases hconcrete

end Operands

end Expressions
end JavaVsixLite
