import JavaVsixLite.Subtyping.Hierarchy

/-!
# Containment in a row

Two proofs of containment, one after the other, leave nothing to refute as long
as the comparisons they rest on do not.  Only the arguments of one class are
looked at here; how a walk arrives at them is another matter.
-/

namespace JavaVsixLite

open Foundation
open Foundation.Verdict
open TypeRef (Proper)

/-!
# Deciding twice
-/

abbrev asking (T : ClassTable) (fuel : Nat) : Ask :=
  OpenRecursion.run (assignableStep T) fuel

theorem asking_deterministic {T : ClassTable} {fuel fuel' : Nat} {q : Question}
    {v w : Verdict} (hv : asking T fuel q = some v)
    (hw : asking T fuel' q = some w) : v = w :=
  OpenRecursion.run_deterministic (assignableStep_monotone T) hv hw

theorem argumentContains_deterministic {T : ClassTable} {fuel fuel' : Nat}
    {x y : TypeRef} {v w : Verdict}
    (hv : argumentContains (asking T fuel) x y = some v)
    (hw : argumentContains (asking T fuel') x y = some w) : v = w := by
  rw [argumentContains_eq_eval] at hv hw
  cases hrule : argumentRule x y with
  | decided u =>
    rw [hrule] at hv hw
    exact Option.some.inj (hv.symm.trans hw)
  | asks q =>
    rw [hrule] at hv hw
    exact asking_deterministic hv hw
  | compares =>
    rw [hrule] at hv hw
    exact Option.some.inj (hv.symm.trans hw)

theorem asking_eq_eval {T : ClassTable} {fuel : Nat} {q : Question} {b : Bool}
    (h : asking T fuel q = some (some b)) :
    exists fuel', fuel = fuel' + 1 ∧
      (stepRule T q).eval T (asking T fuel') = some (some b) := by
  cases fuel with
  | zero => cases h
  | succ fuel' =>
    exists fuel'
    constructor
    · rfl
    · rw [← assignableStep_eq_eval]
      exact h

/-!
# What each rule is
-/

theorem stepRule_named (T : ClassTable) (id eid : TypeId)
    (args eargs : List TypeRef) :
    stepRule T (.named id args, .named eid eargs) =
      .walks (.named id args) eid eargs := by
  cases id <;> rfl

theorem stepRule_typeVariable (T : ClassTable) (v : TypeVariableId)
    {e : TypeRef} (he : Proper e) :
    stepRule T (.typeVariable v, e) = .decided none ∨
      exists bounds, T.variableBounds v = some bounds ∧
        stepRule T (.typeVariable v, e) = .tries (effectiveBounds bounds) e := by
  cases hbounds : T.variableBounds v <;> cases he <;> simp [stepRule, hbounds]

theorem stepRule_wildcard (T : ClassTable) (upper lower : Option TypeRef)
    {e : TypeRef} (he : Proper e) :
    stepRule T (.wildcard upper lower, e) = .decided none ∨
      stepRule T (.wildcard upper lower, e) =
        .asks (upper.getD TypeRef.objectRef, e) := by
  cases upper <;> cases he <;> simp [stepRule]

theorem elementRule_proper {x y : TypeRef} (hx : Proper x) (hy : Proper y) :
    elementRule x y = .asks (x, y) := by
  cases hx <;> cases hy <;> rfl

theorem proper_upperBound {upper lower : Option TypeRef}
    (h : Proper (.wildcard upper lower)) :
    Proper (upper.getD TypeRef.objectRef) := by
  cases h with
  | unbounded => exact proper_ofName _
  | upper hbound => exact hbound
  | lower _ => exact proper_ofName _

/-!
# Argument lists
-/

theorem typeArgsContain_proved {ask : Ask} {xs ys : List TypeRef}
    (h : typeArgsContain ask xs ys = some (some true)) :
    ys = [] ∨ xs.length = ys.length ∧ argumentPairs xs ys = xs.zip ys ∧
      forall pair, pair ∈ xs.zip ys ->
        argumentContains ask pair.1 pair.2 = some (some true) := by
  rw [typeArgsContain_eq] at h
  unfold argumentPairs at *
  unfold lengthVerdict at *
  by_cases hzero : ys.length = 0
  · left
    exact List.length_eq_zero_iff.mp hzero
  · right
    by_cases hlen : xs.length = ys.length
    · simp only [hzero, hlen, if_false, ne_eq, not_true_eq_false] at h ⊢
      exact ⟨trivial, trivial, (allProved_true h).right⟩
    · simp only [hzero, hlen, if_false, ne_eq, not_false_eq_true, if_true] at h
      cases h

theorem typeArgsContain_refuted {ask : Ask} {xs ys : List TypeRef}
    (h : typeArgsContain ask xs ys = some (some false)) :
    ys ≠ [] ∧ exists pair, pair ∈ xs.zip ys ∧
      argumentContains ask pair.1 pair.2 = some (some false) := by
  unfold typeArgsContain at h
  cases ys with
  | nil => cases h
  | cons y rest =>
    constructor
    · exact List.cons_ne_nil y rest
    · simp only [List.isEmpty_cons, Bool.false_eq_true, if_false] at h
      split at h
      · cases h
      · exact allProved_false h

theorem isSubtype_self (T : ClassTable) (ask : Ask) (id : TypeId)
    (args targetArgs : List TypeRef) :
    isSubtype T ask id targetArgs (maxSubtypeDepth + 1) [] (.named id args) =
      typeArgsContain ask args targetArgs := by
  rw [isSubtype_succ]
  simp [walkRule]

/-!
# Reflexivity
-/

inductive Accepting : TypeRef -> Prop where
  | object : Accepting TypeRef.objectRef
  | typeVariable (v : TypeVariableId) : Accepting (.typeVariable v)
  | wildcard {upper lower : Option TypeRef} :
      Proper (.wildcard upper lower) -> Accepting (.wildcard upper lower)
  | unknown : Accepting .unknown

variable {T : ClassTable}

variable {e : TypeRef} {ask : Ask} {x : TypeRef}

theorem Accepting.proper (h : Accepting e) : Proper e := by
  cases h with
  | object => exact proper_ofName _
  | typeVariable v => exact .typeVariable v
  | wildcard hproper => exact hproper
  | unknown => exact .unknown

theorem exists_bound_refuted {bounds : List TypeRef}
    (h : anyProved (fun t => ask (t, e)) false (effectiveBounds bounds) = some (some false)) :
    exists t, t ∈ effectiveBounds bounds ∧ ask (t, e) = some (some false) := by
  have hall := (anyProved_false h).right
  have hne : effectiveBounds bounds ≠ [] := by
    cases bounds with
    | nil => exact List.cons_ne_nil _ _
    | cons b rest => exact List.cons_ne_nil b rest
  rcases List.exists_mem_of_ne_nil _ hne with ⟨t, ht⟩
  exact ⟨t, ht, hall t ht⟩

theorem named_accepted (id : TypeId) (args : List TypeRef) (he : Accepting e) :
    (stepRule T (.named id args, e)).eval T ask ≠ some (some false) := by
  cases he with
  | object =>
    rw [TypeRef.objectRef, TypeRef.ofName, stepRule_named]
    intro h
    rcases RefutedBy.cases ⟨_, _, h⟩ with ⟨_, hargs⟩ | ⟨_, hobject, _⟩
    · cases hargs
    · exact hobject rfl
  | _ =>
    cases id <;>
      · intro h
        cases h

theorem array_accepted (element : TypeRef) (he : Accepting e) :
    (stepRule T (.array element, e)).eval T ask ≠ some (some false) := by
  cases he <;>
    · intro h
      cases h

theorem accepting_ne_false (hT : T.Acyclic) (fuel : Nat) (hx : Proper x) (he : Accepting e) :
    asking T fuel (x, e) ≠ some (some false) := by
  induction fuel generalizing x with
  | zero =>
    intro h
    cases h
  | succ fuel ih =>
    intro h
    rcases asking_eq_eval h with ⟨fuel', hfuel, heval⟩
    cases hfuel
    have hwildcard : forall upper lower, Proper (.wildcard upper lower) ->
        (stepRule T (.wildcard upper lower, e)).eval T (asking T fuel) ≠
          some (some false) := by
      intro upper lower hproper heval
      rcases stepRule_wildcard T upper lower he.proper with hrule | hrule
      · rw [hrule] at heval
        cases heval
      · rw [hrule] at heval
        exact ih (proper_upperBound hproper) heval
    cases hx with
    | named id _ => exact named_accepted id _ he heval
    | primitives p => exact array_accepted _ he heval
    | array _ => exact array_accepted _ he heval
    | typeVariable v =>
      rcases stepRule_typeVariable T v he.proper with
        hrule | ⟨bounds, hbounds, hrule⟩
      · rw [hrule] at heval
        cases heval
      · rw [hrule] at heval
        rcases exists_bound_refuted heval with ⟨t, ht, hrefuted⟩
        exact ih (proper_variableBounds hT hbounds t ht) hrefuted
    | unbounded => exact hwildcard _ _ .unbounded heval
    | upper hbound => exact hwildcard _ _ (.upper hbound) heval
    | lower hbound => exact hwildcard _ _ (.lower hbound) heval
    | unknown =>
      cases he <;> cases heval

theorem refl_ne_false (hT : T.Acyclic) (fuel : Nat) (hx : Proper x) :
    asking T fuel (x, x) ≠ some (some false) := by
  induction fuel generalizing x with
  | zero =>
    intro h
    cases h
  | succ fuel ih =>
    have hcontains : forall {t}, Proper t ->
        argumentContains (asking T fuel) t t ≠ some (some false) := by
      intro t ht h
      cases ht with
      | named id _ => simp [argumentContains] at h
      | primitives p => simp [argumentContains] at h
      | array _ => simp [argumentContains] at h
      | upper hbound => exact ih hbound h
      | lower hbound => exact ih hbound h
      | _ => cases h
    intro h
    cases hx with
    | named id hargs =>
      rcases asking_eq_eval h with ⟨fuel', hfuel, heval⟩
      cases hfuel
      rw [stepRule_named] at heval
      rcases RefutedBy.cases ⟨_, _, heval⟩ with ⟨_, hrefuted⟩ | ⟨hne, _⟩
      · rcases typeArgsContain_refuted hrefuted with
          ⟨_, ⟨t, t'⟩, hpair, hcontained⟩
        have hmem := List.of_mem_zip hpair
        have hsame : t = t' :=
          (List.forall₂_iff_zip.mp
            (List.forall₂_same.mpr (fun _ _ => rfl))).right hpair
        rw [← hsame] at hcontained
        exact hcontains (hargs t hmem.left) hcontained
      · exact hne rfl
    | primitives p =>
      cases p <;> cases h
    | array helement =>
      rcases asking_eq_eval h with ⟨fuel', hfuel, heval⟩
      cases hfuel
      change (elementRule _ _).eval T _ = _ at heval
      rw [elementRule_proper helement helement] at heval
      exact ih helement heval
    | typeVariable v =>
      exact accepting_ne_false hT _ (.typeVariable v) (.typeVariable v) h
    | unbounded =>
      exact accepting_ne_false hT _ .unbounded (.wildcard .unbounded) h
    | upper hbound =>
      exact accepting_ne_false hT _ (.upper hbound)
        (.wildcard (.upper hbound)) h
    | lower hbound =>
      exact accepting_ne_false hT _ (.lower hbound)
        (.wildcard (.lower hbound)) h
    | unknown => cases h

/-!
# Buried wildcards
-/

/-- The arguments under which a walk meets the expected class prove the comparison. -/
def Contained (T : ClassTable) (view targetArgs : List TypeRef) : Prop :=
  exists fuel, typeArgsContain (asking T fuel) view targetArgs = some (some true)

/-- The nested comparisons that a proof of the question can rest on. -/
inductive RestsOn (T : ClassTable) (q : Question) : Question -> Prop where
  | asks {q' : Question} : stepRule T q = .asks q' -> RestsOn T q q'
  | tries {bounds : List TypeRef} {b e : TypeRef} : stepRule T q = .tries bounds e ->
      b ∈ bounds -> (exists fuel, asking T fuel (b, e) = some (some true)) ->
      RestsOn T q (b, e)
  | walks {actual : TypeRef} {target : TypeId} {targetArgs view : List TypeRef}
      {q' : Question} : stepRule T q = .walks actual target targetArgs ->
      view ∈ views T target (maxSubtypeDepth + 1) [] actual ->
      Contained T view targetArgs -> q' ∈ argumentFollowUps view targetArgs ->
      RestsOn T q q'

theorem RestsOn.mem_followUps {q q' : Question} (h : RestsOn T q q') : q' ∈ followUps T q := by
  unfold followUps
  cases h with
  | asks hrule =>
    rw [hrule]
    exact List.mem_singleton_self _
  | tries hrule hb _ =>
    rw [hrule]
    exact List.mem_map.mpr ⟨_, hb, rfl⟩
  | walks hrule hview _ hq' =>
    rw [hrule]
    exact List.mem_flatMap.mpr ⟨_, hview, hq'⟩

/-- A wildcard lies buried in an argument, and the expected one is not open to any. -/
def meetsBuried (view : List Traced) (targetArgs : List TypeRef) : Bool :=
  (view.zip targetArgs).any (fun pair =>
    pair.1.1 == .buried && pair.2 != .wildcard none none)

/-- The walk of the comparison meets such an argument where it proves the comparison. -/
def ComparesBuried (T : ClassTable) : Question -> Prop
  | (.named id args, .named target targetArgs) =>
    exists view, view ∈ tracedViews T target (maxSubtypeDepth + 1) [] id (traced args) ∧
      Contained T (view.map Prod.snd) targetArgs ∧ meetsBuried view targetArgs = true
  | _ => False

/-- Neither the comparison nor one its proof rests on meets a buried wildcard. -/
def BuriesNothing (T : ClassTable) (q : Question) : Prop :=
  forall q', Relation.ReflTransGen (RestsOn T) q q' -> ¬ ComparesBuried T q'

def BuriesNothingBelow (T : ClassTable) (q : Question) : Prop :=
  forall q', RestsOn T q q' -> BuriesNothing T q'

theorem BuriesNothing.below {q : Question} (h : BuriesNothing T q) :
    BuriesNothingBelow T q := by
  intro q' hq' r hr
  exact h r (.head hq' hr)

/-!
# Containment in a row
-/

def TransitiveAt (T : ClassTable) (fuel fuel' : Nat) : Prop :=
  forall {x m e}, Proper x -> Proper m -> Proper e ->
    BuriesNothingBelow T (x, m) -> BuriesNothing T (m, e) ->
    asking T fuel (x, m) = some (some true) ->
    asking T fuel' (m, e) = some (some true) ->
    forall fuel'', asking T fuel'' (x, e) ≠ some (some false)

theorem eq_of_argumentContains {m : TypeRef} (hx : Proper x) (hm : Proper m)
    (hwildcard : useSiteOrigin m = .fixed) (h : argumentContains ask x m = some (some true)) :
    x = m := by
  cases hm with
  | unbounded => cases hwildcard
  | upper _ => cases hwildcard
  | lower _ => cases hwildcard
  | typeVariable v => cases hx <;> cases h
  | unknown => cases hx <;> cases h
  | _ =>
    cases hx <;>
      first
        | cases h
        | simpa [argumentContains] using h

theorem argumentRule_upper (hx : Proper x) :
    (exists u, Proper u ∧
      forall b, argumentRule x (.wildcard (some b) none) = .asks (u, b)) ∨
    forall b, argumentRule x (.wildcard (some b) none) = .decided none := by
  cases hx with
  | typeVariable v => exact Or.inr (fun _ => rfl)
  | lower _ => exact Or.inr (fun _ => rfl)
  | unknown => exact Or.inr (fun _ => rfl)
  | unbounded => exact Or.inl ⟨_, proper_ofName _, fun _ => rfl⟩
  | upper hbound => exact Or.inl ⟨_, hbound, fun _ => rfl⟩
  | named id hargs => exact Or.inl ⟨_, .named id hargs, fun _ => rfl⟩
  | primitives p => exact Or.inl ⟨_, .primitives p, fun _ => rfl⟩
  | array helement => exact Or.inl ⟨_, .array helement, fun _ => rfl⟩

theorem argumentRule_lower (hx : Proper x) :
    (exists l, Proper l ∧
      forall b, argumentRule x (.wildcard none (some b)) = .asks (b, l)) ∨
    forall b, argumentRule x (.wildcard none (some b)) = .decided none := by
  cases hx with
  | typeVariable v => exact Or.inr (fun _ => rfl)
  | unbounded => exact Or.inr (fun _ => rfl)
  | upper _ => exact Or.inr (fun _ => rfl)
  | unknown => exact Or.inr (fun _ => rfl)
  | lower hbound => exact Or.inl ⟨_, hbound, fun _ => rfl⟩
  | named id hargs => exact Or.inl ⟨_, .named id hargs, fun _ => rfl⟩
  | primitives p => exact Or.inl ⟨_, .primitives p, fun _ => rfl⟩
  | array helement => exact Or.inl ⟨_, .array helement, fun _ => rfl⟩

theorem argumentContains_unbounded (ask : Ask) (x : TypeRef) :
    argumentContains ask x (.wildcard none none) = some (some true) := by
  unfold argumentContains
  rfl

theorem contained_in_unbounded (ask : Ask) (x : TypeRef) :
    argumentContains ask x (.wildcard none none) ≠ some (some false) := by
  rw [argumentContains_unbounded]
  intro h
  cases h

theorem accepting_of_object_proved (hT : T.Acyclic) {fuel : Nat} (he : Proper e)
    (h : asking T fuel (TypeRef.objectRef, e) = some (some true)) :
    Accepting e := by
  rcases asking_eq_eval h with ⟨fuel', hfuel, heval⟩
  cases he with
  | named id hargs =>
    rename_i args
    rw [TypeRef.objectRef, TypeRef.ofName, stepRule_named] at heval
    by_cases hid : id = .named "java.lang.Object"
    · subst hid
      change isSubtype T _ _ _ _ _ _ = _ at heval
      rw [isSubtype_self] at heval
      cases args with
      | nil => exact .object
      | cons arg rest => cases heval
    · rcases exists_proved_view hT hid _ _ _ _ heval with
        ⟨view, _, hclimbs, _⟩
      exact absurd (climbs_from_object hT hclimbs) hid
  | typeVariable v => exact .typeVariable v
  | unbounded => exact .wildcard .unbounded
  | upper hbound => exact .wildcard (.upper hbound)
  | lower hbound => exact .wildcard (.lower hbound)
  | unknown => exact .unknown
  | _ => cases heval

def ArgumentsBuryNothing (T : ClassTable) (x y : TypeRef) : Prop :=
  forall q, argumentRule x y = .asks q -> BuriesNothing T q

section ContainmentInARow

variable {fuel fuel' : Nat} {x m e : TypeRef}

theorem contained_below_upper (hforth : TransitiveAt T fuel fuel')
    (hx : Proper x) {bound bound' : TypeRef} (hbound : Proper bound)
    (hbound' : Proper bound')
    (hxm : ArgumentsBuryNothing T x (.wildcard (some bound) none))
    (hme : BuriesNothing T (bound, bound'))
    (h : argumentContains (asking T fuel) x (.wildcard (some bound) none) =
      some (some true))
    (h' : asking T fuel' (bound, bound') = some (some true)) (fuel'' : Nat) :
    argumentContains (asking T fuel'') x (.wildcard (some bound') none) ≠
      some (some false) := by
  rw [argumentContains_eq_eval] at h ⊢
  rcases argumentRule_upper hx with ⟨u, hu, hrule⟩ | hrule
  · have hbelow := (hxm _ (hrule bound)).below
    rw [hrule] at h ⊢
    exact hforth hu hbound hbound' hbelow hme h h' fuel''
  · rw [hrule] at h
    cases h

theorem contained_above_lower (hback : TransitiveAt T fuel' fuel)
    (hx : Proper x) {bound bound' : TypeRef} (hbound : Proper bound)
    (hbound' : Proper bound')
    (hxm : ArgumentsBuryNothing T x (.wildcard none (some bound)))
    (hme : BuriesNothing T (bound', bound))
    (h : argumentContains (asking T fuel) x (.wildcard none (some bound)) =
      some (some true))
    (h' : asking T fuel' (bound', bound) = some (some true)) (fuel'' : Nat) :
    argumentContains (asking T fuel'') x (.wildcard none (some bound')) ≠
      some (some false) := by
  rw [argumentContains_eq_eval] at h ⊢
  rcases argumentRule_lower hx with ⟨l, hl, hrule⟩ | hrule
  · have hclear := hxm _ (hrule bound)
    rw [hrule] at h ⊢
    exact hback hbound' hbound hl hme.below hclear h' h fuel''
  · rw [hrule] at h
    cases h

theorem contained_in_accepting (hT : T.Acyclic) (hx : Proper x)
    {bound : TypeRef} (hbound : Accepting bound) (fuel'' : Nat) :
    argumentContains (asking T fuel'') x (.wildcard (some bound) none) ≠
      some (some false) := by
  rw [argumentContains_eq_eval]
  intro h
  rcases argumentRule_upper hx with ⟨u, hu, hrule⟩ | hrule
  · rw [hrule] at h
    exact accepting_ne_false hT fuel'' hu hbound h
  · rw [hrule] at h
    cases h

theorem argumentContains_trans (hT : T.Acyclic)
    (hforth : TransitiveAt T fuel fuel') (hback : TransitiveAt T fuel' fuel)
    (hx : Proper x) (hm : Proper m) (he : Proper e)
    (hxm : ArgumentsBuryNothing T x m) (hme : ArgumentsBuryNothing T m e)
    (h : argumentContains (asking T fuel) x m = some (some true))
    (h' : argumentContains (asking T fuel') m e = some (some true))
    (fuel'' : Nat) :
    argumentContains (asking T fuel'') x e ≠ some (some false) := by
  have hfixed : useSiteOrigin m = .fixed ->
      argumentContains (asking T fuel'') x e ≠ some (some false) := by
    intro hm' hrefuted
    rw [eq_of_argumentContains hx hm hm' h] at hrefuted
    cases argumentContains_deterministic h' hrefuted
  cases hm with
  | unbounded =>
    cases he with
    | unbounded => exact contained_in_unbounded _ x
    | upper hbound' =>
      exact contained_in_accepting hT hx
        (accepting_of_object_proved hT hbound' h') fuel''
    | _ => cases h'
  | upper hbound =>
    cases he with
    | unbounded => exact contained_in_unbounded _ x
    | upper hbound' =>
      exact contained_below_upper hforth hx hbound hbound' hxm
        (hme _ rfl) h h' fuel''
    | _ => cases h'
  | lower hbound =>
    cases he with
    | unbounded => exact contained_in_unbounded _ x
    | lower hbound' =>
      exact contained_above_lower hback hx hbound hbound' hxm
        (hme _ rfl) h h' fuel''
    | _ => cases h'
  | _ => exact hfixed rfl

end ContainmentInARow

end JavaVsixLite
