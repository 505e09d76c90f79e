import JavaVsixLite.Subtyping.Containment

/-!
# Assignability in a row

A proof of `a` against `b` climbs to an instance of the class of `b`, and a proof
of `b` against `c` climbs on from there.  A refutation of `a` against `c` would
have to follow both climbs, with arguments that differ from those of the second
proof only where a wildcard stood.
-/

namespace JavaVsixLite

open Foundation
open Foundation.Verdict
open TypeRef (Proper)

variable {T : ClassTable}

/-!
# Walks in a row
-/

/-- What is known of an argument whose counterpart is a use-site wildcard. -/
structure ContainedIn (T : ClassTable) (fuel : Nat) (x m : TypeRef) : Prop where
  actual : Proper x
  expected : Proper m
  contained : argumentContains (asking T fuel) x m = some (some true)
  clear : ArgumentsBuryNothing T x m

theorem traced_map_snd (args : List TypeRef) :
    (traced args).map Prod.snd = args := by
  simp [traced, Function.comp_def]

theorem followsArgs_of_contained {fuel : Nat} {xs ms : List TypeRef}
    (hxs : forall t, t ∈ xs -> Proper t) (hms : forall t, t ∈ ms -> Proper t)
    (hclear : forall q, q ∈ argumentFollowUps xs ms -> BuriesNothing T q)
    (h : typeArgsContain (asking T fuel) xs ms = some (some true)) :
    FollowsArgs (ContainedIn T fuel) (traced ms) xs := by
  rcases typeArgsContain_proved h with hnil | ⟨hlength, hpairs, hall⟩
  · left
    rw [hnil]
    rfl
  · right
    apply List.Forall₂.flip
    unfold traced
    rw [List.forall₂_map_right_iff]
    apply List.forall₂_iff_zip.mpr
    constructor
    · exact hlength
    · intro x m hpair
      have hmem := List.of_mem_zip hpair
      have hx := hxs x hmem.left
      have hm := hms m hmem.right
      have hcontained := hall (x, m) hpair
      cases horigin : useSiteOrigin m with
      | fixed =>
        rw [eq_of_argumentContains hx hm horigin hcontained]
        exact .fixed m
      | wildcard =>
        apply Follows.wildcard
        constructor
        · exact hx
        · exact hm
        · exact hcontained
        · intro q hrule
          apply hclear q
          rw [← hpairs] at hpair
          exact mem_argumentFollowUps.mpr ⟨(x, m), hpair, hrule⟩
      | buried => exact .buried m x

theorem exists_followed_pair {R : TypeRef -> TypeRef -> Prop}
    {view : List Traced} {view' targetArgs : List TypeRef}
    (h : List.Forall₂ (Follows R) view view') {t e : TypeRef}
    (hpair : (t, e) ∈ view'.zip targetArgs) :
    exists arg, (arg, e) ∈ view.zip targetArgs ∧ Follows R arg t := by
  induction h generalizing targetArgs with
  | nil => cases hpair
  | cons hhead _ ih =>
    cases targetArgs with
    | nil => cases hpair
    | cons e' rest =>
      rw [List.zip_cons_cons] at hpair ⊢
      rcases List.mem_cons.mp hpair with heq | htail
      · cases heq
        exact ⟨_, List.mem_cons_self, hhead⟩
      · rcases ih htail with ⟨arg, harg, hfollows⟩
        exact ⟨arg, List.mem_cons_of_mem _ harg, hfollows⟩

section WalksInARow

variable {fuel fuel' fuel'' : Nat} {xid mid eid : TypeId}
  {xs ms es : List TypeRef}

theorem followed_view_ne_false (hT : T.Acyclic)
    (hforth : TransitiveAt T fuel fuel') (hback : TransitiveAt T fuel' fuel)
    (hes : forall t, t ∈ es -> Proper t)
    (hclear : BuriesNothing T (.named mid ms, .named eid es))
    {view : List Traced} {view' : List TypeRef}
    (hview : view ∈ tracedViews T eid (maxSubtypeDepth + 1) [] mid (traced ms))
    (hfollows : FollowsArgs (ContainedIn T fuel) view view')
    (hproved : typeArgsContain (asking T fuel') (view.map Prod.snd) es =
      some (some true)) :
    typeArgsContain (asking T fuel'') view' es ≠ some (some false) := by
  intro hrefuted
  rcases typeArgsContain_refuted hrefuted with
    ⟨hne, ⟨t, e⟩, hpair, hpairRefuted⟩
  rcases typeArgsContain_proved hproved with hnil | ⟨hlength, hpairs, hall⟩
  · exact hne hnil
  · have hrows : List.Forall₂ (Follows (ContainedIn T fuel)) view view' := by
      rcases hfollows with hnil | hrows
      · rw [hnil] at hlength
        exact absurd (List.length_eq_zero_iff.mp hlength.symm) hne
      · exact hrows
    rcases exists_followed_pair hrows hpair with ⟨⟨origin, m⟩, harg, hfollow⟩
    have hzip : (m, e) ∈ (view.map Prod.snd).zip es := by
      rw [List.zip_map_left]
      exact List.mem_map.mpr ⟨_, harg, rfl⟩
    have hpairProved := hall (m, e) hzip
    have he : Proper e := hes e (List.of_mem_zip hpair).right
    cases hfollow with
    | fixed _ =>
      cases argumentContains_deterministic hpairProved hpairRefuted
    | wildcard hcontained =>
      have hme : ArgumentsBuryNothing T m e := by
        intro q hrule r hr
        apply hclear r
        apply Relation.ReflTransGen.head _ hr
        have hmem := mem_views_of_traced _ _ _ _ hview
        rw [traced_map_snd] at hmem
        rw [← hpairs] at hzip
        exact .walks (stepRule_named ..) hmem ⟨fuel', hproved⟩
          (mem_argumentFollowUps.mpr ⟨(m, e), hzip, hrule⟩)
      exact argumentContains_trans hT hforth hback hcontained.actual
        hcontained.expected he hcontained.clear hme hcontained.contained
        hpairProved fuel'' hpairRefuted
    | buried _ _ =>
      have hopen : e ≠ .wildcard none none := by
        intro heq
        rw [heq] at hpairRefuted
        exact contained_in_unbounded _ t hpairRefuted
      have hburied : ComparesBuried T (.named mid ms, .named eid es) := by
        refine ⟨view, hview, ⟨fuel', hproved⟩, ?_⟩
        rw [meetsBuried, List.any_eq_true]
        exact ⟨((.buried, m), e), harg, by simpa using hopen⟩
      exact hclear _ .refl hburied

theorem not_inherits_back (hT : T.Acyclic) {ask : Ask}
    (h : isSubtype T ask eid es (maxSubtypeDepth + 1) [] (.named mid ms) =
      some (some true)) :
    ¬ Relation.TransGen (InheritsFrom T) eid mid := by
  intro hback
  by_cases hobject : eid = .named "java.lang.Object"
  · rw [hobject] at hback
    rcases Relation.TransGen.head'_iff.mp hback with ⟨id, hstep, _⟩
    exact object_inherits_nothing hT id hstep
  · rcases exists_proved_view hT hobject _ _ _ _ h with
      ⟨view, _, hclimbs, _⟩
    exact hT.acyclic eid (hback.trans_left (Climbs.inheritsFrom hclimbs))

theorem exists_middle_view (hT : T.Acyclic) {ask ask' ask'' : Ask}
    (hxm : isSubtype T ask mid ms (maxSubtypeDepth + 1) [] (.named xid xs) =
      some (some true))
    (hme : isSubtype T ask' eid es (maxSubtypeDepth + 1) [] (.named mid ms) =
      some (some true))
    (hxe : RefutedBy T ask'' eid es (.named xid xs)) :
    exists view,
      view ∈ views T mid (maxSubtypeDepth + 1) [] (.named xid xs) ∧
      Climbs T (xid, xs) (mid, view) ∧
      typeArgsContain ask view ms = some (some true) := by
  by_cases hobject : mid = .named "java.lang.Object"
  · have hid : xid = mid := by
      by_contra hne
      have heid : eid = .named "java.lang.Object" := by
        by_contra hother
        rcases exists_proved_view hT hother _ _ _ _ hme with
          ⟨view, _, hclimbs, _⟩
        rw [hobject] at hclimbs
        exact hother (climbs_from_object hT hclimbs)
      rcases hxe.cases with ⟨hsame, _⟩ | ⟨_, hnotObject, _⟩
      · exact hne (hsame.trans (heid.trans hobject.symm))
      · exact hnotObject heid
    subst hid
    rw [isSubtype_self] at hxm
    refine ⟨xs, ?_, .refl, hxm⟩
    rw [views_succ]
    simp [walkRule]
  · exact exists_proved_view hT hobject _ _ _ _ hxm

theorem named_trans (hT : T.Acyclic)
    (hforth : TransitiveAt T fuel fuel') (hback : TransitiveAt T fuel' fuel)
    (hxs : forall t, t ∈ xs -> Proper t) (hms : forall t, t ∈ ms -> Proper t)
    (hes : forall t, t ∈ es -> Proper t)
    (hbelow : BuriesNothingBelow T (.named xid xs, .named mid ms))
    (hclear : BuriesNothing T (.named mid ms, .named eid es))
    (hxm : isSubtype T (asking T fuel) mid ms (maxSubtypeDepth + 1) []
      (.named xid xs) = some (some true))
    (hme : isSubtype T (asking T fuel') eid es (maxSubtypeDepth + 1) []
      (.named mid ms) = some (some true)) (fuel'' : Nat) :
    isSubtype T (asking T fuel'') eid es (maxSubtypeDepth + 1) []
      (.named xid xs) ≠ some (some false) := by
  intro hxe
  have hrefuted : RefutedBy T (asking T fuel'') eid es (.named xid xs) :=
    ⟨_, _, hxe⟩
  rcases exists_middle_view hT hxm hme hrefuted with
    ⟨view, hview, hclimbs, hcontained⟩
  have hviewRefuted : RefutedBy T (asking T fuel'') eid es (.named mid view) :=
    RefutedBy.climbs hclimbs (not_inherits_back hT hme) hrefuted
  have hfollows : FollowsArgs (ContainedIn T fuel) (traced ms) view := by
    apply followsArgs_of_contained (Climbs.proper hT hclimbs hxs) hms _ hcontained
    intro q hq
    exact hbelow q (.walks (stepRule_named ..) hview ⟨fuel, hcontained⟩ hq)
  rw [← traced_map_snd ms] at hme
  rcases exists_following_views hT _ _ _ _ _ hme hviewRefuted hfollows with
    ⟨last, last', hlast, hlastFollows, hproved, hlastRefuted⟩
  exact followed_view_ne_false hT hforth hback hes hclear hlast hlastFollows
    hproved hlastRefuted

end WalksInARow

/-!
# Arrays in a row
-/

theorem stepRule_array_named (element : TypeRef) (id : TypeId)
    (args : List TypeRef) :
    stepRule T (.array element, .named id args) =
      .decided (some (id.asNamed.any arraySupertype)) := by
  cases id <;> rfl

theorem elementRule_primitive_left (p : PrimitiveType) {y : TypeRef}
    (hy : Proper y) : elementRule (.primitive p) y = .decided (some false) := by
  cases hy <;> rfl

theorem elementRule_primitive_right (p : PrimitiveType) {x : TypeRef}
    (hx : Proper x) : elementRule x (.primitive p) = .decided (some false) := by
  cases hx <;> rfl

section ArraysInARow

variable {fuel fuel' fuel'' : Nat} {a b c : TypeRef}

theorem elements_trans (hforth : TransitiveAt T fuel fuel')
    (ha : Proper (.array a)) (hb : Proper (.array b)) (hc : Proper (.array c))
    (hbelow : BuriesNothingBelow T (.array a, .array b))
    (hclear : BuriesNothing T (.array b, .array c))
    (hab : (elementRule a b).eval T (asking T fuel) = some (some true))
    (hbc : (elementRule b c).eval T (asking T fuel') = some (some true)) :
    (elementRule a c).eval T (asking T fuel'') ≠ some (some false) := by
  intro hac
  cases hb with
  | primitives q =>
    have hprimitive : forall p, elementRule (.primitive p) (.primitive q) =
        .decided (some (p == q)) := fun _ => rfl
    cases ha with
    | array ha =>
      rw [elementRule_primitive_right q ha] at hab
      cases hab
    | primitives p =>
      have hpq : p = q := by
        simpa [elementRule, StepRule.eval] using hab
      rw [hpq] at hac
      cases hc with
      | array hc =>
        rw [elementRule_primitive_left q hc] at hbc
        cases hbc
      | primitives r =>
        simp only [elementRule, StepRule.eval] at hbc hac
        rw [hbc] at hac
        cases hac
  | array hb =>
    cases ha with
    | primitives p =>
      rw [elementRule_primitive_left p hb] at hab
      cases hab
    | array ha =>
      cases hc with
      | primitives r =>
        rw [elementRule_primitive_right r hb] at hbc
        cases hbc
      | array hc =>
        have hfirst : RestsOn T (.array a, .array b) (a, b) :=
          .asks (elementRule_proper ha hb)
        have hsecond : RestsOn T (.array b, .array c) (b, c) :=
          .asks (elementRule_proper hb hc)
        rw [elementRule_proper ha hb] at hab
        rw [elementRule_proper hb hc] at hbc
        rw [elementRule_proper ha hc] at hac
        exact hforth ha hb hc (hbelow _ hfirst).below
          (hclear.below _ hsecond) hab hbc fuel'' hac

theorem arraySupertype_trans (hT : T.Acyclic) {mid eid : TypeId}
    {ms es : List TypeRef} {ask : Ask}
    (hmid : mid.asNamed.any arraySupertype = true)
    (h : isSubtype T ask eid es (maxSubtypeDepth + 1) [] (.named mid ms) =
      some (some true)) : eid.asNamed.any arraySupertype = true := by
  by_cases hobject : eid = .named "java.lang.Object"
  · rw [hobject]
    decide
  · cases mid with
    | localClass document declaration => cases hmid
    | named name =>
      rcases exists_proved_view hT hobject _ _ _ _ h with
        ⟨view, _, hclimbs, _⟩
      rcases arraySupertype_of_inherits hT hmid
          (Climbs.inheritsFrom hclimbs) with ⟨name', heq, harray⟩
      cases heq
      exact harray

theorem array_trans (hT : T.Acyclic) (hforth : TransitiveAt T fuel fuel')
    {m e : TypeRef} (ha : Proper (.array a)) (hm : Proper m) (he : Proper e)
    (hbelow : BuriesNothingBelow T (.array a, m))
    (hclear : BuriesNothing T (m, e))
    (ham : (stepRule T (.array a, m)).eval T (asking T fuel) =
      some (some true))
    (hme : (stepRule T (m, e)).eval T (asking T fuel') = some (some true)) :
    (stepRule T (.array a, e)).eval T (asking T fuel'') ≠
      some (some false) := by
  intro hae
  cases m with
  | array b =>
    cases e with
    | array c =>
      exact elements_trans hforth ha hm he hbelow hclear ham hme hae
    | named eid es =>
      rw [stepRule_array_named] at hme hae
      cases hme.symm.trans hae
    | primitive _ => cases he
    | void => cases he
    | null => cases he
    | _ => cases hme
  | named mid ms =>
    rw [stepRule_array_named] at ham
    have hmid : mid.asNamed.any arraySupertype = true :=
      Option.some.inj (Option.some.inj ham)
    cases e with
    | named eid es =>
      rw [stepRule_named] at hme
      rw [stepRule_array_named, arraySupertype_trans hT hmid hme] at hae
      cases hae
    | primitive _ => cases he
    | void => cases he
    | null => cases he
    | _ => cases mid <;> cases hme
  | primitive _ => cases hm
  | void => cases hm
  | null => cases hm
  | _ => cases ham

end ArraysInARow

/-!
# Transitivity

The induction is on the fuel of the two proofs together: a lower bound swaps
their roles.
-/

variable {fuel fuel' fuel'' : Nat} {m e : TypeRef}

theorem bound_trans {x t : TypeRef} (hforth : TransitiveAt T fuel fuel') (ht : Proper t)
    (hm : Proper m) (he : Proper e) (hbelow : BuriesNothingBelow T (x, m))
    (hclear : BuriesNothing T (m, e)) (hfollow : RestsOn T (x, m) (t, m))
    (htm : asking T fuel (t, m) = some (some true))
    (hme : asking T fuel' (m, e) = some (some true)) :
    asking T fuel'' (t, e) ≠ some (some false) :=
  hforth ht hm he (hbelow _ hfollow).below hclear htm hme fuel''

theorem wildcard_trans {upper lower : Option TypeRef} (hforth : TransitiveAt T fuel fuel')
    (hx : Proper (.wildcard upper lower)) (hm : Proper m) (he : Proper e)
    (hbelow : BuriesNothingBelow T (.wildcard upper lower, m)) (hclear : BuriesNothing T (m, e))
    (hxm : (stepRule T (.wildcard upper lower, m)).eval T (asking T fuel) = some (some true))
    (hme : asking T fuel' (m, e) = some (some true)) :
    (stepRule T (.wildcard upper lower, e)).eval T (asking T fuel'') ≠
      some (some false) := by
  intro hxe
  rcases stepRule_wildcard T upper lower he with hrule | hrule
  · rw [hrule] at hxe
    cases hxe
  · rw [hrule] at hxe
    rcases stepRule_wildcard T upper lower hm with hrule' | hrule'
    · rw [hrule'] at hxm
      cases hxm
    · have hfollow : RestsOn T (.wildcard upper lower, m)
          (upper.getD TypeRef.objectRef, m) := .asks hrule'
      rw [hrule'] at hxm
      exact bound_trans hforth (proper_upperBound hx) hm he hbelow hclear
        hfollow hxm hme hxe

theorem typeVariable_trans (hT : T.Acyclic) {v : TypeVariableId}
    (hforth : TransitiveAt T fuel fuel') (hm : Proper m) (he : Proper e)
    (hbelow : BuriesNothingBelow T (.typeVariable v, m)) (hclear : BuriesNothing T (m, e))
    (hxm : (stepRule T (.typeVariable v, m)).eval T (asking T fuel) = some (some true))
    (hme : asking T fuel' (m, e) = some (some true)) :
    (stepRule T (.typeVariable v, e)).eval T (asking T fuel'') ≠
      some (some false) := by
  intro hxe
  rcases stepRule_typeVariable T v he with hrule | ⟨bounds, hbounds, hrule⟩
  · rw [hrule] at hxe
    cases hxe
  · rw [hrule] at hxe
    rcases stepRule_typeVariable T v hm with
      hrule' | ⟨bounds', hbounds', hrule'⟩
    · rw [hrule'] at hxm
      cases hxm
    · rw [hbounds] at hbounds'
      cases hbounds'
      rw [hrule'] at hxm
      rcases anyProved_true hxm with ⟨t, ht, htm⟩
      have hfollow : RestsOn T (.typeVariable v, m) (t, m) :=
        .tries hrule' ht ⟨fuel, htm⟩
      exact bound_trans hforth
        (proper_variableBounds hT hbounds t ht) hm he hbelow hclear
        hfollow htm hme ((anyProved_false hxe).right t ht)

theorem transitiveAt (hT : T.Acyclic) (total : Nat) (htotal : fuel + fuel' = total) :
    TransitiveAt T fuel fuel' := by
  induction total using Nat.strong_induction_on generalizing fuel fuel' with
  | _ total ih =>
    intro x m e hx hm he hbelow hclear hxm hme fuel'' hxe
    rcases asking_eq_eval hxm with ⟨left, hleft, hxm'⟩
    rcases asking_eq_eval hme with ⟨right, hright, hme'⟩
    rcases asking_eq_eval hxe with ⟨other, hother, hxe'⟩
    have hbound : TransitiveAt T left fuel' :=
      ih (left + fuel') (by omega) rfl
    have hforth : TransitiveAt T left right :=
      ih (left + right) (by omega) rfl
    have hback : TransitiveAt T right left :=
      ih (right + left) (by omega) rfl
    cases x with
    | typeVariable v =>
      exact typeVariable_trans hT hbound hm he hbelow hclear hxm' hme hxe'
    | wildcard upper lower =>
      exact wildcard_trans hbound hx hm he hbelow hclear hxm' hme hxe'
    | array a =>
      exact array_trans hT hforth hx hm he hbelow hclear hxm' hme' hxe'
    | named id xs =>
      cases m with
      | named mid ms =>
        cases e with
        | named eid es =>
          rw [stepRule_named] at hxm' hme' hxe'
          exact named_trans hT hforth hback (Proper.args hx)
            (Proper.args hm) (Proper.args he) hbelow hclear hxm' hme'
            other hxe'
        | primitive _ => cases he
        | void => cases he
        | null => cases he
        | _ => cases mid <;> cases hme'
      | primitive _ => cases hm
      | void => cases hm
      | null => cases hm
      | _ => cases id <;> cases hxm'
    | unknown => cases hxm'
    | primitive _ => cases hx
    | void => cases hx
    | null => cases hx

end JavaVsixLite
