import JavaVsixLite.Subtyping.Origins

/-!
# Walks along an acyclic hierarchy

A proof by the subtype walk is a climb from one instance of a class to an
instance of the expected class; a refutation covers every climb.  In an acyclic
hierarchy a refutation therefore follows a proof along its climb.
-/

namespace JavaVsixLite

open Foundation
open Foundation.Verdict

/-!
# Types a Java program writes
-/

/--
Reference types and type arguments: primitives occur as array elements only, and
a wildcard has at most one bound.
-/
inductive TypeRef.Proper : TypeRef -> Prop where
  | named (id : TypeId) {args : List TypeRef} :
      (forall t, t ∈ args -> Proper t) -> Proper (.named id args)
  | primitives (p : PrimitiveType) : Proper (.array (.primitive p))
  | array {element : TypeRef} : Proper element -> Proper (.array element)
  | typeVariable (v : TypeVariableId) : Proper (.typeVariable v)
  | unbounded : Proper (.wildcard none none)
  | upper {bound : TypeRef} : Proper bound ->
      Proper (.wildcard (some bound) none)
  | lower {bound : TypeRef} : Proper bound ->
      Proper (.wildcard none (some bound))
  | unknown : Proper .unknown

open TypeRef (Proper)

theorem proper_ofName (fqn : String) : Proper (TypeRef.ofName fqn) := by
  apply Proper.named
  intro t ht
  cases ht

theorem Proper.args {id : TypeId} {args : List TypeRef}
    (h : Proper (.named id args)) : forall t, t ∈ args -> Proper t := by
  cases h with
  | named _ hargs => exact hargs

theorem proper_substitute {env : TypeEnv}
    (henv : forall v t, boundTo env v = some t -> Proper t) {t : TypeRef}
    (h : Proper t) : Proper (t.substitute env) := by
  induction h with
  | named id _ ih =>
    rw [TypeRef.substitute, TypeRef.substituteArgs_eq]
    apply Proper.named
    intro t ht
    rcases List.mem_map.mp ht with ⟨s, hs, heq⟩
    rw [← heq]
    exact ih s hs
  | primitives p => exact .primitives p
  | array _ ih => exact .array ih
  | typeVariable v =>
    rw [TypeRef.substitute_variable]
    cases hbinding : boundTo env v with
    | none => exact .typeVariable v
    | some t => exact henv v t hbinding
  | unbounded => exact .unbounded
  | upper _ ih => exact .upper ih
  | lower _ ih => exact .lower ih
  | unknown => exact .unknown

/-!
# Acyclic class tables
-/

def InheritsFrom (T : ClassTable) (id id' : TypeId) : Prop :=
  exists facts args, T.classFacts id = some facts ∧
    .named id' args ∈ facts.supertypes

/--
The table of a Java program.  Supertypes that were understood are class types,
no class inherits from itself, and the supertypes of arrays are declared as the
language has them.
-/
structure ClassTable.Acyclic (T : ClassTable) : Prop where
  supertypes : forall {id facts sup}, T.classFacts id = some facts ->
    sup ∈ facts.supertypes ->
      sup = .unknown ∨ exists id' args, sup = .named id' args ∧
        forall t, t ∈ args -> Proper t
  bounds : forall {id facts p}, T.classFacts id = some facts ->
    p ∈ facts.typeParameters -> forall t, t ∈ p.bounds -> Proper t
  acyclic : forall id, ¬ Relation.TransGen (InheritsFrom T) id id
  arrays : forall {b id'}, arraySupertype b = true ->
    InheritsFrom T (.named b) id' -> id' = .named "java.lang.Object"

variable {T : ClassTable}

theorem proper_variableBounds (hT : T.Acyclic) {v : TypeVariableId} {bounds : List TypeRef}
    (h : T.variableBounds v = some bounds) :
    forall t, t ∈ effectiveBounds bounds -> Proper t := by
  intro t ht
  unfold effectiveBounds at ht
  split at ht
  · rw [List.mem_singleton.mp ht]
    exact proper_ofName _
  · unfold ClassTable.variableBounds at h
    cases hfacts : T.classFacts (.named v.owner) with
    | none =>
      rw [hfacts] at h
      cases h
    | some facts =>
      rw [hfacts] at h
      rcases Option.map_eq_some_iff.mp h with ⟨p, hp, heq⟩
      rw [← heq] at ht
      exact hT.bounds hfacts (List.mem_of_getElem? hp) t ht

theorem mem_entries_of_classFacts {id : TypeId} {facts : ClassMetadata}
    (h : T.classFacts id = some facts) :
    exists e, (id, e) ∈ T.entries ∧ e.metadata = facts := by
  rcases Option.map_eq_some_iff.mp h with ⟨e, hentry, hfacts⟩
  rcases Option.map_eq_some_iff.mp hentry with ⟨row, hrow, he⟩
  have hkey : row.1 = id := by
    simpa using List.find?_some hrow
  exists e
  constructor
  · rw [← hkey, ← he]
    exact List.mem_of_find?_eq_some hrow
  · exact hfacts

theorem acyclic_of_rank (rank : TypeId -> Nat)
    (hsupertypes : forall row, row ∈ T.entries -> forall sup, sup ∈ row.2.metadata.supertypes ->
      sup = .unknown ∨ exists id' args, sup = .named id' args ∧ rank id' < rank row.1 ∧
      (forall t, t ∈ args -> Proper t) ∧
      (row.1.asNamed.any arraySupertype = true -> id' = .named "java.lang.Object"))
    (hbounds : forall row, row ∈ T.entries -> forall p, p ∈ row.2.metadata.typeParameters ->
      forall t, t ∈ p.bounds -> Proper t) :
    T.Acyclic := by
  have hrow : forall {id id' : TypeId}, InheritsFrom T id id' ->
      rank id' < rank id ∧ (id.asNamed.any arraySupertype = true ->
        id' = .named "java.lang.Object") := by
    rintro id id' ⟨facts, args, hfacts, hsup⟩
    rcases mem_entries_of_classFacts hfacts with ⟨e, he, hmetadata⟩
    rw [← hmetadata] at hsup
    rcases hsupertypes _ he _ hsup with
      hunknown | ⟨id₁, args₁, heq, hrank, _, harray⟩
    · cases hunknown
    · cases heq
      exact ⟨hrank, harray⟩
  constructor
  · intro id facts sup hfacts hsup
    rcases mem_entries_of_classFacts hfacts with ⟨e, he, hmetadata⟩
    rw [← hmetadata] at hsup
    rcases hsupertypes _ he _ hsup with
      hunknown | ⟨id', args, heq, _, hargs, _⟩
    · exact Or.inl hunknown
    · exact Or.inr ⟨id', args, heq, hargs⟩
  · intro id facts p hfacts hp
    rcases mem_entries_of_classFacts hfacts with ⟨e, he, hmetadata⟩
    rw [← hmetadata] at hp
    exact hbounds _ he p hp
  · intro id hcycle
    have hlower : forall id', Relation.TransGen (InheritsFrom T) id id' ->
        rank id' < rank id := by
      intro id' hpath
      induction hpath with
      | single hstep => exact (hrow hstep).left
      | tail _ hstep ih => exact Nat.lt_trans (hrow hstep).left ih
    exact Nat.lt_irrefl _ (hlower id hcycle)
  · intro b id' hb hinherits
    exact (hrow hinherits).right hb

abbrev ClassInstance := TypeId × List TypeRef

def ClimbsTo (T : ClassTable) (c c' : ClassInstance) : Prop :=
  exists facts supArgs, T.classFacts c.1 = some facts ∧
    .named c'.1 supArgs ∈ facts.supertypes ∧
    c'.2 = facts.instanceArgs c.2 supArgs

abbrev Climbs (T : ClassTable) : ClassInstance -> ClassInstance -> Prop :=
  Relation.ReflTransGen (ClimbsTo T)

theorem ClimbsTo.inheritsFrom {c c' : ClassInstance} (h : ClimbsTo T c c') :
    InheritsFrom T c.1 c'.1 := by
  rcases h with ⟨facts, supArgs, hfacts, hsup, _hargs⟩
  exact ⟨facts, supArgs, hfacts, hsup⟩

theorem Climbs.inheritsFrom {T : ClassTable} {c c' : ClassInstance}
    (h : Climbs T c c') :
    Relation.ReflTransGen (InheritsFrom T) c.1 c'.1 :=
  h.lift Prod.fst (fun _ _ hstep => hstep.inheritsFrom)

section WalksOfAcyclicTables

variable {T : ClassTable}

theorem object_inherits_nothing (hT : T.Acyclic) (id : TypeId) :
    ¬ InheritsFrom T (.named "java.lang.Object") id := by
  intro h
  have hid : id = .named "java.lang.Object" := hT.arrays rfl h
  rw [hid] at h
  exact hT.acyclic _ (.single h)

variable {args : List TypeRef} {id : TypeId} {facts : ClassMetadata}

theorem climbs_from_object (hT : T.Acyclic) {c : ClassInstance}
    (h : Climbs T (.named "java.lang.Object", args) c) :
    c.1 = .named "java.lang.Object" := by
  rcases h.cases_head with heq | ⟨next, hstep, _⟩
  · rw [← heq]
  · exact absurd hstep.inheritsFrom (object_inherits_nothing hT _)

theorem arraySupertype_of_inherits (hT : T.Acyclic) {b : String} (hb : arraySupertype b = true)
    (h : Relation.ReflTransGen (InheritsFrom T) (.named b) id) :
    exists b', id = .named b' ∧ arraySupertype b' = true := by
  induction h with
  | refl => exact ⟨b, rfl, hb⟩
  | tail _ hstep ih =>
    rcases ih with ⟨b', hb', harray⟩
    rw [hb'] at hstep
    exact ⟨_, hT.arrays harray hstep, rfl⟩

theorem proper_environment (facts : ClassMetadata) (hargs : forall t, t ∈ args -> Proper t)
    (v : TypeVariableId) (t : TypeRef) (h : boundTo (facts.environment args) v = some t) :
    Proper t :=
  hargs t (List.of_mem_zip (mem_of_boundTo h)).right

theorem proper_supArgs (hT : T.Acyclic) {supId : TypeId} {supArgs : List TypeRef}
    (hfacts : T.classFacts id = some facts) (hsup : .named supId supArgs ∈ facts.supertypes) :
    forall s, s ∈ supArgs -> Proper s := by
  rcases hT.supertypes hfacts hsup with hunknown | ⟨id', args', heq, hall⟩
  · cases hunknown
  · cases heq
    exact hall

theorem proper_instanceArgs (hT : T.Acyclic) {supId : TypeId} {supArgs : List TypeRef}
    (hfacts : T.classFacts id = some facts) (hsup : .named supId supArgs ∈ facts.supertypes)
    (hargs : forall t, t ∈ args -> Proper t) :
    forall t, t ∈ facts.instanceArgs args supArgs -> Proper t := by
  intro t ht
  unfold ClassMetadata.instanceArgs at ht
  split at ht
  · cases ht
  · rcases List.mem_map.mp ht with ⟨s, hs, heq⟩
    rw [← heq]
    exact proper_substitute (proper_environment facts hargs)
      (proper_supArgs hT hfacts hsup s hs)

theorem Climbs.proper (hT : T.Acyclic) {c c' : ClassInstance}
    (h : Climbs T c c') (hargs : forall t, t ∈ c.2 -> Proper t) :
    forall t, t ∈ c'.2 -> Proper t := by
  induction h with
  | refl => exact hargs
  | tail _ hstep ih =>
    rcases hstep with ⟨facts, supArgs, hfacts, hsup, heq⟩
    rw [heq]
    exact proper_instanceArgs hT hfacts hsup ih

theorem superInstance_cases (hT : T.Acyclic) {sup : TypeRef} (hfacts : T.classFacts id = some facts)
    (hsup : sup ∈ facts.superInstances args) :
    sup = .unknown ∨ exists supId supArgs,
      .named supId supArgs ∈ facts.supertypes ∧
        sup = .named supId (facts.instanceArgs args supArgs) := by
  rcases List.mem_map.mp hsup with ⟨declared, hdeclared, heq⟩
  rcases hT.supertypes hfacts hdeclared with
    hunknown | ⟨supId, supArgs, hnamed, _⟩
  · left
    rw [← heq, hunknown]
    exact superInstance_unknown facts args
  · right
    rw [hnamed] at hdeclared heq
    rw [ClassMetadata.superInstance_named] at heq
    exact ⟨supId, supArgs, hdeclared, heq.symm⟩

/-!
# Proofs
-/

theorem walkRule_meets {target : TypeId} {budget : Nat} {seen : List TypeRef} {view : List TypeRef}
    (h : walkRule T target budget seen (.named id args) = .meets view) :
    id = target ∧ view = args := by
  simp only [walkRule] at h
  repeat' split at h
  all_goals cases h
  exact ⟨by assumption, rfl⟩

variable {ask ask' : Ask} {target : TypeId} {targetArgs : List TypeRef}

theorem exists_proved_super (hT : T.Acyclic) {id : TypeId}
    {facts : ClassMetadata} {args : List TypeRef} {budget : Nat}
    {seen : List TypeRef} {unknown : Bool}
    (hfacts : T.classFacts id = some facts)
    (h : anyProved (isSubtype T ask target targetArgs budget seen) unknown
      (facts.superInstances args) = some (some true)) :
    exists supId supArgs, .named supId supArgs ∈ facts.supertypes ∧
      isSubtype T ask target targetArgs budget seen
        (.named supId (facts.instanceArgs args supArgs)) =
        some (some true) := by
  rcases anyProved_true h with ⟨sup, hsup, hproved⟩
  rcases superInstance_cases hT hfacts hsup with
    hunknown | ⟨supId, supArgs, hdeclared, hnamed⟩
  · rw [hunknown, isSubtype_unknown] at hproved
    cases hproved
  · rw [hnamed] at hproved
    exact ⟨supId, supArgs, hdeclared, hproved⟩

theorem exists_proved_view (hT : T.Acyclic)
    (hobject : target ≠ .named "java.lang.Object")
    (budget : Nat) (seen : List TypeRef) (id : TypeId) (args : List TypeRef)
    (h : isSubtype T ask target targetArgs budget seen (.named id args) =
      some (some true)) :
    exists view, view ∈ views T target budget seen (.named id args) ∧
      Climbs T (id, args) (target, view) ∧
      typeArgsContain ask view targetArgs = some (some true) := by
  induction budget generalizing seen id args with
  | zero => cases h
  | succ budget ih =>
    rw [isSubtype_succ] at h
    rw [views_succ]
    cases hrule : walkRule T target budget seen (.named id args) with
    | stops v =>
      rw [hrule] at h
      rcases walkRule_stops hrule with hnone | ⟨_, htarget, _⟩
      · rw [hnone] at h
        cases h
      · exact absurd htarget hobject
    | meets view =>
      rw [hrule] at h
      rcases walkRule_meets hrule with ⟨hid, hview⟩
      subst hid
      subst hview
      exact ⟨view, List.mem_singleton_self view, .refl, h⟩
    | climbs facts args' =>
      rw [hrule] at h
      rcases walkRule_climbs hrule with ⟨id', heq, hfacts, _, _, _⟩
      cases heq
      rcases exists_proved_super hT hfacts h with
        ⟨supId, supArgs, hdeclared, hproved⟩
      rcases ih _ _ _ hproved with ⟨view, hview, hclimbs, hcontained⟩
      exists view
      constructor
      · have hsup := ClassMetadata.superInstance_mem hdeclared args
        exact List.mem_flatMap.mpr ⟨_, hsup, hview⟩
      · constructor
        · exact hclimbs.head ⟨facts, supArgs, hfacts, hdeclared, rfl⟩
        · exact hcontained

/-!
# Refutations
-/

/-- Some walk refutes that the type is an instance of the expected class. -/
def RefutedBy (T : ClassTable) (ask : Ask) (target : TypeId)
    (targetArgs : List TypeRef) (t : TypeRef) : Prop :=
  exists budget seen,
    isSubtype T ask target targetArgs budget seen t = some (some false)

/-- A refutation at the expected class is by its arguments, else by climbing. -/
theorem RefutedBy.cases {id : TypeId} {args : List TypeRef}
    (h : RefutedBy T ask target targetArgs (.named id args)) :
    id = target ∧ typeArgsContain ask args targetArgs = some (some false) ∨
      id ≠ target ∧ target ≠ .named "java.lang.Object" ∧
        exists facts, T.classFacts id = some facts ∧
          forall sup, sup ∈ facts.superInstances args ->
            RefutedBy T ask target targetArgs sup := by
  rcases h with ⟨budget, seen, h⟩
  cases budget with
  | zero => cases h
  | succ budget =>
    rw [isSubtype_succ] at h
    cases hrule : walkRule T target budget seen (.named id args) with
    | stops v =>
      rw [hrule] at h
      rcases walkRule_stops hrule with hnone | ⟨htrue, _, _⟩
      · rw [hnone] at h
        cases h
      · rw [htrue] at h
        cases h
    | meets view =>
      rw [hrule] at h
      rcases walkRule_meets hrule with ⟨hid, hview⟩
      rw [hview] at h
      exact Or.inl ⟨hid, h⟩
    | climbs facts args' =>
      rw [hrule] at h
      rcases walkRule_climbs hrule with ⟨id', heq, hfacts, hid, hobject, _⟩
      cases heq
      refine Or.inr ⟨hid, hobject, facts, hfacts, ?_⟩
      intro sup hsup
      exact ⟨budget, _, (anyProved_false h).right sup hsup⟩

theorem RefutedBy.step (c c' : ClassInstance) (hstep : ClimbsTo T c c')
    (hne : c.1 ≠ target)
    (h : RefutedBy T ask target targetArgs (.named c.1 c.2)) :
    RefutedBy T ask target targetArgs (.named c'.1 c'.2) := by
  rcases h.cases with ⟨hid, _⟩ | ⟨_, _, facts, hfacts, hall⟩
  · exact absurd hid hne
  · rcases hstep with ⟨facts', supArgs, hfacts', hsup, hargs⟩
    rw [hfacts] at hfacts'
    cases hfacts'
    rw [hargs]
    exact hall _ (ClassMetadata.superInstance_mem hsup c.2)

theorem RefutedBy.climbs {c c' : ClassInstance} (hclimbs : Climbs T c c')
    (hbelow : ¬ Relation.TransGen (InheritsFrom T) target c'.1)
    (h : RefutedBy T ask target targetArgs (.named c.1 c.2)) :
    RefutedBy T ask target targetArgs (.named c'.1 c'.2) := by
  induction hclimbs using Relation.ReflTransGen.head_induction_on with
  | refl => exact h
  | head hstep hrest ih =>
    apply ih
    apply h.step _ _ hstep
    intro hid
    apply hbelow
    rw [← hid]
    exact .head' hstep.inheritsFrom (Climbs.inheritsFrom hrest)

/-!
# Two uses compared

The proof for one use and the refutation of another one that follows it meet the
expected class in two views, of which the second still follows the first.
-/

theorem mem_views_of_traced {view : List Traced} (budget : Nat)
    (seen : List TypeRef) (id : TypeId) (args : List Traced)
    (h : view ∈ tracedViews T target budget seen id args) :
    view.map Prod.snd ∈
      views T target budget seen (.named id (args.map Prod.snd)) := by
  induction budget generalizing seen id args with
  | zero => cases h
  | succ budget ih =>
    rw [tracedViews_succ] at h
    rw [views_succ]
    cases hrule : walkRule T target budget seen
        (.named id (args.map Prod.snd)) with
    | stops v =>
      rw [hrule] at h
      cases h
    | meets view' =>
      rw [hrule] at h
      rw [List.mem_singleton.mp h, (walkRule_meets hrule).right]
      exact List.mem_singleton_self _
    | climbs facts args' =>
      rw [hrule] at h
      rcases walkRule_climbs hrule with ⟨id', heq, _, _, _, _⟩
      cases heq
      rcases List.mem_flatMap.mp h with ⟨sup, hsup, hview⟩
      split at hview
      · rename_i supId supArgs
        apply List.mem_flatMap.mpr
        refine ⟨_, ClassMetadata.superInstance_mem hsup _, ?_⟩
        rw [← ClassMetadata.tracedArgs_map_snd]
        exact ih _ _ _ hview
      · cases hview

variable {R : TypeRef -> TypeRef -> Prop}

theorem exists_following_views (hT : T.Acyclic) (budget : Nat)
    (seen : List TypeRef) (id : TypeId) (args : List Traced) (args' : List TypeRef)
    (hproved : isSubtype T ask target targetArgs budget seen
      (.named id (args.map Prod.snd)) = some (some true))
    (hrefuted : RefutedBy T ask' target targetArgs (.named id args'))
    (hfollows : FollowsArgs R args args') :
    exists view view', view ∈ tracedViews T target budget seen id args ∧
      FollowsArgs R view view' ∧
      typeArgsContain ask (view.map Prod.snd) targetArgs = some (some true) ∧
      typeArgsContain ask' view' targetArgs = some (some false) := by
  induction budget generalizing seen id args args' with
  | zero => cases hproved
  | succ budget ih =>
    rw [isSubtype_succ] at hproved
    rw [tracedViews_succ]
    cases hrule : walkRule T target budget seen
        (.named id (args.map Prod.snd)) with
    | stops v =>
      rw [hrule] at hproved
      rcases walkRule_stops hrule with hnone | ⟨_, htarget, hne⟩
      · rw [hnone] at hproved
        cases hproved
      · rcases hrefuted.cases with ⟨hid, _⟩ | ⟨_, hobject, _⟩
        · rw [hid] at hne
          exact absurd rfl (hne _)
        · exact absurd htarget hobject
    | meets view =>
      rw [hrule] at hproved
      rcases walkRule_meets hrule with ⟨hid, hview⟩
      rw [hview] at hproved
      rcases hrefuted.cases with ⟨_, hcontained⟩ | ⟨hne, _⟩
      · exact ⟨args, args', List.mem_singleton_self args, hfollows,
          hproved, hcontained⟩
      · exact absurd hid hne
    | climbs facts args₀ =>
      rw [hrule] at hproved
      rcases walkRule_climbs hrule with ⟨id', heq, hfacts, hne, _, _⟩
      cases heq
      rcases exists_proved_super hT hfacts hproved with
        ⟨supId, supArgs, hdeclared, hsupProved⟩
      rw [← ClassMetadata.tracedArgs_map_snd] at hsupProved
      have hsupRefuted : RefutedBy T ask' target targetArgs
          (.named supId (facts.instanceArgs args' supArgs)) :=
        RefutedBy.step (id, args')
          (supId, facts.instanceArgs args' supArgs)
          ⟨facts, supArgs, hfacts, hdeclared, rfl⟩ hne hrefuted
      rcases ih _ _ _ _ hsupProved hsupRefuted
          (followsArgs_climb hfollows facts supArgs) with
        ⟨view, view', hview, hrest⟩
      exists view, view'
      constructor
      · exact List.mem_flatMap.mpr ⟨_, hdeclared, hview⟩
      · exact hrest

end WalksOfAcyclicTables

end JavaVsixLite
