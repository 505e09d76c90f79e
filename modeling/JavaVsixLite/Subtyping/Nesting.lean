import JavaVsixLite.Subtyping.Transitivity

/-!
# Supertypes that nest a parameter

A class that mentions its parameters only as arguments of their own buries no
wildcard.  One that nests a parameter inside a larger argument of its supertype
has instances whose proofs do not chain.
-/

namespace JavaVsixLite

open Foundation
open Foundation.Verdict
open TypeRef (Proper)

variable {T : ClassTable}

/-!
# Tables that bury nothing

Where no class nests a parameter inside an argument of a supertype, a use-site
wildcard stays an argument of its own on every climb.
-/

/-- An argument of a supertype is a variable, or mentions no own parameter. -/
def ClassTable.Flat (T : ClassTable) : Prop :=
  forall id facts supId supArgs, T.classFacts id = some facts ->
    .named supId supArgs ∈ facts.supertypes -> forall s, s ∈ supArgs ->
      (exists v, s = .typeVariable v) ∨
        forall v, v ∈ s.mentioned ->
          v ∉ facts.typeParameters.map (fun p => p.id)

theorem variableOrigin_unburied {params : List TypeVariableId}
    {args : List Traced} (hargs : forall arg, arg ∈ args -> arg.1 ≠ .buried)
    (v : TypeVariableId) : variableOrigin (params.zip args) v ≠ .buried := by
  unfold variableOrigin
  cases hbound : boundTo (params.zip args) v with
  | none =>
    intro h
    cases h
  | some arg => exact hargs arg (List.of_mem_zip (mem_of_boundTo hbound)).right

theorem variableOrigin_foreign {params : List TypeVariableId}
    {v : TypeVariableId} (hv : v ∉ params) (args : List Traced) :
    variableOrigin (params.zip args) v = .fixed := by
  unfold variableOrigin
  cases hbound : boundTo (params.zip args) v with
  | none => rfl
  | some arg =>
    exact absurd (List.of_mem_zip (mem_of_boundTo hbound)).left hv

theorem tracedArgs_unburied (hflat : T.Flat) {id supId : TypeId}
    {facts : ClassMetadata} {supArgs : List TypeRef} {args : List Traced}
    (hfacts : T.classFacts id = some facts)
    (hsup : .named supId supArgs ∈ facts.supertypes)
    (hargs : forall arg, arg ∈ args -> arg.1 ≠ .buried) :
    forall arg, arg ∈ facts.tracedArgs args supArgs -> arg.1 ≠ .buried := by
  intro arg harg
  unfold ClassMetadata.tracedArgs at harg
  split at harg
  · cases harg
  · rcases List.mem_map.mp harg with ⟨s, hs, heq⟩
    rw [← heq]
    unfold argumentOrigin
    split
    · exact variableOrigin_unburied hargs _
    · rename_i hne
      rcases hflat id facts supId supArgs hfacts hsup s hs with
        ⟨v, hv⟩ | hforeign
      · exact absurd hv (hne v)
      · rw [if_pos]
        · intro h
          cases h
        · apply List.all_eq_true.mpr
          intro v hv
          rw [variableOrigin_foreign (hforeign v hv)]
          rfl

theorem tracedViews_unburied (hflat : T.Flat) {target : TypeId} (budget : Nat)
    (seen : List TypeRef) (id : TypeId) (args : List Traced)
    (hargs : forall arg, arg ∈ args -> arg.1 ≠ .buried)
    {view : List Traced} (hview : view ∈ tracedViews T target budget seen id args) :
    forall arg, arg ∈ view -> arg.1 ≠ .buried := by
  induction budget generalizing seen id args with
  | zero => cases hview
  | succ budget ih =>
    rw [tracedViews_succ] at hview
    cases hrule : walkRule T target budget seen
        (.named id (args.map Prod.snd)) with
    | stops v =>
      rw [hrule] at hview
      cases hview
    | meets view' =>
      rw [hrule] at hview
      rw [List.mem_singleton.mp hview]
      exact hargs
    | climbs facts args' =>
      rw [hrule] at hview
      rcases walkRule_climbs hrule with ⟨id', heq, hfacts, _, _, _⟩
      cases heq
      rcases List.mem_flatMap.mp hview with ⟨sup, hsup, hsupView⟩
      split at hsupView
      · exact ih _ _ _ (tracedArgs_unburied hflat hfacts hsup hargs)
          hsupView
      · cases hsupView

theorem buriesNothing_of_flat (hflat : T.Flat) (q : Question) :
    BuriesNothing T q := by
  intro q' _
  have hargs : forall args : List TypeRef,
      forall arg, arg ∈ traced args -> arg.1 ≠ .buried := by
    intro args arg harg
    rcases List.mem_map.mp harg with ⟨t, _, heq⟩
    rw [← heq]
    cases t <;> simp [useSiteOrigin]
  rcases q' with ⟨a, e⟩
  intro hburied
  unfold ComparesBuried at hburied
  split at hburied
  · rcases hburied with ⟨view, hview, _, hmeets⟩
    rcases List.any_eq_true.mp hmeets with ⟨pair, hpair, hmet⟩
    have horigin : pair.1.1 = .buried := by
      simp only [Bool.and_eq_true, beq_iff_eq] at hmet
      exact hmet.left
    exact tracedViews_unburied hflat _ _ _ _ (hargs _) hview _
      (List.of_mem_zip hpair).left horigin
  · exact hburied

/-!
# Where the defect shows

A class that nests one of its parameters inside an argument of its supertype
always has instances that break transitivity: its use with `?` throughout is
mistaken for an instance of the supertype with `?` nested in the argument.
-/

namespace TypeRef

theorem binding_eq_of_substitute_eq {env env' : TypeEnv} {t : TypeRef}
    (h : t.substitute env = t.substitute env') {v : TypeVariableId}
    (hv : v ∈ t.mentioned) :
    (boundTo env v).getD (.typeVariable v) =
      (boundTo env' v).getD (.typeVariable v) := by
  induction t using induct with
  | typeVariable w =>
    rw [List.mem_singleton.mp hv]
    rw [substitute_variable, substitute_variable] at h
    exact h
  | named id args ih =>
    simp only [mentioned, mentionedArgs_eq, List.mem_flatMap] at hv
    simp only [substitute, substituteArgs_eq, named.injEq, true_and] at h
    rcases hv with ⟨t, ht, hmentioned⟩
    exact ih t ht (List.map_inj_left.mp h t ht) hmentioned
  | array element ih =>
    simp only [substitute, array.injEq] at h
    exact ih h hv
  | wildcard upper lower ihu ihl =>
    simp only [substitute, substituteBound_eq, wildcard.injEq] at h
    simp only [mentioned, List.mem_append] at hv
    rcases hv with hupper | hlower
    · cases upper with
      | none => cases hupper
      | some u => exact ihu u rfl (Option.some.inj h.left) hupper
    · cases lower with
      | none => cases hlower
      | some l => exact ihl l rfl (Option.some.inj h.right) hlower
  | _ => cases hv

end TypeRef

/-- A class table that knows `java.lang.Object` to have no supertypes. -/
def KnowsObject (T : ClassTable) : Prop :=
  exists root, T.classFacts (.named "java.lang.Object") = some root ∧
    root.supertypes = [] ∧ root.hierarchyComplete = true

/-- The class has one supertype besides `java.lang.Object`. -/
structure OneSupertype (T : ClassTable) (id : TypeId) (facts : ClassMetadata)
    (supId : TypeId) (supArgs : List TypeRef) : Prop where
  known : T.classFacts id = some facts
  complete : facts.hierarchyComplete = true
  supertype : .named supId supArgs ∈ facts.supertypes
  others : forall sup, sup ∈ facts.supertypes ->
    sup = .named supId supArgs ∨ sup = TypeRef.objectRef ∧ KnowsObject T
  target : T.classFacts supId ≠ none
  notObject : supId ≠ .named "java.lang.Object"

/-- That supertype nests the parameter inside the argument. -/
structure NestsParameter (T : ClassTable) (id : TypeId) (facts : ClassMetadata)
    (supId : TypeId) (supArgs : List TypeRef) (nested : TypeRef)
    (v : TypeVariableId) : Prop extends OneSupertype T id facts supId supArgs where
  parameter : v ∈ facts.typeParameters.map (fun p => p.id)
  argument : nested ∈ supArgs
  compared : (exists id' args, nested = .named id' args) ∨
    exists element, nested = .array element
  mentioned : v ∈ nested.mentioned

def uniformArgs (facts : ClassMetadata) (t : TypeRef) : List TypeRef :=
  facts.typeParameters.map (fun _ => t)

theorem boundTo_uniform {facts : ClassMetadata} {v : TypeVariableId}
    (h : v ∈ facts.typeParameters.map (fun p => p.id)) (t : TypeRef) :
    boundTo (facts.environment (uniformArgs facts t)) v = some t := by
  unfold ClassMetadata.environment uniformArgs
  generalize facts.typeParameters = params at h ⊢
  induction params with
  | nil => cases h
  | cons p rest ih =>
    rw [List.map_cons, List.map_cons, List.zip_cons_cons, boundTo_cons]
    by_cases hp : p.id = v
    · rw [if_pos hp]
    · rw [if_neg hp]
      apply ih
      rcases List.mem_cons.mp h with heq | htail
      · exact absurd heq.symm hp
      · exact htail

/-!
# Arguments that are all decided
-/

theorem typeArgsContain_map {α : Type} {ask : Ask} {xs : List α}
    {actual expected : α -> TypeRef} {decides : α -> Bool} (hne : xs ≠ [])
    (h : forall x, x ∈ xs ->
      argumentContains ask (actual x) (expected x) =
        some (some (decides x))) :
    typeArgsContain ask (xs.map actual) (xs.map expected) =
      some (some (xs.all decides)) := by
  have hempty : xs.isEmpty = false := by
    simpa using hne
  unfold typeArgsContain
  simp only [List.isEmpty_map, hempty, List.length_map, bne_self_eq_false,
    Bool.or_false, Bool.false_eq_true, if_false]
  rw [List.zip_map', allProved_map]
  exact allProved_of_decided h

section NestedParameters

variable {id supId : TypeId} {facts : ClassMetadata} {supArgs : List TypeRef}
  {nested : TypeRef} {v : TypeVariableId} {ask : Ask}

theorem isSubtype_object (hknown : KnowsObject T)
    (htarget : supId ≠ .named "java.lang.Object") {targetArgs : List TypeRef}
    {budget : Nat} (hbudget : budget ≠ maxSubtypeDepth) {seen : List TypeRef}
    (hseen : TypeRef.objectRef ∉ seen) :
    isSubtype T ask supId targetArgs (budget + 1) seen TypeRef.objectRef =
      some (some false) := by
  rcases hknown with ⟨root, hroot, hnone, hcomplete⟩
  rw [isSubtype_succ]
  simp only [TypeRef.objectRef, TypeRef.ofName] at hseen ⊢
  simp [walkRule, hseen, htarget, htarget.symm, hbudget, hroot, hnone,
    hcomplete, ClassMetadata.superInstances, anyProved]

theorem OneSupertype.inherits (h : OneSupertype T id facts supId supArgs) :
    InheritsFrom T id supId :=
  ⟨facts, supArgs, h.known, h.supertype⟩

theorem OneSupertype.ne (hT : T.Acyclic) (h : OneSupertype T id facts supId supArgs) :
    id ≠ supId := by
  intro heq
  apply hT.acyclic id
  have hinherits := h.inherits
  rw [← heq] at hinherits
  exact .single hinherits

theorem OneSupertype.ne_object (hT : T.Acyclic) (h : OneSupertype T id facts supId supArgs) :
    TypeId.named "java.lang.Object" ≠ id := by
  intro heq
  have hinherits := h.inherits
  rw [← heq] at hinherits
  exact object_inherits_nothing hT _ hinherits

theorem isRaw_uniform (facts : ClassMetadata) (t : TypeRef) :
    facts.isRaw (uniformArgs facts t) = false := by
  cases hparams : facts.typeParameters <;>
    simp [ClassMetadata.isRaw, uniformArgs, hparams]

/-- The arguments of the supertype under arguments of the class. -/
def supertypeArgs (facts : ClassMetadata) (supArgs args : List TypeRef) : List TypeRef :=
  supArgs.map (TypeRef.substitute (facts.environment args))

variable {args targetArgs : List TypeRef}

theorem supertypeInstance_mem (h : OneSupertype T id facts supId supArgs)
    (hraw : facts.isRaw args = false) :
    .named supId (supertypeArgs facts supArgs args) ∈ facts.superInstances args := by
  have hmem := ClassMetadata.superInstance_mem h.supertype args
  unfold ClassMetadata.instanceArgs at hmem
  rw [hraw] at hmem
  exact hmem

theorem superInstances_of_oneSupertype (h : OneSupertype T id facts supId supArgs)
    (hraw : facts.isRaw args = false) {sup : TypeRef} (hsup : sup ∈ facts.superInstances args) :
    sup = .named supId (supertypeArgs facts supArgs args) ∨
      sup = TypeRef.objectRef ∧ KnowsObject T := by
  unfold ClassMetadata.superInstances at hsup
  rw [hraw] at hsup
  rcases List.mem_map.mp hsup with ⟨declared, hdeclared, heq⟩
  rw [← heq]
  rcases h.others declared hdeclared with hnamed | ⟨hobject, hknown⟩
  · left
    rw [hnamed]
    simp [supertypeArgs, TypeRef.substitute]
  · right
    rw [hobject]
    exact ⟨rfl, hknown⟩

theorem isSubtype_of_oneSupertype (hT : T.Acyclic)
    (h : OneSupertype T id facts supId supArgs) (hraw : facts.isRaw args = false) {b : Bool}
    (hargs : typeArgsContain ask (supertypeArgs facts supArgs args) targetArgs =
      some (some b)) :
    isSubtype T ask supId targetArgs (maxSubtypeDepth + 1) [] (.named id args) =
      some (some b) := by
  have hne := h.ne hT
  have hroot := h.ne_object hT
  have hother : TypeRef.named supId (supertypeArgs facts supArgs args) ≠ TypeRef.objectRef := by
    intro heq
    exact h.notObject (TypeRef.named.inj heq).left
  have hdecided : forall sup, sup ∈ facts.superInstances args ->
      isSubtype T ask supId targetArgs maxSubtypeDepth [.named id args] sup =
        some (some (b && sup != TypeRef.objectRef)) := by
    intro sup hsup
    rcases superInstances_of_oneSupertype h hraw hsup with hnesting | ⟨hobject, hknown⟩
    · rw [hnesting, maxSubtypeDepth, isSubtype_succ]
      simp [walkRule, hne.symm, hargs, hother]
    · rw [hobject, maxSubtypeDepth, isSubtype_object hknown h.notObject
        (by decide) (by simp [TypeRef.objectRef, TypeRef.ofName, hroot])]
      simp
  have hany : (facts.superInstances args).any
      (fun sup => b && sup != TypeRef.objectRef) = b := by
    cases b with
    | false => simp
    | true =>
      apply List.any_eq_true.mpr
      exact ⟨_, supertypeInstance_mem h hraw, by simpa using hother⟩
  rw [isSubtype_succ]
  simp only [walkRule, List.not_mem_nil, if_false, hne, h.notObject, h.known,
    h.target, and_false, h.complete, Bool.not_true]
  rw [anyProved_of_decided hdecided, hany]

theorem argumentContains_nested
    (h : NestsParameter T id facts supId supArgs nested v) (env env' : TypeEnv) :
    argumentContains ask (nested.substitute env) (nested.substitute env') =
      some (some (decide
        (nested.substitute env = nested.substitute env'))) := by
  rcases h.compared with ⟨id', args, heq⟩ | ⟨element, heq⟩
  · subst heq
    simp [TypeRef.substitute, argumentContains]
  · subst heq
    simp [TypeRef.substitute, argumentContains]

theorem nested_substitute_ne
    (h : NestsParameter T id facts supId supArgs nested v) :
    nested.substitute (facts.environment (uniformArgs facts TypeRef.objectRef)) ≠
      nested.substitute
        (facts.environment (uniformArgs facts (.wildcard none none))) := by
  intro heq
  have hbinding := TypeRef.binding_eq_of_substitute_eq heq h.mentioned
  rw [boundTo_uniform h.parameter, boundTo_uniform h.parameter] at hbinding
  cases hbinding

theorem assignableRefs_named (T : ClassTable) (fuel : Nat) (id eid : TypeId)
    (args eargs : List TypeRef) :
    assignableRefs T (fuel + 1) (.named id args) (.named eid eargs) =
      isSubtype T (asking T fuel) eid eargs (maxSubtypeDepth + 1) []
        (.named id args) := by
  rw [assignableRefs, OpenRecursion.run_succ, assignableStep_eq_eval,
    stepRule_named]
  rfl

/-- The expected supertype: the nested argument under `?`, the others open. -/
def openExcept (facts : ClassMetadata) (nested s : TypeRef) : TypeRef :=
  if s = nested then
    nested.substitute
      (facts.environment (uniformArgs facts (.wildcard none none)))
  else .wildcard none none

theorem openExcept_contains
    (h : NestsParameter T id facts supId supArgs nested v) (t s : TypeRef) :
    argumentContains ask
        (s.substitute (facts.environment (uniformArgs facts t)))
        (openExcept facts nested s) =
      some (some (s != nested || decide
        (nested.substitute (facts.environment (uniformArgs facts t)) =
          nested.substitute
            (facts.environment (uniformArgs facts (.wildcard none none)))))) := by
  unfold openExcept
  by_cases hs : s = nested
  · rw [if_pos hs, hs, argumentContains_nested h]
    simp
  · rw [if_neg hs, argumentContains_unbounded]
    simp [hs]

theorem proper_uniformArgs (facts : ClassMetadata) {t : TypeRef}
    (ht : Proper t) : forall t', t' ∈ uniformArgs facts t -> Proper t' := by
  intro t' ht'
  rcases List.mem_map.mp ht' with ⟨p, _, heq⟩
  rw [← heq]
  exact ht

theorem transitivity_fails (hT : T.Acyclic)
    (h : NestsParameter T id facts supId supArgs nested v) :
    exists a b c, Proper a ∧ Proper b ∧ Proper c ∧
      assignableRefs T 1 a b = some (some true) ∧
      assignableRefs T 1 b c = some (some true) ∧
      assignableRefs T 1 a c = some (some false) := by
  have hobject := proper_uniformArgs facts (proper_ofName "java.lang.Object")
  have hopen := proper_uniformArgs facts Proper.unbounded
  have hparams : facts.typeParameters ≠ [] := by
    intro hnil
    have hparameter := h.parameter
    rw [hnil] at hparameter
    cases hparameter
  have hsupArgs : supArgs ≠ [] := List.ne_nil_of_mem h.argument
  exists .named id (uniformArgs facts TypeRef.objectRef)
  exists .named id (uniformArgs facts (.wildcard none none))
  exists .named supId (supArgs.map (openExcept facts nested))
  refine ⟨.named id hobject, .named id hopen, ?_, ?_, ?_, ?_⟩
  · apply Proper.named
    intro t ht
    rcases List.mem_map.mp ht with ⟨s, _, heq⟩
    rw [← heq]
    unfold openExcept
    split
    · exact proper_substitute (proper_environment facts hopen)
        (proper_supArgs hT h.known h.supertype nested h.argument)
    · exact .unbounded
  · rw [assignableRefs_named, isSubtype_self]
    unfold uniformArgs
    rw [typeArgsContain_map hparams
      (fun _ _ => argumentContains_unbounded _ _)]
    simp
  · rw [assignableRefs_named]
    apply isSubtype_of_oneSupertype hT h.toOneSupertype (isRaw_uniform facts _)
    unfold supertypeArgs
    rw [typeArgsContain_map hsupArgs (fun s _ => openExcept_contains h _ s)]
    simp
  · rw [assignableRefs_named]
    apply isSubtype_of_oneSupertype hT h.toOneSupertype (isRaw_uniform facts _)
    unfold supertypeArgs
    rw [typeArgsContain_map hsupArgs (fun s _ => openExcept_contains h _ s)]
    have hne := nested_substitute_ne h
    simp only [hne, decide_false, Bool.or_false, Option.some.injEq,
      List.all_eq_false]
    exact ⟨nested, h.argument, by simp⟩

end NestedParameters

/-- Two proofs in a row leave nothing to refute. -/
def ChainsAt (T : ClassTable) (a b c : TypeRef) : Prop :=
  forall fuel fuel' fuel'',
    assignableRefs T fuel a b = some (some true) ->
    assignableRefs T fuel' b c = some (some true) ->
    assignableRefs T fuel'' a c ≠ some (some false)

/-!
# Exactness below one supertype

Between a class and its one supertype, with arguments that are plain or `?`,
every buried wildcard that a proof meets breaks a chain: closing it leaves an
instance of the class that fits the open one and is refuted against the
supertype.
-/

/-- An argument compared by equality, or open to any argument. -/
def PlainOrOpen : TypeRef -> Bool
  | .named _ _ => true
  | .array _ => true
  | .wildcard none none => true
  | _ => false

/-- The argument with an open `?` closed by `java.lang.Object`. -/
def closed : TypeRef -> TypeRef
  | .wildcard none none => TypeRef.objectRef
  | t => t

section OneSupertype

variable {id supId : TypeId} {facts : ClassMetadata} {supArgs args es : List TypeRef}
  {v : TypeVariableId} {ask : Ask} {x e s t : TypeRef}

theorem closed_contained (h : PlainOrOpen t = true) :
    argumentContains ask (closed t) t = some (some true) := by
  unfold PlainOrOpen at h
  split at h
  · simp [closed, argumentContains]
  · simp [closed, argumentContains]
  · exact argumentContains_unbounded ask _
  · cases h

theorem typeArgsContain_closed (h : forall t, t ∈ args -> PlainOrOpen t = true) :
    typeArgsContain ask (args.map closed) args = some (some true) := by
  cases hargs : args with
  | nil => rfl
  | cons t rest =>
    rw [← hargs]
    have hmap : typeArgsContain ask (args.map closed) (args.map (fun t => t)) =
        some (some (args.all (fun _ => true))) :=
      typeArgsContain_map (by simp [hargs]) (fun t ht => closed_contained (h t ht))
    have hall : args.all (fun _ => true) = true := List.all_eq_true.mpr (fun _ _ => rfl)
    rw [List.map_id', hall] at hmap
    exact hmap

theorem proper_closed (h : Proper t) : Proper (closed t) := by
  unfold closed
  split
  · exact proper_ofName _
  · exact h

theorem argumentRule_plainOrOpen (h : PlainOrOpen e = true) (x : TypeRef) :
    argumentRule x e = .compares ∨ exists v, argumentRule x e = .decided v := by
  unfold PlainOrOpen at h
  split at h
  · cases x <;> first | exact .inl rfl | exact .inr ⟨_, rfl⟩
  · cases x <;> first | exact .inl rfl | exact .inr ⟨_, rfl⟩
  · cases x <;> exact .inr ⟨_, rfl⟩
  · cases h

theorem argumentFollowUps_plainOrOpen (h : forall e, e ∈ es -> PlainOrOpen e = true)
    (view : List TypeRef) : argumentFollowUps view es = [] := by
  rw [List.eq_nil_iff_forall_not_mem]
  intro q hq
  rcases mem_argumentFollowUps.mp hq with ⟨⟨x, e⟩, hpair, hrule⟩
  have hmem : e ∈ es := by
    unfold argumentPairs at hpair
    split at hpair
    · cases hpair
    · exact (List.of_mem_zip hpair).right
  rcases argumentRule_plainOrOpen (h e hmem) x with hcompares | ⟨v, hdecided⟩
  · rw [hcompares] at hrule
    cases hrule
  · rw [hdecided] at hrule
    cases hrule

theorem restsOn_plainOrOpen (h : forall e, e ∈ es -> PlainOrOpen e = true) (q' : Question) :
    ¬ RestsOn T (.named id args, .named supId es) q' := by
  intro hrests
  cases hrests with
  | asks hrule => cases hrule
  | tries hrule _ _ => cases hrule
  | walks hrule _ _ hq' =>
    cases hrule
    rw [argumentFollowUps_plainOrOpen h] at hq'
    cases hq'

theorem buriesNothing_plainOrOpen_iff (h : forall e, e ∈ es -> PlainOrOpen e = true) :
    BuriesNothing T (.named id args, .named supId es) <->
      ¬ ComparesBuried T (.named id args, .named supId es) := by
  constructor
  · intro hclear
    exact hclear _ .refl
  · intro hclear q' hrests
    rcases Relation.ReflTransGen.cases_head hrests with heq | ⟨q, hstep, _⟩
    · rw [← heq]
      exact hclear
    · exact absurd hstep (restsOn_plainOrOpen h q)

theorem tracedViews_object (hknown : KnowsObject T)
    (htarget : supId ≠ .named "java.lang.Object") {budget : Nat}
    (hbudget : budget ≠ maxSubtypeDepth) {seen : List TypeRef}
    (hseen : TypeRef.objectRef ∉ seen) :
    tracedViews T supId (budget + 1) seen (.named "java.lang.Object") [] = [] := by
  rcases hknown with ⟨root, hroot, hnone, _⟩
  rw [tracedViews_succ]
  simp only [TypeRef.objectRef, TypeRef.ofName] at hseen
  simp [walkRule, hseen, htarget, htarget.symm, hbudget, hroot, hnone]

theorem tracedViews_of_oneSupertype (hT : T.Acyclic)
    (h : OneSupertype T id facts supId supArgs) {view : List Traced}
    (hview : view ∈ tracedViews T supId (maxSubtypeDepth + 1) [] id (traced args)) :
    view = facts.tracedArgs (traced args) supArgs := by
  have hne := h.ne hT
  have hroot := h.ne_object hT
  rw [tracedViews_succ] at hview
  simp only [walkRule, List.not_mem_nil, if_false, hne, h.notObject, h.known, h.target,
    and_false] at hview
  rcases List.mem_flatMap.mp hview with ⟨sup, hsup, hsupView⟩
  rcases h.others sup hsup with rfl | ⟨rfl, hknown⟩
  · have hmeets : walkRule T supId 63 [.named id ((traced args).map Prod.snd)]
        (.named supId ((facts.tracedArgs (traced args) supArgs).map Prod.snd)) =
          .meets ((facts.tracedArgs (traced args) supArgs).map Prod.snd) := by
      simp [walkRule, hne.symm]
    change view ∈ tracedViews T supId (63 + 1) _ supId _ at hsupView
    rw [tracedViews_succ, hmeets] at hsupView
    exact List.mem_singleton.mp hsupView
  · have hnone : facts.tracedArgs (traced args) [] = [] := by
      unfold ClassMetadata.tracedArgs
      split <;> rfl
    change view ∈ tracedViews T supId (63 + 1) _ (.named "java.lang.Object") _ at hsupView
    rw [hnone, tracedViews_object hknown h.notObject (by decide)
      (by simp [TypeRef.objectRef, TypeRef.ofName, hroot])] at hsupView
    cases hsupView

theorem exists_open_variable (hargs : forall t, t ∈ args -> PlainOrOpen t = true)
    {params : List TypeVariableId}
    (h : argumentOrigin (params.zip (traced args)) s = .buried) :
    (forall w, s ≠ .typeVariable w) ∧
      exists v, v ∈ s.mentioned ∧ boundTo (params.zip args) v = some (.wildcard none none) := by
  have htraced : forall arg, arg ∈ traced args -> arg.1 ≠ .buried := by
    intro arg harg
    rcases List.mem_map.mp harg with ⟨t, _, rfl⟩
    cases t <;> simp [useSiteOrigin]
  have hvariable : forall w, s ≠ .typeVariable w := by
    rintro w rfl
    exact variableOrigin_unburied htraced w h
  refine ⟨hvariable, ?_⟩
  unfold argumentOrigin at h
  split at h
  · rename_i w
    exact absurd rfl (hvariable w)
  · split at h
    · cases h
    · rename_i hall
      simp only [List.all_eq_true, not_forall, beq_iff_eq] at hall
      rcases hall with ⟨v, hv, horigin⟩
      refine ⟨v, hv, ?_⟩
      unfold variableOrigin at horigin
      have hsnd := boundTo_map_snd (params.zip (traced args)) v
      have hzip : (params.zip (traced args)).map (fun entry => (entry.1, entry.2.2)) =
          params.zip args := by
        rw [traced, List.zip_map_right, List.map_map]
        exact List.map_id _
      rw [hzip] at hsnd
      cases hbound : boundTo (params.zip (traced args)) v with
      | none =>
        rw [hbound] at horigin
        exact absurd rfl horigin
      | some arg =>
        rw [hbound] at horigin hsnd
        rcases List.mem_map.mp (List.of_mem_zip (mem_of_boundTo hbound)).right with
          ⟨t, ht, rfl⟩
        rw [hsnd]
        have hplain := hargs t ht
        unfold PlainOrOpen at hplain
        split at hplain
        · exact absurd rfl horigin
        · exact absurd rfl horigin
        · rfl
        · cases hplain

theorem boundTo_closed (params : List TypeVariableId) (args : List TypeRef)
    (v : TypeVariableId) :
    boundTo (params.zip (args.map closed)) v = (boundTo (params.zip args) v).map closed := by
  have hrows : List.Forall₂ (fun t t' => t' = closed t) args (args.map closed) := by
    rw [List.forall₂_map_right_iff]
    exact List.forall₂_same.mpr (fun _ _ => rfl)
  have hrel := boundTo_zip_rel hrows params v
  generalize boundTo (params.zip args) v = binding at hrel ⊢
  generalize boundTo (params.zip (args.map closed)) v = binding' at hrel ⊢
  cases hrel with
  | none => rfl
  | some heq => rw [heq, Option.map_some]

theorem typeArgsContain_refutes {xs : List TypeRef} (hlength : xs.length = es.length)
    (hes : forall e, e ∈ es -> PlainOrOpen e = true)
    (h : exists pair, pair ∈ xs.zip es ∧
      argumentContains ask pair.1 pair.2 = some (some false)) :
    typeArgsContain ask xs es = some (some false) := by
  rcases h with ⟨pair, hpair, hfalse⟩
  have hne : es ≠ [] := List.ne_nil_of_mem (List.of_mem_zip hpair).right
  have hnone : lengthVerdict xs.length es.length = none := by
    simp [lengthVerdict, hlength, hne]
  have hpairs : argumentPairs xs es = xs.zip es := by
    rw [argumentPairs, hnone]
  rw [typeArgsContain_eq, hnone, hpairs]
  apply allProved_of_refuted
  · intro pair' hpair'
    rw [argumentContains_eq_eval]
    rcases argumentRule_plainOrOpen (hes _ (List.of_mem_zip hpair').right) pair'.1 with
      hcompares | ⟨v, hdecided⟩
    · rw [hcompares]
      rfl
    · rw [hdecided]
      rfl
  · exact ⟨pair, hpair, hfalse⟩

/-- A supertype's argument that is equal to a plain type under the open arguments only. -/
theorem closed_argument_refuted (hs : forall w, s ≠ .typeVariable w)
    {env env' : TypeEnv} (hv : v ∈ s.mentioned)
    (hopen : boundTo env v = some (.wildcard none none))
    (hclosed : boundTo env' v = some TypeRef.objectRef)
    (he : PlainOrOpen e = true) (hne : e ≠ .wildcard none none) (ask ask' : Ask)
    (h : argumentContains ask (s.substitute env) e = some (some true)) :
    argumentContains ask' (s.substitute env') e = some (some false) := by
  have hdiffers : s.substitute env ≠ s.substitute env' := by
    intro heq
    have hbinding := TypeRef.binding_eq_of_substitute_eq heq hv
    rw [hopen, hclosed] at hbinding
    cases hbinding
  have hplain : (exists id args, s = .named id args) ∨ exists element, s = .array element := by
    unfold PlainOrOpen at he
    cases s with
    | named id args => exact .inl ⟨id, args, rfl⟩
    | array element => exact .inr ⟨element, rfl⟩
    | typeVariable w => exact absurd rfl (hs w)
    | wildcard upper lower =>
      split at he
      · cases h
      · cases h
      · exact absurd rfl hne
      · cases he
    | _ => cases hv
  have hcompares : forall (ask : Ask) env, argumentContains ask (s.substitute env) e =
      some (some (decide (s.substitute env = e))) := by
    intro ask env
    unfold PlainOrOpen at he
    split at he
    · rcases hplain with ⟨id, args, rfl⟩ | ⟨element, rfl⟩ <;>
        simp [TypeRef.substitute, argumentContains]
    · rcases hplain with ⟨id, args, rfl⟩ | ⟨element, rfl⟩ <;>
        simp [TypeRef.substitute, argumentContains]
    · exact absurd rfl hne
    · cases he
  rw [hcompares] at h ⊢
  have heq : s.substitute env = e := by simpa using h
  rw [← heq]
  simp [hdiffers.symm]

theorem breaks_of_comparesBuried (hT : T.Acyclic)
    (h : OneSupertype T id facts supId supArgs)
    (hlength : args.length = facts.typeParameters.length)
    (hargs : forall t, t ∈ args -> PlainOrOpen t = true)
    (hes : forall e, e ∈ es -> PlainOrOpen e = true)
    (hburied : ComparesBuried T (.named id args, .named supId es)) :
    ¬ ChainsAt T (.named id (args.map closed)) (.named id args) (.named supId es) := by
  rcases hburied with ⟨view, hview, ⟨fuel, hcontained⟩, hmeets⟩
  have hraw : facts.isRaw args = false := by
    cases hparams : facts.typeParameters <;> cases args <;>
      simp_all [ClassMetadata.isRaw]
  have hrawClosed : facts.isRaw (args.map closed) = false := by
    simpa [ClassMetadata.isRaw] using hraw
  rw [tracedViews_of_oneSupertype hT h hview] at hcontained hmeets
  rw [ClassMetadata.tracedArgs_map_snd, traced_map_snd, ClassMetadata.instanceArgs,
    hraw] at hcontained
  have hproved : typeArgsContain (asking T fuel) (supertypeArgs facts supArgs args) es =
      some (some true) := hcontained
  rcases List.any_eq_true.mp hmeets with ⟨⟨arg, e⟩, hpair, hmet⟩
  simp only [Bool.and_eq_true, beq_iff_eq, bne_iff_ne, ne_eq] at hmet
  have hrow : exists s, (s, e) ∈ supArgs.zip es ∧ arg.1 = argumentOrigin
      ((facts.typeParameters.map (fun p => p.id)).zip (traced args)) s := by
    rw [ClassMetadata.tracedArgs, traced_map_snd, hraw, if_neg Bool.false_ne_true,
      List.zip_map_left] at hpair
    rcases List.mem_map.mp hpair with ⟨⟨s, e'⟩, hrow, heq⟩
    cases heq
    exact ⟨s, hrow, rfl⟩
  rcases hrow with ⟨s, hrow, horigin⟩
  have hmem := List.of_mem_zip hrow
  rcases exists_open_variable hargs (horigin.symm.trans hmet.left) with
    ⟨hvariable, v, hv, hopen⟩
  have hclosed : boundTo (facts.environment (args.map closed)) v = some TypeRef.objectRef := by
    rw [ClassMetadata.environment, boundTo_closed, hopen]
    rfl
  have hpairs : forall args' : List TypeRef,
      (s.substitute (facts.environment args'), e) ∈
        (supertypeArgs facts supArgs args').zip es := by
    intro args'
    rw [supertypeArgs, List.zip_map_left]
    exact List.mem_map.mpr ⟨(s, e), hrow, rfl⟩
  rcases typeArgsContain_proved hproved with hnil | ⟨hsame, _, hall⟩
  · rw [hnil] at hmem
    cases hmem.right
  · have hrefuted : typeArgsContain (asking T 0)
        (supertypeArgs facts supArgs (args.map closed)) es = some (some false) := by
      apply typeArgsContain_refutes _ hes
      · exact ⟨_, hpairs _, closed_argument_refuted hvariable hv hopen hclosed
          (hes e hmem.right) hmet.right _ _ (hall _ (hpairs args))⟩
      · simpa [supertypeArgs] using hsame
    intro hchains
    refine hchains 1 (fuel + 1) 1 ?_ ?_ ?_
    · rw [assignableRefs_named, isSubtype_self]
      exact typeArgsContain_closed hargs
    · rw [assignableRefs_named]
      exact isSubtype_of_oneSupertype hT h hraw hproved
    · rw [assignableRefs_named]
      exact isSubtype_of_oneSupertype hT h hrawClosed hrefuted

theorem chains_iff_buriesNothing (hT : T.Acyclic)
    (h : OneSupertype T id facts supId supArgs)
    (hlength : args.length = facts.typeParameters.length)
    (hargs : forall t, t ∈ args -> Proper t ∧ PlainOrOpen t = true)
    (hes : forall e, e ∈ es -> Proper e ∧ PlainOrOpen e = true) :
    (forall a, Proper a -> BuriesNothingBelow T (a, .named id args) ->
        ChainsAt T a (.named id args) (.named supId es)) <->
      BuriesNothing T (.named id args, .named supId es) := by
  have hplain : forall t, t ∈ args -> PlainOrOpen t = true := fun t ht => (hargs t ht).right
  constructor
  · intro hchains
    rw [buriesNothing_plainOrOpen_iff (fun e he => (hes e he).right)]
    intro hburied
    apply breaks_of_comparesBuried hT h hlength hplain (fun e he => (hes e he).right) hburied
    apply hchains
    · apply Proper.named
      intro t ht
      rcases List.mem_map.mp ht with ⟨t', ht', rfl⟩
      exact proper_closed (hargs t' ht').left
    · intro q hq
      exact absurd hq (restsOn_plainOrOpen hplain q)
  · intro hclear a ha hbelow fuel fuel' fuel'' hab hbc
    exact transitiveAt hT _ rfl ha (.named id (fun t ht => (hargs t ht).left))
      (.named supId (fun e he => (hes e he).left)) hbelow hclear hab hbc fuel''

end OneSupertype

end JavaVsixLite
