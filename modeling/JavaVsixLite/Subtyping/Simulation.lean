import Mathlib.Data.List.Forall2
import Mathlib.Logic.Relation
import JavaVsixLite.Foundation.JoinedLists
import JavaVsixLite.Subtyping.Caution
import JavaVsixLite.Types.Refinement

/-!
# Two runs of the subtype engine

Two runs are compared along a relation on types, for the second run knowing at
least as much as the first: its types replace what the first did not understand,
and its class table extends the first.  If the first run is a cautious one that
leaves the structural comparisons undecided that are sensitive to the relation,
the two runs never contradict each other.
-/

namespace JavaVsixLite

open Foundation
open Foundation.Verdict

/-!
# Related types
-/

structure Refining (R : TypeRef -> TypeRef -> Prop) : Prop where
  refl : forall t, R t t
  cases : forall {t t'}, R t t' -> t = .unknown ∨ Congruent R t t'
  substitute : forall (params : List TypeVariableId) {args args' : List TypeRef},
    List.Forall₂ R args args' -> forall sup : TypeRef,
      R (sup.substitute (params.zip args)) (sup.substitute (params.zip args'))

def RelatedQuestions (R : TypeRef -> TypeRef -> Prop) (q q' : Question) : Prop :=
  R q.1 q'.1 ∧ R q.2 q'.2

theorem forall₂_zip_related {R : TypeRef -> TypeRef -> Prop}
    {xs xs' ys ys' : List TypeRef} (hx : List.Forall₂ R xs xs')
    (hy : List.Forall₂ R ys ys') :
    List.Forall₂ (RelatedQuestions R) (xs.zip ys) (xs'.zip ys') := by
  induction hx generalizing ys ys' with
  | nil => exact List.Forall₂.nil
  | cons hhead _ ih =>
    cases hy with
    | nil => exact List.Forall₂.nil
    | cons hhead' htail' =>
      exact List.Forall₂.cons ⟨hhead, hhead'⟩ (ih htail')

/-!
# Argument pairs
-/

inductive RelatedArgumentRules (R : TypeRef -> TypeRef -> Prop) :
    ArgumentRule -> ArgumentRule -> Prop where
  | undecided (rule : ArgumentRule) :
      RelatedArgumentRules R (.decided none) rule
  | decided (v : Verdict) : RelatedArgumentRules R (.decided v) (.decided v)
  | asks {q q' : Question} : RelatedQuestions R q q' ->
      RelatedArgumentRules R (.asks q) (.asks q')
  | compares : RelatedArgumentRules R .compares .compares

variable {R : TypeRef -> TypeRef -> Prop}

theorem argumentRule_related_wildcard (hR : Refining R) {x x' : TypeRef}
    {upper upper' lower lower' : Option TypeRef} (hx : Congruent R x x')
    (hrel : R x x')
    (hupper : Option.Rel R upper upper') (hlower : Option.Rel R lower lower') :
    RelatedArgumentRules R (argumentRule x (.wildcard upper lower))
      (argumentRule x' (.wildcard upper' lower')) := by
  have hobject := hR.refl TypeRef.objectRef
  cases hx with
  | wildcard hu hl =>
    cases hu <;> cases hl <;> cases hupper <;> cases hlower <;>
      first
        | exact .decided _
        | exact .undecided _
        | exact .asks ⟨by assumption, by assumption⟩
  | _ =>
    cases hupper <;> cases hlower <;>
      first
        | exact .decided _
        | exact .undecided _
        | exact .compares
        | exact .asks ⟨by assumption, by assumption⟩

theorem argumentRule_related (hR : Refining R) {x x' y y' : TypeRef}
    (hx : R x x') (hy : R y y') :
    RelatedArgumentRules R (argumentRule x y) (argumentRule x' y') := by
  rcases hR.cases hy with hunknown | hcy
  · subst hunknown
    rcases hR.cases hx with hunknown | hcx
    · subst hunknown
      exact .undecided _
    · cases hcx <;> exact .undecided _
  · rcases hR.cases hx with hunknown | hcx
    · subst hunknown
      cases hcy with
      | wildcard hu hl =>
        cases hu <;> cases hl <;>
          first | exact .decided _ | exact .undecided _
      | _ => exact .undecided _
    · cases hcy with
      | wildcard hu hl =>
        exact argumentRule_related_wildcard hR hcx hx hu hl
      | _ =>
        cases hcx <;>
          first
            | exact .decided _
            | exact .undecided _
            | exact .compares

/-!
# Class tables that know more

What the first table answers completely the second answers identically; a class
whose hierarchy is incomplete keeps its parameters and its understood
supertypes.
-/

structure ClassTable.ExtendedBy (T T' : ClassTable) : Prop where
  complete : forall {id facts}, T.classFacts id = some facts ->
    facts.hierarchyComplete = true -> T'.classFacts id = some facts
  incomplete : forall {id facts}, T.classFacts id = some facts ->
    facts.hierarchyComplete = false ->
    exists facts', T'.classFacts id = some facts' ∧
      facts'.typeParameters = facts.typeParameters ∧
      forall sup, sup ∈ facts.supertypes -> sup ≠ .unknown ->
        sup ∈ facts'.supertypes

theorem ClassTable.extendedBy_refl (T : ClassTable) : T.ExtendedBy T where
  complete := fun hfacts _ => hfacts
  incomplete := fun hfacts _ => ⟨_, hfacts, rfl, fun _ hsup _ => hsup⟩

variable {T T' : ClassTable}

theorem ClassTable.ExtendedBy.classFacts (h : T.ExtendedBy T') {id : TypeId}
    {facts : ClassMetadata} (hfacts : T.classFacts id = some facts) :
    exists facts', T'.classFacts id = some facts' ∧
      facts'.typeParameters = facts.typeParameters ∧
      (forall sup, sup ∈ facts.supertypes -> sup ≠ .unknown ->
        sup ∈ facts'.supertypes) ∧
      (facts.hierarchyComplete = true -> facts' = facts) := by
  cases hcomplete : facts.hierarchyComplete with
  | true =>
    exact ⟨facts, h.complete hfacts hcomplete, rfl, fun sup hsup _ => hsup,
      fun _ => rfl⟩
  | false =>
    rcases h.incomplete hfacts hcomplete with ⟨facts', hfacts', hparams, hsups⟩
    exact ⟨facts', hfacts', hparams, hsups, fun hc => by cases hc⟩

theorem ClassTable.ExtendedBy.variableBounds (h : T.ExtendedBy T')
    {v : TypeVariableId} {bounds : List TypeRef}
    (hbounds : T.variableBounds v = some bounds) :
    T'.variableBounds v = some bounds := by
  unfold ClassTable.variableBounds at hbounds ⊢
  cases hfacts : T.classFacts (.named v.owner) with
  | none =>
    rw [hfacts] at hbounds
    cases hbounds
  | some facts =>
    rw [hfacts] at hbounds
    rcases h.classFacts hfacts with ⟨facts', hfacts', hparams, _, _⟩
    rw [hfacts']
    simpa [hparams] using hbounds

/-!
# Steps

A primitive fits no class of the project, and any other class that its box type
is found below.  The origin of such a class decides the verdict.
-/

/-- Some primitive fits the class, as far as the hierarchy above its box is known. -/
def TakesBoxes (T : ClassTable) (b : String) : Prop :=
  b = "java.lang.Object" ∨
    exists p : PrimitiveType,
      views T (.named b) (maxSubtypeDepth + 1) [] (TypeRef.ofName p.boxFqn) ≠ []

/-- A class of the project in one of the tables only takes no primitive in the other. -/
structure OriginsKept (T T' : ClassTable) : Prop where
  gained : forall b, T.declaresInProject b = false -> T'.declaresInProject b = true ->
    ¬ TakesBoxes T b
  lost : forall b, T.declaresInProject b = true -> T'.declaresInProject b = false ->
    ¬ TakesBoxes T' b

/-- A box type against a class that takes none. -/
inductive Foreign (T : ClassTable) : Question -> Prop where
  | boxed (p : PrimitiveType) {b : String} (args : List TypeRef) : ¬ TakesBoxes T b ->
      Foreign T (TypeRef.ofName p.boxFqn, .named (.named b) args)

inductive Undecided : Question -> Prop where
  | actual (e : TypeRef) : Undecided (.unknown, e)
  | expected (a : TypeRef) : Undecided (a, .unknown)

/-- What is not left undecided does not change along the relation. -/
structure Stable (R : TypeRef -> TypeRef -> Prop) (d : Doubts) : Prop where
  arguments : forall {x y x' y'}, R x x' -> R y y' -> d.arguments x y = false ->
    (x = y <-> x' = y')
  elements : forall {x y x' y'}, R x x' -> R y y' -> d.elements x y = false ->
    forall v w, elementRule x y = .decided v -> elementRule x' y' = .decided w ->
      Agrees v w

inductive RelatedStepRules (R : TypeRef -> TypeRef -> Prop) (T T' : ClassTable) :
    StepRule -> StepRule -> Prop where
  | undecided (rule : StepRule) : RelatedStepRules R T T' (.decided none) rule
  | decided {v w : Verdict} : Agrees v w ->
      RelatedStepRules R T T' (.decided v) (.decided w)
  | silent {q : Question} (rule : StepRule) : Undecided q ->
      RelatedStepRules R T T' (.asks q) rule
  | gained {q : Question} : Foreign T q ->
      RelatedStepRules R T T' (.asks q) (.decided (some false))
  | lost {q : Question} : Foreign T' q ->
      RelatedStepRules R T T' (.decided (some false)) (.asks q)
  | asks {q q' : Question} : RelatedQuestions R q q' ->
      RelatedStepRules R T T' (.asks q) (.asks q')
  | tries (bounds : List TypeRef) {e e' : TypeRef} : R e e' ->
      RelatedStepRules R T T' (.tries bounds e) (.tries bounds e')
  | walks {actual actual' : TypeRef} (target : TypeId)
      {targetArgs targetArgs' : List TypeRef} : R actual actual' ->
      List.Forall₂ R targetArgs targetArgs' ->
      RelatedStepRules R T T' (.walks actual target targetArgs)
        (.walks actual' target targetArgs')

theorem elementRule_related (hR : Refining R) {x x' y y' : TypeRef}
    (hx : R x x') (hy : R y y')
    (hstable : forall v w, elementRule x y = .decided v ->
      elementRule x' y' = .decided w -> Agrees v w) :
    RelatedStepRules R T T' (elementRule x y) (elementRule x' y') := by
  rcases hR.cases hx with hunknown | hcx
  · subst hunknown
    rcases hR.cases hy with hunknown | hcy
    · subst hunknown
      exact .silent _ (.actual _)
    · cases hcy with
      | primitive p => cases x' <;> exact .decided (hstable _ _ rfl rfl)
      | _ => exact .silent _ (.actual _)
  · rcases hR.cases hy with hunknown | hcy
    · subst hunknown
      cases hcx with
      | primitive p => cases y' <;> exact .decided (hstable _ _ rfl rfl)
      | _ => exact .silent _ (.expected _)
    · cases hcx <;> cases hcy <;>
        first
          | exact .decided (agrees_refl _)
          | exact .asks ⟨hx, hy⟩

theorem takesBoxes_of_fromBoxFqn (T : ClassTable) {b : String} {p : PrimitiveType}
    (h : PrimitiveType.fromBoxFqn b = some p) : TakesBoxes T b := by
  refine .inr ⟨p, ?_⟩
  rw [PrimitiveType.boxFqn_of_fromBoxFqn h, views_succ]
  simp [walkRule, TypeRef.ofName]

/-- A primitive against a named type: only the origin of the name may differ. -/
theorem stepRule_related_boxing (horigins : OriginsKept T T') (p : PrimitiveType) (b : String)
    {args args' : List TypeRef} (hrel : forall t : TypeRef, R t t)
    (hargs : R (.named (.named b) args) (.named (.named b) args')) :
    RelatedStepRules R T T' (stepRule T (.primitive p, .named (.named b) args))
      (stepRule T' (.primitive p, .named (.named b) args')) := by
  simp only [stepRule]
  cases hT : T.declaresInProject b with
  | true =>
    cases hT' : T'.declaresInProject b with
    | true => exact .decided (agrees_refl _)
    | false =>
      have hlost := horigins.lost b hT hT'
      cases hbox : PrimitiveType.fromBoxFqn b with
      | none => exact .lost (.boxed p args' hlost)
      | some ep => exact absurd (takesBoxes_of_fromBoxFqn T' hbox) hlost
  | false =>
    cases hT' : T'.declaresInProject b with
    | false =>
      cases hbox : PrimitiveType.fromBoxFqn b with
      | none => exact .asks ⟨hrel _, hargs⟩
      | some ep => exact .decided (agrees_refl _)
    | true =>
      have hgained := horigins.gained b hT hT'
      cases hbox : PrimitiveType.fromBoxFqn b with
      | none => exact .gained (.boxed p args hgained)
      | some ep => exact absurd (takesBoxes_of_fromBoxFqn T hbox) hgained

theorem stepRule_related (hR : Refining R) (hext : T.ExtendedBy T')
    (horigins : OriginsKept T T') {d : Doubts} (hstable : Stable R d) {a a' e e' : TypeRef}
    (ha : R a a') (he : R e e') (hdoubt : d.leaves (a, e) = false) :
    RelatedStepRules R T T' (stepRule T (a, e)) (stepRule T' (a', e')) := by
  have hobject := hR.refl TypeRef.objectRef
  rcases hR.cases ha with hunknown | hca
  · subst hunknown
    exact .undecided _
  · rcases hR.cases he with hunknown | hce
    · subst hunknown
      cases hca <;> exact .undecided _
    · cases hca with
      | typeVariable v =>
        cases hbounds : T.variableBounds v with
        | none =>
          cases hce <;>
            first
              | exact .decided (agrees_refl _)
              | (simp only [stepRule, hbounds]; exact .undecided _)
        | some bounds =>
          have hbounds' := hext.variableBounds hbounds
          cases hce <;>
            first
              | exact .decided (agrees_refl _)
              | (simp only [stepRule, hbounds, hbounds']; exact .tries _ he)
      | wildcard hu hl =>
        cases hu <;> cases hce <;>
          first
            | exact .decided (agrees_refl _)
            | exact .undecided _
            | exact .asks ⟨by assumption, he⟩
      | primitive p =>
        cases hce with
        | named id hargs =>
          cases id with
          | named b =>
            exact stepRule_related_boxing horigins p b hR.refl he
          | localClass document declaration =>
            exact .decided (agrees_refl _)
        | _ => exact .decided (agrees_refl _)
      | named id hargs =>
        cases hce with
        | named eid heargs => exact .walks eid ha heargs
        | primitive p => cases id <;> exact .decided (agrees_refl _)
        | _ => exact .decided (agrees_refl _)
      | array helement =>
        cases hce with
        | array helement' =>
          exact elementRule_related hR helement helement'
            (hstable.elements helement helement' hdoubt)
        | named id _ => cases id <;> exact .decided (agrees_refl _)
        | _ => exact .decided (agrees_refl _)
      | _ => cases hce <;> exact .decided (agrees_refl _)

/-!
# Containment and walks agree
-/

variable {ask ask' : Ask}

theorem contains_agrees (hR : Refining R) {d : Doubts} (hstable : Stable R d)
    {pair pair' : Question} (hpair : RelatedQuestions R pair pair')
    (hask : forall q, argumentRule pair.1 pair.2 = .asks q ->
      forall q', RelatedQuestions R q q' -> AskAgrees ask ask' q q') :
    AskAgrees (fun pair => d.contains ask pair.1 pair.2)
      (fun pair => argumentContains ask' pair.1 pair.2) pair pair' := by
  intro v w hv hw
  simp only [argumentContains_eq_eval, Doubts.contains] at hv hw
  have hrules := argumentRule_related hR hpair.left hpair.right
  generalize hrule : argumentRule pair.1 pair.2 = rule at *
  generalize argumentRule pair'.1 pair'.2 = rule' at *
  cases hrules with
  | undecided rule' =>
    cases hv
    exact agrees_none_left w
  | decided u =>
    cases hv
    cases hw
    exact agrees_refl _
  | asks hq => exact hask _ rfl _ hq v w hv hw
  | compares =>
    cases hw
    cases hdoubt : d.arguments pair.1 pair.2 with
    | true =>
      rw [hdoubt] at hv
      cases hv
      exact agrees_none_left _
    | false =>
      rw [hdoubt] at hv
      cases hv
      apply agrees_of_eq
      simp [hstable.arguments hpair.left hpair.right hdoubt]

variable {v w : Verdict} {q : Question}

theorem containsArgs_agrees (hR : Refining R) {d : Doubts} (hstable : Stable R d)
    {actual actual' expected expected' : List TypeRef}
    (hactual : List.Forall₂ R actual actual') (hexpected : List.Forall₂ R expected expected')
    (hask : forall q q', RelatedQuestions R q q' -> AskAgrees ask ask' q q')
    (hv : d.containsArgs ask actual expected = some v)
    (hw : typeArgsContain ask' actual' expected' = some w) :
    Agrees v w := by
  rw [Doubts.containsArgs] at hv
  rw [typeArgsContain_eq] at hw
  rw [← hactual.length_eq, ← hexpected.length_eq] at hw
  cases hlength : lengthVerdict actual.length expected.length with
  | some u =>
    rw [hlength] at hv hw
    cases hv
    cases hw
    exact agrees_refl _
  | none =>
    rw [hlength] at hv hw
    have hpairs : argumentPairs actual expected = actual.zip expected := by
      rw [argumentPairs, hlength]
    have hpairs' : argumentPairs actual' expected' = actual'.zip expected' := by
      rw [argumentPairs, ← hactual.length_eq, ← hexpected.length_eq, hlength]
    have hrelated : List.Forall₂ (RelatedQuestions R)
        (argumentPairs actual expected) (argumentPairs actual' expected') := by
      rw [hpairs, hpairs']
      exact forall₂_zip_related hactual hexpected
    have hagree : forall pair pair', RelatedQuestions R pair pair' ->
        AskAgrees (fun pair => d.contains ask pair.1 pair.2)
          (fun pair => argumentContains ask' pair.1 pair.2) pair pair' := by
      intro pair pair' hrel
      exact contains_agrees hR hstable hrel (fun q _ => hask q)
    refine allProved_agrees ?_ ?_ hv hw
    · intro pair hpair
      rcases forall₂_mem_left hrelated hpair with ⟨pair', hpair', hrel⟩
      exact ⟨pair', hpair', hagree pair pair' hrel⟩
    · intro pair' hpair'
      rcases forall₂_mem_right hrelated hpair' with ⟨pair, hpair, hrel⟩
      exact ⟨pair, hpair, hagree pair pair' hrel⟩

theorem superInstance_related (hR : Refining R) {facts facts' : ClassMetadata}
    (hparams : facts'.typeParameters = facts.typeParameters)
    {args args' : List TypeRef} (hargs : List.Forall₂ R args args')
    (sup : TypeRef) :
    R (if facts.isRaw args then sup.erase
        else sup.substitute (facts.environment args))
      (if facts'.isRaw args' then sup.erase
        else sup.substitute (facts'.environment args')) := by
  have hempty : args.isEmpty = args'.isEmpty := by
    cases hargs <;> rfl
  have hraw : facts'.isRaw args' = facts.isRaw args := by
    rw [ClassMetadata.isRaw, ClassMetadata.isRaw, hparams, hempty]
  rw [hraw]
  cases facts.isRaw args with
  | true => exact hR.refl _
  | false =>
    rw [ClassMetadata.environment, ClassMetadata.environment, hparams]
    exact hR.substitute _ hargs sup

/-- What the second table knows about a class the first one climbs from. -/
structure ExtendedFacts (facts facts' : ClassMetadata) : Prop where
  typeParameters : facts'.typeParameters = facts.typeParameters
  supertypes : forall sup, sup ∈ facts.supertypes -> sup ≠ .unknown ->
    sup ∈ facts'.supertypes
  complete : facts.hierarchyComplete = true -> facts' = facts

inductive RelatedWalkRules (R : TypeRef -> TypeRef -> Prop) :
    WalkRule -> WalkRule -> Prop where
  | undecidedLeft (rule : WalkRule) : RelatedWalkRules R (.stops none) rule
  | undecidedRight (rule : WalkRule) : RelatedWalkRules R rule (.stops none)
  | proved : RelatedWalkRules R (.stops (some true)) (.stops (some true))
  | meets {args args' : List TypeRef} : List.Forall₂ R args args' ->
      RelatedWalkRules R (.meets args) (.meets args')
  | climbs {facts facts' : ClassMetadata} {args args' : List TypeRef} :
      ExtendedFacts facts facts' -> List.Forall₂ R args args' ->
      RelatedWalkRules R (.climbs facts args) (.climbs facts' args')

theorem walkRule_related (hR : Refining R) (hext : T.ExtendedBy T')
    (target : TypeId) (budget : Nat) (seen seen' : List TypeRef)
    {actual actual' : TypeRef} (hactual : R actual actual') :
    RelatedWalkRules R (walkRule T target budget seen actual)
      (walkRule T' target budget seen' actual') := by
  rcases hR.cases hactual with hunknown | hcongruent
  · subst hunknown
    exact .undecidedLeft _
  · cases hcongruent with
    | named id hargs =>
      rename_i args args'
      simp only [walkRule]
      by_cases hseen : TypeRef.named id args ∈ seen
      · rw [if_pos hseen]
        exact .undecidedLeft _
      · by_cases hseen' : TypeRef.named id args' ∈ seen'
        · rw [if_pos hseen']
          exact .undecidedRight _
        · rw [if_neg hseen, if_neg hseen']
          by_cases hid : id = target
          · rw [if_pos hid, if_pos hid]
            exact .meets hargs
          · rw [if_neg hid, if_neg hid]
            by_cases hobject : target = .named "java.lang.Object"
            · rw [if_pos hobject, if_pos hobject]
              exact .proved
            · rw [if_neg hobject, if_neg hobject]
              by_cases htarget :
                  budget = maxSubtypeDepth ∧ T.classFacts target = none
              · rw [if_pos htarget]
                exact .undecidedLeft _
              · by_cases htarget' :
                    budget = maxSubtypeDepth ∧ T'.classFacts target = none
                · rw [if_pos htarget']
                  exact .undecidedRight _
                · rw [if_neg htarget, if_neg htarget']
                  cases hfacts : T.classFacts id with
                  | none => exact .undecidedLeft _
                  | some facts =>
                    rcases hext.classFacts hfacts with
                      ⟨facts', hfacts', hparams, hsups, hsame⟩
                    rw [hfacts']
                    exact .climbs ⟨hparams, hsups, hsame⟩ hargs
    | _ => exact .undecidedLeft _

theorem walk_unknown (d : Doubts) (T : ClassTable) (ask : Ask) (target : TypeId)
    (targetArgs : List TypeRef) (budget : Nat) (seen : List TypeRef) :
    d.walk T ask target targetArgs budget seen .unknown = some none := by
  cases budget <;> rfl

theorem superInstance_unknown (facts : ClassMetadata) (args : List TypeRef) :
    (if facts.isRaw args then TypeRef.unknown.erase
      else TypeRef.unknown.substitute (facts.environment args)) =
      TypeRef.unknown := by
  cases facts.isRaw args <;> rfl

/-!
The induction is on the depth left.  A supertype the first table did not
understand proves nothing, so every proving branch has its counterpart; a
refutation needs a complete hierarchy, which the second table repeats.
-/

theorem walk_agrees (hR : Refining R) (hext : T.ExtendedBy T') {d : Doubts} {target : TypeId}
    {targetArgs targetArgs' : List TypeRef} (budget : Nat) (seen seen' : List TypeRef)
    {actual actual' : TypeRef} (hactual : R actual actual')
    (hview : forall view view', List.Forall₂ R view view' ->
      forall v w, d.containsArgs ask view targetArgs = some v ->
        typeArgsContain ask' view' targetArgs' = some w -> Agrees v w)
    (hv : d.walk T ask target targetArgs budget seen actual = some v)
    (hw : isSubtype T' ask' target targetArgs' budget seen' actual' = some w) :
    Agrees v w := by
  induction budget generalizing seen seen' actual actual' v w with
  | zero =>
    cases hv
    exact agrees_none_left w
  | succ budget ih =>
    have hrules := walkRule_related hR hext target budget seen seen' hactual
    rw [Doubts.walk] at hv
    rw [isSubtype_succ] at hw
    generalize walkRule T target budget seen actual = rule at *
    generalize walkRule T' target budget seen' actual' = rule' at *
    cases hrules with
    | undecidedLeft =>
      cases hv
      exact agrees_none_left w
    | undecidedRight =>
      cases hw
      exact agrees_none_right v
    | proved =>
      cases hv
      cases hw
      exact agrees_refl _
    | meets hargs => exact hview _ _ hargs v w hv hw
    | climbs hfacts hargs =>
      rename_i facts facts' args args'
      have hsup : forall sup, sup ∈ facts.supertypes ->
          AskAgrees
            (d.walk T ask target targetArgs budget (actual :: seen))
            (isSubtype T' ask' target targetArgs' budget (actual' :: seen'))
            (if facts.isRaw args then sup.erase
              else sup.substitute (facts.environment args))
            (if facts'.isRaw args' then sup.erase
              else sup.substitute (facts'.environment args')) := by
        intro sup hmem v' w' hv' hw'
        exact ih (actual :: seen) (actual' :: seen')
          (superInstance_related hR hfacts.typeParameters hargs sup) hv' hw'
      refine anyProved_agrees ?_ ?_ hv hw
      · intro x hx hproved
        rcases List.mem_map.mp hx with ⟨sup, hmem, hinst⟩
        subst hinst
        have hknown : sup ≠ .unknown := by
          intro hunknown
          subst hunknown
          rw [superInstance_unknown, walk_unknown] at hproved
          cases hproved
        refine ⟨_, List.mem_map.mpr ⟨sup, ?_, rfl⟩, hsup sup hmem⟩
        exact hfacts.supertypes sup hmem hknown
      · intro hcomplete y hy
        have hsame : facts' = facts :=
          hfacts.complete (by simpa using hcomplete)
        rcases List.mem_map.mp hy with ⟨sup, hmem, hinst⟩
        subst hinst
        rw [hsame] at hmem
        exact ⟨_, List.mem_map.mpr ⟨sup, hmem, rfl⟩, hsup sup hmem⟩

/-!
# Steps and runs agree
-/

theorem step_agrees (hR : Refining R) (hext : T.ExtendedBy T')
    (horigins : OriginsKept T T') {d : Doubts} (hstable : Stable R d) {q' : Question}
    (hq : RelatedQuestions R q q')
    (hsilent : forall p v, Undecided p -> ask p = some v -> v = none)
    (hforeign : forall p, Foreign T p -> ask p ≠ some (some true))
    (hforeign' : forall p, Foreign T' p -> ask' p ≠ some (some true))
    (hask : forall p p', RelatedQuestions R p p' -> AskAgrees ask ask' p p')
    (hv : d.step T ask q = some v) (hw : assignableStep T' ask' q' = some w) :
    Agrees v w := by
  rcases q with ⟨a, e⟩
  rcases q' with ⟨a', e'⟩
  rw [Doubts.step] at hv
  cases hdoubt : d.leaves (a, e) with
  | true =>
    rw [hdoubt] at hv
    cases hv
    exact agrees_none_left w
  | false =>
    rw [hdoubt] at hv
    have hrules := stepRule_related hR hext horigins hstable hq.left hq.right hdoubt
    rw [assignableStep_eq_eval] at hw
    generalize stepRule T (a, e) = rule at *
    generalize stepRule T' (a', e') = rule' at *
    cases hrules with
    | undecided =>
      cases hv
      exact agrees_none_left w
    | decided hagrees =>
      cases hv
      cases hw
      exact hagrees
    | silent _ hundecided =>
      rw [hsilent _ v hundecided hv]
      exact agrees_none_left w
    | gained hbox =>
      cases hw
      apply agrees_of_cases
      · rintro rfl
        exact absurd hv (hforeign _ hbox)
      · intro _ htrue
        cases htrue
    | lost hbox =>
      cases hv
      apply agrees_of_cases
      · intro htrue
        cases htrue
      · rintro _ rfl
        exact hforeign' _ hbox hw
    | asks hrel => exact hask _ _ hrel v w hv hw
    | tries bounds hrel =>
      rename_i expected expected'
      have hbound : forall b, AskAgrees (fun b => ask (b, expected))
          (fun b => ask' (b, expected')) b b := by
        intro b
        exact hask _ _ ⟨hR.refl b, hrel⟩
      refine anyProved_agrees ?_ ?_ hv hw
      · intro b hb _hproved
        exact ⟨b, hb, hbound b⟩
      · intro _hcomplete b hb
        exact ⟨b, hb, hbound b⟩
    | walks target hactual hargs =>
      refine walk_agrees hR hext _ _ _ hactual ?_ hv hw
      intro view view' hrel v' w' hv' hw'
      exact containsArgs_agrees hR hstable hrel hargs hask hv' hw'

theorem run_undecided {d : Doubts} {fuel : Nat} (h : Undecided q)
    (hrun : OpenRecursion.run (d.step T) fuel q = some v) : v = none := by
  cases fuel with
  | zero => cases hrun
  | succ fuel =>
    rw [OpenRecursion.run_succ] at hrun
    cases h with
    | actual e =>
      cases hrun
      rfl
    | expected a => cases a <;> cases hrun <;> rfl

theorem run_foreign {d : Doubts} {fuel : Nat} (h : Foreign T q) :
    OpenRecursion.run (d.step T) fuel q ≠ some (some true) := by
  intro hrun
  cases fuel with
  | zero => cases hrun
  | succ fuel =>
    cases h with
    | @boxed p b args hforeign =>
      have hobject : TypeId.named b ≠ .named "java.lang.Object" := by
        intro heq
        exact hforeign (.inl (TypeId.named.inj heq))
      have hnil : views T (.named b) (maxSubtypeDepth + 1) [] (TypeRef.ofName p.boxFqn) = [] := by
        by_contra hne
        exact hforeign (.inr ⟨p, hne⟩)
      exact d.walk_of_views_nil hobject _ _ _ hnil hrun

theorem runs_agree (hR : Refining R) (hext : T.ExtendedBy T') (horigins : OriginsKept T T')
    {d : Doubts} (hstable : Stable R d) (fuel fuel' : Nat) {q' : Question}
    (hq : RelatedQuestions R q q')
    (hv : OpenRecursion.run (d.step T) fuel q = some v)
    (hw : OpenRecursion.run (assignableStep T') fuel' q' = some w) :
    Agrees v w := by
  induction fuel generalizing fuel' q q' v w with
  | zero => cases hv
  | succ fuel ih =>
    cases fuel' with
    | zero => cases hw
    | succ fuel' =>
      rw [OpenRecursion.run_succ] at hv hw
      refine step_agrees hR hext horigins hstable hq ?_ ?_ ?_ ?_ hv hw
      · intro p u hundecided hrun
        exact run_undecided hundecided hrun
      · intro p hbox
        exact run_foreign hbox
      · intro p hbox
        rw [← Doubts.step_nothing]
        exact run_foreign hbox
      · intro p p' hrel u u' hu hu'
        exact ih fuel' hrel hu hu'

end JavaVsixLite
