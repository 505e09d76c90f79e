import JavaVsixLite.Calls.Rejection

/-!
# The most permissive assignment

An open variable that stands between the angle brackets of a parameter accepts
most as the captured argument `?`, one that is a parameter itself as
`java.lang.Object`.  Where every variable stands in one of the two places only,
no assignment makes a candidate applicable unless this one does.
-/

namespace JavaVsixLite

open Foundation
open Foundation.Verdict
open TypeRef

/-!
# Widened verdicts
-/

/-- A verdict that is kept if it is a proof. -/
def Widens (v w : Verdict) : Prop :=
  v = some true -> w = some true

theorem widens_refl (v : Verdict) : Widens v v :=
  fun h => h

/-- Every answer of the first callee is widened by one of the second. -/
def AnswersWidened {α β : Type} (ask : α -> Option Verdict) (ask' : β -> Option Verdict)
    (x : α) (y : β) : Prop :=
  forall v, ask x = some v -> exists w, ask' y = some w ∧ Widens v w

theorem anyProved_widened {α : Type} {ask ask' : α -> Option Verdict} {xs : List α}
    (h : forall x, x ∈ xs -> AnswersWidened ask ask' x x) {unknown unknown' : Bool} :
    AnswersWidened (anyProved ask unknown) (anyProved ask' unknown') xs xs := by
  induction xs generalizing unknown unknown' with
  | nil =>
    intro v hv
    refine ⟨_, rfl, ?_⟩
    intro htrue
    subst htrue
    cases unknown <;> cases hv
  | cons x rest ih =>
    have hrest : forall y, y ∈ rest -> AnswersWidened ask ask' y y := by
      intro y hy
      exact h y (List.mem_cons_of_mem x hy)
    intro v hv
    rw [anyProved] at hv ⊢
    cases hx : ask x with
    | none =>
      rw [hx] at hv
      cases hv
    | some u =>
      rcases h x List.mem_cons_self u hx with ⟨u', hu', hwidens⟩
      rw [hx] at hv
      rw [hu']
      rcases u' with _ | _ | _
      · rcases u with _ | _ | _
        · exact ih hrest v hv
        · exact ih hrest v hv
        · cases hwidens rfl
      · rcases u with _ | _ | _
        · exact ih hrest v hv
        · exact ih hrest v hv
        · cases hwidens rfl
      · exact ⟨_, rfl, fun _ => rfl⟩

/-!
# Captured arguments
-/

def capture (ts : List TypeRef) : List TypeRef :=
  ts.map (fun _ => .wildcard none none)

@[simp] theorem capture_length (ts : List TypeRef) : (capture ts).length = ts.length := by
  simp [capture]

theorem typeArgsContain_capture (ask : Ask) (actual ts : List TypeRef) :
    typeArgsContain ask actual (capture ts) =
      some ((lengthVerdict actual.length ts.length).getD (some true)) := by
  rw [typeArgsContain_eq, capture_length]
  cases hlength : lengthVerdict actual.length ts.length with
  | some v => rfl
  | none =>
    have hcontains : forall pair, pair ∈ argumentPairs actual (capture ts) ->
        argumentContains ask pair.1 pair.2 = some (some true) := by
      rintro ⟨x, y⟩ hpair
      unfold argumentPairs at hpair
      rw [capture_length, hlength] at hpair
      rcases List.mem_map.mp (List.of_mem_zip hpair).right with ⟨t, _, rfl⟩
      cases x <;> rfl
    exact (allProved_of_decided hcontains).trans (by simp)

theorem typeArgsContain_widened (ask : Ask) (actual ts : List TypeRef) {v : Verdict}
    (h : typeArgsContain ask actual ts = some v) :
    exists w, typeArgsContain ask actual (capture ts) = some w ∧ Widens v w := by
  rw [typeArgsContain_capture]
  refine ⟨_, rfl, ?_⟩
  rintro rfl
  rw [typeArgsContain_eq] at h
  cases hlength : lengthVerdict actual.length ts.length with
  | some u =>
    rw [hlength] at h
    exact Option.some.inj h
  | none => rfl

variable {T : ClassTable} {ask : Ask} {target : TypeId} {ts : List TypeRef}

theorem isSubtype_widened (budget : Nat) (seen : List TypeRef) (actual : TypeRef) :
    AnswersWidened (isSubtype T ask target ts budget seen)
      (isSubtype T ask target (capture ts) budget seen) actual actual := by
  induction budget generalizing seen actual with
  | zero =>
    intro v hv
    exact ⟨v, hv, widens_refl v⟩
  | succ budget ih =>
    intro v hv
    rw [isSubtype_succ] at hv ⊢
    cases hrule : walkRule T target budget seen actual with
    | stops u =>
      rw [hrule] at hv
      exact ⟨v, hv, widens_refl v⟩
    | meets args =>
      rw [hrule] at hv
      exact typeArgsContain_widened ask args ts hv
    | climbs facts args =>
      rw [hrule] at hv
      exact anyProved_widened (fun sup _ => ih (actual :: seen) sup) v hv

/-- What fits a parameterized class fits it with its arguments captured. -/
theorem run_widened (fuel : Nat) (a : TypeRef) :
    AnswersWidened (OpenRecursion.run (assignableStep T) fuel)
      (OpenRecursion.run (assignableStep T) fuel)
      (a, .named target ts) (a, .named target (capture ts)) := by
  induction fuel generalizing a with
  | zero =>
    intro v hv
    cases hv
  | succ fuel ih =>
    intro v hv
    rw [OpenRecursion.run_succ, assignableStep_eq_eval] at hv ⊢
    cases a with
    | typeVariable x =>
      simp only [stepRule] at hv ⊢
      cases hbounds : T.variableBounds x with
      | none =>
        rw [hbounds] at hv
        exact ⟨v, hv, widens_refl v⟩
      | some bounds =>
        rw [hbounds] at hv
        exact anyProved_widened (fun b _ => ih b) v hv
    | wildcard upper lower =>
      cases upper with
      | none => exact ih _ v hv
      | some u => exact ih u v hv
    | primitive p =>
      cases target with
      | localClass document declaration => exact ⟨v, hv, widens_refl v⟩
      | named b =>
        simp only [stepRule] at hv ⊢
        cases hdeclared : T.declaresInProject b with
        | true =>
          rw [hdeclared] at hv
          exact ⟨v, hv, widens_refl v⟩
        | false =>
          rw [hdeclared] at hv
          cases hbox : PrimitiveType.fromBoxFqn b with
          | none =>
            rw [hbox] at hv
            exact ih _ v hv
          | some ep =>
            rw [hbox] at hv
            exact ⟨v, hv, widens_refl v⟩
    | named id args => exact isSubtype_widened _ _ _ v hv
    | array element => cases target <;> exact ⟨v, hv, widens_refl v⟩
    | _ => exact ⟨v, hv, widens_refl v⟩

/-!
# Open variables
-/

/-- What an open variable stands for at its most permissive. -/
def widest (bare : TypeVariableId -> Bool) (v : TypeVariableId) : TypeRef :=
  if bare v then TypeRef.objectRef else .wildcard none none

theorem run_object (T : ClassTable) (fuel : Nat) (id : TypeId)
    (args : List TypeRef) :
    OpenRecursion.run (assignableStep T) (fuel + 1)
      (.named id args, TypeRef.objectRef) = some (some true) := by
  rw [OpenRecursion.run_succ, assignableStep_eq_eval]
  show isSubtype T _ (.named "java.lang.Object") [] (maxSubtypeDepth + 1) []
    (.named id args) = _
  rw [isSubtype_succ]
  by_cases hid : id = .named "java.lang.Object"
  · simp [walkRule, typeArgsContain, hid]
  · simp [walkRule, hid]

/-- The types that `java.lang.Object` accepts in every class table. -/
def acceptedByObject : TypeRef -> Bool
  | .named _ _ => true
  | .array _ => true
  | .null => true
  | _ => false

/-- Where the open variables of one parameter stand, for the argument passed for it. -/
inductive Direct (base : TypeEnv) (vars : List TypeVariableId) (bare : TypeVariableId -> Bool) :
    TypeRef -> TypeRef -> Prop where
  | settled (a : TypeRef) {t : TypeRef} : (forall v, v ∈ t.mentioned -> v ∉ vars) ->
      Direct base vars bare a t
  | arguments (a : TypeRef) (id : TypeId) {vs : List TypeVariableId} :
      (forall v, v ∈ vs -> v ∈ vars ∧ boundTo base v = none ∧ bare v = false) ->
      Direct base vars bare a (.named id (vs.map TypeRef.typeVariable))
  | itself {a : TypeRef} {v : TypeVariableId} : acceptedByObject a = true ->
      v ∈ vars -> boundTo base v = none -> bare v = true ->
      Direct base vars bare a (.typeVariable v)

/-- Every open variable of the candidate stands in one kind of place only. -/
def DirectCall (c : Candidate) (base : TypeEnv) (vars : List TypeVariableId)
    (bare : TypeVariableId -> Bool) (args : List TypeRef) : Prop :=
  c.metadata.isVarargs = false ∧
    forall declared, c.metadata.parameters = some declared ->
      forall pair, pair ∈ args.zip declared -> Direct base vars bare pair.1 pair.2

variable {base : TypeEnv} {vars : List TypeVariableId} {bare : TypeVariableId -> Bool}
  {c : Candidate} {args : List TypeRef} {a t : TypeRef}

theorem boundTo_bindAll (assignment : TypeVariableId -> TypeRef) {v : TypeVariableId}
    (hv : v ∈ vars) (hbase : boundTo base v = none) :
    boundTo (base ++ bindAll vars assignment) v = some (assignment v) := by
  have hfree : base.find? (fun entry => entry.1 == v) = none := by
    unfold boundTo at hbase
    exact Option.map_eq_none_iff.mp hbase
  have hfound : (bindAll vars assignment).find? (fun entry => entry.1 == v) =
      some (v, assignment v) := by
    unfold bindAll
    rw [List.find?_map]
    have hfind : vars.find? (fun w => w == v) = some v := by
      cases hw : vars.find? (fun w => w == v) with
      | none =>
        rw [List.find?_eq_none] at hw
        exact absurd (beq_self_eq_true v) (hw v hv)
      | some w =>
        have heq := List.find?_some hw
        rw [eq_of_beq heq]
    rw [show ((fun entry => entry.1 == v) ∘ fun v => (v, assignment v)) = fun w => w == v
      from rfl, hfind]
    rfl
  simp [boundTo, List.find?_append, hfree, hfound]

theorem substitute_open (assignment : TypeVariableId -> TypeRef) {v : TypeVariableId}
    (hv : v ∈ vars) (hbase : boundTo base v = none) :
    substitute (base ++ bindAll vars assignment) (.typeVariable v) = assignment v := by
  rw [substitute_variable, boundTo_bindAll assignment hv hbase]
  rfl

theorem substitute_settled (assignment assignment' : TypeVariableId -> TypeRef)
    (h : forall v, v ∈ t.mentioned -> v ∉ vars) :
    t.substitute (base ++ bindAll vars assignment) =
      t.substitute (base ++ bindAll vars assignment') := by
  apply substitute_congr
  intro v hv
  rw [boundTo_bindAll_of_not_mem (h v hv), boundTo_bindAll_of_not_mem (h v hv)]

theorem substitute_arguments (assignment : TypeVariableId -> TypeRef) (id : TypeId)
    {vs : List TypeVariableId} (h : forall v, v ∈ vs -> v ∈ vars ∧ boundTo base v = none) :
    substitute (base ++ bindAll vars assignment)
        (.named id (vs.map TypeRef.typeVariable)) =
      .named id (vs.map assignment) := by
  simp only [substitute, substituteArgs_eq, List.map_map, named.injEq, true_and]
  apply List.map_congr_left
  intro v hv
  exact substitute_open assignment (h v hv).left (h v hv).right

theorem widest_arguments {vs : List TypeVariableId} (h : forall v, v ∈ vs -> bare v = false)
    (assignment : TypeVariableId -> TypeRef) :
    vs.map (widest bare) = capture (vs.map assignment) := by
  rw [capture, List.map_map]
  apply List.map_congr_left
  intro v hv
  simp [widest, h v hv]

theorem Direct.not_containsUnknown (h : Direct base vars bare a t)
    {assignment : TypeVariableId -> TypeRef}
    (hknown : (t.substitute (base ++ bindAll vars assignment)).containsUnknown = false) :
    (t.substitute (base ++ bindAll vars (widest bare))).containsUnknown = false := by
  cases h with
  | settled hsettled =>
    rw [substitute_settled (widest bare) assignment hsettled]
    exact hknown
  | @arguments id vs hvs =>
    rw [substitute_arguments _ id (fun v hv => ⟨(hvs v hv).left, (hvs v hv).right.left⟩),
      widest_arguments (fun v hv => (hvs v hv).right.right) assignment]
    simp [containsUnknown, capture]
  | itself _ hv hbase hbare =>
    rw [substitute_open _ hv hbase, widest, hbare]
    rfl

theorem convertible_mono {ask' : Ask} (hask : OpenRecursion.Extends ask ask') {phase : Phase}
    {q : Question} {v : Verdict} (h : convertible ask phase q = some v) :
    convertible ask' phase q = some v := by
  rcases q with ⟨a, e⟩
  cases a <;> cases e <;> cases phase <;> first | exact h | exact hask _ _ h

theorem run_acceptedByObject (h : acceptedByObject a = true) (fuel : Nat) :
    OpenRecursion.run (assignableStep T) (fuel + 1) (a, TypeRef.objectRef) =
      some (some true) := by
  unfold acceptedByObject at h
  split at h
  · exact run_object T fuel _ _
  · rfl
  · rfl
  · cases h

/-- An argument that some assignment accepts is accepted by the widest one. -/
theorem Direct.convertible_widened (h : Direct base vars bare a t)
    {assignment : TypeVariableId -> TypeRef} {phase : Phase} {fuel : Nat}
    (haccepts : convertible (OpenRecursion.run (assignableStep T) fuel) phase
      (a, t.substitute (base ++ bindAll vars assignment)) = some (some true)) :
    convertible (OpenRecursion.run (assignableStep T) (fuel + 1)) phase
      (a, t.substitute (base ++ bindAll vars (widest bare))) = some (some true) := by
  have hmono := OpenRecursion.run_extends_succ (assignableStep_monotone T) fuel
  cases h with
  | settled hsettled =>
    rw [substitute_settled (widest bare) assignment hsettled]
    exact convertible_mono hmono haccepts
  | @arguments id vs hvs =>
    have hopen : forall v, v ∈ vs -> v ∈ vars ∧ boundTo base v = none :=
      fun v hv => ⟨(hvs v hv).left, (hvs v hv).right.left⟩
    rw [substitute_arguments assignment id hopen] at haccepts
    rw [substitute_arguments _ id hopen,
      widest_arguments (fun v hv => (hvs v hv).right.right) assignment]
    have hwidened : forall p, OpenRecursion.run (assignableStep T) fuel
        (p, .named id (vs.map assignment)) = some (some true) ->
        OpenRecursion.run (assignableStep T) (fuel + 1)
          (p, .named id (capture (vs.map assignment))) = some (some true) := by
      intro p hp
      rcases run_widened fuel p _ hp with ⟨w, hw, hwidens⟩
      rw [hwidens rfl] at hw
      exact hmono _ _ hw
    cases a <;> cases phase <;> first | exact hwidened _ haccepts | cases haccepts
  | itself haccepted hv hbase hbare =>
    rw [substitute_open _ hv hbase, widest, hbare, if_pos rfl]
    have hobject := run_acceptedByObject (T := T) haccepted fuel
    cases a <;> first | exact hobject | cases haccepted

/-!
# Candidates
-/

/-- No phase accepts the candidate under the widest assignment. -/
def WidestRefused (T : ClassTable) (c : Candidate) (base : TypeEnv)
    (vars : List TypeVariableId) (bare : TypeVariableId -> Bool) (args : List TypeRef) : Prop :=
  forall phase fuel,
    applicableIn (OpenRecursion.run (assignableStep T) fuel)
      (c.withEnv (base ++ bindAll vars (widest bare))) args phase ≠ some (some true)

theorem applicableIn_fixed {phase : Phase} (hvarargs : c.metadata.isVarargs = false) :
    applicableIn ask c args phase = some (some true) <->
      exists params, c.parameterTypes = some params ∧ phase ≠ .varargs ∧
        params.any containsUnknown = false ∧ params.length = args.length ∧
        allProved (convertible ask phase) false (args.zip params) = some (some true) := by
  unfold applicableIn
  cases c.parameterTypes with
  | none => simp
  | some params =>
    simp only [Option.some.injEq, exists_eq_left']
    cases params.any containsUnknown with
    | true => cases arityExcluded c args.length <;> simp
    | false => by_cases hlength : params.length = args.length <;> cases phase <;>
        simp [hlength, hvarargs]

theorem zip_map_right {α β γ : Type} (f : β -> γ) (xs : List α) (ys : List β) :
    xs.zip (ys.map f) = (xs.zip ys).map (fun pair => (pair.1, f pair.2)) := by
  rw [List.zip_map_right]
  rfl

theorem applicableIn_widened (h : DirectCall c base vars bare args)
    {assignment : TypeVariableId -> TypeRef} {phase : Phase} {fuel : Nat}
    (happlicable : applicableIn (OpenRecursion.run (assignableStep T) fuel)
      (c.withEnv (base ++ bindAll vars assignment)) args phase = some (some true)) :
    applicableIn (OpenRecursion.run (assignableStep T) (fuel + 1))
      (c.withEnv (base ++ bindAll vars (widest bare))) args phase = some (some true) := by
  rw [applicableIn_fixed (by exact h.left)] at happlicable ⊢
  rcases happlicable with ⟨params, hparams, hphase, hknown, hlength, haccepts⟩
  rcases parameterTypes_withEnv hparams with ⟨declared, hdeclared, hmap⟩
  subst hmap
  have hdirect := h.right declared hdeclared
  rw [List.length_map] at hlength
  have hmem : forall t, t ∈ declared -> exists a, (a, t) ∈ args.zip declared := by
    intro t ht
    rcases List.mem_iff_getElem.mp ht with ⟨i, hi, rfl⟩
    refine ⟨args[i], List.mem_iff_getElem.mpr ⟨i, by simp; omega, ?_⟩⟩
    simp
  refine ⟨declared.map (substitute (base ++ bindAll vars (widest bare))), ?_, hphase, ?_,
    by rw [List.length_map]; exact hlength, ?_⟩
  · simp [Candidate.parameterTypes, Candidate.withEnv, hdeclared]
  · rw [List.any_map, List.any_eq_false] at hknown ⊢
    intro t ht
    rcases hmem t ht with ⟨a, hpair⟩
    have hfree := hknown t ht
    simp only [Function.comp, Bool.not_eq_true] at hfree ⊢
    exact (hdirect _ hpair).not_containsUnknown hfree
  · rw [zip_map_right, allProved_map]
    rw [zip_map_right, allProved_map] at haccepts
    have hall := (allProved_true haccepts).right
    have hwidened : forall pair, pair ∈ args.zip declared ->
        convertible (OpenRecursion.run (assignableStep T) (fuel + 1)) phase
          (pair.1, pair.2.substitute (base ++ bindAll vars (widest bare))) =
            some (some true) := by
      intro pair hpair
      exact (hdirect pair hpair).convertible_widened (hall pair hpair)
    exact (allProved_of_decided hwidened).trans (by simp)

/-- The widest assignment decides whether some assignment makes the candidate applicable. -/
theorem neverApplicable_iff_widestRefused (h : DirectCall c base vars bare args) :
    NeverApplicable T c base vars args <-> WidestRefused T c base vars bare args := by
  constructor
  · intro hnever phase fuel
    exact hnever phase (widest bare) fuel
  · intro hrefused phase assignment fuel happlicable
    exact hrefused phase (fuel + 1) (applicableIn_widened h happlicable)

end JavaVsixLite
