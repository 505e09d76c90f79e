import JavaVsixLite.Calls.Widening

/-!
# Rejected calls

A call is reported when every candidate is rejected under the bindings inferred
for its open variables.  The report is an error as long as no candidate accepts
the arguments under any other binding.
-/

namespace JavaVsixLite

open Foundation
open Foundation.Verdict
open TypeRef

variable {T : ClassTable} {ask : Ask} {args : List TypeRef} {c : Candidate} {fuel : Nat}

/-!
# Reports that are not proven

Two kinds of calls are reported for the bindings alone: a variable bound from
the first of two arguments, and a variable bound to the bound of a wildcard
instead of the captured argument.
-/

theorem selectCandidate_rejected
    (h : forall phase, applicableIn ask c args phase = some (some false)) :
    selectCandidate ask [c] args = some (.noApplicable 1) := by
  simp [selectCandidate, selectIn, applicableOnes, h]

theorem run_same_class (T : ClassTable) (fuel : Nat) (id : TypeId) :
    OpenRecursion.run (assignableStep T) (fuel + 1) (.named id [], .named id []) =
      some (some true) := by
  rw [OpenRecursion.run_succ, assignableStep_eq_eval]
  show isSubtype T _ id [] (maxSubtypeDepth + 1) [] (.named id []) = _
  rw [isSubtype_succ]
  simp [walkRule, typeArgsContain]

/-- A constructor `(V, V)` of a class with the one parameter `V`. -/
def pairConstructor (v : TypeVariableId) : MemberMetadata where
  parameters := some [.typeVariable v, .typeVariable v]
  typeParameters := []
  isVarargs := false

theorem pair_parameterTypes (v : TypeVariableId) (c : Candidate) (t : TypeRef)
    (hmetadata : c.metadata = pairConstructor v) (henv : c.env = [(v, t)]) :
    c.parameterTypes = some [t, t] := by
  simp [Candidate.parameterTypes, hmetadata, henv, pairConstructor, substitute]

theorem diamond_not_proven (T : ClassTable) (fuel : Nat) (v : TypeVariableId)
    (first second : TypeId) (secondArgs : List TypeRef)
    (h : OpenRecursion.run (assignableStep T) fuel
      (.named second secondArgs, .named first []) = some (some false)) :
    ¬ DiamondReportProven T fuel [⟨v, []⟩] [pairConstructor v]
      [.named first [], .named second secondArgs] := by
  intro hproven
  have hparams : (diamondCandidate [⟨v, []⟩]
      [.named first [], .named second secondArgs]
      (pairConstructor v)).parameterTypes =
        some [.named first [], .named first []] := by
    apply pair_parameterTypes v _ _ rfl
    simp [diamondCandidate, inferEnvFromArgs, pairConstructor]
  have hreport : selectDiamond (OpenRecursion.run (assignableStep T) fuel)
      [⟨v, []⟩] [pairConstructor v]
      [.named first [], .named second secondArgs] = some (.noApplicable 1) := by
    apply selectCandidate_rejected
    intro phase
    cases fuel with
    | zero => cases h
    | succ fuel =>
      unfold applicableIn
      rw [hparams]
      cases phase <;>
        simp [diamondCandidate, pairConstructor, allProved, convertible,
          containsUnknown, run_same_class, h]
  apply hproven 1 hreport (pairConstructor v) List.mem_cons_self .strict
    (fun _ => TypeRef.objectRef) 1
  have hassigned : ((diamondCandidate [⟨v, []⟩]
      [.named first [], .named second secondArgs] (pairConstructor v)).withEnv
        ([] ++ bindAll [v] (fun _ => TypeRef.objectRef))).parameterTypes =
          some [TypeRef.objectRef, TypeRef.objectRef] :=
    pair_parameterTypes v _ _ rfl rfl
  unfold applicableIn
  simp only [List.map_cons, List.map_nil]
  rw [hassigned]
  have haccepts := run_object T 0
  simp [TypeRef.objectRef, TypeRef.ofName, allProved, convertible,
    containsUnknown] at haccepts ⊢
  simp [haccepts]

theorem diamond_rejected (v : TypeVariableId) (first second : TypeId)
    (secondArgs : List TypeRef) {n : Nat}
    (h : selectDiamond (OpenRecursion.run (assignableStep T) fuel) [⟨v, []⟩]
      [pairConstructor v] [.named first [], .named second secondArgs] =
        some (.noApplicable n)) :
    OpenRecursion.run (assignableStep T) fuel
      (.named second secondArgs, .named first []) = some (some false) := by
  have hrejected := rejected_of_selectCandidate h List.mem_cons_self .strict
  unfold applicableIn at hrejected
  rw [pair_parameterTypes v _ (.named first []) rfl
    (by simp [diamondCandidate, inferEnvFromArgs, pairConstructor])] at hrejected
  simp only [containsUnknown, containsUnknownArgs_eq, List.any_nil, List.any_cons,
    Bool.or_self, Bool.false_eq_true, if_false, List.length_cons, List.length_nil,
    bne_self_eq_false, List.zip_cons_cons, List.zip_nil_right] at hrejected
  rcases allProved_false hrejected with ⟨pair, hpair, hfalse⟩
  rcases List.mem_cons.mp hpair with rfl | hrest
  · cases fuel with
    | zero => cases hfalse
    | succ fuel => exact absurd ((run_same_class T fuel first).symm.trans hfalse) (by decide)
  · rw [List.mem_singleton] at hrest
    subst hrest
    exact hfalse

theorem diamond_proven_iff (T : ClassTable) (fuel : Nat) (v : TypeVariableId)
    (first second : TypeId) (secondArgs : List TypeRef) :
    DiamondReportProven T fuel [⟨v, []⟩] [pairConstructor v]
        [.named first [], .named second secondArgs] <->
      OpenRecursion.run (assignableStep T) fuel
        (.named second secondArgs, .named first []) ≠ some (some false) := by
  constructor
  · intro hproven hrejected
    exact diamond_not_proven T fuel v first second secondArgs hrejected hproven
  · intro hfits n hreport
    exact absurd (diamond_rejected v first second secondArgs hreport) hfits

/-- A method `<V> m(G<V>)` for a generic class `G`. -/
def genericMethod (v : TypeVariableId) (generic : TypeId) : Candidate where
  metadata :=
    { parameters := some [.named generic [.typeVariable v]]
      typeParameters := [⟨v, []⟩]
      isVarargs := false }
  env := []
  inferred := []

/-- An argument `G<? extends B>`. -/
def extendsArgument (generic bound : TypeId) : TypeRef :=
  .named generic [.wildcard (some (.named bound [])) none]

theorem generic_parameterTypes (v : TypeVariableId) (generic : TypeId)
    (t : TypeRef) :
    ((genericMethod v generic).withEnv [(v, t)]).parameterTypes =
      some [.named generic [t]] := by
  simp [Candidate.parameterTypes, Candidate.withEnv, genericMethod, substitute]

theorem collect_same_class (T : ClassTable) (params : List TypeVariableId) (id : TypeId)
    {args' : List TypeRef} (inferred : Inferred) (h : args.length = args'.length) :
    collectMethodInference T params (.named id args) (.named id args') inferred =
      collectArgsInference T params args args' inferred := by
  rw [collectMethodInference]
  simp only [openActual, if_true, h]

theorem collect_wildcard_bound (T : ClassTable) (v : TypeVariableId)
    (generic bound : TypeId) :
    collectMethodInference T [v] (.named generic [.typeVariable v])
      (extendsArgument generic bound) [] = [(v, some (.named bound []))] := by
  rw [extendsArgument, collect_same_class]
  rw [collectArgsInference, collectArgsInference, collectMethodInference]
  · simp [openActual, boxedActual, recordBinding]
  all_goals simp

theorem generic_inferred (T : ClassTable) (ask : Ask) (v : TypeVariableId)
    (generic bound : TypeId) :
    inferMethodTypeArguments T ask [extendsArgument generic bound]
      (genericMethod v generic) =
        some ((genericMethod v generic).withEnv [(v, .named bound [])]) := by
  have hcollected : collectArguments T (genericMethod v generic)
      [.named generic [.typeVariable v]] [extendsArgument generic bound] =
        [(v, some (.named bound []))] := by
    rw [← collect_wildcard_bound T v generic bound]
    rfl
  simp only [inferMethodTypeArguments, genericMethod] at hcollected ⊢
  rw [hcollected]
  simp [acceptBindings, boundsHold, Candidate.withEnv]

theorem run_generic (T : ClassTable) (fuel : Nat) (generic : TypeId)
    (x y : TypeRef) :
    OpenRecursion.run (assignableStep T) (fuel + 1)
      (.named generic [x], .named generic [y]) =
        allProved (fun pair => argumentContains
          (OpenRecursion.run (assignableStep T) fuel) pair.1 pair.2) false
          [(x, y)] := by
  rw [OpenRecursion.run_succ, assignableStep_eq_eval]
  show isSubtype T _ generic [y] (maxSubtypeDepth + 1) [] (.named generic [x]) = _
  rw [isSubtype_succ]
  simp [walkRule, typeArgsContain]

theorem method_not_proven (T : ClassTable) (fuel : Nat) (v : TypeVariableId)
    (generic bound : TypeId) :
    ¬ MethodReportProven T (fuel + 1) [genericMethod v generic]
      [extendsArgument generic bound] := by
  intro hproven
  have hreport : selectMethod T
      (OpenRecursion.run (assignableStep T) (fuel + 1)) [genericMethod v generic]
      [extendsArgument generic bound] = some (.noApplicable 1) := by
    unfold selectMethod
    simp only [List.mapM_cons, List.mapM_nil, generic_inferred]
    apply selectCandidate_rejected
    intro phase
    unfold applicableIn
    rw [generic_parameterTypes]
    cases phase <;>
      simp [Candidate.withEnv, genericMethod, extendsArgument, allProved,
        convertible, containsUnknown, run_generic, argumentContains]
  apply hproven 1 hreport (genericMethod v generic) List.mem_cons_self .strict
    (fun _ => .wildcard (some (.named bound [])) none) 2
  show applicableIn _ ((genericMethod v generic).withEnv
    [(v, .wildcard (some (.named bound [])) none)]) _ _ = _
  unfold applicableIn
  rw [generic_parameterTypes]
  simp [extendsArgument, allProved, convertible, containsUnknown, run_generic,
    argumentContains, run_same_class]

namespace ListOfWildcard

def element : TypeVariableId := ⟨"demo.Util.m(java.util.List)", 0⟩

def listId : TypeId := .named "java.util.List"

def fooId : TypeId := .named "demo.Foo"

def table : ClassTable := ⟨[]⟩

/-- `<T> void m(T value, int n)`. -/
def counted : Candidate where
  metadata :=
    { parameters := some [.typeVariable element, .primitive .int]
      typeParameters := [⟨element, []⟩]
      isVarargs := false }
  env := []
  inferred := []

/-- `static <T> void m(Pair<String, List<T>> pair)`. -/
def paired : Candidate where
  metadata :=
    { parameters := some [NestedLists.pairOf NestedLists.stringRef
        (NestedLists.listOf (.typeVariable element))]
      typeParameters := [⟨element, []⟩]
      isVarargs := false }
  env := []
  inferred := []

/-- The first arguments are no match, whatever the list is of. -/
example : RefusedAnyway table paired [] [element]
    [NestedLists.pairOf TypeRef.objectRef (NestedLists.listOf (.named fooId []))] := by
  refine .inr (fun form => ⟨_, rfl, ?_⟩)
  cases form with
  | fixed => exact .inr ⟨_, rfl, _, List.mem_cons_self, 1, by decide⟩
  | variableArity => exact .inl (.inl rfl)

end ListOfWildcard

end JavaVsixLite
