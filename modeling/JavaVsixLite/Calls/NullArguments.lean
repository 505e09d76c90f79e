import JavaVsixLite.Calls.NoApplicable

/-!
# Null arguments

The null type converts to every reference type.  A declared parameter is seen
through the bindings of the receiver's type arguments, and a wildcard among
these is put in the place of the parameter itself: the comparison then no longer
sees a reference type and rejects the argument.
-/

namespace JavaVsixLite

open Foundation
open Foundation.Verdict
open TypeRef

def TypeRef.isWildcard : TypeRef -> Bool
  | .wildcard _ _ => true
  | _ => false

/-- Bindings as a receiver type writes them: references and wildcards. -/
def ReceiverEnv (env : TypeEnv) : Prop :=
  forall entry, entry ∈ env ->
    entry.2.isReference = true ∨ entry.2.isWildcard = true

def bindingOf (env : TypeEnv) (v : TypeVariableId) : Option TypeRef :=
  (env.find? (fun entry => entry.1 == v)).map (fun entry => entry.2)

/-- The parameter is a type variable in whose place a wildcard is put. -/
def ReplacedByWildcard (env : TypeEnv) (p : TypeRef) : Prop :=
  exists v upper lower,
    p = .typeVariable v ∧ bindingOf env v = some (.wildcard upper lower)

variable {T : ClassTable} {fuel : Nat}

/-!
# One parameter
-/

theorem substitute_typeVariable (env : TypeEnv) (v : TypeVariableId) :
    (TypeRef.typeVariable v).substitute env =
      (bindingOf env v).getD (.typeVariable v) := by
  rw [substitute, bindingOf]
  cases env.find? (fun entry => entry.1 == v) with
  | none => rfl
  | some entry => rfl

variable {env : TypeEnv} {t p : TypeRef}

theorem ReceiverEnv.bindingOf (henv : ReceiverEnv env) {v : TypeVariableId}
    (h : bindingOf env v = some t) :
    t.isReference = true ∨ t.isWildcard = true := by
  rcases Option.map_eq_some_iff.mp h with ⟨entry, hfound, heq⟩
  rw [← heq]
  exact henv entry (List.mem_of_find?_eq_some hfound)

theorem substitute_isReference (hp : p.isReference = true) (henv : ReceiverEnv env)
    (hkept : ¬ ReplacedByWildcard env p) :
    (p.substitute env).isReference = true := by
  cases p with
  | typeVariable v =>
    rw [substitute_typeVariable]
    cases hbound : bindingOf env v with
    | none => rfl
    | some t =>
      cases henv.bindingOf hbound with
      | inl hreference => exact hreference
      | inr hwildcard =>
        cases t with
        | wildcard upper lower =>
          exact absurd ⟨v, upper, lower, rfl, hbound⟩ hkept
        | _ => cases hwildcard
  | named id args => rfl
  | array element => rfl
  | null => rfl
  | _ => cases hp

theorem run_null_of_reference (h : t.isReference = true) :
    OpenRecursion.run (assignableStep T) (fuel + 1) (.null, t) =
      some (some true) := by
  cases t with
  | named id args => rfl
  | array element => rfl
  | typeVariable v => rfl
  | null => rfl
  | _ => cases h

theorem convertible_null (ask : Ask) (phase : Phase)
    (h : t.isReference = true ∨ t.isWildcard = true) :
    convertible ask phase (.null, t) = ask (.null, t) := by
  cases t with
  | primitive p =>
    cases h with
    | inl h => cases h
    | inr h => cases h
  | _ => rfl

theorem convertible_null_of_kept (hp : p.isReference = true) (henv : ReceiverEnv env)
    (hkept : ¬ ReplacedByWildcard env p) (phase : Phase) :
    convertible (OpenRecursion.run (assignableStep T) fuel) phase
      (.null, p.substitute env) ≠ some (some false) := by
  have hreference := substitute_isReference hp henv hkept
  rw [convertible_null _ phase (Or.inl hreference)]
  cases fuel with
  | zero => exact Option.some_ne_none _ |>.symm
  | succ fuel =>
    rw [run_null_of_reference hreference]
    decide

theorem convertible_null_of_replaced (h : ReplacedByWildcard env p) (phase : Phase) :
    convertible (OpenRecursion.run (assignableStep T) (fuel + 1)) phase
      (.null, p.substitute env) = some (some false) := by
  rcases h with ⟨v, upper, lower, heq, hbound⟩
  rw [heq, substitute_typeVariable, hbound]
  rfl

/-!
# A call with a null argument
-/

/-- A method that declares the one parameter `p`. -/
def TakesOne (c : Candidate) (p : TypeRef) : Prop :=
  c.metadata.parameters = some [p]

theorem applicable_of_one {ask : Ask} {c : Candidate} {arg : TypeRef} (htakes : TakesOne c p)
    (h : convertible ask .strict (arg, p.substitute c.env) ≠ some (some false)) :
    applicableIn ask c [arg] .strict ≠ some (some false) := by
  have hparams : c.parameterTypes = some [p.substitute c.env] := by
    rw [Candidate.parameterTypes, htakes]
    rfl
  have harity : arityExcluded c 1 = false := by
    rw [arityExcluded, htakes]
    cases c.metadata.isVarargs <;> rfl
  rw [applicableIn, hparams]
  simp only [List.length_singleton, harity]
  split
  · simp
  · intro hfalse
    rcases allProved_false hfalse with ⟨q, hq, hrejected⟩
    rw [List.mem_singleton.mp hq] at hrejected
    exact h hrejected

/-!
# Null is accepted unless a wildcard replaces the parameter
-/

/--
Null is never rejected for a reference parameter exactly when no wildcard is put
in the parameter's place.  A call that passes null to a method of one such
parameter is then not reported.
-/
theorem null_accepted_iff (T : ClassTable) (p : TypeRef) (env : TypeEnv)
    (hp : p.isReference = true) (henv : ReceiverEnv env) :
    ((forall phase fuel,
        convertible (OpenRecursion.run (assignableStep T) fuel) phase
          (.null, p.substitute env) ≠ some (some false)) <->
      ¬ ReplacedByWildcard env p) ∧
    (¬ ReplacedByWildcard env p ->
      forall candidates c, c ∈ candidates -> TakesOne c p -> c.env = env ->
        forall n fuel,
          selectCandidate (OpenRecursion.run (assignableStep T) fuel) candidates
            [.null] ≠ some (.noApplicable n)) := by
  constructor
  · constructor
    · intro hnever hreplaced
      exact hnever .strict 1 (convertible_null_of_replaced hreplaced .strict)
    · intro hkept phase fuel
      exact convertible_null_of_kept hp henv hkept phase
  · intro hkept candidates c hc htakes hcenv n fuel hreport
    have hrejected := rejected_of_selectCandidate hreport hc .strict
    apply applicable_of_one htakes _ hrejected
    rw [hcenv]
    exact convertible_null_of_kept hp henv hkept .strict

namespace ListOfAnything

def element : TypeVariableId := ⟨"java.util.List", 0⟩

/-- `add(E)` as a receiver of type `List<?>` sees it. -/
def add : Candidate where
  metadata :=
    { parameters := some [.typeVariable element]
      typeParameters := []
      isVarargs := false }
  env := [(element, .wildcard none none)]
  inferred := []

def table : ClassTable := ⟨[]⟩

theorem receiverEnv : ReceiverEnv add.env := by
  intro entry hentry
  rw [List.mem_singleton.mp hentry]
  exact Or.inr rfl

/-- `xs.add(null)` is reported for a list of type `List<?>`. -/
theorem null_rejected :
    ReceiverEnv add.env ∧ (TypeRef.typeVariable element).isReference = true ∧
    convertible (OpenRecursion.run (assignableStep table) 1) .strict
        (.null, (TypeRef.typeVariable element).substitute add.env) =
          some (some false) ∧
      selectCandidate (OpenRecursion.run (assignableStep table) 1) [add]
        [.null] = some (.noApplicable 1) := by
  refine ⟨receiverEnv, rfl, ?_, ?_⟩
  · decide
  · decide

/-- `xs.add(null)` is not reported for a list of type `List<String>`. -/
def addString : Candidate :=
  { add with env := [(element, TypeRef.ofName "java.lang.String")] }

theorem null_accepted :
    selectCandidate (OpenRecursion.run (assignableStep table) 1) [addString]
      [.null] ≠ some (.noApplicable 1) := by
  have henv : ReceiverEnv addString.env := by
    intro entry hentry
    rw [List.mem_singleton.mp hentry]
    exact Or.inl rfl
  apply (null_accepted_iff table (.typeVariable element) addString.env rfl
    henv).right _ [addString] addString List.mem_cons_self rfl rfl
  rintro ⟨v, upper, lower, hv, hbound⟩
  cases hv
  cases hbound

end ListOfAnything

end JavaVsixLite
