import JavaVsixLite.Calls.LambdaArguments

/-!
# The memo of lambda shapes

A request keeps the shape of every lambda it has asked about.  A lambda that is asked
about while its shape is computed has the unknown shape, and resolutions nest only up
to a limit; shapes that were computed under either are kept like all others.
-/

namespace JavaVsixLite
namespace Calls

open Foundation

def maxNesting : Nat := 64

variable {L : Type}

def shapeProgram (sources : L -> LambdaSource L) : MemoProgram L BodyShape where
  body := fun l => (sources l).computeShape
  unsettled := .unknown
  cap := maxNesting

/-- What a request keeps, `some none` for a shape that is still computed. -/
abbrev FactsCache (L : Type) := MemoProgram.Memo L BodyShape

variable [DecidableEq L] [Fintype L]

/-- `lambda_body_shape` at the nesting of the request. -/
def FactsCache.lambdaBodyShape (sources : L -> LambdaSource L) (nesting : Nat) (l : L)
    (cache : FactsCache L) : Option (BodyShape × FactsCache L) :=
  (shapeProgram sources).request nesting l cache

def freshShape (sources : L -> LambdaSource L) (l : L) : Option BodyShape :=
  (FactsCache.lambdaBodyShape sources 0 l MemoProgram.empty).map Prod.fst

def askShapes (sources : L -> LambdaSource L) (asks : List (Nat × L)) (cache : FactsCache L) :
    Option (List BodyShape × FactsCache L) :=
  (shapeProgram sources).session asks cache

/-- Every answer is the one of a fresh cache, and so is all that is kept. -/
def Transparent (sources : L -> LambdaSource L) (asks : List (Nat × L)) : Prop :=
  exists shapes cache, askShapes sources asks MemoProgram.empty = some (shapes, cache) ∧
    shapes.map some = asks.map (fun a => freshShape sources a.2) ∧
    forall l, cache l = none ∨ exists shape, cache l = some (some shape) ∧
      freshShape sources l = some shape

/--
Resolving the body, and the bodies of the lambdas that are asked about for it, reaches
the nesting limit nowhere and comes back to no lambda on its way but the one whose
shape is computed.
-/
def ShapeSettled (sources : L -> LambdaSource L) (nesting : Nat) (l : L) : Prop :=
  (shapeProgram sources).Settled nesting l

/--
In whatever order a request asks for its lambdas, it answers as with a fresh cache and
keeps no other shape, if every lambda it asks for is settled at its nesting.
-/
theorem shape_memo_transparent (sources : L -> LambdaSource L) (asks : List (Nat × L))
    (h : forall a, a ∈ asks -> ShapeSettled sources a.1 a.2) :
    forall order, List.Perm order asks -> Transparent sources order := by
  intro order hperm
  have hsettled : forall a, a ∈ order -> (shapeProgram sources).Settled a.1 a.2 :=
    fun a ha => h a (hperm.mem_iff.mp ha)
  rcases MemoProgram.session_settles hsettled MemoProgram.resting_empty with
    ⟨shapes, cache, hsession, hshapes, hresting⟩
  exists shapes, cache
  constructor
  · exact hsession
  · constructor
    · exact hshapes
    · intro l
      cases hentry : cache l with
      | none => exact Or.inl rfl
      | some entry =>
        cases entry with
        | none => exact absurd hentry (hresting.unmarked l)
        | some shape => exact Or.inr ⟨shape, rfl, hresting.fresh hentry⟩

/-!
# Lambdas inside of lambdas
-/

namespace NestedLambdas

def outerLambda : Fin 2 := 0

def innerLambda : Fin 2 := 1

def takesA : TypeRef := .ofName "demo.TakesA"

def runnable : TypeRef := .ofName "java.lang.Runnable"

def job : TypeRef := .ofName "demo.Job"

def classA : TypeRef := .ofName "demo.A"

def overload (parameter result : TypeRef) : Overload where
  metadata := { parameters := some [parameter], typeParameters := [], isVarargs := false }
  env := []
  inferred := []
  result := result

/--
`void outer(TakesA t)`, `void mid(Runnable r)`, `int mid(Job j)` and `void g(A a)`, with
`void take(A a)` in `TakesA` and `int run()` in `Job`.
-/
def lookups : Lookups where
  assignable := fun a b => some (a == b)
  functionalDescriptor := fun t =>
    if t == takesA then some { parameters := [classA], result := .void }
    else if t == runnable then some { parameters := [], result := .void }
    else if t == job then some { parameters := [], result := .primitive .int }
    else none
  methodCandidates := fun _ name =>
    if name = ['o', 'u', 't', 'e', 'r'] then some [overload takesA .void]
    else if name = ['m', 'i', 'd'] then
      some [overload runnable .void, overload job (.primitive .int)]
    else if name = ['g'] then some [overload classA .void]
    else none
  inferMethodTypeArguments := fun _ method => method
  findMethod := fun _ _ => none
  fromTypeRef := some

/-- `outer(x -> mid(() -> g(argument)))` -/
def nested (argument : Expression (Fin 2)) : LambdaDocument (Fin 2) where
  lookups := lookups
  code := fun l =>
    if l = outerLambda then
      .invocation (.unqualified ['m', 'i', 'd'] [.lambda innerLambda []])
    else .invocation (.unqualified ['g'] [argument])
  target := fun l =>
    if l = outerLambda then
      .argument (.unqualified ['o', 'u', 't', 'e', 'r'] [.lambda outerLambda [none]]) 0
    else .argument (.unqualified ['m', 'i', 'd'] [.lambda innerLambda []]) 0

/-- `outer(x -> mid(() -> g(x)))` -/
def throughParameter : LambdaDocument (Fin 2) :=
  nested (.parameter outerLambda 0)

/-- `outer(x -> mid(() -> g(a)))` with a variable `A a`. -/
def throughVariable : LambdaDocument (Fin 2) :=
  nested (.known (some classA))

/--
The inner lambda is `void` because of the type of `x`, and the outer one because of the
inner one.  Asked for first, the inner lambda needs the selection of `outer`, and that
the shape of the outer lambda, which is computed and kept without the one of the inner.
-/
theorem kept_shape_of_unfinished :
    ¬ (forall order, List.Perm order [(1, outerLambda), (1, innerLambda)] ->
      Transparent throughParameter.sources order) := by
  intro h
  have hperm : List.Perm [(1, innerLambda), (1, outerLambda)]
      [(1, outerLambda), (1, innerLambda)] := by
    decide
  have hanswers : (askShapes throughParameter.sources [(1, innerLambda), (1, outerLambda)]
      MemoProgram.empty).map Prod.fst = some [.voidOnly, .either] := by
    decide +kernel
  have hfresh : freshShape throughParameter.sources outerLambda = some .voidOnly := by
    decide +kernel
  rcases h _ hperm with ⟨shapes, cache, hsession, hshapes, _⟩
  rw [hsession] at hanswers
  cases hanswers
  simp [hfresh] at hshapes

theorem settled_variable (l : Fin 2) : ShapeSettled throughVariable.sources 1 l := by
  have hall : forall l : Fin 2,
      (shapeProgram throughVariable.sources).settled 3 1 l = some .voidOnly := by
    decide +kernel
  exact ⟨.voidOnly, MemoProgram.settled_sound _ 3 (hall l)⟩

/-- With a variable of a declared type the inner lambda does not depend on the outer one. -/
theorem variable_transparent :
    Transparent throughVariable.sources [(1, outerLambda), (1, innerLambda)] ∧
      Transparent throughVariable.sources [(1, innerLambda), (1, outerLambda)] := by
  have hsettled : forall a, a ∈ [(1, outerLambda), (1, innerLambda)] ->
      ShapeSettled throughVariable.sources a.1 a.2 := by
    intro a ha
    rcases List.mem_pair.mp ha with rfl | rfl
    · exact settled_variable outerLambda
    · exact settled_variable innerLambda
  constructor
  · exact shape_memo_transparent _ _ hsettled _ (List.Perm.refl _)
  · exact shape_memo_transparent _ _ hsettled _ (List.Perm.swap _ _ _)

end NestedLambdas

end Calls
end JavaVsixLite
