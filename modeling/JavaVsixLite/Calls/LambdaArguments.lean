import JavaVsixLite.Calls.LambdaBodies
import JavaVsixLite.Calls.Selection
import JavaVsixLite.Foundation.ReentrantMemo

/-!
# Overload selection with lambdas among the arguments

Whether a lambda fits a parameter depends on the shape of its body, and the type of a
lambda's parameter on the method that is selected for the call around it.  Resolving a
call is therefore a computation that asks for shapes, and that opens a scope of the
request's nesting counter for every expression and for every call.
-/

namespace JavaVsixLite
namespace Calls

open Foundation
open Foundation.Verdict

abbrev Resolving (L A : Type) := Query L BodyShape A

structure Overload extends Candidate where
  result : TypeRef

inductive Argument (L : Type) where
  | value (type : TypeRef)
  | lambda (l : L) (parameters : List (Option TypeRef))

/-- What resolution looks up in the classes of the project and the classpath. -/
structure Lookups where
  assignable : TypeRef -> TypeRef -> Verdict
  functionalDescriptor : TypeRef -> Option FunctionDescriptor
  /-- The methods of a receiver, or of the enclosing type, their own variables still free. -/
  methodCandidates : Option TypeRef -> Text -> Option (List Overload)
  /-- Binds the variables of a method from the arguments that are values. -/
  inferMethodTypeArguments : List (Option TypeRef) -> Overload -> Overload
  /-- The result of the first method of a name. -/
  findMethod : Option TypeRef -> Text -> Option TypeRef
  fromTypeRef : TypeRef -> Option TypeRef

variable {L A B : Type}

def Lookups.ask (T : Lookups) : Ask :=
  fun q => some (T.assignable q.1 q.2)

def andThen (first : Resolving L (Option A)) (next : A -> Resolving L (Option B)) :
    Resolving L (Option B) :=
  first.bind (fun found =>
    match found with
    | none => .done none
    | some a => next a)

def entered (resolution : Resolving L (Option A)) : Resolving L (Option A) :=
  .nested none resolution

/-!
# Applicability
-/

def lambdaCompatibleTo (T : Lookups) (l : L) (parameters : List (Option TypeRef))
    (target : TypeRef) : Resolving L Verdict :=
  match T.functionalDescriptor target with
  | none => .done none
  | some descriptor =>
    if parameters.length ≠ descriptor.parameters.length then .done (some false)
    else
      .ask l (fun shape =>
        .done (lambdaCompatible T.ask shape parameters (some descriptor)).join)

def argumentCompatible (T : Lookups) (phase : Phase) :
    Argument L -> TypeRef -> Resolving L Verdict
  | .value type, parameter => .done (convertible T.ask phase (type, parameter)).join
  | .lambda l parameters, parameter => lambdaCompatibleTo T l parameters parameter

/-- The checks are made one after the other, up to the first that fails. -/
def allCompatible (unknown : Bool) : List (Resolving L Verdict) -> Resolving L Verdict
  | [] => .done (if unknown then none else some true)
  | check :: rest =>
    check.bind (fun verdict =>
      match verdict with
      | some false => .done (some false)
      | some true => allCompatible unknown rest
      | none => allCompatible true rest)

def collected : List (Resolving L A) -> Resolving L (List A)
  | [] => .done []
  | first :: rest => first.bind (fun a => (collected rest).bind (fun as => .done (a :: as)))

def applicableWithVarargs (T : Lookups) (parameters : List TypeRef)
    (arguments : List (Argument L)) : Resolving L Verdict :=
  match parameters.getLast? with
  | some (.array element) =>
    (collected
        (List.zipWith (argumentCompatible T .loose) arguments parameters.dropLast ++
          (arguments.drop parameters.dropLast.length).map
            (fun argument => argumentCompatible T .loose argument element))).bind
      (fun checks => .done (allProved some false checks).join)
  | _ => .done none

def applicableTo (T : Lookups) (candidate : Candidate) (arguments : List (Argument L))
    (phase : Phase) : Resolving L Verdict :=
  match candidate.parameterTypes with
  | none => .done none
  | some parameters =>
    if parameters.any TypeRef.containsUnknown then
      .done (if arityExcluded candidate arguments.length then some false else none)
    else
      match phase with
      | .varargs =>
        if !candidate.metadata.isVarargs || arguments.length + 1 < parameters.length then
          .done (some false)
        else applicableWithVarargs T parameters arguments
      | phase =>
        if parameters.length != arguments.length then .done (some false)
        else allCompatible false
          (List.zipWith (argumentCompatible T phase) arguments parameters)

/-!
# The most specific candidate
-/

def resultIsVoid (T : Lookups) (index : Nat) (m : Indexed) : Option Bool :=
  match m.2.parameterTypes with
  | none => none
  | some parameters =>
    ((parameters[index]?).bind T.functionalDescriptor).map
      (fun descriptor => descriptor.result == .void)

/-- The candidates with a result, if all others are known to have none. -/
def valueReturning (T : Lookups) (index : Nat) (kept : List Indexed) : List Indexed :=
  let values := kept.filter (fun m => resultIsVoid T index m == some false)
  let voids := kept.filter (fun m => resultIsVoid T index m == some true)
  if !values.isEmpty && values.length + voids.length == kept.length then values else kept

def narrowByLambdaResult (T : Lookups) :
    List (Argument L × Nat) -> List Indexed -> Resolving L (List Indexed)
  | [], kept => .done kept
  | (.value _, _) :: rest, kept => narrowByLambdaResult T rest kept
  | (.lambda l _, index) :: rest, kept =>
    .ask l (fun shape =>
      if shape = .either ∨ shape = .valueOnly then
        narrowByLambdaResult T rest (valueReturning T index kept)
      else narrowByLambdaResult T rest kept)

def winner (T : Lookups) (set : List Indexed) : Option Indexed :=
  (subtypingWinner T.ask set set none).join

def onlyOrWinner (T : Lookups) : List Indexed -> Option Indexed
  | [only] => some only
  | set => winner T set

def mostSpecificFor (T : Lookups) (applicable : List Indexed) (arguments : List (Argument L)) :
    Resolving L (Option Indexed) :=
  match applicable with
  | [only] => .done (some only)
  | _ =>
    match winner T applicable with
    | some best => .done (some best)
    | none =>
      (narrowByLambdaResult T arguments.zipIdx applicable).bind (fun narrowed =>
        if narrowed.length < applicable.length then .done (onlyOrWinner T narrowed)
        else
          let byVariable := narrowByInferenceVariables applicable
          if byVariable.length < applicable.length then .done (onlyOrWinner T byVariable)
          else .done none)

/-!
# Selection
-/

def selectPhases (T : Lookups) (candidates : List Overload) (arguments : List (Argument L)) :
    List Phase -> Resolving L (Option (Overload × Phase))
  | [] => .done none
  | phase :: rest =>
    (collected (candidates.map (fun c => applicableTo T c.toCandidate arguments phase))).bind
      (fun verdicts =>
        let applicable := applicableOnes (candidates.map Overload.toCandidate) verdicts
        if none ∈ verdicts then .done none
        else if applicable.isEmpty then selectPhases T candidates arguments rest
        else
          andThen (mostSpecificFor T applicable arguments) (fun best =>
            .done ((candidates[best.1]?).map (fun c => (c, phase)))))

def selectOverload (T : Lookups) (candidates : List Overload) (arguments : List (Argument L)) :
    Resolving L (Option (Overload × Phase)) :=
  selectPhases T candidates arguments [.strict, .loose, .varargs]

def Argument.valueType : Argument L -> Option TypeRef
  | .value type => some type
  | .lambda _ _ => none

def selectNamed (T : Lookups) (receiver : Option TypeRef) (name : Text)
    (arguments : List (Argument L)) : Resolving L (Option (Overload × Phase)) :=
  match T.methodCandidates receiver name with
  | none => .done none
  | some candidates =>
    selectOverload T
      (candidates.map (T.inferMethodTypeArguments (arguments.map Argument.valueType)))
      arguments

def selectedResult (T : Lookups) (selected : Overload × Phase) : Option TypeRef :=
  T.fromTypeRef (selected.1.result.substitute selected.1.env)

def selectedParameter (selected : Overload × Phase) (index : Nat) : Option TypeRef :=
  match selected.1.parameterTypes with
  | none => none
  | some parameters =>
    if selected.2 = .varargs ∧ parameters.length - 1 ≤ index then
      match parameters.getLast? with
      | some (.array element) => some element
      | _ => none
    else parameters[index]?

/-!
# Expressions
-/

/-- A name of a declared type, a parameter whose type is left to be inferred, or a call. -/
inductive Expression (L : Type) where
  | known (type : Option TypeRef)
  | parameter (l : L) (index : Nat)
  | lambda (l : L) (parameters : List (Option TypeRef))
  | unqualified (name : Text) (arguments : List (Expression L))
  | qualified (object : Expression L) (name : Text) (arguments : List (Expression L))

inductive MethodLookup where
  | unique
  | first

section Expressions

variable (T : Lookups) (inferred : L -> Nat -> Resolving L (Option TypeRef))

mutual
/-- `resolve_receiver_depth`; the depth of one walk stays below the nesting. -/
def resolveReceiver (lookup : MethodLookup) : Expression L -> Resolving L (Option TypeRef)
  | .known type => entered (.done type)
  | .parameter l index => entered (inferred l index)
  | .lambda _ _ => entered (.done none)
  | .unqualified name arguments =>
    entered
      (match lookup with
      | .unique =>
        andThen
          (entered
            (andThen (resolveArguments arguments) (fun arguments =>
              selectNamed T none name arguments)))
          (fun selected => .done (selectedResult T selected))
      | .first => .done (T.findMethod none name))
  | .qualified object name arguments =>
    entered
      (match lookup with
      | .unique =>
        andThen
          (entered
            (andThen (resolveReceiver .unique object) (fun receiver =>
              andThen (resolveArguments arguments) (fun arguments =>
                selectNamed T (some receiver) name arguments))))
          (fun selected => .done (selectedResult T selected))
      | .first =>
        andThen (resolveReceiver .first object) (fun receiver =>
          .done (T.findMethod (some receiver) name)))

def resolveArguments : List (Expression L) -> Resolving L (Option (List (Argument L)))
  | [] => .done (some [])
  | argument :: rest =>
    match argument with
    | .lambda l parameters =>
      andThen (resolveArguments rest) (fun arguments =>
        .done (some (.lambda l parameters :: arguments)))
    | argument =>
      andThen (resolveReceiver .unique argument) (fun type =>
        andThen (resolveArguments rest) (fun arguments =>
          .done (some (.value type :: arguments))))
end

/-- The type the call around an argument asks of it; the call itself is not entered. -/
def expectedArgumentType (call : Expression L) (index : Nat) :
    Resolving L (Option TypeRef) :=
  let selected :=
    match call with
    | .unqualified name arguments =>
      andThen (resolveArguments T inferred arguments) (fun arguments =>
        selectNamed T none name arguments)
    | .qualified object name arguments =>
      andThen
        ((resolveReceiver T inferred .unique object).bind (fun found =>
          match found with
          | some receiver => .done (some receiver)
          | none => resolveReceiver T inferred .first object))
        (fun receiver =>
          andThen (resolveArguments T inferred arguments) (fun arguments =>
            selectNamed T (some receiver) name arguments))
    | _ => .done none
  andThen selected (fun selected => .done (selectedParameter selected index))

end Expressions

/-!
# Documents
-/

inductive LambdaTarget (L : Type) where
  | declared (type : Option TypeRef)
  | argument (call : Expression L) (index : Nat)

/-- A body that is no call is known as it is written; a call is resolved. -/
inductive LambdaSource (L : Type) where
  | written (body : LambdaBody)
  | invocation (resolution : Resolving L (Option TypeRef))

/-- `compute_lambda_body_shape` -/
def LambdaSource.computeShape : LambdaSource L -> Resolving L BodyShape
  | .written body => .done (computeLambdaBodyShape body)
  | .invocation resolution =>
    resolution.bind (fun type =>
      .done (computeLambdaBodyShape (.expression .methodInvocation type)))

inductive LambdaCode (L : Type) where
  | written (body : LambdaBody)
  | invocation (call : Expression L)

/-- The lambdas of a document, each with its body and with what it is written for. -/
structure LambdaDocument (L : Type) where
  lookups : Lookups
  code : L -> LambdaCode L
  target : L -> LambdaTarget L

namespace LambdaDocument

variable (d : LambdaDocument L)

/-- Inferring the parameter of a lambda goes out through the lambdas around it. -/
def inferredLambdaParameterType : Nat -> L -> Nat -> Resolving L (Option TypeRef)
  | 0, _, _ => .done none
  | around + 1, l, index =>
    andThen
      (match d.target l with
      | .declared type => .done type
      | .argument call position =>
        expectedArgumentType d.lookups (inferredLambdaParameterType around) call position)
      (fun target =>
        .done ((d.lookups.functionalDescriptor target).bind
          (fun descriptor => descriptor.parameters[index]?)))

def sources [Fintype L] (l : L) : LambdaSource L :=
  match d.code l with
  | .written body => .written body
  | .invocation call =>
    .invocation
      (resolveReceiver d.lookups (d.inferredLambdaParameterType (Fintype.card L)) .unique call)

end LambdaDocument

end Calls
end JavaVsixLite
