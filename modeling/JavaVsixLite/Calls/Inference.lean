import JavaVsixLite.Calls.Selection

/-!
# Type-argument inference

A generic method binds its variables from the argument types before it is
checked, a diamond creation binds the variables of its class from the first
argument passed for each.  What stays unbound stays a variable.
-/

namespace JavaVsixLite

open Foundation
open Foundation.Verdict

/-!
# Views through a supertype

The worklist of the source is a stack, so the supertypes pushed last are
explored first and the visited set is threaded through the whole search.
-/

def supertypeSearch (T : ClassTable) (target : TypeId) :
    Nat -> TypeRef -> List TypeRef -> Option TypeRef × List TypeRef
  | 0, _, visited => (none, visited)
  | budget + 1, .named id args, visited =>
    if .named id args ∈ visited then (none, visited)
    else if id = target then
      (some (.named id args), .named id args :: visited)
    else
      match T.classFacts id with
      | none => (none, .named id args :: visited)
      | some facts =>
        if !facts.hierarchyComplete then
          (none, .named id args :: visited)
        else
          (facts.supertypes.map
            (TypeRef.substitute (facts.environment args))).reverse.foldl
            (fun state sup =>
              match state.1 with
              | some found => (some found, state.2)
              | none => supertypeSearch T target budget sup state.2)
            (none, .named id args :: visited)
  | _ + 1, other, visited => (none, other :: visited)

def typeAsSupertype (T : ClassTable) (actual : TypeRef) (target : TypeId) :
    Option TypeRef :=
  (supertypeSearch T target (maxSubtypeDepth + 1) actual []).1

/-!
# Constraints from one argument
-/

/-- A variable with its binding, `none` once two arguments disagreed. -/
abbrev Inferred := List (TypeVariableId × Option TypeRef)

def openActual : TypeRef -> Option TypeRef
  | .wildcard (some upper) _ => some upper
  | .wildcard none (some lower) => some lower
  | .wildcard none none => none
  | .unknown => none
  | .null => none
  | actual => some actual

def boxedActual : TypeRef -> TypeRef
  | .primitive p => TypeRef.ofName p.boxFqn
  | other => other

def recordBinding (v : TypeVariableId) (actual : TypeRef) :
    Inferred -> Inferred
  | [] => [(v, some actual)]
  | (w, current) :: rest =>
    if w = v then
      match current with
      | some previous =>
        if previous = actual then (w, some previous) :: rest
        else (w, none) :: rest
      | none => (w, none) :: rest
    else (w, current) :: recordBinding v actual rest

mutual
def collectMethodInference (T : ClassTable) (params : List TypeVariableId) :
    TypeRef -> TypeRef -> Inferred -> Inferred
  | .typeVariable v, actual, inferred =>
    match openActual actual with
    | some opened =>
      if v ∈ params then recordBinding v (boxedActual opened) inferred
      else inferred
    | none => inferred
  | .array element, actual, inferred =>
    match openActual actual with
    | some (.array element') =>
      collectMethodInference T params element element' inferred
    | _ => inferred
  | .named id args, actual, inferred =>
    match openActual actual with
    | some (.named id' args') =>
      if id = id' then
        if args.length = args'.length then
          collectArgsInference T params args args' inferred
        else inferred
      else
        match typeAsSupertype T (.named id' args') id with
        | some (.named _ projected) =>
          if args.length = projected.length then
            collectArgsInference T params args projected inferred
          else inferred
        | _ => inferred
    | _ => inferred
  | .wildcard (some upper) _, actual, inferred =>
    match openActual actual with
    | some opened => collectMethodInference T params upper opened inferred
    | none => inferred
  | .wildcard none (some lower), actual, inferred =>
    match openActual actual with
    | some opened => collectMethodInference T params lower opened inferred
    | none => inferred
  | _, _, inferred => inferred

def collectArgsInference (T : ClassTable) (params : List TypeVariableId) :
    List TypeRef -> List TypeRef -> Inferred -> Inferred
  | formal :: formals, actual :: actuals, inferred =>
    collectArgsInference T params formals actuals
      (collectMethodInference T params formal actual inferred)
  | _, _, inferred => inferred
end

/-!
# Methods
-/

/--
The formal an argument is matched with: past the end the last one, and in a
variable arity position its element type unless a lone array is passed.
-/
def formalAt (c : Candidate) (params args : List TypeRef) (index : Nat)
    (actual : TypeRef) : Option TypeRef :=
  match params[index]?.or params.getLast? with
  | none => none
  | some (.array element) =>
    let loneArray :=
      args.length = params.length ∧ actual matches .array _
    if c.metadata.isVarargs ∧ params.length - 1 ≤ index ∧ ¬ loneArray then
      some element
    else some (.array element)
  | some formal => some formal

def collectArguments (T : ClassTable) (c : Candidate)
    (params args : List TypeRef) : Inferred :=
  args.zipIdx.foldl
    (fun inferred entry =>
      match formalAt c params args entry.2 entry.1 with
      | none => inferred
      | some formal =>
        collectMethodInference T (c.metadata.typeParameters.map (fun p => p.id))
          (formal.substitute c.env) entry.1 inferred)
    []

/-- Every bound is proved for the binding; the first doubt ends the check. -/
def boundsHold (ask : Ask) (env : TypeEnv) (actual : TypeRef) :
    List TypeRef -> Option Bool
  | [] => some true
  | bound :: rest =>
    match ask (actual, bound.substitute env) with
    | none => none
    | some (some true) => boundsHold ask env actual rest
    | some _ => some false

/-- Bindings are accepted in order, each seeing the ones accepted before. -/
def acceptBindings (ask : Ask) (params : List TypeParameter) :
    Inferred -> TypeEnv -> Option TypeEnv
  | [], env => some env
  | (_, none) :: rest, env => acceptBindings ask params rest env
  | (v, some actual) :: rest, env =>
    match params.find? (fun p => p.id == v) with
    | none => acceptBindings ask params rest env
    | some param =>
      match boundsHold ask env actual param.bounds with
      | none => none
      | some true => acceptBindings ask params rest (env ++ [(v, actual)])
      | some false => acceptBindings ask params rest env

def inferMethodTypeArguments (T : ClassTable) (ask : Ask) (args : List TypeRef)
    (c : Candidate) : Option Candidate :=
  if c.metadata.typeParameters.isEmpty then some c
  else
    match c.metadata.parameters with
    | none => some c
    | some params =>
      (acceptBindings ask c.metadata.typeParameters
        (collectArguments T c params args) c.env).map
        (fun env => { c with env := env })

/-- Selection as `method_call_inputs` prepares it. -/
def selectMethod (T : ClassTable) (ask : Ask) (candidates : List Candidate)
    (args : List TypeRef) : Option Selection :=
  match candidates.mapM (inferMethodTypeArguments T ask args) with
  | none => none
  | some prepared => selectCandidate ask prepared args

/-!
# Diamond creations
-/

/-- The first argument passed for a parameter that is the variable itself. -/
def inferEnvFromArgs (classParams : List TypeParameter) (m : MemberMetadata)
    (args : List TypeRef) : TypeEnv :=
  match m.parameters with
  | none => []
  | some params =>
    classParams.filterMap (fun p =>
      ((params.zip args).find?
        (fun pair => pair.1 == .typeVariable p.id)).map
        (fun pair => (p.id, pair.2)))

def diamondCandidate (classParams : List TypeParameter) (args : List TypeRef)
    (m : MemberMetadata) : Candidate where
  metadata := m
  env := inferEnvFromArgs classParams m args
  inferred := classParams.map (fun p => p.id)

/-- Selection among the constructors of a diamond creation without a target. -/
def selectDiamond (ask : Ask) (classParams : List TypeParameter)
    (constructors : List MemberMetadata) (args : List TypeRef) :
    Option Selection :=
  selectCandidate ask (constructors.map (diamondCandidate classParams args)) args

end JavaVsixLite
