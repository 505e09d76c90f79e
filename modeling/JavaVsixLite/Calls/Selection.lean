import JavaVsixLite.Subtyping.Engine

/-!
# Overload selection

The three phases of JLS 15.12.2 over value arguments: applicability of one
candidate, the most specific of the applicable ones, and the choice among all.
Every comparison of types goes to the callee `ask`; the outer option of a result
is the absence of an answer from it.
-/

namespace JavaVsixLite

open Foundation
open Foundation.Verdict

/-- `parameters` is `none` for a field. -/
structure MemberMetadata where
  parameters : Option (List TypeRef)
  typeParameters : List TypeParameter
  isVarargs : Bool
deriving DecidableEq

/--
A method or constructor with the use-site substitution of the class variables
its signature mentions.  `inferred` lists the variables a diamond leaves open.
-/
structure Candidate where
  metadata : MemberMetadata
  env : TypeEnv
  inferred : List TypeVariableId
deriving DecidableEq

inductive Phase where
  | strict
  | loose
  | varargs
deriving DecidableEq

inductive Selection where
  | selected (candidate : Candidate) (phase : Phase)
  | noApplicable (candidates : Nat)
  | ambiguous
  | unknown
deriving DecidableEq

/-!
# Applicability
-/

/--
JLS 5.3 conversion in an invocation context: no constant narrowing in any phase,
no boxing or unboxing in the strict one.
-/
def convertible (ask : Ask) (phase : Phase) : Question -> Option Verdict
  | (.primitive a, .primitive p) => some (some (a == p || a.widensTo p))
  | (.primitive a, param) =>
    if phase = .strict then some (some false) else ask (.primitive a, param)
  | (arg, .primitive p) =>
    if phase = .strict then some (some false) else ask (arg, .primitive p)
  | (arg, param) => ask (arg, param)

def arityExcluded (c : Candidate) (n : Nat) : Bool :=
  match c.metadata.parameters with
  | some params =>
    if c.metadata.isVarargs then n + 1 < params.length else params.length != n
  | none => false

def Candidate.parameterTypes (c : Candidate) : Option (List TypeRef) :=
  c.metadata.parameters.map (fun params => params.map (TypeRef.substitute c.env))

def varargsPairs (fixed : List TypeRef) (element : TypeRef)
    (args : List TypeRef) : List Question :=
  args.zip fixed ++ (args.drop fixed.length).map (fun arg => (arg, element))

/--
All checks of the variable arity form are made before they are combined; a
parameter list without a last element is never variable arity in the source.
-/
def applicableVarargs (ask : Ask) (params args : List TypeRef) :
    Option Verdict :=
  match params.getLast? with
  | none => none
  | some (.array element) =>
    match (varargsPairs params.dropLast element args).mapM
        (convertible ask .loose) with
    | none => none
    | some checks => allProved some false checks
  | some _ => some none

def applicableIn (ask : Ask) (c : Candidate) (args : List TypeRef)
    (phase : Phase) : Option Verdict :=
  match c.parameterTypes with
  | none => some none
  | some params =>
    if params.any TypeRef.containsUnknown then
      if arityExcluded c args.length then some (some false) else some none
    else
      match phase with
      | .varargs =>
        if !c.metadata.isVarargs || args.length + 1 < params.length then
          some (some false)
        else applicableVarargs ask params args
      | phase =>
        if params.length != args.length then some (some false)
        else allProved (convertible ask phase) false (args.zip params)

/-!
# The most specific candidate

Candidates are compared by position, as the source compares them by address.
-/

abbrev Indexed := Nat × Candidate

def Indexed.parameterTypes (m : Indexed) : List TypeRef :=
  m.2.parameterTypes.getD []

inductive Dominance where
  | wins
  | loses
  | clash

def dominance (ask : Ask) (m : Indexed) : List Indexed -> Option Dominance
  | [] => some .wins
  | other :: rest =>
    if m.1 = other.1 then dominance ask m rest
    else if m.parameterTypes.length ≠ other.parameterTypes.length then
      some .clash
    else
      match allProved ask false (m.parameterTypes.zip other.parameterTypes) with
      | none => none
      | some (some true) => dominance ask m rest
      | some _ => some .loses

def subtypingWinner (ask : Ask) (set : List Indexed) :
    List Indexed -> Option Indexed -> Option (Option Indexed)
  | [], best => some best
  | m :: rest, best =>
    match dominance ask m set with
    | none => none
    | some .clash => some none
    | some .loses => subtypingWinner ask set rest best
    | some .wins =>
      match best with
      | some _ => some none
      | none => subtypingWinner ask set rest (some m)

def takesVariable (index : Nat) (m : Indexed) : Bool :=
  match (m.2.metadata.parameters.getD [])[index]? with
  | some (.typeVariable v) => v ∈ m.2.inferred
  | _ => false

/-- Prefer candidates that take an uninferred variable, position by position. -/
def narrowByInferenceVariables (applicable : List Indexed) : List Indexed :=
  let arity := fun m : Indexed => (m.2.metadata.parameters.getD []).length
  match applicable with
  | [] => []
  | first :: _ =>
    if applicable.any (fun m => arity m != arity first) then applicable
    else
      (List.range (arity first)).foldl
        (fun kept index =>
          let generic := kept.filter (takesVariable index)
          if !generic.isEmpty && generic.length < kept.length then generic
          else kept)
        applicable

def mostSpecific (ask : Ask) (applicable : List Indexed) :
    Option (Option Indexed) :=
  match applicable with
  | [only] => some (some only)
  | _ =>
    match subtypingWinner ask applicable applicable none with
    | none => none
    | some (some best) => some (some best)
    | some none =>
      let byVariable := narrowByInferenceVariables applicable
      if byVariable.length < applicable.length then
        match byVariable with
        | [only] => some (some only)
        | _ => subtypingWinner ask byVariable byVariable none
      else some none

/-!
# Selection
-/

def applicableOnes (candidates : List Candidate) (verdicts : List Verdict) :
    List Indexed :=
  ((candidates.zipIdx.zip verdicts).filter
    (fun entry => entry.2 == some true)).map
    (fun entry => (entry.1.2, entry.1.1))

def selectIn (ask : Ask) (candidates : List Candidate) (args : List TypeRef) :
    List Phase -> Option Selection
  | [] => some (.noApplicable candidates.length)
  | phase :: rest =>
    match candidates.mapM (fun c => applicableIn ask c args phase) with
    | none => none
    | some verdicts =>
      let applicable := applicableOnes candidates verdicts
      if none ∈ verdicts then some .unknown
      else if applicable.isEmpty then selectIn ask candidates args rest
      else
        match mostSpecific ask applicable with
        | none => none
        | some (some best) => some (.selected best.2 phase)
        | some none => some .ambiguous

def selectCandidate (ask : Ask) (candidates : List Candidate)
    (args : List TypeRef) : Option Selection :=
  if candidates.isEmpty then some .unknown
  else selectIn ask candidates args [.strict, .loose, .varargs]

end JavaVsixLite
