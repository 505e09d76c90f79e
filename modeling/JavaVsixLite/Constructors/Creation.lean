import JavaVsixLite.Calls.NoApplicable
import JavaVsixLite.Fingerprint.Lowering

/-!
# Instance creation

`new T(...)` is resolved in two steps: whether the class can be instantiated
from the place of the call at all, and which of its constructors takes the
arguments.  The outer option of a result is the absence of an answer from the
comparisons of types.
-/

namespace JavaVsixLite
namespace Constructors

open Foundation
open Foundation.Verdict
open Fingerprint (Access)

/-- The part of a class that semantic checks read. -/
structure ClassFacts where
  metadata : Fingerprint.ClassMetadata
  members : List Fingerprint.ExternalMember

/-- `class_facts` of a declaration that was lowered. -/
def ClassFacts.ofExternal (c : Fingerprint.ExternalClass) : Option ClassFacts :=
  c.metadata.map (fun metadata => { metadata := metadata, members := c.members })

inductive CallResolution where
  | selected (result : TypeRef) (declaring : String) (access : Access)
  | noApplicable (candidates : Nat)
  | ambiguous
  | unknown

inductive InstantiationError where
  | abstract (kind : TypeKind)
  | inaccessible
  | needsEnclosingInstance

/--
A creation expression with what its surroundings say about it: `entered` is the
nesting guard, `created` the written type, `classFacts` the facts of classes,
`surrounding` the binary names of the declarations around the call, innermost
first, `arguments` the types of the arguments, `targetEnv` the bindings that the
target type gives a diamond, and `inferDiamond` the type a diamond stands for.
-/
structure Creation where
  entered : Bool
  created : Option TypeRef
  classFacts : TypeId -> Option ClassFacts
  anonymous : Bool
  qualified : Bool
  surrounding : List String
  arguments : Option (List TypeRef)
  diamond : Bool
  targetEnv : Option TypeEnv
  package : Option String
  inferDiamond : ClassFacts -> Candidate -> TypeRef

/-!
# Accessibility
-/

/-- `s.rsplit_once(separator)`, the part before. -/
def rsplitBefore (separator : Char) (s : String) : Option String :=
  match s.toList.reverse.span (fun c => c != separator) with
  | (_, _ :: rest) => some (String.ofList rest.reverse)
  | (_, []) => none

def nest (binary : String) : String :=
  String.ofList (binary.toList.takeWhile (fun c => c != '$'))

def packageOf (binary : String) : String :=
  (rsplitBefore '.' ((rsplitBefore '$' binary).getD binary)).getD ""

def constructorAccessible (access : Access) (declaring : String) (call : Creation) :
    Verdict :=
  match access with
  | .publicAccess => some true
  | .privateAccess =>
    some ((call.surrounding.head?.map nest) == some (nest declaring))
  | .packageAccess =>
    some (call.package.getD "" == packageOf declaring)
  | .protectedAccess =>
    if call.package.getD "" == packageOf declaring then some true else none

/-!
# Candidates
-/

def callable (m : Fingerprint.MemberMetadata) : MemberMetadata where
  parameters := m.parameters
  typeParameters := m.typeParameters
  isVarargs := m.isVarargs

/-- The metadata of the constructors among the members. -/
def ClassFacts.constructors (facts : ClassFacts) : List Fingerprint.MemberMetadata :=
  (facts.members.filter (fun m => m.kind == .constructor)).filterMap
    (fun m => m.metadata)

/--
A diamond takes its bindings from the target, or else each candidate infers its
own; an explicit argument list is shared by all candidates.
-/
def candidateOf (call : Creation) (facts : ClassFacts) (typeArgs : List TypeRef)
    (args : List TypeRef) (m : Fingerprint.MemberMetadata) : Candidate where
  metadata := callable m
  env :=
    if call.diamond then
      match call.targetEnv with
      | some fromTarget => fromTarget
      | none => inferEnvFromArgs facts.metadata.typeParameters (callable m) args
    else (facts.metadata.typeParameters.map (fun p => p.id)).zip typeArgs
  inferred :=
    if call.diamond then facts.metadata.typeParameters.map (fun p => p.id) else []

/-!
# Resolution
-/

/-- Whether the class can be instantiated, before any constructor is looked at. -/
def instantiable (call : Creation) (facts : ClassFacts) : Except InstantiationError Unit :=
  if facts.metadata.kind = .enum then .error (.abstract .enum)
  else if facts.metadata.kind = .classKind ∧ facts.metadata.isAbstract = true ∧
    call.anonymous = false then
    .error (.abstract .classKind)
  else if facts.metadata.isStatic = false ∧ facts.metadata.enclosingClass.isSome = true then
    if call.qualified || call.surrounding.any
      (fun b => some b == facts.metadata.enclosingClass) then
      .ok ()
    else .error .needsEnclosingInstance
  else .ok ()

def selectedResult (call : Creation) (facts : ClassFacts) (created : TypeRef)
    (typeArgs args : List TypeRef) (c : Candidate) : Except InstantiationError CallResolution :=
  match facts.constructors.find? (fun m => candidateOf call facts typeArgs args m == c) with
  | none => .ok .unknown
  | some m =>
    match constructorAccessible m.access m.declaringClass call with
    | some true =>
      .ok (.selected (if call.diamond then call.inferDiamond facts c else created)
        m.declaringClass m.access)
    | some false => .error .inaccessible
    | none => .ok .unknown

def selectionResult (call : Creation) (facts : ClassFacts) (created : TypeRef)
    (typeArgs args : List TypeRef) : Selection -> Except InstantiationError CallResolution
  | .selected c _ => selectedResult call facts created typeArgs args c
  | .noApplicable n => .ok (.noApplicable n)
  | .ambiguous => .ok .ambiguous
  | .unknown => .ok .unknown

def selectConstructor (ask : Ask) (call : Creation) (facts : ClassFacts)
    (created : TypeRef) (typeArgs : List TypeRef) :
    Option (Except InstantiationError CallResolution) :=
  if facts.metadata.constructorsComplete = false then some (.ok .unknown)
  else
    match call.arguments with
    | none => some (.ok .unknown)
    | some args =>
      (selectCandidate ask (facts.constructors.map (candidateOf call facts typeArgs args))
        args).map (selectionResult call facts created typeArgs args)

def resolveConstructorCall (ask : Ask) (call : Creation) :
    Option (Except InstantiationError CallResolution) :=
  if call.entered = false then some (.ok .unknown)
  else
    match call.created with
    | some (.named id typeArgs) =>
      match call.classFacts id with
      | none => some (.ok .unknown)
      | some facts =>
        if facts.metadata.kind = .interface ∨ facts.metadata.kind = TypeKind.annotation then
          if call.anonymous then
            some (.ok (.selected (.named id typeArgs) facts.metadata.id .publicAccess))
          else some (.error (.abstract facts.metadata.kind))
        else
          match instantiable call facts with
          | .error e => some (.error e)
          | .ok () => selectConstructor ask call facts (.named id typeArgs) typeArgs
    | _ => some (.ok .unknown)

/-!
# What a report says
-/

/-- A class, interfaces and annotations aside, that passes the checks by kind. -/
def Constructible (facts : ClassFacts) (call : Creation) : Prop :=
  facts.metadata.kind ≠ .interface ∧ facts.metadata.kind ≠ TypeKind.annotation ∧
    facts.metadata.kind ≠ .enum ∧
    ¬ (facts.metadata.kind = .classKind ∧ facts.metadata.isAbstract = true ∧
      call.anonymous = false)

def MissesEnclosing (facts : ClassFacts) (call : Creation) : Prop :=
  facts.metadata.isStatic = false ∧ call.qualified = false ∧
    exists outer, facts.metadata.enclosingClass = some outer ∧ outer ∉ call.surrounding

theorem instantiable_needs_iff (call : Creation) (facts : ClassFacts) :
    instantiable call facts = .error .needsEnclosingInstance <->
      facts.metadata.kind ≠ .enum ∧
        ¬ (facts.metadata.kind = .classKind ∧ facts.metadata.isAbstract = true ∧
          call.anonymous = false) ∧ MissesEnclosing facts call := by
  unfold instantiable MissesEnclosing
  by_cases henum : facts.metadata.kind = .enum
  · simp [henum]
  · rw [if_neg henum]
    by_cases habstract : facts.metadata.kind = .classKind ∧
        facts.metadata.isAbstract = true ∧ call.anonymous = false
    · simp [habstract]
    · rw [if_neg habstract]
      cases houter : facts.metadata.enclosingClass with
      | none => simp
      | some outer =>
        cases hstatic : facts.metadata.isStatic with
        | true => simp
        | false =>
          cases hqualified : call.qualified with
          | true => simp
          | false =>
            simp [henum, habstract]

/-- A selected constructor is at most inaccessible; nothing else is reported. -/
theorem selectedResult_reports_access (call : Creation) (facts : ClassFacts)
    (created : TypeRef) (typeArgs args : List TypeRef) (c : Candidate) :
    selectedResult call facts created typeArgs args c ≠ .error .needsEnclosingInstance ∧
      forall n, selectedResult call facts created typeArgs args c ≠ .ok (.noApplicable n) := by
  unfold selectedResult
  split
  · simp
  · split <;> simp

theorem selectionResult_ne_needs (call : Creation) (facts : ClassFacts) (created : TypeRef)
    (typeArgs args : List TypeRef) (s : Selection) :
    selectionResult call facts created typeArgs args s ≠ .error .needsEnclosingInstance := by
  intro h
  cases s with
  | selected c phase =>
    exact (selectedResult_reports_access call facts created typeArgs args c).left h
  | noApplicable n => cases h
  | ambiguous => cases h
  | unknown => cases h

theorem selection_of_report {call : Creation} {facts : ClassFacts} {created : TypeRef}
    {typeArgs args : List TypeRef} {s : Selection} {n : Nat}
    (h : selectionResult call facts created typeArgs args s = .ok (.noApplicable n)) :
    s = .noApplicable n := by
  cases s with
  | selected c phase =>
    exact absurd h
      ((selectedResult_reports_access call facts created typeArgs args c).right n)
  | noApplicable m =>
    cases h
    rfl
  | ambiguous => cases h
  | unknown => cases h

theorem selectConstructor_ne_needs (ask : Ask) (call : Creation) (facts : ClassFacts)
    (created : TypeRef) (typeArgs : List TypeRef) :
    selectConstructor ask call facts created typeArgs ≠
      some (.error .needsEnclosingInstance) := by
  intro h
  unfold selectConstructor at h
  split at h
  · cases h
  · split at h
    · cases h
    · rcases Option.map_eq_some_iff.mp h with ⟨s, _, hs⟩
      exact selectionResult_ne_needs call facts created typeArgs _ s hs

theorem resolve_needs_iff (ask : Ask) (call : Creation) :
    resolveConstructorCall ask call = some (.error .needsEnclosingInstance) <->
      call.entered = true ∧ exists id typeArgs facts, call.created = some (.named id typeArgs) ∧
        call.classFacts id = some facts ∧ Constructible facts call ∧
        MissesEnclosing facts call := by
  constructor
  · intro h
    unfold resolveConstructorCall at h
    split at h
    · cases h
    · rename_i hentered
      split at h
      · rename_i id typeArgs hcreated
        split at h
        · cases h
        · rename_i facts hfacts
          split at h
          · split at h <;> cases h
          · rename_i hkind
            split at h
            · rename_i e herror
              cases h
              rcases (instantiable_needs_iff call facts).mp herror with ⟨henum, habstract, hmisses⟩
              refine ⟨Bool.eq_true_of_not_eq_false hentered, id, typeArgs, facts, hcreated, hfacts,
                ⟨?_, ?_, henum, habstract⟩, hmisses⟩
              · intro hinterface
                exact hkind (Or.inl hinterface)
              · intro hannotation
                exact hkind (Or.inr hannotation)
            · exact absurd h (selectConstructor_ne_needs ask call facts _ _)
      · cases h
  · rintro ⟨hentered, id, typeArgs, facts, hcreated, hfacts,
      ⟨hinterface, hannotation, henum, habstract⟩, hmisses⟩
    have hinstantiable := (instantiable_needs_iff call facts).mpr ⟨henum, habstract, hmisses⟩
    simp [resolveConstructorCall, hentered, hcreated, hfacts, hinterface, hannotation,
      hinstantiable]

theorem rejected_of_report {ask : Ask} {call : Creation} {n : Nat}
    (h : resolveConstructorCall ask call = some (.ok (.noApplicable n))) :
    exists id typeArgs facts args, call.created = some (.named id typeArgs) ∧
      call.classFacts id = some facts ∧ facts.metadata.constructorsComplete = true ∧
      call.arguments = some args ∧
      forall m, m ∈ facts.constructors -> forall phase,
        applicableIn ask (candidateOf call facts typeArgs args m) args phase =
          some (some false) := by
  unfold resolveConstructorCall at h
  split at h
  · cases h
  · split at h
    · rename_i id typeArgs hcreated
      split at h
      · cases h
      · rename_i facts hfacts
        split at h
        · split at h <;> cases h
        · split at h
          · cases h
          · unfold selectConstructor at h
            split at h
            · cases h
            · rename_i hcomplete
              split at h
              · cases h
              · rename_i args hargs
                rcases Option.map_eq_some_iff.mp h with ⟨s, hs, hresult⟩
                rw [selection_of_report hresult] at hs
                refine ⟨id, typeArgs, facts, args, hcreated, hfacts,
                  Bool.eq_true_of_not_eq_false hcomplete, hargs, ?_⟩
                intro m hm phase
                exact rejected_of_selectCandidate hs (List.mem_map_of_mem hm) phase
    · cases h

end Constructors
end JavaVsixLite
