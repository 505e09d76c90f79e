import JavaVsixLite.Foundation.OpenRecursion
import JavaVsixLite.Foundation.Verdict
import JavaVsixLite.Types.ClassTable

/-!
# The subtype engine

Assignment conversions and the substituted subtype walk, written as one step
over the callee `ask` that answers the nested comparisons.  The depth and path
guards live inside one walk only; every nested comparison starts a new walk.
-/

namespace JavaVsixLite

open Foundation
open Foundation.Verdict

/-- A comparison to decide: the actual type and the expected type. -/
abbrev Question := TypeRef × TypeRef

abbrev Ask := OpenRecursion.Callee Question Verdict

/-!
# Conversions
-/

/--
JLS 5.2: an `int`-family constant may still fit a smaller target, so that
direction stays undecided; every other narrowing is proven incompatible.
-/
def constantNarrowing (actual expected : PrimitiveType) : Verdict :=
  if actual ∈ [PrimitiveType.byte, .short, .char, .int] ∧
      expected ∈ [PrimitiveType.byte, .short, .char] then
    none
  else
    some false

def primitiveAssignable (actual expected : PrimitiveType) : Verdict :=
  if actual == expected || actual.widensTo expected then some true
  else constantNarrowing actual expected

def boxAssignable (actual expected : PrimitiveType) : Verdict :=
  if actual == expected then some true
  else constantNarrowing actual expected

def unboxAssignable (binary : String) (expected : PrimitiveType) : Verdict :=
  match PrimitiveType.fromBoxFqn binary with
  | some p => some (p == expected || p.widensTo expected)
  | none => some false

def arraySupertype (binary : String) : Bool :=
  binary ∈ ["java.lang.Object", "java.lang.Cloneable", "java.io.Serializable"]

/-!
# Type-argument containment
-/

/-- JLS 4.5.1 containment of one actual argument in one expected argument. -/
def argumentContains (ask : Ask) : TypeRef -> TypeRef -> Option Verdict
  | _, .wildcard none none => some (some true)
  | .unknown, _ => some none
  | _, .unknown => some none
  | .typeVariable _, _ => some none
  | _, .typeVariable _ => some none
  | .wildcard (some actualUpper) none, .wildcard (some expectedUpper) none =>
    ask (actualUpper, expectedUpper)
  | .wildcard none none, .wildcard (some expectedUpper) none =>
    ask (TypeRef.objectRef, expectedUpper)
  | .wildcard _ (some actualLower), .wildcard _ (some expectedLower) =>
    ask (expectedLower, actualLower)
  | .wildcard _ _, .wildcard (some _) none => some none
  | .wildcard _ _, .wildcard none (some _) => some none
  | actual, .wildcard (some expectedUpper) none => ask (actual, expectedUpper)
  | actual, .wildcard none (some expectedLower) => ask (expectedLower, actual)
  | .wildcard _ _, _ => some (some false)
  | actual, expected => some (some (decide (actual = expected)))

/--
A raw expected type accepts unconditionally; a raw actual type against a
parameterized one is undecided.
-/
def typeArgsContain (ask : Ask) (actual expected : List TypeRef) :
    Option Verdict :=
  if expected.isEmpty then some (some true)
  else if actual.isEmpty || actual.length != expected.length then some none
  else
    allProved (fun pair => argumentContains ask pair.1 pair.2) false
      (actual.zip expected)

/-!
# The subtype walk
-/

def maxSubtypeDepth : Nat := 64

/--
The walk of `is_subtype`.  The budget is `maxSubtypeDepth + 1 - depth`, so it is
full exactly at depth zero and empty exactly past the depth cap; `seen` is the
current path.
-/
def isSubtype (T : ClassTable) (ask : Ask) (target : TypeId)
    (targetArgs : List TypeRef) :
    Nat -> List TypeRef -> TypeRef -> Option Verdict
  | 0, _, _ => some none
  | budget + 1, seen, .named id args =>
    if .named id args ∈ seen then some none
    else if id = target then typeArgsContain ask args targetArgs
    else if target = .named "java.lang.Object" then some (some true)
    else if budget = maxSubtypeDepth ∧ T.classFacts target = none then
      some none
    else
      match T.classFacts id with
      | none => some none
      | some facts =>
        anyProved
          (isSubtype T ask target targetArgs budget (.named id args :: seen))
          (!facts.hierarchyComplete) (facts.superInstances args)
  | _ + 1, _, _ => some none

/-!
# Assignability
-/

/-- A variable without bounds is bounded by `java.lang.Object`. -/
def effectiveBounds (bounds : List TypeRef) : List TypeRef :=
  if bounds.isEmpty then [TypeRef.objectRef] else bounds

def elementAssignable (ask : Ask) : TypeRef -> TypeRef -> Option Verdict
  | .primitive x, .primitive y => some (some (x == y))
  | .primitive _, _ => some (some false)
  | _, .primitive _ => some (some false)
  | x, y => ask (x, y)

/-- One step of `assignable_refs`, in the order of its match arms. -/
def assignableStep (T : ClassTable) (ask : Ask) : Question -> Option Verdict
  | (.unknown, _) => some none
  | (_, .unknown) => some none
  | (.null, e) => some (some e.isReference)
  | (_, .null) => some (some false)
  | (.void, .void) => some (some true)
  | (.void, _) => some (some false)
  | (_, .void) => some (some false)
  | (.typeVariable v, e) =>
    match T.variableBounds v with
    | none => some none
    | some bounds =>
      anyProved (fun b => ask (b, e)) false (effectiveBounds bounds)
  | (_, .typeVariable _) => some none
  | (.wildcard (some upper) _, e) => ask (upper, e)
  | (.wildcard none _, e) => ask (TypeRef.objectRef, e)
  | (_, .wildcard _ _) => some none
  | (.primitive a, .primitive e) => some (primitiveAssignable a e)
  | (.primitive _, .named (.localClass _ _) _) => some (some false)
  | (.primitive a, .named (.named eb) eargs) =>
    if T.declaresInProject eb then some (some false)
    else
      match PrimitiveType.fromBoxFqn eb with
      | some ep => some (boxAssignable a ep)
      | none => ask (TypeRef.ofName a.boxFqn, .named (.named eb) eargs)
  | (.primitive _, _) => some (some false)
  | (.named (.named b) _, .primitive e) => some (unboxAssignable b e)
  | (_, .primitive _) => some (some false)
  | (.array a, .array e) => elementAssignable ask a e
  | (.array _, .named (.named b) _) => some (some (arraySupertype b))
  | (.array _, _) => some (some false)
  | (_, .array _) => some (some false)
  | (.named id args, .named eid eargs) =>
    isSubtype T ask eid eargs (maxSubtypeDepth + 1) [] (.named id args)

/-- Whether `actual` can be assigned where `expected` is declared. -/
def assignableRefs (T : ClassTable) (fuel : Nat) (actual expected : TypeRef) :
    Option Verdict :=
  OpenRecursion.run (assignableStep T) fuel (actual, expected)

end JavaVsixLite
