import Mathlib.Data.List.Basic
import Mathlib.Data.List.Zip

/-!
# Structured Java types

The types shared by the bytecode reader and the source analyser.  Semantic
checks compare these values and never display strings; `TypeRef.unknown` means
that the type was not understood.
-/

namespace JavaVsixLite

inductive PrimitiveType where
  | boolean
  | byte
  | short
  | int
  | long
  | char
  | float
  | double
deriving DecidableEq

namespace PrimitiveType

def all : List PrimitiveType :=
  [boolean, byte, short, int, long, char, float, double]

def name : PrimitiveType -> String
  | boolean => "boolean"
  | byte => "byte"
  | short => "short"
  | int => "int"
  | long => "long"
  | char => "char"
  | float => "float"
  | double => "double"

def boxFqn : PrimitiveType -> String
  | boolean => "java.lang.Boolean"
  | byte => "java.lang.Byte"
  | short => "java.lang.Short"
  | int => "java.lang.Integer"
  | long => "java.lang.Long"
  | char => "java.lang.Character"
  | float => "java.lang.Float"
  | double => "java.lang.Double"

def fromBoxFqn (fqn : String) : Option PrimitiveType :=
  all.find? (fun p => p.boxFqn == fqn)

/-- JLS 5.1.2 widening primitive conversion, identity excluded. -/
def widensTo : PrimitiveType -> PrimitiveType -> Bool
  | byte, target => target ∈ [short, int, long, float, double]
  | short, target => target ∈ [int, long, float, double]
  | char, target => target ∈ [int, long, float, double]
  | int, target => target ∈ [long, float, double]
  | long, target => target ∈ [float, double]
  | float, target => target ∈ [double]
  | boolean, _ => false
  | double, _ => false

theorem fromBoxFqn_boxFqn (p : PrimitiveType) :
    fromBoxFqn p.boxFqn = some p := by
  cases p <;> rfl

theorem boxFqn_of_fromBoxFqn {fqn : String} {p : PrimitiveType}
    (h : fromBoxFqn fqn = some p) : p.boxFqn = fqn := by
  have hfound := List.find?_some h
  simpa using hfound

end PrimitiveType

/-- A binary name, or a local class that has none outside its request. -/
inductive TypeId where
  | named (binary : String)
  | localClass (document declaration : Nat)
deriving DecidableEq

def TypeId.asNamed : TypeId -> Option String
  | .named binary => some binary
  | .localClass _ _ => none

/-- A type variable is its declaring owner and index, never its letter. -/
structure TypeVariableId where
  owner : String
  index : Nat
deriving DecidableEq

/-- Empty `args` of a named type is a raw or non-generic use. -/
inductive TypeRef where
  | primitive (p : PrimitiveType)
  | void
  | null
  | named (id : TypeId) (args : List TypeRef)
  | array (element : TypeRef)
  | typeVariable (v : TypeVariableId)
  | wildcard (upper lower : Option TypeRef)
  | unknown

abbrev TypeEnv := List (TypeVariableId × TypeRef)

namespace TypeRef

def ofName (fqn : String) : TypeRef :=
  named (TypeId.named fqn) []

def objectRef : TypeRef :=
  ofName "java.lang.Object"

def isReference : TypeRef -> Bool
  | named _ _ => true
  | array _ => true
  | typeVariable _ => true
  | null => true
  | _ => false

/-!
# Structural recursion

Types nest through argument lists and wildcard bounds, so each structural
function comes with its two companions.
-/

@[elab_as_elim]
theorem induct {motive : TypeRef -> Prop}
    (primitive : forall p, motive (.primitive p))
    (void : motive .void)
    (null : motive .null)
    (named : forall id args, (forall t, t ∈ args -> motive t) ->
      motive (.named id args))
    (array : forall element, motive element -> motive (.array element))
    (typeVariable : forall v, motive (.typeVariable v))
    (wildcard : forall upper lower, (forall t, t ∈ upper -> motive t) ->
      (forall t, t ∈ lower -> motive t) -> motive (.wildcard upper lower))
    (unknown : motive .unknown) (t : TypeRef) : motive t := by
  refine @TypeRef.rec motive
    (fun args => forall t, t ∈ args -> motive t)
    (fun bound => forall t, t ∈ bound -> motive t)
    primitive void null ?_ ?_ typeVariable ?_ unknown ?_ ?_ ?_ ?_ t
  · intro id args hargs
    exact named id args hargs
  · intro element helement
    exact array element helement
  · intro upper lower hupper hlower
    exact wildcard upper lower hupper hlower
  · intro t ht
    cases ht
  · intro head tail hhead htail t ht
    rcases List.mem_cons.mp ht with heq | hmem
    · rw [heq]
      exact hhead
    · exact htail t hmem
  · intro t ht
    cases ht
  · intro bound hbound t ht
    rw [← Option.mem_some.mp ht]
    exact hbound

mutual
def beq : TypeRef -> TypeRef -> Bool
  | .primitive p, .primitive q => p == q
  | .void, .void => true
  | .null, .null => true
  | .named id args, .named id' args' => id == id' && beqArgs args args'
  | .array element, .array element' => beq element element'
  | .typeVariable v, .typeVariable v' => v == v'
  | .wildcard upper lower, .wildcard upper' lower' =>
    beqBound upper upper' && beqBound lower lower'
  | .unknown, .unknown => true
  | _, _ => false

def beqArgs : List TypeRef -> List TypeRef -> Bool
  | [], [] => true
  | t :: rest, t' :: rest' => beq t t' && beqArgs rest rest'
  | _, _ => false

def beqBound : Option TypeRef -> Option TypeRef -> Bool
  | none, none => true
  | some t, some t' => beq t t'
  | _, _ => false
end

theorem beqArgs_iff {args args' : List TypeRef}
    (h : forall t, t ∈ args -> forall t', beq t t' = true <-> t = t') :
    beqArgs args args' = true <-> args = args' := by
  induction args generalizing args' with
  | nil => cases args' <;> simp [beqArgs]
  | cons t rest ih =>
    cases args' with
    | nil => simp [beqArgs]
    | cons t' rest' =>
      have hhead := h t List.mem_cons_self t'
      have htail : beqArgs rest rest' = true <-> rest = rest' :=
        ih (fun u hu => h u (List.mem_cons_of_mem t hu))
      simp [beqArgs, hhead, htail]

theorem beqBound_iff {bound bound' : Option TypeRef}
    (h : forall t, t ∈ bound -> forall t', beq t t' = true <-> t = t') :
    beqBound bound bound' = true <-> bound = bound' := by
  cases bound with
  | none => cases bound' <;> simp [beqBound]
  | some t =>
    cases bound' with
    | none => simp [beqBound]
    | some t' => simp [beqBound, h t rfl t']

theorem beq_iff (t t' : TypeRef) : beq t t' = true <-> t = t' := by
  induction t using induct generalizing t' with
  | named id args ih =>
    cases t' <;> simp [beq, beqArgs_iff ih]
  | array element ih =>
    cases t' <;> simp [beq, ih]
  | wildcard upper lower ihu ihl =>
    cases t' <;> simp [beq, beqBound_iff ihu, beqBound_iff ihl]
  | _ => cases t' <;> simp [beq]

instance : DecidableEq TypeRef :=
  fun t t' => decidable_of_iff (beq t t' = true) (beq_iff t t')

mutual
def containsUnknown : TypeRef -> Bool
  | .unknown => true
  | .named _ args => containsUnknownArgs args
  | .array element => containsUnknown element
  | .wildcard upper lower =>
    containsUnknownBound upper || containsUnknownBound lower
  | _ => false

def containsUnknownArgs : List TypeRef -> Bool
  | [] => false
  | t :: rest => containsUnknown t || containsUnknownArgs rest

def containsUnknownBound : Option TypeRef -> Bool
  | none => false
  | some t => containsUnknown t
end

@[simp] theorem containsUnknownArgs_eq (args : List TypeRef) :
    containsUnknownArgs args = args.any containsUnknown := by
  induction args with
  | nil => rfl
  | cons t rest ih => simp [containsUnknownArgs, ih]

@[simp] theorem containsUnknownBound_eq (bound : Option TypeRef) :
    containsUnknownBound bound = bound.any containsUnknown := by
  cases bound <;> rfl

mutual
def containsLowerBound : TypeRef -> Bool
  | .named _ args => containsLowerBoundArgs args
  | .array element => containsLowerBound element
  | .wildcard upper lower => lower.isSome || containsLowerBoundUpper upper
  | _ => false

def containsLowerBoundArgs : List TypeRef -> Bool
  | [] => false
  | t :: rest => containsLowerBound t || containsLowerBoundArgs rest

def containsLowerBoundUpper : Option TypeRef -> Bool
  | none => false
  | some t => containsLowerBound t
end

@[simp] theorem containsLowerBoundArgs_eq (args : List TypeRef) :
    containsLowerBoundArgs args = args.any containsLowerBound := by
  induction args with
  | nil => rfl
  | cons t rest ih => simp [containsLowerBoundArgs, ih]

mutual
def hasTypeVariable : TypeRef -> Bool
  | .typeVariable _ => true
  | .named _ args => hasTypeVariableArgs args
  | .array element => hasTypeVariable element
  | .wildcard upper lower =>
    hasTypeVariableBound upper || hasTypeVariableBound lower
  | _ => false

def hasTypeVariableArgs : List TypeRef -> Bool
  | [] => false
  | t :: rest => hasTypeVariable t || hasTypeVariableArgs rest

def hasTypeVariableBound : Option TypeRef -> Bool
  | none => false
  | some t => hasTypeVariable t
end

mutual
/-- Replace type variables by identity; unbound variables stay as they are. -/
def substitute (env : TypeEnv) : TypeRef -> TypeRef
  | .typeVariable v =>
    match env.find? (fun entry => entry.1 == v) with
    | some entry => entry.2
    | none => .typeVariable v
  | .named id args => .named id (substituteArgs env args)
  | .array element => .array (substitute env element)
  | .wildcard upper lower =>
    .wildcard (substituteBound env upper) (substituteBound env lower)
  | .primitive p => .primitive p
  | .void => .void
  | .null => .null
  | .unknown => .unknown

def substituteArgs (env : TypeEnv) : List TypeRef -> List TypeRef
  | [] => []
  | t :: rest => substitute env t :: substituteArgs env rest

def substituteBound (env : TypeEnv) : Option TypeRef -> Option TypeRef
  | none => none
  | some t => some (substitute env t)
end

@[simp] theorem substituteArgs_eq (env : TypeEnv) (args : List TypeRef) :
    substituteArgs env args = args.map (substitute env) := by
  induction args with
  | nil => rfl
  | cons t rest ih => simp [substituteArgs, ih]

@[simp] theorem substituteBound_eq (env : TypeEnv) (bound : Option TypeRef) :
    substituteBound env bound = bound.map (substitute env) := by
  cases bound <;> rfl

def erase : TypeRef -> TypeRef
  | .named id _ => .named id []
  | .array element => .array (erase element)
  | other => other

/-- The last part of a binary name, after any package and enclosing class. -/
def simpleOf (binary : String) : String :=
  String.ofList
    (binary.toList.reverse.takeWhile (fun c => c != '.' && c != '$')).reverse

def renderId : TypeId -> String
  | .named binary => simpleOf binary
  | .localClass _ _ => "?"

mutual
/-- How a type reads in a signature. -/
def render : TypeRef -> String
  | .primitive p => p.name
  | .void => "void"
  | .null => "null"
  | .named id [] => renderId id
  | .named id (arg :: rest) =>
    renderId id ++ "<" ++ render arg ++ renderRest rest ++ ">"
  | .array element => render element ++ "[]"
  | .wildcard (some upper) _ => "? extends " ++ render upper
  | .wildcard none (some lower) => "? super " ++ render lower
  | _ => "?"

def renderRest : List TypeRef -> String
  | [] => ""
  | arg :: rest => ", " ++ render arg ++ renderRest rest
end

end TypeRef

end JavaVsixLite
