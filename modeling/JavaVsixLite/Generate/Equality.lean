import JavaVsixLite.Generate.Fields
import Mathlib.Data.List.Forall2

/-!
# The generated `equals` and `hashCode`

Two objects of the class are equal if they are one object or all their fields compare as
equal: primitive values by `==`, references by `java.util.Objects.equals`.  The hash code is
`java.util.Objects.hash` of the fields, which boxes primitive values.
-/

namespace JavaVsixLite
namespace Generate

/-!
# Floating-point values

A value is its bit pattern.  A NaN has all exponent bits and some bit of the fraction set.
-/

def isNaN32 (bits : BitVec 32) : Bool :=
  (0x7F800000#32).ult (bits &&& 0x7FFFFFFF#32)

def isZero32 (bits : BitVec 32) : Bool :=
  bits &&& 0x7FFFFFFF#32 == 0#32

def isNaN64 (bits : BitVec 64) : Bool :=
  (0x7FF0000000000000#64).ult (bits &&& 0x7FFFFFFFFFFFFFFF#64)

def isZero64 (bits : BitVec 64) : Bool :=
  bits &&& 0x7FFFFFFFFFFFFFFF#64 == 0#64

/-- Equality of floating-point values: a NaN equals nothing, and the two zeros are equal. -/
def floatSame {α : Type} [DecidableEq α] (isNaN isZero : α -> Bool) (a b : α) : Bool :=
  !isNaN a && !isNaN b && (a == b || (isZero a && isZero b))

section FloatSame

variable {α : Type} [DecidableEq α] {isNaN isZero : α -> Bool}

theorem floatSame_symm {a b : α} (h : floatSame isNaN isZero a b = true) :
    floatSame isNaN isZero b a = true := by
  unfold floatSame at *
  grind

theorem floatSame_trans {a b c : α} (h : floatSame isNaN isZero a b = true)
    (h' : floatSame isNaN isZero b c = true) : floatSame isNaN isZero a c = true := by
  unfold floatSame at *
  grind

end FloatSame

/-!
# Values
-/

/-- References with what the classes of the objects define; arrays are compared by identity. -/
structure Objects (Ref : Type) where
  equals : Ref -> Ref -> Bool
  hashCode : Ref -> BitVec 32
  isArray : Ref -> Bool
  elements : Ref -> List (Option Ref)
  equals_refl (r : Ref) : equals r r = true
  equals_symm {r s : Ref} : equals r s = true -> equals s r = true
  equals_trans {r s t : Ref} : equals r s = true -> equals s t = true -> equals r t = true
  hashCode_eq {r s : Ref} : equals r s = true -> hashCode r = hashCode s
  array_eq {r s : Ref} : isArray r = true -> equals r s = true -> r = s

inductive Value (Ref : Type) where
  | boolean (b : Bool)
  | byte (n : BitVec 8)
  | short (n : BitVec 16)
  | char (n : BitVec 16)
  | int (n : BitVec 32)
  | long (n : BitVec 64)
  | float (bits : BitVec 32)
  | double (bits : BitVec 64)
  | reference (r : Option Ref)

section Equality

variable {Ref : Type} [DecidableEq Ref] (objects : Objects Ref)

/-- The operator `==`. -/
def same : Value Ref -> Value Ref -> Bool
  | .boolean a, .boolean b => a == b
  | .byte a, .byte b => a == b
  | .short a, .short b => a == b
  | .char a, .char b => a == b
  | .int a, .int b => a == b
  | .long a, .long b => a == b
  | .float a, .float b => floatSame isNaN32 isZero32 a b
  | .double a, .double b => floatSame isNaN64 isZero64 a b
  | .reference a, .reference b => a == b
  | _, _ => false

/-- `java.util.Objects.equals`. -/
def objectsEquals : Value Ref -> Value Ref -> Bool
  | .reference (some a), .reference (some b) => a == b || objects.equals a b
  | .reference none, .reference none => true
  | _, _ => false

def hashLong (n : BitVec 64) : BitVec 32 :=
  (n ^^^ (n >>> 32)).truncate 32

def hashRef : Option Ref -> BitVec 32
  | none => 0
  | some r => objects.hashCode r

def boxedHash : Value Ref -> BitVec 32
  | .boolean b => if b then 1231 else 1237
  | .byte n => n.signExtend 32
  | .short n => n.signExtend 32
  | .char n => n.zeroExtend 32
  | .int n => n
  | .long n => hashLong n
  | .float bits => if isNaN32 bits then 0x7FC00000 else bits
  | .double bits => hashLong (if isNaN64 bits then 0x7FF8000000000000 else bits)
  | .reference r => hashRef objects r

/-- `java.util.Arrays.hashCode` of a list of hash codes. -/
def hashAll (codes : List (BitVec 32)) : BitVec 32 :=
  codes.foldl (fun code next => 31 * code + next) 1

def isPrimitive (field : DeclaredField) : Bool :=
  decide (field.type.dimensions = 0) && primitives.contains field.element

theorem isPrimitive_iff {field : DeclaredField} :
    isPrimitive field = true <-> field.type.dimensions = 0 ∧ field.element ∈ primitives := by
  simp [isPrimitive]

def isReferenceArray (field : DeclaredField) : Bool :=
  decide (1 < field.type.dimensions) ||
    (decide (field.type.dimensions = 1) && !primitives.contains field.element)

def HasType (field : DeclaredField) : Value Ref -> Prop
  | .boolean _ => isPrimitive field = true ∧ field.element = "boolean"
  | .byte _ => isPrimitive field = true ∧ field.element = "byte"
  | .short _ => isPrimitive field = true ∧ field.element = "short"
  | .char _ => isPrimitive field = true ∧ field.element = "char"
  | .int _ => isPrimitive field = true ∧ field.element = "int"
  | .long _ => isPrimitive field = true ∧ field.element = "long"
  | .float _ => isPrimitive field = true ∧ field.element = "float"
  | .double _ => isPrimitive field = true ∧ field.element = "double"
  | .reference r => isPrimitive field = false ∧
      forall array, r = some array -> isReferenceArray field = true -> objects.isArray array = true

/-- The values of the fields of one object. -/
structure Fields (fields : List DeclaredField) where
  values : List (Value Ref)
  typed : List.Forall₂ (HasType objects) fields values

/-!
# The generated methods
-/

def compare (field : DeclaredField) (a b : Value Ref) : Bool :=
  match comparisonOf field with
  | .identity _ => same a b
  | .objectsEquals _ => objectsEquals objects a b

@[grind =] def compareAll : List DeclaredField -> List (Value Ref) -> List (Value Ref) -> Bool
  | field :: fields, a :: as, b :: bs => compare objects field a b && compareAll fields as bs
  | _, _, _ => true

/-- The argument of `hash`: a lone array of references stands for its elements. -/
def hashedCodes (fields : List DeclaredField) (values : List (Value Ref)) : List (BitVec 32) :=
  match fields, values with
  | [field], [.reference (some array)] =>
    if isReferenceArray field then (objects.elements array).map (hashRef objects)
    else [objects.hashCode array]
  | _, _ => values.map (boxedHash objects)

/-- A lone array of references that is `null` has the code zero. -/
def generatedHash (fields : List DeclaredField) (values : List (Value Ref)) : BitVec 32 :=
  match fields, values with
  | [field], [.reference none] =>
    if isReferenceArray field then 0 else hashAll [0]
  | _, _ => hashAll (hashedCodes objects fields values)

variable {fields : List DeclaredField} {Id : Type} [DecidableEq Id]

/-- The generated `equals` on two objects of the class. -/
def generatedEquals (heap : Id -> Fields objects fields) (a b : Id) : Bool :=
  decide (a = b) || compareAll objects fields (heap a).values (heap b).values

def generatedHashCode (heap : Id -> Fields objects fields) (a : Id) : BitVec 32 :=
  generatedHash objects fields (heap a).values

/-- The contract of `Object` for objects of one class. -/
structure Contract (heap : Id -> Fields objects fields) : Prop where
  refl : forall a, generatedEquals objects heap a a = true
  symm : forall a b, generatedEquals objects heap a b = true ->
    generatedEquals objects heap b a = true
  trans : forall a b c, generatedEquals objects heap a b = true ->
    generatedEquals objects heap b c = true -> generatedEquals objects heap a c = true
  hash : forall a b, generatedEquals objects heap a b = true ->
    generatedHashCode objects heap a = generatedHashCode objects heap b

end Equality

/-- The field has the type `float` or `double`, and is not an array of it. -/
def isFloating (field : DeclaredField) : Bool :=
  decide (field.type.dimensions = 0) && (field.element == "float" || field.element == "double")

/-!
# Equality is an equivalence
-/

section Equivalence

variable {Ref : Type} [DecidableEq Ref] {objects : Objects Ref}

theorem same_symm {a b : Value Ref} (h : same a b = true) : same b a = true := by
  cases b with
  | float b =>
    cases a <;> simp only [same, Bool.false_eq_true] at h
    exact floatSame_symm h
  | double b =>
    cases a <;> simp only [same, Bool.false_eq_true] at h
    exact floatSame_symm h
  | _ b =>
    cases a <;> simp only [same, Bool.false_eq_true, beq_iff_eq] at h
    rw [h]
    exact beq_self_eq_true _

theorem same_trans {a b c : Value Ref} (h : same a b = true) (h' : same b c = true) :
    same a c = true := by
  cases b with
  | float b =>
    cases a <;> simp only [same, Bool.false_eq_true] at h
    cases c <;> simp only [same, Bool.false_eq_true] at h'
    exact floatSame_trans h h'
  | double b =>
    cases a <;> simp only [same, Bool.false_eq_true] at h
    cases c <;> simp only [same, Bool.false_eq_true] at h'
    exact floatSame_trans h h'
  | _ b =>
    cases a <;> simp only [same, Bool.false_eq_true, beq_iff_eq] at h
    rw [h]
    exact h'

/-- References that are equal for `Objects.equals` are both `null` or equal objects. -/
theorem objectsEquals_iff {a b : Value Ref} :
    objectsEquals objects a b = true <->
      (a = .reference none ∧ b = .reference none) ∨
        exists r s, a = .reference (some r) ∧ b = .reference (some s) ∧
          objects.equals r s = true := by
  unfold objectsEquals
  split
  · rename_i r s
    rw [Bool.or_eq_true, beq_iff_eq]
    constructor
    · intro h
      right
      exists r, s
      constructor
      · rfl
      · constructor
        · rfl
        · rcases h with heq | hequals
          · rw [heq]
            exact objects.equals_refl s
          · exact hequals
    · intro h
      rcases h with hnull | hboth
      · cases hnull.1
      · rcases hboth with ⟨r', s', hr, hs, hequals⟩
        cases hr
        cases hs
        exact Or.inr hequals
  · simp
  · rename_i hsome hnone
    constructor
    · intro h
      cases h
    · intro h
      rcases h with hnull | hboth
      · exact absurd hnull.2 (hnone hnull.1)
      · rcases hboth with ⟨r, s, hr, hs, hequals⟩
        exact absurd hs (hsome r s hr)

theorem compare_symm {field : DeclaredField} {a b : Value Ref}
    (h : compare objects field a b = true) : compare objects field b a = true := by
  unfold compare at *
  cases hkind : comparisonOf field with
  | identity name =>
    rw [hkind] at h
    exact same_symm h
  | objectsEquals name =>
    rw [hkind] at h
    dsimp only at *
    rw [objectsEquals_iff] at *
    rcases h with hnull | ⟨r, s, hr, hs, hequals⟩
    · exact Or.inl ⟨hnull.2, hnull.1⟩
    · exact Or.inr ⟨s, r, hs, hr, objects.equals_symm hequals⟩

theorem compare_trans {field : DeclaredField} {a b c : Value Ref}
    (h : compare objects field a b = true) (h' : compare objects field b c = true) :
    compare objects field a c = true := by
  unfold compare at *
  cases hkind : comparisonOf field with
  | identity name =>
    rw [hkind] at h h'
    exact same_trans h h'
  | objectsEquals name =>
    rw [hkind] at h h'
    dsimp only at *
    rw [objectsEquals_iff] at *
    rcases h with hnull | ⟨r, s, hr, hs, hequals⟩
    · rcases h' with hnull' | ⟨r', s', hr', hs', hequals'⟩
      · exact Or.inl ⟨hnull.1, hnull'.2⟩
      · rw [hnull.2] at hr'
        cases hr'
    · rcases h' with hnull' | ⟨r', s', hr', hs', hequals'⟩
      · rw [hs] at hnull'
        cases hnull'.1
      · rw [hs] at hr'
        cases hr'
        exact Or.inr ⟨r, s', hr, hs', objects.equals_trans hequals hequals'⟩

variable {fields : List DeclaredField} {as bs cs : List (Value Ref)}

theorem compareAll_symm (h : compareAll objects fields as bs = true) :
    compareAll objects fields bs as = true := by
  induction fields generalizing as bs with
  | nil => rfl
  | cons field fields ih =>
    cases as with
    | nil => cases bs <;> rfl
    | cons a as =>
      cases bs with
      | nil => rfl
      | cons b bs =>
        rw [compareAll, Bool.and_eq_true] at *
        exact ⟨compare_symm h.1, ih h.2⟩

theorem compareAll_trans (hlength : bs.length = fields.length)
    (h : compareAll objects fields as bs = true) (h' : compareAll objects fields bs cs = true) :
    compareAll objects fields as cs = true := by
  induction fields generalizing as bs cs with
  | nil => rfl
  | cons field fields ih =>
    cases bs with
    | nil => cases hlength
    | cons b bs =>
      cases as with
      | nil => rfl
      | cons a as =>
        cases cs with
        | nil => rfl
        | cons c cs =>
          rw [compareAll, Bool.and_eq_true] at *
          exact ⟨compare_trans h.1 h'.1, ih (Nat.succ.inj hlength) h.2 h'.2⟩

variable {Id : Type} [DecidableEq Id]

theorem generatedEquals_refl (heap : Id -> Fields objects fields) (a : Id) :
    generatedEquals objects heap a a = true := by
  simp [generatedEquals]

theorem generatedEquals_symm (heap : Id -> Fields objects fields) {a b : Id}
    (h : generatedEquals objects heap a b = true) : generatedEquals objects heap b a = true := by
  unfold generatedEquals at *
  rw [Bool.or_eq_true, decide_eq_true_eq] at *
  rcases h with heq | hall
  · exact Or.inl heq.symm
  · exact Or.inr (compareAll_symm hall)

theorem generatedEquals_trans (heap : Id -> Fields objects fields) {a b c : Id}
    (h : generatedEquals objects heap a b = true) (h' : generatedEquals objects heap b c = true) :
    generatedEquals objects heap a c = true := by
  unfold generatedEquals at *
  rw [Bool.or_eq_true, decide_eq_true_eq] at *
  rcases h with heq | hall
  · rw [heq]
    exact h'
  · rcases h' with heq' | hall'
    · rw [<- heq']
      exact Or.inr hall
    · exact Or.inr (compareAll_trans (heap b).typed.length_eq.symm hall hall')

/-!
# Equal objects without floating-point fields
-/

variable {field : DeclaredField} {a b : Value Ref}

theorem boxedHash_eq_of_same (htype : HasType objects field a)
    (hfloating : isFloating field = false) (h : same a b = true) :
    boxedHash objects a = boxedHash objects b := by
  cases a with
  | float a =>
    have hprimitive := isPrimitive_iff.mp htype.1
    simp [isFloating, hprimitive.1, htype.2] at hfloating
  | double a =>
    have hprimitive := isPrimitive_iff.mp htype.1
    simp [isFloating, hprimitive.1, htype.2] at hfloating
  | _ a =>
    cases b <;> simp only [same, Bool.false_eq_true, beq_iff_eq] at h
    rw [h]

theorem boxedHash_eq_of_compare (htype : HasType objects field a)
    (hfloating : isFloating field = false) (h : compare objects field a b = true) :
    boxedHash objects a = boxedHash objects b := by
  unfold compare at h
  cases hkind : comparisonOf field with
  | identity name =>
    rw [hkind] at h
    exact boxedHash_eq_of_same htype hfloating h
  | objectsEquals name =>
    rw [hkind] at h
    rcases objectsEquals_iff.mp h with hnull | ⟨r, s, hr, hs, hequals⟩
    · rw [hnull.1, hnull.2]
    · rw [hr, hs]
      exact objects.hashCode_eq hequals

theorem map_boxedHash_eq (hfloating : forall field, field ∈ fields -> isFloating field = false)
    (has : List.Forall₂ (HasType objects) fields as)
    (hbs : List.Forall₂ (HasType objects) fields bs)
    (h : compareAll objects fields as bs = true) :
    as.map (boxedHash objects) = bs.map (boxedHash objects) := by
  induction has generalizing bs with
  | nil =>
    cases hbs
    rfl
  | cons ha has ih =>
    cases hbs with
    | cons hb hbs =>
      rw [compareAll, Bool.and_eq_true] at h
      rw [List.map_cons, List.map_cons,
        boxedHash_eq_of_compare ha (hfloating _ List.mem_cons_self) h.1,
        ih (fun field hfield => hfloating field (List.mem_cons_of_mem _ hfield)) hbs h.2]

theorem eq_of_compare_array (htype : HasType objects field a)
    (harray : isReferenceArray field = true) (h : compare objects field a b = true) : a = b := by
  have hprimitive : isPrimitive field = false := by
    unfold isPrimitive
    unfold isReferenceArray at harray
    grind
  unfold compare at h
  cases a with
  | reference r =>
    cases hkind : comparisonOf field with
    | identity name =>
      rw [hkind] at h
      cases b <;> simp only [same, Bool.false_eq_true, beq_iff_eq] at h
      rw [h]
    | objectsEquals name =>
      rw [hkind] at h
      rcases objectsEquals_iff.mp h with hnull | ⟨r', s, hr, hs, hequals⟩
      · rw [hnull.1, hnull.2]
      · cases hr
        rw [hs, objects.array_eq (htype.2 r' rfl harray) hequals]
  | _ a => exact absurd htype.1 (by simp [hprimitive])

omit [DecidableEq Ref] in
theorem generatedHash_eq_hashAll
    (harray : forall field, fields = [field] -> isReferenceArray field = false)
    (values : List (Value Ref)) :
    generatedHash objects fields values = hashAll (values.map (boxedHash objects)) := by
  unfold generatedHash
  split
  · rename_i field
    rw [if_neg (by simp [harray field rfl])]
    rfl
  · unfold hashedCodes
    split
    · rename_i field array hnull
      rw [if_neg (by simp [harray field rfl])]
      rfl
    · rfl

theorem generatedHash_eq (hfloating : forall field, field ∈ fields -> isFloating field = false)
    (has : List.Forall₂ (HasType objects) fields as)
    (hbs : List.Forall₂ (HasType objects) fields bs)
    (h : compareAll objects fields as bs = true) :
    generatedHash objects fields as = generatedHash objects fields bs := by
  by_cases hlone : exists field, fields = [field] ∧ isReferenceArray field = true
  · rcases hlone with ⟨field, hfields, harray⟩
    cases hfields
    cases has with
    | cons ha has =>
      cases has
      cases hbs with
      | cons hb hbs =>
        cases hbs
        rw [compareAll, Bool.and_eq_true] at h
        rw [eq_of_compare_array ha harray h.1]
  · have harray : forall field, fields = [field] -> isReferenceArray field = false := by
      intro field hfield
      by_contra htrue
      exact hlone ⟨field, hfield, by simpa using htrue⟩
    rw [generatedHash_eq_hashAll harray, generatedHash_eq_hashAll harray,
      map_boxedHash_eq hfloating has hbs h]

/-!
# Two objects that differ in the sign of a zero
-/

def defaultValue (Ref : Type) (field : DeclaredField) : Value Ref :=
  if isPrimitive field then
    match field.element with
    | "boolean" => .boolean false
    | "byte" => .byte 0
    | "short" => .short 0
    | "char" => .char 0
    | "int" => .int 0
    | "long" => .long 0
    | "float" => .float 0
    | _ => .double 0
  else .reference none

def negativeZero (Ref : Type) (field : DeclaredField) : Value Ref :=
  if field.element = "float" then .float 0x80000000 else .double 0x8000000000000000

variable (objects) in
omit [DecidableEq Ref] in
theorem hasType_defaultValue (field : DeclaredField) :
    HasType objects field (defaultValue Ref field) := by
  unfold defaultValue
  split
  · rename_i hprimitive
    have hmem := (isPrimitive_iff.mp hprimitive).2
    unfold primitives at hmem
    split <;> rename_i htext
    all_goals simp_all [HasType]
  · rename_i hprimitive
    constructor
    · simpa using hprimitive
    · intro array hnull
      cases hnull

variable (objects) in
omit [DecidableEq Ref] in
theorem hasType_negativeZero {field : DeclaredField} (h : isFloating field = true) :
    HasType objects field (negativeZero Ref field) := by
  unfold isFloating at h
  rw [Bool.and_eq_true, decide_eq_true_eq, Bool.or_eq_true, beq_iff_eq, beq_iff_eq] at h
  have hprimitive : isPrimitive field = true := by
    rw [isPrimitive_iff]
    rcases h.2 with htext | htext
    · exact ⟨h.1, by simp [htext, primitives]⟩
    · exact ⟨h.1, by simp [htext, primitives]⟩
  unfold negativeZero
  split
  · rename_i htext
    exact ⟨hprimitive, htext⟩
  · rename_i htext
    rcases h.2 with hfloat | hdouble
    · exact absurd hfloat htext
    · exact ⟨hprimitive, hdouble⟩

theorem comparisonOf_of_isPrimitive {field : DeclaredField} (h : isPrimitive field = true) :
    comparisonOf field = .identity field.name := by
  have hprimitive := isPrimitive_iff.mp h
  have hbefore : field.before = 0 := by
    have hsum : field.before + field.after = 0 := hprimitive.1
    omega
  unfold comparisonOf
  rw [if_pos]
  simpa using typeText_mem_primitives.mpr ⟨hbefore, hprimitive.2⟩

theorem same_defaultValue (field : DeclaredField) :
    same (defaultValue Ref field) (defaultValue Ref field) = true := by
  unfold defaultValue
  split
  · split <;> rfl
  · exact beq_self_eq_true _

variable (objects) in
theorem compare_defaultValue (field : DeclaredField) :
    compare objects field (defaultValue Ref field) (defaultValue Ref field) = true := by
  unfold compare
  cases hkind : comparisonOf field with
  | identity name => exact same_defaultValue field
  | objectsEquals name =>
    have hprimitive : isPrimitive field = false := by
      by_contra htrue
      rw [comparisonOf_of_isPrimitive (by simpa using htrue)] at hkind
      cases hkind
    simp [defaultValue, hprimitive, objectsEquals]

omit [DecidableEq Ref] in
theorem defaultValue_of_isFloating {field : DeclaredField} (h : isFloating field = true) :
    isPrimitive field = true ∧
      ((defaultValue Ref field = .float 0 ∧ negativeZero Ref field = .float 0x80000000) ∨
        (defaultValue Ref field = .double 0 ∧
          negativeZero Ref field = .double 0x8000000000000000)) := by
  unfold isFloating at h
  rw [Bool.and_eq_true, decide_eq_true_eq, Bool.or_eq_true, beq_iff_eq, beq_iff_eq] at h
  rcases h with ⟨hdimensions, htext | htext⟩
  · have hprimitive : isPrimitive field = true :=
      isPrimitive_iff.mpr ⟨hdimensions, by simp [htext, primitives]⟩
    simp [defaultValue, negativeZero, hprimitive, htext]
  · have hprimitive : isPrimitive field = true :=
      isPrimitive_iff.mpr ⟨hdimensions, by simp [htext, primitives]⟩
    simp [defaultValue, negativeZero, hprimitive, htext]

variable (objects) in
theorem zeros_of_isFloating {field : DeclaredField} (h : isFloating field = true) :
    compare objects field (defaultValue Ref field) (negativeZero Ref field) = true ∧
      boxedHash objects (defaultValue Ref field) ≠ boxedHash objects (negativeZero Ref field) := by
  rcases @defaultValue_of_isFloating Ref field h with ⟨hprimitive, hvalues⟩
  unfold compare
  rw [comparisonOf_of_isPrimitive hprimitive]
  rcases hvalues with ⟨hzero, hnegative⟩ | ⟨hzero, hnegative⟩
  · rw [hzero, hnegative]
    constructor
    · change floatSame isNaN32 isZero32 _ _ = true
      decide
    · dsimp only [boxedHash]
      decide
  · rw [hzero, hnegative]
    constructor
    · change floatSame isNaN64 isZero64 _ _ = true
      decide
    · dsimp only [boxedHash]
      decide

omit [DecidableEq Ref] in
variable (objects) in
theorem forall₂_defaultValue (fields : List DeclaredField) :
    List.Forall₂ (HasType objects) fields (fields.map (defaultValue Ref)) := by
  induction fields with
  | nil => exact .nil
  | cons field fields ih => exact .cons (hasType_defaultValue objects field) ih

variable (objects) in
theorem compareAll_defaultValue (fields : List DeclaredField) :
    compareAll objects fields (fields.map (defaultValue Ref)) (fields.map (defaultValue Ref)) =
      true := by
  induction fields with
  | nil => rfl
  | cons field fields ih =>
    rw [List.map_cons, compareAll, compare_defaultValue, ih]
    rfl

theorem mul_31_injective {a b : BitVec 32} (h : 31 * a = 31 * b) : a = b := by
  have hinverse : forall n : BitVec 32, 0xBDEF7BDF * (31 * n) = n := by
    intro n
    rw [<- BitVec.mul_assoc]
    have hone : (0xBDEF7BDF : BitVec 32) * 31 = 1 := by decide
    rw [hone]
    exact BitVec.one_mul n
  rw [<- hinverse a, h, hinverse b]

theorem foldl_hash_injective (codes : List (BitVec 32)) {a b : BitVec 32}
    (h : codes.foldl (fun code next => 31 * code + next) a =
      codes.foldl (fun code next => 31 * code + next) b) : a = b := by
  induction codes generalizing a b with
  | nil => exact h
  | cons next codes ih =>
    have hsum := ih h
    exact mul_31_injective ((BitVec.add_left_inj next).mp hsum)

theorem hashAll_ne (front back : List (BitVec 32)) {a b : BitVec 32} (h : a ≠ b) :
    hashAll (front ++ a :: back) ≠ hashAll (front ++ b :: back) := by
  unfold hashAll
  rw [List.foldl_append, List.foldl_append, List.foldl_cons, List.foldl_cons]
  intro heq
  have hsum := foldl_hash_injective back heq
  exact h ((BitVec.add_right_inj _).mp hsum)

omit [DecidableEq Ref] in
theorem forall₂_append {fields fields' : List DeclaredField} {as bs : List (Value Ref)}
    (h : List.Forall₂ (HasType objects) fields as)
    (h' : List.Forall₂ (HasType objects) fields' bs) :
    List.Forall₂ (HasType objects) (fields ++ fields') (as ++ bs) := by
  induction h with
  | nil => exact h'
  | cons ha has ih => exact .cons ha ih

theorem compareAll_append {fields fields' : List DeclaredField} {as as' bs bs' : List (Value Ref)}
    (ha : as.length = fields.length) (hb : bs.length = fields.length)
    (h : compareAll objects fields as bs = true) (h' : compareAll objects fields' as' bs' = true) :
    compareAll objects (fields ++ fields') (as ++ as') (bs ++ bs') = true := by
  induction fields generalizing as bs with
  | nil =>
    rw [List.eq_nil_of_length_eq_zero ha, List.eq_nil_of_length_eq_zero hb]
    exact h'
  | cons field fields ih =>
    cases as with
    | nil => cases ha
    | cons a as =>
      cases bs with
      | nil => cases hb
      | cons b bs =>
        rw [compareAll, Bool.and_eq_true] at h
        rw [List.cons_append, List.cons_append, List.cons_append, compareAll, h.1,
          ih (Nat.succ.inj ha) (Nat.succ.inj hb) h.2]
        rfl

variable (objects) in
/-- A floating-point field tells two equal objects apart by their hash codes. -/
theorem equal_with_other_hash (front back : List DeclaredField) {field : DeclaredField}
    (h : isFloating field = true) :
    exists first second : Fields objects (front ++ field :: back),
      compareAll objects (front ++ field :: back) first.values second.values = true ∧
        generatedHash objects (front ++ field :: back) first.values ≠
          generatedHash objects (front ++ field :: back) second.values := by
  have hzeros := zeros_of_isFloating objects h
  have hfront := forall₂_defaultValue objects front
  have hback := forall₂_defaultValue objects back
  have harray : forall other, front ++ field :: back = [other] ->
    isReferenceArray other = false := by
    intro other hother
    have hmem : field ∈ [other] := by
      rw [<- hother]
      exact List.mem_append_right front List.mem_cons_self
    rw [<- List.mem_singleton.mp hmem]
    have hprimitive := isPrimitive_iff.mp (@defaultValue_of_isFloating Ref field h).1
    simp [isReferenceArray, hprimitive.1]
  exists ⟨_, forall₂_append hfront (.cons (hasType_defaultValue objects field) hback)⟩
  exists ⟨_, forall₂_append hfront (.cons (hasType_negativeZero objects h) hback)⟩
  constructor
  · apply compareAll_append (by simp) (by simp) (compareAll_defaultValue objects front)
    rw [compareAll, hzeros.1, compareAll_defaultValue]
    rfl
  · rw [generatedHash_eq_hashAll harray, generatedHash_eq_hashAll harray]
    rw [List.map_append, List.map_append, List.map_cons, List.map_cons]
    exact hashAll_ne _ _ hzeros.2

variable (objects) in
/-- The contract holds for all objects of the class exactly if no instance field has the type
`float` or `double`. -/
theorem generated_contract_iff (declared : List DeclaredField) :
    (forall heap : Nat -> Fields objects (genFields declared), Contract objects heap) <->
      forall field, field ∈ genFields declared -> isFloating field = false := by
  generalize genFields declared = fields
  constructor
  · intro hcontract field hfield
    by_contra hfloating
    rcases List.append_of_mem hfield with ⟨front, back, hsplit⟩
    cases hsplit
    rcases equal_with_other_hash objects front back (by simpa using hfloating) with
      ⟨first, second, hequal, hhash⟩
    -- the first object is the one known as zero, all others are like the second
    have h := (hcontract (fun id => if id = 0 then first else second)).hash 0 1
    apply hhash
    apply h
    unfold generatedEquals
    rw [Bool.or_eq_true]
    exact Or.inr hequal
  · intro hfloating heap
    constructor
    · exact generatedEquals_refl heap
    · intro a b
      exact generatedEquals_symm heap
    · intro a b c
      exact generatedEquals_trans heap
    · intro a b h
      unfold generatedEquals at h
      rw [Bool.or_eq_true, decide_eq_true_eq] at h
      rcases h with heq | hall
      · rw [heq]
      · exact generatedHash_eq hfloating (heap a).typed (heap b).typed hall

end Equivalence

/-!
# Two zeros
-/

namespace Zeros

def noObjects : Objects Empty where
  equals := fun r => r.elim
  hashCode := fun r => r.elim
  isArray := fun r => r.elim
  elements := fun r => r.elim
  equals_refl := fun r => r.elim
  equals_symm := fun {r} => r.elim
  equals_trans := fun {r} => r.elim
  hashCode_eq := fun {r} => r.elim
  array_eq := fun {r} => r.elim

/-- `double x;` -/
def position : DeclaredField where
  name := "x"
  element := "double"
  before := 0
  after := 0
  isStatic := false
  isFinal := false
  assigned := false

def atZero (bits : BitVec 64) : Fields noObjects [position] where
  values := [.double bits]
  typed := by
    constructor
    · exact ⟨by decide, rfl⟩
    · exact .nil

def heap (id : Nat) : Fields noObjects [position] :=
  if id = 1 then atZero 0x8000000000000000 else atZero 0

theorem equal_zeros_with_other_hash :
    generatedEquals noObjects heap 0 1 = true ∧
      generatedHashCode noObjects heap 0 = 31 ∧
        generatedHashCode noObjects heap 1 = 0x8000001F := by
  constructor
  · decide
  · constructor
    · decide
    · decide

end Zeros

end Generate
end JavaVsixLite
