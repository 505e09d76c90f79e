import JavaVsixLite.Members.SourceClass

/-!
# Fields as the generators see them

A field has the type written before its name, and dimensions may follow the name.  The
generators read the text before the name only.
-/

namespace JavaVsixLite
namespace Generate

/-- The type of a field: what its arrays are made of, and how many dimensions there are. -/
structure FieldType where
  element : String
  dimensions : Nat
deriving DecidableEq

/--
A declared field.  `assigned` says whether an initializer of the field or of the class gives
it a value.
-/
structure DeclaredField where
  name : String
  element : String
  before : Nat
  after : Nat
  isStatic : Bool
  isFinal : Bool
  assigned : Bool
deriving DecidableEq

def dimensionText : Nat -> String
  | 0 => ""
  | n + 1 => "[]" ++ dimensionText n

namespace DeclaredField

def typeText (field : DeclaredField) : String :=
  field.element ++ dimensionText field.before

def written (field : DeclaredField) : FieldType :=
  ⟨field.element, field.before⟩

def type (field : DeclaredField) : FieldType :=
  ⟨field.element, field.before + field.after⟩

theorem written_eq_type_iff {field : DeclaredField} :
    field.written = field.type <-> field.after = 0 := by
  simp [written, type]

end DeclaredField

/-- The instance fields of a class, in the order of the source. -/
def genFields (fields : List DeclaredField) : List DeclaredField :=
  fields.filter (fun field => !field.isStatic)

def primitives : List String :=
  ["int", "long", "short", "byte", "char", "boolean", "float", "double"]

theorem typeText_mem_primitives {field : DeclaredField} :
    field.typeText ∈ primitives <-> field.before = 0 ∧ field.element ∈ primitives := by
  unfold DeclaredField.typeText
  cases hbefore : field.before with
  | zero => simp [dimensionText]
  | succ n =>
    have hend : forall (n : Nat), exists text : List Char,
        (dimensionText (n + 1)).toList = text ++ [']'] := by
      intro n
      induction n with
      | zero => exact ⟨['['], rfl⟩
      | succ n ih =>
        rcases ih with ⟨text, htext⟩
        rw [dimensionText, String.toList_append, htext]
        exact ⟨"[]".toList ++ text, by rw [List.append_assoc]⟩
    have hlast : (field.element ++ dimensionText (n + 1)).toList.getLast? = some ']' := by
      rcases hend n with ⟨text, htext⟩
      rw [String.toList_append, htext, <- List.append_assoc, List.getLast?_concat]
    constructor
    · intro hmem
      have hnone : forall word, word ∈ primitives -> word.toList.getLast? ≠ some ']' := by
        decide
      exact absurd hlast (hnone _ hmem)
    · intro h
      exact absurd h.1 (Nat.succ_ne_zero n)

section Names

variable (toUppercase : Char -> List Char)

/-- The name of the getter; only `boolean` fields are asked with `is`. -/
def getterName (field : DeclaredField) : String :=
  if field.typeText = "boolean" then "is" ++ capitalized toUppercase field.name
  else "get" ++ capitalized toUppercase field.name

def setterName (field : DeclaredField) : String :=
  "set" ++ capitalized toUppercase field.name

end Names

inductive Comparison where
  | identity (field : String)
  | objectsEquals (field : String)
deriving DecidableEq

def comparisonOf (field : DeclaredField) : Comparison :=
  if primitives.contains field.typeText then .identity field.name else .objectsEquals field.name

end Generate
end JavaVsixLite
