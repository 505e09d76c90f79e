import JavaVsixLite.Generate.Fields
import Mathlib.Data.List.Nodup
import Mathlib.Data.List.Pairwise

/-!
# Generated members

Accessors, a constructor, `equals` with `hashCode`, and `toString` for the instance fields of a
class.  An action is offered as far as the class does not declare a method of the name or a
constructor itself.
-/

namespace JavaVsixLite
namespace Generate

def FieldType.text (type : FieldType) : String :=
  type.element ++ dimensionText type.dimensions

def voidType : FieldType := ⟨"void", 0⟩

structure MethodSignature where
  name : String
  parameters : List FieldType
  result : FieldType
  isFinal : Bool
  isStatic : Bool

structure ClassDeclaration where
  name : String
  fields : List DeclaredField
  methods : List MethodSignature
  constructors : Nat
  indent : String
  classIndent : String

inductive GeneratedMember where
  | getter (result : FieldType) (name field : String)
  | setter (name : String) (parameter : FieldType) (field : String)
  | constructor (name : String) (parameters : List (FieldType × String))
  | equals (name : String) (comparisons : List Comparison)
  | hashCode (arguments : List String)
  | toString (name : String) (fields : List String)
deriving DecidableEq

/-!
# Texts
-/

def Comparison.text : Comparison -> String
  | .identity field => "this." ++ field ++ " == other." ++ field
  | .objectsEquals field =>
    "java.util.Objects.equals(this." ++ field ++ ", other." ++ field ++ ")"

def toStringParts : Nat -> List String -> List String
  | _, [] => []
  | i, field :: rest =>
    ((if i = 0 then "\"" else "\", ") ++ field ++ "=\" + " ++ field) :: toStringParts (i + 1) rest

def GeneratedMember.text (indent : String) : GeneratedMember -> String
  | .getter result name field =>
    indent ++ "public " ++ result.text ++ " " ++ name ++ "() \x7b\n" ++
      indent ++ "    return " ++ field ++ ";\n" ++ indent ++ "\x7d\n\n"
  | .setter name parameter field =>
    indent ++ "public void " ++ name ++ "(" ++ parameter.text ++ " " ++ field ++ ") \x7b\n" ++
      indent ++ "    this." ++ field ++ " = " ++ field ++ ";\n" ++ indent ++ "\x7d\n\n"
  | .constructor name parameters =>
    indent ++ "public " ++ name ++ "(" ++
      String.intercalate ", " (parameters.map (fun p => p.1.text ++ " " ++ p.2)) ++ ") \x7b\n" ++
      String.join (parameters.map (fun p =>
        indent ++ "    this." ++ p.2 ++ " = " ++ p.2 ++ ";\n")) ++ indent ++ "\x7d\n\n"
  | .equals name comparisons =>
    indent ++ "@Override\n" ++ indent ++ "public boolean equals(Object o) \x7b\n" ++
      indent ++ "    if (this == o) \x7b\n" ++ indent ++ "        return true;\n" ++
      indent ++ "    \x7d\n" ++ indent ++ "    if (!(o instanceof " ++ name ++ ")) \x7b\n" ++
      indent ++ "        return false;\n" ++ indent ++ "    \x7d\n" ++
      indent ++ "    " ++ name ++ " other = (" ++ name ++ ") o;\n" ++
      indent ++ "    return " ++
      String.intercalate "\n            && " (comparisons.map Comparison.text) ++ ";\n" ++
      indent ++ "\x7d\n\n"
  | .hashCode arguments =>
    indent ++ "@Override\n" ++ indent ++ "public int hashCode() \x7b\n" ++
      indent ++ "    return java.util.Objects.hash(" ++ String.intercalate ", " arguments ++
      ");\n" ++ indent ++ "\x7d\n\n"
  | .toString name fields =>
    indent ++ "@Override\n" ++ indent ++ "public String toString() \x7b\n" ++
      indent ++ "    return \"" ++ name ++ "\x7b\" + " ++
      String.intercalate " + " (toStringParts 0 fields) ++ " + \"\x7d\";\n" ++
      indent ++ "\x7d\n\n"

/-!
# Actions
-/

structure Action where
  title : String
  members : List GeneratedMember
deriving DecidableEq

def Action.newText (cls : ClassDeclaration) (action : Action) : String :=
  "\n" ++ String.join (action.members.map (GeneratedMember.text cls.indent)) ++ cls.classIndent

def hasMethod (cls : ClassDeclaration) (name : String) : Bool :=
  cls.methods.any (fun method => method.name == name)

section Actions

variable (toUppercase : Char -> List Char) (cls : ClassDeclaration)

def getterOf (field : DeclaredField) : List GeneratedMember :=
  if hasMethod cls (getterName toUppercase field) then []
  else [.getter field.written (getterName toUppercase field) field.name]

def setterOf (field : DeclaredField) : List GeneratedMember :=
  if hasMethod cls (setterName toUppercase field) then []
  else [.setter (setterName toUppercase field) field.written field.name]

def accessors : List GeneratedMember :=
  (genFields cls.fields).flatMap (fun field =>
    getterOf toUppercase cls field ++ setterOf toUppercase cls field)

def accessorAction : List Action :=
  if (accessors toUppercase cls).isEmpty then []
  else [⟨"Generate getters and setters", accessors toUppercase cls⟩]

def constructorAction : List Action :=
  if cls.constructors = 0 then
    [⟨"Generate constructor",
      [.constructor cls.name ((genFields cls.fields).map (fun field =>
        (field.written, field.name)))]⟩]
  else []

def equalsAction : List Action :=
  if hasMethod cls "equals" || hasMethod cls "hashCode" then []
  else
    [⟨"Generate equals() and hashCode()",
      [.equals cls.name ((genFields cls.fields).map comparisonOf),
        .hashCode ((genFields cls.fields).map DeclaredField.name)]⟩]

def toStringAction : List Action :=
  if hasMethod cls "toString" then []
  else
    [⟨"Generate toString()",
      [.toString cls.name ((genFields cls.fields).map DeclaredField.name)]⟩]

def generateActions : List Action :=
  if (genFields cls.fields).isEmpty then []
  else
    accessorAction toUppercase cls ++ constructorAction cls ++ equalsAction cls ++
      toStringAction cls

end Actions

/-!
# Valid classes
-/

/--
What the rules of the language need beyond the class: the erasure of types, the results an
overriding method may have, the methods inherited from supertypes other than `Object`, the
simple names that mean something else in the class, and whether the class itself relies on
the constructor without parameters it has by default.

`cast` is what the simple name of the class means in its body: the fields an object cast to
it has, or nothing where the name is a type parameter or a type that `instanceof` may not
test, such as an inner class of a generic one.  `equates` are the types `==` may compare.
-/
structure Surroundings where
  erase : FieldType -> FieldType
  replaces : FieldType -> FieldType -> Bool
  inherited : List MethodSignature
  hides : String -> Bool
  createsPlainly : Bool
  cast : Option (String -> Option FieldType)
  equates : FieldType -> FieldType -> Bool

/-- The methods every class has from `Object`. -/
def objectMethods : List MethodSignature :=
  [⟨"getClass", [], ⟨"Class", 0⟩, true, false⟩, ⟨"notify", [], voidType, true, false⟩,
    ⟨"notifyAll", [], voidType, true, false⟩, ⟨"wait", [], voidType, true, false⟩,
    ⟨"wait", [⟨"long", 0⟩], voidType, true, false⟩,
    ⟨"wait", [⟨"long", 0⟩, ⟨"int", 0⟩], voidType, true, false⟩,
    ⟨"equals", [⟨"Object", 0⟩], ⟨"boolean", 0⟩, false, false⟩,
    ⟨"hashCode", [], ⟨"int", 0⟩, false, false⟩, ⟨"toString", [], ⟨"String", 0⟩, false, false⟩,
    ⟨"clone", [], ⟨"Object", 0⟩, false, false⟩, ⟨"finalize", [], voidType, false, false⟩]

def signatureOf : GeneratedMember -> Option MethodSignature
  | .getter result name _ => some ⟨name, [], result, false, false⟩
  | .setter name parameter _ => some ⟨name, [parameter], voidType, false, false⟩
  | .constructor _ _ => none
  | .equals _ _ => some ⟨"equals", [⟨"Object", 0⟩], ⟨"boolean", 0⟩, false, false⟩
  | .hashCode _ => some ⟨"hashCode", [], ⟨"int", 0⟩, false, false⟩
  | .toString _ _ => some ⟨"toString", [], ⟨"String", 0⟩, false, false⟩

section Validity

variable (around : Surroundings) (cls : ClassDeclaration)

def methodKey (method : MethodSignature) : String × List FieldType :=
  (method.name, method.parameters.map around.erase)

def Overrides (method : MethodSignature) : Prop :=
  forall other, other ∈ objectMethods ++ around.inherited ->
    methodKey around method = methodKey around other ->
      other.isFinal = false ∧ other.isStatic = false ∧
        around.replaces method.result other.result = true

/-- The class as it is; without a constructor the final fields have their values already. -/
structure ValidClass : Prop where
  fieldNames : (cls.fields.map DeclaredField.name).Nodup
  methods : (cls.methods.map (methodKey around)).Nodup
  finals : cls.constructors = 0 -> forall field, field ∈ genFields cls.fields ->
    field.isFinal = true -> field.assigned = true

def HasField (name : String) (type : FieldType) (admits : DeclaredField -> Prop) : Prop :=
  exists field, field ∈ genFields cls.fields ∧ field.name = name ∧ type = field.type ∧ admits field

/-- The comparison of a field with the one of the cast object is well typed. -/
def ComparisonTyped (other : String -> Option FieldType) : Comparison -> Prop
  | .identity field =>
    exists own found, HasField cls field own (fun _ => True) ∧ other field = some found ∧
      around.equates own found = true
  | .objectsEquals field =>
    (exists own, HasField cls field own (fun _ => True)) ∧ (other field).isSome = true

/-- The body of the member is well typed, and it assigns what may be assigned. -/
def WellTyped : GeneratedMember -> Prop
  | .getter result _ field => HasField cls field result (fun _ => True)
  | .setter _ parameter field =>
    HasField cls field parameter (fun found => found.isFinal = false)
  | .constructor _ parameters =>
    (parameters.map Prod.snd).Nodup ∧
      (forall p, p ∈ parameters ->
        HasField cls p.2 p.1 (fun found => found.isFinal = true -> found.assigned = false)) ∧
        forall field, field ∈ genFields cls.fields -> field.isFinal = true ->
          field.assigned = false -> field.name ∈ parameters.map Prod.snd
  | .equals _ comparisons =>
    around.hides "Override" = false ∧ around.hides "Object" = false ∧
      around.hides "java" = false ∧
      exists other, around.cast = some other ∧
        forall comparison, comparison ∈ comparisons ->
          ComparisonTyped around cls other comparison
  | .hashCode arguments =>
    around.hides "Override" = false ∧ around.hides "java" = false ∧
      forall field, field ∈ arguments -> exists type, HasField cls field type (fun _ => True)
  | .toString _ fields =>
    around.hides "Override" = false ∧ around.hides "String" = false ∧
      forall field, field ∈ fields -> exists type, HasField cls field type (fun _ => True)

def isConstructor : GeneratedMember -> Bool
  | .constructor _ _ => true
  | _ => false

/-- The class with the members added is valid. -/
structure ValidWith (members : List GeneratedMember) : Prop where
  typed : forall member, member ∈ members -> WellTyped around cls member
  keys : ((cls.methods ++ members.filterMap signatureOf).map (methodKey around)).Nodup
  overrides : forall member, member ∈ members -> forall method, method ∈ signatureOf member ->
    Overrides around method
  plainly : members.any isConstructor = true -> around.createsPlainly = false

/-- The conditions on the fields under which all offered actions keep the class valid. -/
structure Generable (toUppercase : Char -> List Char) : Prop where
  getters : forall field, field ∈ genFields cls.fields ->
    hasMethod cls (getterName toUppercase field) = false ->
      field.after = 0 ∧
        Overrides around ⟨getterName toUppercase field, [], field.written, false, false⟩
  setters : forall field, field ∈ genFields cls.fields ->
    hasMethod cls (setterName toUppercase field) = false ->
      field.after = 0 ∧ field.isFinal = false ∧
        Overrides around ⟨setterName toUppercase field, [field.written], voidType, false, false⟩
  getterNames : forall field, field ∈ genFields cls.fields ->
    forall other, other ∈ genFields cls.fields -> field ≠ other ->
      hasMethod cls (getterName toUppercase field) = false ->
        getterName toUppercase field ≠ getterName toUppercase other
  setterNames : forall field, field ∈ genFields cls.fields ->
    forall other, other ∈ genFields cls.fields -> field ≠ other ->
      hasMethod cls (setterName toUppercase field) = false ->
        setterName toUppercase field = setterName toUppercase other ->
          around.erase field.written ≠ around.erase other.written
  constructor : cls.constructors = 0 -> genFields cls.fields ≠ [] ->
    around.createsPlainly = false ∧
      forall field, field ∈ genFields cls.fields -> field.after = 0 ∧ field.isFinal = false
  equals : hasMethod cls "equals" = false -> hasMethod cls "hashCode" = false ->
    genFields cls.fields ≠ [] ->
      around.hides "Override" = false ∧ around.hides "Object" = false ∧
        around.hides "java" = false ∧
        (exists other, around.cast = some other ∧
          forall field, field ∈ genFields cls.fields ->
            ComparisonTyped around cls other (comparisonOf field)) ∧
        Overrides around ⟨"equals", [⟨"Object", 0⟩], ⟨"boolean", 0⟩, false, false⟩ ∧
        Overrides around ⟨"hashCode", [], ⟨"int", 0⟩, false, false⟩
  toString : hasMethod cls "toString" = false -> genFields cls.fields ≠ [] ->
    around.hides "Override" = false ∧ around.hides "String" = false ∧
      Overrides around ⟨"toString", [], ⟨"String", 0⟩, false, false⟩

/-!
# One member
-/

variable {around cls} {toUppercase : Char -> List Char}

theorem ValidClass.eq_of_name (h : ValidClass around cls) {field other : DeclaredField}
    (hfield : field ∈ genFields cls.fields) (hother : other ∈ genFields cls.fields)
    (hname : field.name = other.name) : field = other :=
  List.inj_on_of_nodup_map h.fieldNames (List.mem_of_mem_filter hfield)
    (List.mem_of_mem_filter hother) hname

theorem ValidClass.hasField_iff (h : ValidClass around cls) {field : DeclaredField}
    (hfield : field ∈ genFields cls.fields) {admits : DeclaredField -> Prop} :
    HasField cls field.name field.written admits <-> field.after = 0 ∧ admits field := by
  constructor
  · intro hfound
    rcases hfound with ⟨other, hother, hname, htype, hadmits⟩
    have heq := h.eq_of_name hother hfield hname
    rw [heq] at htype hadmits
    exact ⟨DeclaredField.written_eq_type_iff.mp htype, hadmits⟩
  · intro hplain
    exact ⟨field, hfield, rfl, DeclaredField.written_eq_type_iff.mpr hplain.1, hplain.2⟩

theorem ne_of_hasMethod_eq_false {name : String} (h : hasMethod cls name = false)
    {method : MethodSignature} (hmethod : method ∈ cls.methods) : method.name ≠ name := by
  intro hname
  have hany : hasMethod cls name = true := by
    unfold hasMethod
    rw [List.any_eq_true]
    exact ⟨method, hmethod, by simp [hname]⟩
  rw [h] at hany
  cases hany

theorem ValidClass.nodup_keys_iff (h : ValidClass around cls) {added : List MethodSignature}
    (hfresh : forall method, method ∈ added -> hasMethod cls method.name = false) :
    ((cls.methods ++ added).map (methodKey around)).Nodup <->
      (added.map (methodKey around)).Nodup := by
  rw [List.map_append, List.nodup_append]
  constructor
  · intro hnodup
    exact hnodup.2.1
  · intro hnodup
    constructor
    · exact h.methods
    · constructor
      · exact hnodup
      · intro key hkey other hother heq
        rcases List.mem_map.mp hkey with ⟨method, hmethod, hmethodKey⟩
        rcases List.mem_map.mp hother with ⟨new, hnew, hnewKey⟩
        apply ne_of_hasMethod_eq_false (hfresh new hnew) hmethod
        have hkeys : methodKey around method = methodKey around new := by
          rw [hmethodKey, hnewKey, heq]
        exact congrArg Prod.fst hkeys

/-!
# Accessors
-/

def accessorKeys (around : Surroundings) (cls : ClassDeclaration)
    (toUppercase : Char -> List Char) (field : DeclaredField) : List (String × List FieldType) :=
  (if hasMethod cls (getterName toUppercase field) then []
    else [(getterName toUppercase field, [])]) ++
  (if hasMethod cls (setterName toUppercase field) then []
    else [(setterName toUppercase field, [around.erase field.written])])

theorem mem_accessors {member : GeneratedMember} :
    member ∈ accessors toUppercase cls <->
      exists field, field ∈ genFields cls.fields ∧
        ((hasMethod cls (getterName toUppercase field) = false ∧
            member = .getter field.written (getterName toUppercase field) field.name) ∨
          (hasMethod cls (setterName toUppercase field) = false ∧
            member = .setter (setterName toUppercase field) field.written field.name)) := by
  unfold accessors getterOf setterOf
  rw [List.mem_flatMap]
  constructor
  · intro h
    rcases h with ⟨field, hfield, hmember⟩
    exists field
    constructor
    · exact hfield
    · rw [List.mem_append] at hmember
      rcases hmember with hgetter | hsetter
      · left
        split at hgetter
        · cases hgetter
        · rename_i hmissing
          exact ⟨by simpa using hmissing, List.mem_singleton.mp hgetter⟩
      · right
        split at hsetter
        · cases hsetter
        · rename_i hmissing
          exact ⟨by simpa using hmissing, List.mem_singleton.mp hsetter⟩
  · intro h
    rcases h with ⟨field, hfield, hmember⟩
    exists field
    constructor
    · exact hfield
    · rw [List.mem_append]
      rcases hmember with ⟨hmissing, heq⟩ | ⟨hmissing, heq⟩
      · left
        simp [hmissing, heq]
      · right
        simp [hmissing, heq]

theorem map_methodKey_accessors :
    ((accessors toUppercase cls).filterMap signatureOf).map (methodKey around) =
      (genFields cls.fields).flatMap (accessorKeys around cls toUppercase) := by
  unfold accessors
  rw [List.filterMap_flatMap, List.map_flatMap]
  congr 1
  funext field
  unfold getterOf setterOf accessorKeys
  split <;> split <;> rfl

theorem nodup_accessorKeys (field : DeclaredField) :
    (accessorKeys around cls toUppercase field).Nodup := by
  unfold accessorKeys
  split <;> split <;> simp

/-- Getters are told apart by their names, setters by their names and parameters. -/
theorem disjoint_accessorKeys_iff {field other : DeclaredField} :
    List.Disjoint (accessorKeys around cls toUppercase field)
        (accessorKeys around cls toUppercase other) <->
      (hasMethod cls (getterName toUppercase field) = false ->
        getterName toUppercase field ≠ getterName toUppercase other) ∧
      (hasMethod cls (setterName toUppercase field) = false ->
        setterName toUppercase field = setterName toUppercase other ->
          around.erase field.written ≠ around.erase other.written) := by
  unfold List.Disjoint accessorKeys
  constructor
  · intro hdisjoint
    constructor
    · intro hmissing hname
      have hmissing' : hasMethod cls (getterName toUppercase other) = false := hname ▸ hmissing
      exact hdisjoint (a := (getterName toUppercase field, [])) (by simp [hmissing])
        (by simp [hmissing', hname])
    · intro hmissing hname herase
      have hmissing' : hasMethod cls (setterName toUppercase other) = false := hname ▸ hmissing
      exact hdisjoint (a := (setterName toUppercase field, [around.erase field.written]))
        (by simp [hmissing]) (by simp [hmissing', hname, herase])
  · intro hnames key hkey hkey'
    rw [List.mem_append] at hkey hkey'
    rcases hkey with hgetter | hsetter
    · split at hgetter
      · cases hgetter
      · rename_i hmissing
        rw [List.mem_singleton] at hgetter
        rcases hkey' with hgetter' | hsetter'
        · split at hgetter'
          · cases hgetter'
          · rw [List.mem_singleton, hgetter] at hgetter'
            exact hnames.1 (by simpa using hmissing) (congrArg Prod.fst hgetter')
        · split at hsetter'
          · cases hsetter'
          · rw [List.mem_singleton, hgetter] at hsetter'
            cases congrArg Prod.snd hsetter'
    · split at hsetter
      · cases hsetter
      · rename_i hmissing
        rw [List.mem_singleton] at hsetter
        rcases hkey' with hgetter' | hsetter'
        · split at hgetter'
          · cases hgetter'
          · rw [List.mem_singleton, hsetter] at hgetter'
            cases congrArg Prod.snd hgetter'
        · split at hsetter'
          · cases hsetter'
          · rw [List.mem_singleton, hsetter] at hsetter'
            have hparameters := congrArg Prod.snd hsetter'
            exact hnames.2 (by simpa using hmissing) (congrArg Prod.fst hsetter')
              (List.cons.inj hparameters).1

theorem ValidClass.nodup_genFields (h : ValidClass around cls) : (genFields cls.fields).Nodup :=
  (h.fieldNames.of_map).filter _

theorem ValidClass.nodup_accessors_iff (h : ValidClass around cls) :
    ((genFields cls.fields).flatMap (accessorKeys around cls toUppercase)).Nodup <->
      forall field, field ∈ genFields cls.fields ->
        forall other, other ∈ genFields cls.fields -> field ≠ other ->
          List.Disjoint (accessorKeys around cls toUppercase field)
            (accessorKeys around cls toUppercase other) := by
  rw [List.nodup_flatMap]
  constructor
  · intro hnodup field hfield other hother hne
    have hsymm : Std.Symm (Function.onFun List.Disjoint (accessorKeys around cls toUppercase)) :=
      ⟨fun a b hab key hb ha => hab ha hb⟩
    exact hnodup.2.forall hfield hother hne
  · intro hdisjoint
    constructor
    · intro field hfield
      exact nodup_accessorKeys field
    · exact h.nodup_genFields.pairwise_of_forall_ne
        (fun field hfield other hother hne => hdisjoint field hfield other hother hne)

theorem signature_fresh {member : GeneratedMember} (hmember : member ∈ accessors toUppercase cls)
    {method : MethodSignature} (hmethod : signatureOf member = some method) :
    hasMethod cls method.name = false := by
  rcases mem_accessors.mp hmember with ⟨field, hfield, hcases⟩
  rcases hcases with ⟨hmissing, heq⟩ | ⟨hmissing, heq⟩
  · rw [heq] at hmethod
    cases hmethod
    exact hmissing
  · rw [heq] at hmethod
    cases hmethod
    exact hmissing

structure AccessorsFit (around : Surroundings) (cls : ClassDeclaration)
    (toUppercase : Char -> List Char) : Prop where
  getters : forall field, field ∈ genFields cls.fields ->
    hasMethod cls (getterName toUppercase field) = false ->
      field.after = 0 ∧
        Overrides around ⟨getterName toUppercase field, [], field.written, false, false⟩
  setters : forall field, field ∈ genFields cls.fields ->
    hasMethod cls (setterName toUppercase field) = false ->
      field.after = 0 ∧ field.isFinal = false ∧
        Overrides around ⟨setterName toUppercase field, [field.written], voidType, false, false⟩
  names : forall field, field ∈ genFields cls.fields ->
    forall other, other ∈ genFields cls.fields -> field ≠ other ->
      List.Disjoint (accessorKeys around cls toUppercase field)
        (accessorKeys around cls toUppercase other)

theorem ValidClass.accessors_iff (h : ValidClass around cls) :
    ValidWith around cls (accessors toUppercase cls) <-> AccessorsFit around cls toUppercase := by
  have hfresh : forall method, method ∈ (accessors toUppercase cls).filterMap signatureOf ->
      hasMethod cls method.name = false := by
    intro method hmethod
    rcases List.mem_filterMap.mp hmethod with ⟨member, hmember, hsignature⟩
    exact signature_fresh hmember hsignature
  have hkeys := h.nodup_keys_iff hfresh
  rw [map_methodKey_accessors, h.nodup_accessors_iff] at hkeys
  constructor
  · intro hvalid
    constructor
    · intro field hfield hmissing
      have hmember :
          GeneratedMember.getter field.written (getterName toUppercase field) field.name ∈
            accessors toUppercase cls := mem_accessors.mpr ⟨field, hfield, Or.inl ⟨hmissing, rfl⟩⟩
      constructor
      · exact ((h.hasField_iff hfield).mp (hvalid.typed _ hmember)).1
      · exact hvalid.overrides _ hmember _ rfl
    · intro field hfield hmissing
      have hmember :
          GeneratedMember.setter (setterName toUppercase field) field.written field.name ∈
            accessors toUppercase cls := mem_accessors.mpr ⟨field, hfield, Or.inr ⟨hmissing, rfl⟩⟩
      have htyped := (h.hasField_iff hfield).mp (hvalid.typed _ hmember)
      constructor
      · exact htyped.1
      · constructor
        · exact htyped.2
        · exact hvalid.overrides _ hmember _ rfl
    · exact hkeys.mp hvalid.keys
  · intro hfit
    constructor
    · intro member hmember
      rcases mem_accessors.mp hmember with ⟨field, hfield, ⟨hmissing, heq⟩ | ⟨hmissing, heq⟩⟩
      · rw [heq]
        exact (h.hasField_iff hfield).mpr ⟨(hfit.getters field hfield hmissing).1, trivial⟩
      · rw [heq]
        have hsetter := hfit.setters field hfield hmissing
        exact (h.hasField_iff hfield).mpr ⟨hsetter.1, hsetter.2.1⟩
    · exact hkeys.mpr hfit.names
    · intro member hmember method hmethod
      rcases mem_accessors.mp hmember with ⟨field, hfield, ⟨hmissing, heq⟩ | ⟨hmissing, heq⟩⟩
      · rw [heq] at hmethod
        cases hmethod
        exact (hfit.getters field hfield hmissing).2
      · rw [heq] at hmethod
        cases hmethod
        exact (hfit.setters field hfield hmissing).2.2
    · intro hconstructor
      rw [List.any_eq_true] at hconstructor
      rcases hconstructor with ⟨member, hmember, hkind⟩
      rcases mem_accessors.mp hmember with ⟨field, hfield, ⟨hmissing, heq⟩ | ⟨hmissing, heq⟩⟩
      · rw [heq] at hkind
        cases hkind
      · rw [heq] at hkind
        cases hkind

/-!
# Constructors and methods of `Object`
-/

theorem ValidClass.constructor_iff (h : ValidClass around cls) (hnone : cls.constructors = 0) :
    ValidWith around cls [.constructor cls.name
        ((genFields cls.fields).map (fun field => (field.written, field.name)))] <->
      around.createsPlainly = false ∧
        forall field, field ∈ genFields cls.fields -> field.after = 0 ∧ field.isFinal = false := by
  constructor
  · intro hvalid
    constructor
    · exact hvalid.plainly rfl
    · intro field hfield
      have htyped := (hvalid.typed _ (List.mem_singleton.mpr rfl)).2.1 (field.written, field.name)
        (List.mem_map_of_mem hfield)
      have hplain := (h.hasField_iff hfield).mp htyped
      constructor
      · exact hplain.1
      · by_contra hfinal
        have htrue : field.isFinal = true := by simpa using hfinal
        have hassigned := h.finals hnone field hfield htrue
        rw [hplain.2 htrue] at hassigned
        cases hassigned
  · intro hplain
    constructor
    · intro member hmember
      rw [List.mem_singleton.mp hmember]
      constructor
      · rw [List.map_map]
        exact h.fieldNames.sublist (List.filter_sublist.map DeclaredField.name)
      · constructor
        · intro p hp
          rcases List.mem_map.mp hp with ⟨field, hfield, heq⟩
          rw [<- heq]
          apply (h.hasField_iff hfield).mpr
          constructor
          · exact (hplain.2 field hfield).1
          · intro hfinal
            rw [(hplain.2 field hfield).2] at hfinal
            cases hfinal
        · intro field hfield hfinal
          rw [(hplain.2 field hfield).2] at hfinal
          cases hfinal
    · rw [h.nodup_keys_iff (by simp [signatureOf])]
      exact List.nodup_nil
    · intro member hmember method hmethod
      rw [List.mem_singleton.mp hmember] at hmethod
      cases hmethod
    · intro _
      exact hplain.1

theorem exists_hasField {name : String}
    (h : name ∈ (genFields cls.fields).map DeclaredField.name) :
    exists type, HasField cls name type (fun _ => True) := by
  rcases List.mem_map.mp h with ⟨field, hfield, hname⟩
  exact ⟨field.type, field, hfield, hname, rfl, trivial⟩

theorem ValidClass.equals_iff (h : ValidClass around cls)
    (hequals : hasMethod cls "equals" = false) (hhash : hasMethod cls "hashCode" = false) :
    ValidWith around cls
        [.equals cls.name ((genFields cls.fields).map comparisonOf),
          .hashCode ((genFields cls.fields).map DeclaredField.name)] <->
      around.hides "Override" = false ∧ around.hides "Object" = false ∧
        around.hides "java" = false ∧
        (exists other, around.cast = some other ∧
          forall field, field ∈ genFields cls.fields ->
            ComparisonTyped around cls other (comparisonOf field)) ∧
        Overrides around ⟨"equals", [⟨"Object", 0⟩], ⟨"boolean", 0⟩, false, false⟩ ∧
        Overrides around ⟨"hashCode", [], ⟨"int", 0⟩, false, false⟩ := by
  constructor
  · intro hvalid
    have htyped := hvalid.typed (.equals cls.name _) List.mem_cons_self
    rcases htyped with ⟨hoverride, hobject, hjava, other, hcast, hcompared⟩
    refine ⟨hoverride, hobject, hjava, ⟨other, hcast, ?_⟩, ?_, ?_⟩
    · intro field hfield
      exact hcompared _ (List.mem_map_of_mem hfield)
    · exact hvalid.overrides (.equals cls.name _) List.mem_cons_self _ rfl
    · exact hvalid.overrides (.hashCode _) (List.mem_cons_of_mem _ List.mem_cons_self) _ rfl
  · rintro ⟨hoverride, hobject, hjava, ⟨other, hcast, hcompared⟩, hoverrides, hoverrides'⟩
    constructor
    · intro member hmember
      rcases List.mem_cons.mp hmember with heq | hrest
      · rw [heq]
        refine ⟨hoverride, hobject, hjava, other, hcast, ?_⟩
        intro comparison hcomparison
        rcases List.mem_map.mp hcomparison with ⟨field, hfield, heq⟩
        rw [<- heq]
        exact hcompared field hfield
      · rw [List.mem_singleton.mp hrest]
        exact ⟨hoverride, hjava, fun name hname => exists_hasField hname⟩
    · rw [h.nodup_keys_iff (by simp [signatureOf, hequals, hhash])]
      simp [signatureOf, methodKey]
    · intro member hmember method hmethod
      rcases List.mem_cons.mp hmember with heq | hrest
      · rw [heq] at hmethod
        cases hmethod
        exact hoverrides
      · rw [List.mem_singleton.mp hrest] at hmethod
        cases hmethod
        exact hoverrides'
    · intro hconstructor
      cases hconstructor

theorem ValidClass.toString_iff (h : ValidClass around cls)
    (hmissing : hasMethod cls "toString" = false) :
    ValidWith around cls
        [.toString cls.name ((genFields cls.fields).map DeclaredField.name)] <->
      around.hides "Override" = false ∧ around.hides "String" = false ∧
        Overrides around ⟨"toString", [], ⟨"String", 0⟩, false, false⟩ := by
  constructor
  · intro hvalid
    have htyped := hvalid.typed (.toString cls.name _) List.mem_cons_self
    exact ⟨htyped.1, htyped.2.1,
      hvalid.overrides (.toString cls.name _) List.mem_cons_self _ rfl⟩
  · intro hfit
    constructor
    · intro member hmember
      rw [List.mem_singleton.mp hmember]
      exact ⟨hfit.1, hfit.2.1, fun name hname => exists_hasField hname⟩
    · rw [h.nodup_keys_iff (by simp [signatureOf, hmissing])]
      simp [signatureOf]
    · intro member hmember method hmethod
      rw [List.mem_singleton.mp hmember] at hmethod
      cases hmethod
      exact hfit.2.2
    · intro hconstructor
      cases hconstructor

/-!
# All actions
-/

theorem accessorsFit_of_generable (h : Generable around cls toUppercase) :
    AccessorsFit around cls toUppercase := by
  constructor
  · exact h.getters
  · exact h.setters
  · intro field hfield other hother hne
    exact disjoint_accessorKeys_iff.mpr
      ⟨h.getterNames field hfield other hother hne, h.setterNames field hfield other hother hne⟩

theorem accessorsFit_of_empty (h : accessors toUppercase cls = []) :
    AccessorsFit around cls toUppercase := by
  have hgetter : forall field, field ∈ genFields cls.fields ->
      hasMethod cls (getterName toUppercase field) = true := by
    intro field hfield
    by_contra hmissing
    have hmember : GeneratedMember.getter field.written (getterName toUppercase field) field.name ∈
        accessors toUppercase cls :=
      mem_accessors.mpr ⟨field, hfield, Or.inl ⟨by simpa using hmissing, rfl⟩⟩
    rw [h] at hmember
    cases hmember
  have hsetter : forall field, field ∈ genFields cls.fields ->
      hasMethod cls (setterName toUppercase field) = true := by
    intro field hfield
    by_contra hmissing
    have hmember : GeneratedMember.setter (setterName toUppercase field) field.written field.name ∈
        accessors toUppercase cls :=
      mem_accessors.mpr ⟨field, hfield, Or.inr ⟨by simpa using hmissing, rfl⟩⟩
    rw [h] at hmember
    cases hmember
  constructor
  · intro field hfield hmissing
    rw [hgetter field hfield] at hmissing
    cases hmissing
  · intro field hfield hmissing
    rw [hsetter field hfield] at hmissing
    cases hmissing
  · intro field hfield other hother hne
    rw [disjoint_accessorKeys_iff]
    simp [hgetter field hfield, hsetter field hfield]

theorem forall_mem_accessorAction {P : List GeneratedMember -> Prop} :
    (forall action, action ∈ accessorAction toUppercase cls -> P action.members) <->
      (accessors toUppercase cls ≠ [] -> P (accessors toUppercase cls)) := by
  by_cases hnone : accessors toUppercase cls = []
  · simp [accessorAction, hnone]
  · simp [accessorAction, hnone]

theorem forall_mem_constructorAction {P : List GeneratedMember -> Prop} :
    (forall action, action ∈ constructorAction cls -> P action.members) <->
      (cls.constructors = 0 ->
        P [.constructor cls.name
          ((genFields cls.fields).map (fun field => (field.written, field.name)))]) := by
  by_cases hnone : cls.constructors = 0
  · simp [constructorAction, hnone]
  · simp [constructorAction, hnone]

theorem forall_mem_equalsAction {P : List GeneratedMember -> Prop} :
    (forall action, action ∈ equalsAction cls -> P action.members) <->
      (hasMethod cls "equals" = false -> hasMethod cls "hashCode" = false ->
        P [.equals cls.name ((genFields cls.fields).map comparisonOf),
          .hashCode ((genFields cls.fields).map DeclaredField.name)]) := by
  cases hequals : hasMethod cls "equals" with
  | true => simp [equalsAction, hequals]
  | false =>
    cases hhash : hasMethod cls "hashCode" with
    | true => simp [equalsAction, hequals, hhash]
    | false => simp [equalsAction, hequals, hhash]

theorem forall_mem_toStringAction {P : List GeneratedMember -> Prop} :
    (forall action, action ∈ toStringAction cls -> P action.members) <->
      (hasMethod cls "toString" = false ->
        P [.toString cls.name ((genFields cls.fields).map DeclaredField.name)]) := by
  cases hmissing : hasMethod cls "toString" with
  | true => simp [toStringAction, hmissing]
  | false => simp [toStringAction, hmissing]

end Validity

/-!
# Two classes
-/

instance decidableOverrides (around : Surroundings) (method : MethodSignature) :
    Decidable (Overrides around method) :=
  inferInstanceAs (Decidable (forall other, other ∈ objectMethods ++ around.inherited ->
    methodKey around method = methodKey around other ->
      other.isFinal = false ∧ other.isStatic = false ∧
        around.replaces method.result other.result = true))

namespace Classes

def upper (c : Char) : List Char :=
  [c.toUpper]

/-- A class whose simple name means the class itself. -/
def plain (cls : ClassDeclaration) : Surroundings where
  erase := id
  replaces := fun own inherited => own == inherited
  inherited := []
  hides := fun _ => false
  createsPlainly := false
  cast := some (fun name =>
    ((genFields cls.fields).find? (fun field => field.name == name)).map DeclaredField.type)
  equates := fun own found => own == found

def privateField (element name : String) : DeclaredField where
  name := name
  element := element
  before := 0
  after := 0
  isStatic := false
  isFinal := false
  assigned := false

/-- `class Person` with a name and an age. -/
def person : ClassDeclaration where
  name := "Person"
  fields := [privateField "String" "name", privateField "int" "age"]
  methods := []
  constructors := 0
  indent := "    "
  classIndent := ""

theorem validClass_person : ValidClass (plain person) person := by
  constructor
  all_goals decide

theorem comparisonTyped_person {field : DeclaredField} (h : field ∈ genFields person.fields) :
    exists other, (plain person).cast = some other ∧
      ComparisonTyped (plain person) person other (comparisonOf field) := by
  refine ⟨_, rfl, ?_⟩
  rcases List.mem_cons.mp h with rfl | hrest
  · exact ⟨⟨_, _, List.mem_cons_self, rfl, rfl, trivial⟩, rfl⟩
  · rw [List.mem_singleton.mp hrest]
    exact ⟨_, _, ⟨_, List.mem_cons_of_mem _ List.mem_cons_self, rfl, rfl, trivial⟩, rfl, by decide⟩

theorem generable_person : Generable (plain person) person upper where
  getters := by decide
  setters := by decide
  getterNames := by decide
  setterNames := by decide
  constructor := by decide
  equals := by
    intro _ _ _
    refine ⟨rfl, rfl, rfl, ⟨_, rfl, ?_⟩, by decide, by decide⟩
    intro field hfield
    rcases comparisonTyped_person hfield with ⟨other, hcast, htyped⟩
    cases hcast
    exact htyped
  toString := by decide

/-- An inner class of a generic class cannot be tested with `instanceof`. -/
example : ¬ Generable { plain person with cast := none } person upper := by
  intro h
  rcases h.equals (by decide) (by decide) (by decide) with ⟨_, _, _, ⟨other, hcast, _⟩, _⟩
  cases hcast

/-- `final int size = 0;` -/
def counted : ClassDeclaration :=
  { person with fields := [{ privateField "int" "size" with isFinal := true, assigned := true }] }

end Classes

end Generate
end JavaVsixLite
