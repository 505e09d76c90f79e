import JavaVsixLite.Members.SourceClass
import Mathlib.Data.List.Infix

/-!
# Unused private fields

A private field without annotations is reported if its name is spelled only once in the
file.  The members Lombok generates from the annotations on the class are not looked at,
so a report is true exactly if Lombok generates nothing that reads or writes the field.
-/

namespace JavaVsixLite
namespace Unused

/-!
# Annotations
-/

/-- An annotation by the last part of its name, with the text of its arguments. -/
structure Annotation where
  simpleName : String
  arguments : Option String

def levelsBelowPublic : List String :=
  ["NONE", "PRIVATE", "PROTECTED", "PACKAGE", "MODULE"]

def suppressed (note : Annotation) : Bool :=
  match note.arguments with
  | none => false
  | some arguments =>
    levelsBelowPublic.any (fun level => decide (level.toList <:+: arguments.toList))

def mark (marks : Marks) (note : Annotation) : Marks :=
  if suppressed note then marks
  else
    match note.simpleName with
    | "Getter" => { marks with getter := true }
    | "Setter" => { marks with setter := true }
    | "Data" => { marks with data := true }
    | "Value" => { marks with value := true }
    | "Builder" => { marks with builder := true }
    | "With" => { marks with wither := true }
    | "Wither" => { marks with wither := true }
    | _ => marks

def marksOn (notes : List Annotation) : Marks :=
  notes.foldl mark Marks.none

/-!
# The check
-/

/-- A declarator with the node and the text of its name. -/
structure Declarator where
  node : Nat
  name : Option (Nat × String)

structure FieldDeclaration where
  modifiers : List String
  annotations : List Annotation
  typeText : String
  declarators : List Declarator

/-- The identifiers of a file, by node and text. -/
structure SourceFile where
  hasError : Bool
  identifiers : List (Nat × String)

structure Report where
  place : Nat
  message : String
deriving DecidableEq

def maxReports : Nat := 100

def identifierCount (file : SourceFile) (name : String) : Nat :=
  (file.identifiers.filter (fun identifier => identifier.2 == name)).length

def unusedMessage (name : String) : String :=
  "unused private field '" ++ name ++ "'"

def checkDeclarator (file : SourceFile) (out : List Report) (declarator : Declarator) :
    List Report :=
  if maxReports ≤ out.length then out
  else
    match declarator.name with
    | none => out
    | some (place, name) =>
      -- the number a serialized class is known by is read by reflection
      if name = "serialVersionUID" then out
      else if identifierCount file name = 1 then out ++ [⟨place, unusedMessage name⟩]
      else out

def checkUnusedPrivateFields (file : SourceFile) (field : FieldDeclaration) (out : List Report) :
    List Report :=
  if file.hasError then out
  else if !field.modifiers.contains "private" || !field.annotations.isEmpty then out
  else field.declarators.foldl (checkDeclarator file) out

structure Grown (file : SourceFile) (field : FieldDeclaration) (out grown : List Report) :
    Prop where
  earlier : out <+: grown
  later : forall r, r ∈ grown.drop out.length ->
    exists declarator name, declarator ∈ field.declarators ∧
      declarator.name = some (r.place, name) ∧ identifierCount file name = 1 ∧
        r.message = unusedMessage name

theorem Grown.refl (file : SourceFile) (field : FieldDeclaration) (out : List Report) :
    Grown file field out out := by
  constructor
  · exact List.prefix_refl out
  · intro r hr
    rw [List.drop_length] at hr
    cases hr

theorem Grown.checkDeclarator {file : SourceFile} {field : FieldDeclaration}
    {out grown : List Report} (h : Grown file field out grown) {declarator : Declarator}
    (hmem : declarator ∈ field.declarators) :
    Grown file field out (checkDeclarator file grown declarator) := by
  unfold Unused.checkDeclarator
  split
  · exact h
  · split
    · exact h
    · rename_i place name hname
      split
      · exact h
      · split
        · rename_i hcount
          constructor
          · exact h.earlier.trans (List.prefix_append _ _)
          · intro r hr
            rw [List.drop_append_of_le_length h.earlier.length_le, List.mem_append] at hr
            rcases hr with hold | hnew
            · exact h.later r hold
            · rw [List.mem_singleton] at hnew
              exists declarator, name
              rw [hnew]
              exact ⟨hmem, hname, hcount, rfl⟩
        · exact h

theorem grown_checkUnusedPrivateFields (file : SourceFile) (field : FieldDeclaration)
    (out : List Report) : Grown file field out (checkUnusedPrivateFields file field out) := by
  have hrun : forall (rest : List Declarator) (grown : List Report),
      rest ⊆ field.declarators -> Grown file field out grown ->
        Grown file field out (rest.foldl (checkDeclarator file) grown) := by
    intro rest
    induction rest with
    | nil =>
      intro grown hsub h
      exact h
    | cons declarator rest ih =>
      intro grown hsub h
      rw [List.cons_subset] at hsub
      exact ih _ hsub.2 (h.checkDeclarator hsub.1)
  unfold checkUnusedPrivateFields
  split
  · exact Grown.refl file field out
  · split
    · exact Grown.refl file field out
    · exact hrun field.declarators out (List.Subset.refl _) (Grown.refl file field out)

theorem annotations_of_reported {file : SourceFile} {field : FieldDeclaration} {out : List Report}
    {r : Report} (h : r ∈ (checkUnusedPrivateFields file field out).drop out.length) :
    field.annotations = [] := by
  unfold checkUnusedPrivateFields at h
  split at h
  · simp at h
  · split at h
    · simp at h
    · rename_i hplain
      rw [Bool.or_eq_true, not_or] at hplain
      simpa using hplain.2

theorem place_unique {file : SourceFile} {name : String} (hcount : identifierCount file name = 1)
    {place place' : Nat} (h : (place, name) ∈ file.identifiers)
    (h' : (place', name) ∈ file.identifiers) : place = place' := by
  unfold identifierCount at hcount
  rw [List.length_eq_one_iff] at hcount
  rcases hcount with ⟨found, hfound⟩
  have honly (other : Nat) (hother : (other, name) ∈ file.identifiers) : (other, name) = found := by
    rw [<- List.mem_singleton, <- hfound]
    exact List.mem_filter.mpr ⟨hother, by simp⟩
  exact congrArg Prod.fst ((honly place h).trans (honly place' h').symm)

/-!
# What Lombok generates for a field
-/

/-- The declarator is this member of the class. -/
structure DeclaresField (td : TypeDecl) (field : FieldDeclaration) (declarator : Declarator)
    (member : Member) : Prop where
  own : member ∈ td.ownMembers
  isField : member.kind = .field
  isDeclarator : member.isComponent = false
  node : member.node = declarator.node
  name : declarator.name.map Prod.snd = some member.name
  typeText : member.typeText = field.typeText
  isStatic : member.isStatic = field.modifiers.contains "static"
  isFinal : member.isFinal = field.modifiers.contains "final"
  marks : member.marks = marksOn field.annotations

section Lombok

variable (toUppercase : Char -> List Char) (initialized : Member -> Bool)

def hasOwnMethod (td : TypeDecl) (name : String) : Bool :=
  td.ownMembers.any (fun own => own.kind == .method && own.name == name)

def wither (td : TypeDecl) (field : Member) : List ExternalMember :=
  let name := "with" ++ capitalized toUppercase field.name
  if td.marks.wither || field.marks.wither then
    [{ name := name, kind := .method, isStatic := false
       signature := td.name ++ " " ++ name ++ "(" ++ field.typeText ++ " " ++ field.name ++ ")" }]
  else []

/-- A wither passes on every field but those named with `$` and the final ones with a value. -/
def passedOn (td : TypeDecl) (member : Member) : Bool :=
  member.name.toList.head? != some '$' &&
    !((member.isFinal || td.marks.value) && initialized member)

/--
The generated members that read or write the field: its own accessors, and the withers of
the class, which pass it on to the constructor.  `builder` only creates the builder.
-/
def touching (td : TypeDecl) (member : Member) : List ExternalMember :=
  if td.usesLombok ∧ td.kind = .classKind ∧ member ∈ instanceFields td then
    (synthesizeField toUppercase td member ++
      if passedOn initialized td member then
        (instanceFields td).flatMap (wither toUppercase td)
      else []).filter
      (fun generated => !hasOwnMethod td generated.name)
  else []

theorem wither_subset (td : TypeDecl) (field : Member) :
    wither toUppercase td field ⊆ synthesizeField toUppercase td field := by
  intro generated h
  unfold wither at h
  unfold synthesizeField
  rw [List.mem_append]
  right
  split at h
  · rename_i hwanted
    rw [if_pos hwanted]
    simpa [String.append_assoc] using h
  · cases h

theorem touching_subset (td : TypeDecl) (member : Member) :
    touching toUppercase initialized td member ⊆ lombokMembers toUppercase td := by
  unfold touching
  split
  · rename_i h
    unfold lombokMembers synthesize
    rw [if_pos h.1, if_pos h.2.1]
    apply List.filter_subset
    intro generated hgenerated
    rw [List.mem_append] at hgenerated ⊢
    left
    rw [List.mem_flatMap]
    rcases hgenerated with haccessor | hwither
    · exact ⟨member, h.2.2, haccessor⟩
    · split at hwither
      · rcases List.mem_flatMap.mp hwither with ⟨other, hother, hgenerated⟩
        exact ⟨other, hother, wither_subset toUppercase td other hgenerated⟩
      · cases hwither
  · exact List.nil_subset _

/-- No other identifier names the field, and no generated member reads or writes it. -/
structure TrueReport (file : SourceFile) (td : TypeDecl) (member : Member) (place : Nat) :
    Prop where
  unnamed : forall other, (other, member.name) ∈ file.identifiers -> other = place
  untouched : touching toUppercase initialized td member = []

/--
No annotation on the class makes Lombok generate an accessor of the field, and none on the
class or another field a wither that passes it on.
-/
structure NothingGenerated (td : TypeDecl) (member : Member) : Prop where
  getter : td.marks.getter || td.marks.data || td.marks.value ->
    hasOwnMethod td (getterName toUppercase member)
  setter : td.marks.setter || td.marks.data -> member.isFinal = false -> td.marks.value = false ->
    hasOwnMethod td ("set" ++ capitalized toUppercase member.name)
  wither : td.marks.wither -> hasOwnMethod td ("with" ++ capitalized toUppercase member.name)
  otherWithers : passedOn initialized td member ->
    forall other, other ∈ instanceFields td -> td.marks.wither || other.marks.wither ->
      hasOwnMethod td ("with" ++ capitalized toUppercase other.name)

/-- The type is extended by Lombok, and the field is one of its instance fields. -/
def Extended (td : TypeDecl) (member : Member) : Prop :=
  td.usesLombok = true ∧ td.kind = .classKind ∧ member.isStatic = false

theorem filter_wanted_eq_nil_iff {td : TypeDecl} {wanted : Bool} {generated : ExternalMember} :
    (if wanted = true then [generated] else []).filter
        (fun generated => !hasOwnMethod td generated.name) = [] <->
      (wanted = true -> hasOwnMethod td generated.name = true) := by
  cases wanted with
  | false => simp
  | true => simp

theorem withers_eq_nil_iff {td : TypeDecl} {fields : List Member} :
    (fields.flatMap (wither toUppercase td)).filter
        (fun generated => !hasOwnMethod td generated.name) = [] <->
      forall other, other ∈ fields -> (td.marks.wither || other.marks.wither) = true ->
        hasOwnMethod td ("with" ++ capitalized toUppercase other.name) = true := by
  simp only [List.filter_flatMap, List.flatMap_eq_nil_iff, wither, filter_wanted_eq_nil_iff]

theorem touching_eq_nil_iff {td : TypeDecl} {field : FieldDeclaration} {declarator : Declarator}
    {member : Member} (hmember : DeclaresField td field declarator member)
    (hplain : field.annotations = []) :
    touching toUppercase initialized td member = [] <->
      (Extended td member -> NothingGenerated toUppercase initialized td member) := by
  have hmarks : member.marks = Marks.none := by
    rw [hmember.marks, hplain]
    rfl
  have hinstance : member ∈ instanceFields td <-> member.isStatic = false := by
    unfold instanceFields
    simp [hmember.own, hmember.isField, hmember.isDeclarator]
  have hothers : (if passedOn initialized td member then
        (instanceFields td).flatMap (wither toUppercase td) else []).filter
        (fun generated => !hasOwnMethod td generated.name) = [] <->
      (passedOn initialized td member = true ->
        forall other, other ∈ instanceFields td ->
          (td.marks.wither || other.marks.wither) = true ->
            hasOwnMethod td ("with" ++ capitalized toUppercase other.name) = true) := by
    cases passedOn initialized td member with
    | false => simp
    | true => simp only [if_true, withers_eq_nil_iff, forall_const]
  unfold touching
  split
  · rename_i hwanted
    have hextended : Extended td member :=
      ⟨hwanted.1, hwanted.2.1, hinstance.mp hwanted.2.2⟩
    unfold synthesizeField
    simp only [List.filter_append, List.append_eq_nil_iff, filter_wanted_eq_nil_iff, hmarks,
      Marks.none, Bool.or_false, hothers, hextended, forall_const]
    constructor
    · rintro ⟨⟨⟨hgetter, hsetter⟩, hwither⟩, hrest⟩
      refine ⟨hgetter, ?_, hwither, hrest⟩
      intro hwanted hfinal hvalue
      exact hsetter (by simp [hfinal, hvalue] at hwanted ⊢; exact hwanted)
    · intro h
      refine ⟨⟨⟨h.getter, ?_⟩, h.wither⟩, h.otherWithers⟩
      intro hsetter
      simp only [Bool.and_eq_true, Bool.not_eq_true'] at hsetter
      exact h.setter hsetter.1.1 hsetter.1.2 hsetter.2
  · rename_i hwanted
    constructor
    · intro hnil hextended
      exact absurd ⟨hextended.1, hextended.2.1, hinstance.mpr hextended.2.2⟩ hwanted
    · intro hnothing
      rfl

/-- Every report is about a declarator of the declaration, and it is true exactly if Lombok
generates nothing for the field. -/
theorem unused_report_true_iff (td : TypeDecl) (file : SourceFile) (field : FieldDeclaration)
    (out : List Report) {r : Report}
    (hnames : forall declarator, declarator ∈ field.declarators ->
      forall name, name ∈ declarator.name -> name ∈ file.identifiers)
    (hr : r ∈ (checkUnusedPrivateFields file field out).drop out.length) :
    exists declarator name, declarator ∈ field.declarators ∧
      declarator.name = some (r.place, name) ∧
        forall member, DeclaresField td field declarator member ->
          (TrueReport toUppercase initialized file td member r.place <->
            (Extended td member -> NothingGenerated toUppercase initialized td member)) := by
  rcases (grown_checkUnusedPrivateFields file field out).later r hr with
    ⟨declarator, name, hdeclarator, hname, hcount, hmessage⟩
  exists declarator, name
  constructor
  · exact hdeclarator
  · constructor
    · exact hname
    · intro member hmember
      have hsame : name = member.name := by
        have htext := hmember.name
        rw [hname] at htext
        exact Option.some_inj.mp htext
      rw [<- touching_eq_nil_iff toUppercase initialized hmember (annotations_of_reported hr)]
      constructor
      · exact TrueReport.untouched
      · intro huntouched
        constructor
        · intro place hnamed
          rw [<- hsame] at hnamed
          exact place_unique hcount hnamed (hnames declarator hdeclarator _ hname)
        · exact huntouched

end Lombok

/-!
# A class with `@Data`
-/

namespace DataClass

def upper (c : Char) : List Char :=
  [c.toUpper]

/-- `private int size;` -/
def sizeDeclarator : Declarator :=
  ⟨3, some (4, "size")⟩

def sizeField : FieldDeclaration where
  modifiers := ["private"]
  annotations := []
  typeText := "int"
  declarators := [sizeDeclarator]

def sizeMember : Member where
  node := 3
  name := "size"
  kind := .field
  isStatic := false
  isPrivate := true
  isComponent := false
  signature := "int size"
  erased := some "int size"
  typeText := "int"
  isFinal := false
  marks := Marks.none

/-- `class Box` with the field alone, and with the annotations given. -/
def box (notes : List Annotation) : TypeDecl :=
  { TypeDecl.plain "Box" "Box" [] with
    ownMembers := [sizeMember], usesLombok := true, marks := marksOn notes }

def boxFile : SourceFile where
  hasError := false
  identifiers := [(1, "Box"), (4, "size")]

theorem declaresField_box (notes : List Annotation) :
    DeclaresField (box notes) sizeField sizeDeclarator sizeMember := by
  constructor
  · exact List.mem_singleton.mpr rfl
  all_goals rfl

def noValues (_ : Member) : Bool :=
  false

/-- Without an annotation on the class the report is true. -/
theorem unused_report_true_box :
    exists declarator name, declarator ∈ sizeField.declarators ∧
      declarator.name = some (4, name) ∧
        forall member, DeclaresField (box []) sizeField declarator member ->
          (TrueReport upper noValues boxFile (box []) member 4 <->
            (Extended (box []) member -> NothingGenerated upper noValues (box []) member)) :=
  unused_report_true_iff upper noValues (box []) boxFile sizeField []
    (r := ⟨4, unusedMessage "size"⟩) (by decide) (by decide)

/-- `@Data` generates the accessors of the field that is reported. -/
theorem data_field_reported :
    checkUnusedPrivateFields boxFile sizeField [] = [⟨4, "unused private field 'size'"⟩] ∧
      DeclaresField (box [⟨"Data", none⟩]) sizeField sizeDeclarator sizeMember ∧
        (touching upper noValues (box [⟨"Data", none⟩]) sizeMember).map ExternalMember.name =
          ["getSize", "setSize"] ∧
        touching upper noValues (box [⟨"Data", none⟩]) sizeMember ⊆
          lombokMembers upper (box [⟨"Data", none⟩]) := by
  constructor
  · decide
  · constructor
    · exact declaresField_box _
    · constructor
      · decide
      · exact touching_subset upper noValues _ _

/-- The wither of another field passes the reported one on to the constructor. -/
example (other : Member) (h : other = { sizeMember with
      name := "y", marks := { Marks.none with wither := true } }) :
    (touching upper noValues { box [] with ownMembers := [sizeMember, other] } sizeMember).map
      ExternalMember.name = ["withY"] := by
  subst h
  decide

end DataClass

end Unused
end JavaVsixLite
