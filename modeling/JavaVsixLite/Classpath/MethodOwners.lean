import JavaVsixLite.Classpath.ClassInfo
import JavaVsixLite.Foundation.JoinedLists
import JavaVsixLite.Signatures.ReadParameters

/-!
# Owners of method type variables

The owner of a method's type variables names the parameter types by what they are shown
as: a keyword or the last name of the class, and brackets.  Two overloads share an owner
exactly when their parameters are shown alike, and then they share type variables.
-/

namespace JavaVsixLite
namespace Classpath
namespace ClassInfo

open Foundation
open Signatures

/-!
# Names as they are shown
-/

theorem Segment.notMem (segment : Segment) {c : Char} (hc : c ∈ segmentStops) :
    c ∉ segment.text := by
  intro hmem
  have hfree := List.all_eq_true.mp segment.unreserved c hmem
  simp [hc] at hfree

theorem simpleName_eq (name : ClassName) :
    simpleName name = replaceChar '$' '.' name.last.text := by
  have hslash : '/' ∉ name.last.text := name.last.notMem (by decide)
  have hpiece : lastPiece '/' name.text = name.last.text := by
    unfold lastPiece ClassName.text
    rcases List.eq_nil_or_concat name.packages with hnil | ⟨outer, package, hpackages⟩
    · rw [hnil, List.flatMap_nil, List.nil_append, rsplitOnce_of_notMem hslash]
      rfl
    · have hsplit := rsplitOnce_append
        (outer.flatMap (fun segment => segment.text ++ ['/']) ++ package.text) hslash
      have htext : name.packages.flatMap (fun segment => segment.text ++ ['/']) ++ name.last.text =
          (outer.flatMap (fun segment => segment.text ++ ['/']) ++ package.text) ++
            '/' :: name.last.text := by
        simp [hpackages]
      rw [htext, hsplit]
      rfl
  rw [simpleName, hpiece]

theorem FieldType.render_ne_nil (t : FieldType) : t.render ≠ [] := by
  cases t with
  | base p => cases p <;> decide
  | object name =>
    rw [FieldType.render, simpleName_eq]
    exact fun h => name.last.nonempty (List.map_eq_nil_iff.mp h)

theorem FieldType.bracket_notMem_render (t : FieldType) : '[' ∉ t.render := by
  cases t with
  | base p => cases p <;> decide
  | object name =>
    rw [FieldType.render, simpleName_eq]
    intro h
    rcases List.mem_map.mp h with ⟨c, hc, hbracket⟩
    split at hbracket
    · cases hbracket
    · rw [hbracket] at hc
      exact name.last.notMem (by decide) hc

/-!
# Keys as lists of words
-/

/-- The shown type between commas, which a class name may contain, each piece with its
dimensions. -/
def words (descriptor : FieldDescriptor) : List (Text × Nat) :=
  tagLast 0 descriptor.dimensions (descriptor.fieldType.render.splitOn ',')

def writeWord (word : Text × Nat) : Text :=
  word.1 ++ brackets word.2

/-- The parameters read the same. -/
def LookAlike (d d' : MethodDescriptor) : Prop :=
  d.parameters.flatMap words = d'.parameters.flatMap words

instance (d d' : MethodDescriptor) : Decidable (LookAlike d d') :=
  inferInstanceAs (Decidable (_ = _))

theorem words_ne_nil (descriptor : FieldDescriptor) : words descriptor ≠ [] :=
  tagLast_ne_nil (List.splitOn_ne_nil ',' descriptor.fieldType.render)

theorem renderField_eq_words (descriptor : FieldDescriptor) :
    renderField descriptor = [','].intercalate ((words descriptor).map writeWord) := by
  have htag : [','].intercalate ((words descriptor).map writeWord) =
      [','].intercalate (descriptor.fieldType.render.splitOn ',') ++
        brackets descriptor.dimensions :=
    intercalate_tagLast [','] brackets rfl (List.splitOn_ne_nil ',' descriptor.fieldType.render)
  rw [htag, List.intercalate_splitOn, renderField]

theorem erasedDescriptorKey_eq_words (d : MethodDescriptor) :
    erasedDescriptorKey d =
      [','].intercalate ((d.parameters.flatMap words).map writeWord) := by
  have hgroups : forall group,
      group ∈ d.parameters.map (fun p => (words p).map writeWord) -> group ≠ [] := by
    intro group hgroup
    rcases List.mem_map.mp hgroup with ⟨p, _, rfl⟩
    exact fun h => words_ne_nil p (List.map_eq_nil_iff.mp h)
  have hjoin := intercalate_flatten [','] hgroups
  rw [List.map_map] at hjoin
  rw [erasedDescriptorKey, List.map_flatMap, List.flatMap_def, ← hjoin]
  exact congrArg _ (List.map_congr_left (fun p _ => renderField_eq_words p))

theorem bracket_notMem_word {descriptor : FieldDescriptor} {word : Text × Nat}
    (h : word ∈ words descriptor) : '[' ∉ word.1 := by
  have hpiece := mem_of_mem_tagLast h
  intro hbracket
  apply descriptor.fieldType.bracket_notMem_render
  have hjoin : [','].intercalate (descriptor.fieldType.render.splitOn ',') =
      descriptor.fieldType.render := List.intercalate_splitOn ','
  rw [← hjoin]
  exact mem_intercalate hpiece hbracket

theorem comma_notMem_writeWord {descriptor : FieldDescriptor} {word : Text × Nat}
    (h : word ∈ words descriptor) : ',' ∉ writeWord word := by
  have hpiece : ',' ∉ word.1 := notMem_of_mem_splitOn (mem_of_mem_tagLast h)
  have hbrackets : ',' ∉ brackets word.2 := by
    simp [brackets, List.mem_flatten, List.mem_replicate]
  rw [writeWord, List.mem_append, not_or]
  exact ⟨hpiece, hbrackets⟩

theorem brackets_succ (n : Nat) : brackets (n + 1) = '[' :: ']' :: brackets n :=
  rfl

theorem brackets_injective {m n : Nat} (h : brackets m = brackets n) : m = n := by
  induction m generalizing n with
  | zero =>
    cases n with
    | zero => rfl
    | succ n => cases h
  | succ m ih =>
    cases n with
    | zero => cases h
    | succ n =>
      rw [brackets_succ, brackets_succ, List.cons.injEq, List.cons.injEq] at h
      rw [ih h.2.2]

theorem writeWord_injective {d d' : MethodDescriptor} {word word' : Text × Nat}
    (hword : word ∈ d.parameters.flatMap words) (hword' : word' ∈ d'.parameters.flatMap words)
    (h : writeWord word = writeWord word') : word = word' := by
  rcases List.mem_flatMap.mp hword with ⟨p, _, hp⟩
  rcases List.mem_flatMap.mp hword' with ⟨p', _, hp'⟩
  have hmark : forall n, brackets n = [] ∨ (brackets n).head? = some '[' := by
    intro n
    cases n with
    | zero => exact .inl rfl
    | succ n => exact .inr rfl
  exact tagged_injective hmark (fun _ _ => brackets_injective) (bracket_notMem_word hp)
    (bracket_notMem_word hp') h

theorem erasedDescriptorKey_eq_nil_iff (d : MethodDescriptor) :
    erasedDescriptorKey d = [] <-> d.parameters.flatMap words = [] := by
  rw [erasedDescriptorKey]
  cases d.parameters with
  | nil => exact iff_of_true rfl rfl
  | cons p rest =>
    have hrender : renderField p ≠ [] :=
      fun h => p.fieldType.render_ne_nil (List.append_eq_nil_iff.mp h).1
    apply iff_of_false
    · exact intercalate_ne_nil hrender
    · exact fun h => words_ne_nil p (List.append_eq_nil_iff.mp h).1

theorem erasedDescriptorKey_eq_iff (d d' : MethodDescriptor) :
    erasedDescriptorKey d = erasedDescriptorKey d' <-> LookAlike d d' := by
  constructor
  · intro h
    unfold LookAlike
    by_cases hnil : d.parameters.flatMap words = []
    · rw [hnil, (erasedDescriptorKey_eq_nil_iff d').mp
        (h ▸ (erasedDescriptorKey_eq_nil_iff d).mpr hnil)]
    · have hnil' : d'.parameters.flatMap words ≠ [] :=
        fun h' => hnil ((erasedDescriptorKey_eq_nil_iff d).mp
          (h ▸ (erasedDescriptorKey_eq_nil_iff d').mpr h'))
      have hcomma : forall (d : MethodDescriptor) (text : Text),
          text ∈ (d.parameters.flatMap words).map writeWord -> ',' ∉ text := by
        intro d text htext
        rcases List.mem_map.mp htext with ⟨word, hword, rfl⟩
        rcases List.mem_flatMap.mp hword with ⟨p, _, hp⟩
        exact comma_notMem_writeWord hp
      rw [erasedDescriptorKey_eq_words, erasedDescriptorKey_eq_words] at h
      have hwritten := intercalate_injective (fun h => hnil (List.map_eq_nil_iff.mp h))
        (fun h => hnil' (List.map_eq_nil_iff.mp h)) (hcomma d) (hcomma d') h
      exact eq_of_map_eq (fun _ hword _ hword' => writeWord_injective hword hword') hwritten
  · intro h
    rw [erasedDescriptorKey_eq_words, erasedDescriptorKey_eq_words, h]

/-!
# Owners
-/

/-- The type variables that a method declares, as its member lists them. -/
def declaredVariables (cls : ClassFile) (method : MethodInfo) : List TypeVariableId :=
  ((methodMember cls method).bind Member.metadata).elim []
    (fun metadata => metadata.typeParameters.map TypeParameter.id)

structure Overloads (cls : ClassFile) (m m' : MethodInfo) : Prop where
  mem : m ∈ cls.methods
  mem' : m' ∈ cls.methods
  sameName : m.name = m'.name
  different : m.descriptor ≠ m'.descriptor

section Owners

variable {cls : ClassFile}

theorem ownerOf_eq_iff {m m' : MethodInfo} (hname : m.name = m'.name) :
    cls.ownerOf m = cls.ownerOf m' <-> LookAlike m.descriptor m'.descriptor := by
  rw [← erasedDescriptorKey_eq_iff, ClassFile.ownerOf, ClassFile.ownerOf, hname]
  constructor
  · intro h
    have hkey := List.append_cancel_right h
    rw [List.append_cancel_left_eq, List.cons.injEq] at hkey
    exact hkey.2
  · intro h
    rw [h]

theorem methodStructured_numbered (descriptor : MethodDescriptor)
    (signature : Option (List UInt8)) (classParams : NamedParams) (owner : String) :
    exists n, (methodStructured descriptor signature classParams owner).1.map TypeParameter.id =
      (List.range n).map (TypeVariableId.mk owner) := by
  unfold methodStructured
  cases hparse : signature.bind (fun sig => parseMethodSignature sig classParams owner) with
  | none => exact ⟨0, rfl⟩
  | some parsed =>
    rcases Option.bind_eq_some_iff.mp hparse with ⟨sig, _, hsig⟩
    show exists n, (if parsed.2.2.length = descriptor.parameters.length then
      (parsed.1, parsed.2.2, parsed.2.1) else erasedStructure descriptor).1.map _ = _
    split
    · exact ⟨_, numbered_of_parseMethodSignature hsig⟩
    · exact ⟨0, rfl⟩

theorem declaredVariables_numbered (cls : ClassFile) (m : MethodInfo) :
    exists n, declaredVariables cls m =
      (List.range n).map (TypeVariableId.mk (String.ofList (cls.ownerOf m))) := by
  have hmetadata := methodStructured_numbered m.descriptor (signatureAttr m.attributes)
    cls.namedTypeParameters (String.ofList (cls.ownerOf m))
  unfold declaredVariables methodMember
  split
  · exact ⟨0, rfl⟩
  · split
    · exact ⟨0, rfl⟩
    · split
      · exact hmetadata
      · exact hmetadata

theorem owner_of_mem_declaredVariables {m : MethodInfo} {v : TypeVariableId}
    (h : v ∈ declaredVariables cls m) : v.owner = String.ofList (cls.ownerOf m) := by
  rcases declaredVariables_numbered cls m with ⟨n, hn⟩
  rw [hn] at h
  rcases List.mem_map.mp h with ⟨i, _, rfl⟩
  rfl

theorem first_mem_declaredVariables {m : MethodInfo} (h : declaredVariables cls m ≠ []) :
    TypeVariableId.mk (String.ofList (cls.ownerOf m)) 0 ∈ declaredVariables cls m := by
  rcases declaredVariables_numbered cls m with ⟨n, hn⟩
  rw [hn] at h ⊢
  cases n with
  | zero => exact absurd rfl h
  | succ n => exact List.mem_map_of_mem (List.mem_range.mpr (Nat.succ_pos n))

theorem shared_variable_iff {m m' : MethodInfo} (hname : m.name = m'.name) :
    (exists v, v ∈ declaredVariables cls m ∧ v ∈ declaredVariables cls m') <->
      LookAlike m.descriptor m'.descriptor ∧ declaredVariables cls m ≠ [] ∧
        declaredVariables cls m' ≠ [] := by
  constructor
  · rintro ⟨v, hv, hv'⟩
    have howner : cls.ownerOf m = cls.ownerOf m' := by
      have h := (owner_of_mem_declaredVariables hv).symm.trans (owner_of_mem_declaredVariables hv')
      exact String.ofList_injective h
    exact ⟨(ownerOf_eq_iff hname).mp howner, List.ne_nil_of_mem hv, List.ne_nil_of_mem hv'⟩
  · rintro ⟨halike, hm, hm'⟩
    have hfirst := first_mem_declaredVariables hm'
    rw [← (ownerOf_eq_iff hname).mpr halike] at hfirst
    exact ⟨_, first_mem_declaredVariables hm, hfirst⟩

/-- Overloads have different owners, and no type variable in common, exactly when their
parameters are not shown alike. -/
theorem overload_owners_distinct_iff {m m' : MethodInfo} (h : Overloads cls m m') :
    (forall v, v ∈ declaredVariables cls m -> v.owner = String.ofList (cls.ownerOf m)) ∧
      (forall v, v ∈ declaredVariables cls m' -> v.owner = String.ofList (cls.ownerOf m')) ∧
      (cls.ownerOf m ≠ cls.ownerOf m' <-> ¬LookAlike m.descriptor m'.descriptor) ∧
      ((exists v, v ∈ declaredVariables cls m ∧ v ∈ declaredVariables cls m') <->
        LookAlike m.descriptor m'.descriptor ∧ declaredVariables cls m ≠ [] ∧
          declaredVariables cls m' ≠ []) :=
  ⟨fun _ => owner_of_mem_declaredVariables, fun _ => owner_of_mem_declaredVariables,
    not_congr (ownerOf_eq_iff h.sameName), shared_variable_iff h.sameName⟩

end Owners

namespace Dates

def util : ClassName where
  packages := [{ text := "java".toList, nonempty := by decide, unreserved := by decide },
    { text := "util".toList, nonempty := by decide, unreserved := by decide }]
  last := { text := "Date".toList, nonempty := by decide, unreserved := by decide }

def sql : ClassName where
  packages := [{ text := "java".toList, nonempty := by decide, unreserved := by decide },
    { text := "sql".toList, nonempty := by decide, unreserved := by decide }]
  last := { text := "Date".toList, nonempty := by decide, unreserved := by decide }

/-- `<T> void read(p)`, of the given erased parameter type. -/
def read (parameter : FieldType) (sig : String) : MethodInfo where
  accessFlags :=
    { isPublic := true, isProtected := false, isPrivate := false, isStatic := false
      isAbstract := false, isVarargs := false, isBridge := false, isSynthetic := false }
  name := "read".toList
  descriptor :=
    { parameters := [{ dimensions := 0, fieldType := parameter }], returnType := none }
  attributes := [.signature (sig.toList.map ascii)]

def readUtil : MethodInfo :=
  read (.object util) "<T:Ljava/lang/Object;>(Ljava/util/Date;)V"

def readSql : MethodInfo :=
  read (.object sql) "<T:Ljava/lang/Object;>(Ljava/sql/Date;)V"

def readLong : MethodInfo :=
  read (.base .long) "<T:Ljava/lang/Object;>(J)V"

/-- A class `Rows` with three overloads of `read`. -/
def rows : ClassFile where
  thisClass :=
    { packages := []
      last := { text := "Rows".toList, nonempty := by decide, unreserved := by decide } }
  superClass := none
  interfaces := []
  attributes := []
  methods := [readUtil, readSql, readLong]

theorem keyword_owner_distinct :
    rows.ownerOf readUtil ≠ rows.ownerOf readLong ∧
      ¬exists v, v ∈ declaredVariables rows readUtil ∧ v ∈ declaredVariables rows readLong := by
  have h : Overloads rows readUtil readLong :=
    { mem := by simp [rows]
      mem' := by simp [rows]
      sameName := rfl
      different := by decide }
  have halike : ¬LookAlike readUtil.descriptor readLong.descriptor := by decide
  rcases overload_owners_distinct_iff h with ⟨_, _, howner, hshared⟩
  exact ⟨howner.mpr halike, fun hv => halike (hshared.mp hv).1⟩

theorem package_owner_shared :
    Overloads rows readUtil readSql ∧ rows.ownerOf readUtil = rows.ownerOf readSql ∧
      exists v, v ∈ declaredVariables rows readUtil ∧ v ∈ declaredVariables rows readSql := by
  have h : Overloads rows readUtil readSql :=
    { mem := by simp [rows]
      mem' := by simp [rows]
      sameName := rfl
      different := by decide }
  have hvariable : TypeVariableId.mk "Rows#read(Date)" 0 ∈ declaredVariables rows readUtil ∧
      TypeVariableId.mk "Rows#read(Date)" 0 ∈ declaredVariables rows readSql := by
    decide +kernel
  exact ⟨h, by decide +kernel, _, hvariable⟩

end Dates

end ClassInfo
end Classpath
end JavaVsixLite
