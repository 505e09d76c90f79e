import JavaVsixLite.Structural.ValidUnits

/-!
# Silence on valid units

On a valid unit every check but two has nothing to report.  The types of parameters are
compared as they are written, without the dimensions after the names and without the type
parameters of the method, and the name of the package is compared as it is written too.
-/

namespace JavaVsixLite
namespace Structural

open Foundation

section Silence

variable {τ : Type} {erase : Erasure τ} {tree : Tree} {filename expectedPackage : Option String}

/-!
# Members and parameters
-/

theorem checkDuplicateFields_eq_nil {decl : TypeDecl}
    (h : (decl.declaredFields.map Member.name).Nodup) : checkDuplicateFields decl = [] := by
  unfold checkDuplicateFields
  rw [List.map_eq_nil_iff, repeats_eq_nil_iff]
  have hkept : ((decl.declaredFields.filter fieldInOrder).map Member.name).Nodup :=
    h.sublist (List.filter_sublist.map Member.name)
  apply List.Nodup.sublist _ hkept
  apply sublist_map_filterMap
  intro member entry hentry
  rw [Option.map_eq_some_iff] at hentry
  rcases hentry with ⟨name, hname, heq⟩
  rw [<- heq]

theorem checkDuplicateParams_eq_nil {decl : Node} (h : (formalNames decl).Nodup)
    (ownerLabel : String) : checkDuplicateParams decl ownerLabel = [] := by
  unfold checkDuplicateParams
  cases hparams : decl.childByFieldName .parameters with
  | none => rfl
  | some params =>
    dsimp only
    split
    · rfl
    · rw [List.map_eq_nil_iff, repeats_eq_nil_iff]
      unfold formalNames at h
      rw [hparams] at h
      apply List.Nodup.sublist _ h
      apply List.Sublist.map
      apply List.Sublist.filterMap
      rw [<- List.filter_filter]
      exact List.filter_sublist

theorem checkDuplicateMethods_silent_iff (h : Valid erase tree filename expectedPackage)
    {node : Node} (hbelow : Below (Node.root tree) node) {decl : TypeDecl}
    (hdecl : TypeDecl.fromNode node = some decl) :
    checkDuplicateMethods decl = [] <->
      forall m, m ∈ writtenMethods decl -> forall m', m' ∈ writtenMethods decl ->
        writtenKey m = writtenKey m' -> m = m' := by
  have herr : decl.node.hasError = false := by
    rw [TypeDecl.node_fromNode hdecl]
    exact hbelow.hasError_eq_false h.noError
  rw [checkDuplicateMethods_eq_nil_iff herr]
  constructor
  · intro hnodup m hm m' hm' hkey
    exact List.inj_on_of_nodup_map hnodup hm hm' hkey
  · intro hinj
    exact (h.methods node hbelow decl hdecl).of_map.map_on hinj

theorem checkDuplicateMembers_silent_iff (h : Valid erase tree filename expectedPackage)
    {node : Node} (hbelow : Below (Node.root tree) node) :
    checkDuplicateMembers node = [] <->
      forall decl, decl ∈ TypeDecl.fromNode node ->
        forall m, m ∈ writtenMethods decl -> forall m', m' ∈ writtenMethods decl ->
          writtenKey m = writtenKey m' -> m = m' := by
  unfold checkDuplicateMembers
  cases hdecl : TypeDecl.fromNode node with
  | none => simp
  | some decl =>
    dsimp only
    rw [checkDuplicateFields_eq_nil (h.fields node hbelow decl hdecl), List.nil_append,
      checkDuplicateMethods_silent_iff h hbelow hdecl]
    simp

/-!
# The nodes
-/

theorem checkMethodBodyShape_eq_nil (hgrammar : Grammatical tree)
    (h : Valid erase tree filename expectedPackage) {method : Node}
    (hbelow : Below (Node.root tree) method) (hkind : method.kind = .methodDeclaration) :
    checkMethodBodyShape method = [] := by
  by_contra hreport
  rcases checkMethodBodyShape_cases hgrammar hbelow hkind hreport with ⟨hbody, hcases⟩
  rcases hcases with hinterface | habstract
  · rcases hinterface with ⟨⟨body, hown, hbodyKind⟩, hdefault, hstatic, hprivate⟩
    have hallowed := h.interfaceMethods method hbelow hkind (by rw [hown, <- hbodyKind]; rfl) hbody
    rcases hallowed with hmem | hmem | hmem
    · exact hdefault hmem
    · exact hstatic hmem
    · exact hprivate hmem
  · have hnone := (h.abstractMethods method hbelow hkind habstract).2.2
    rw [hbody] at hnone
    cases hnone

theorem checkMethodDeclaration_eq_nil (hgrammar : Grammatical tree)
    (h : Valid erase tree filename expectedPackage) {method : Node}
    (hbelow : Below (Node.root tree) method) (hkind : method.kind = .methodDeclaration) :
    checkMethodDeclaration method = [] := by
  have hrepeated := h.modifiers method hbelow (by rw [hkind]; rfl)
  have hparams := h.parameters method hbelow (Or.inl hkind)
  unfold checkMethodDeclaration
  rw [checkRepeatedModifiers_eq_nil hrepeated,
    checkModifierCombo_eq_nil (fun ha => (h.abstractMethods method hbelow hkind ha).1),
    checkModifierCombo_eq_nil (fun ha => (h.abstractMethods method hbelow hkind ha).2.1),
    checkMethodBodyShape_eq_nil hgrammar h hbelow hkind]
  split
  · rfl
  · split
    · rfl
    · rw [checkDuplicateParams_eq_nil hparams]
      rfl

theorem checkConstructorDeclaration_eq_nil (h : Valid erase tree filename expectedPackage)
    {node : Node} (hbelow : Below (Node.root tree) node)
    (hkind : node.kind = .constructorDeclaration) : checkConstructorDeclaration node = [] := by
  have hrepeated := h.modifiers node hbelow (by rw [hkind]; rfl)
  have hparams := h.parameters node hbelow (Or.inr hkind)
  unfold checkConstructorDeclaration
  rw [checkRepeatedModifiers_eq_nil hrepeated, List.nil_append]
  split
  · rfl
  · split
    · rfl
    · split
      · rfl
      · split
        · rfl
        · exact checkDuplicateParams_eq_nil hparams _

theorem checkTypeDeclaration_eq (h : Valid erase tree filename expectedPackage) {node : Node}
    (hbelow : Below (Node.root tree) node) {kind : TypeKind}
    (hkind : node.kind = .typeDeclaration kind) :
    checkTypeDeclaration kind node = checkDuplicateMembers node := by
  have hrepeated := h.modifiers node hbelow (by rw [hkind]; rfl)
  have hclass : (if kind = .classKind then checkModifierCombo node "abstract" "final" else []) =
      [] := by
    split
    · rename_i heq
      exact checkModifierCombo_eq_nil (h.classes node hbelow (by rw [hkind, heq]))
    · rfl
  have hsealed : (if kind = .classKind ∨ kind = .interface then
      checkModifierCombo node "sealed" "non-sealed" else []) = [] := by
    split
    · rename_i heq
      apply checkModifierCombo_eq_nil
      apply h.sealedTypes node hbelow
      rcases heq with heq | heq
      · left
        rw [hkind, heq]
      · right
        rw [hkind, heq]
    · rfl
  unfold checkTypeDeclaration
  rw [checkRepeatedModifiers_eq_nil hrepeated, hclass, hsealed]
  rfl

theorem checkNode_silent_iff (hgrammar : Grammatical tree)
    (h : Valid erase tree filename expectedPackage) {node : Node}
    (hbelow : Below (Node.root tree) node) :
    checkNode node = [] <->
      forall decl, decl ∈ TypeDecl.fromNode node ->
        forall m, m ∈ writtenMethods decl -> forall m', m' ∈ writtenMethods decl ->
          writtenKey m = writtenKey m' -> m = m' := by
  have hother (hfrom : fromKind node.kind = none) (hnil : checkNode node = []) :
      checkNode node = [] <->
        forall decl, decl ∈ TypeDecl.fromNode node ->
          forall m, m ∈ writtenMethods decl -> forall m', m' ∈ writtenMethods decl ->
            writtenKey m = writtenKey m' -> m = m' := by
    simp [hnil, TypeDecl.fromNode, hfrom]
  unfold checkNode at hother ⊢
  cases hkind : node.kind with
  | typeDeclaration kind =>
    dsimp only
    rw [checkTypeDeclaration_eq h hbelow hkind]
    exact checkDuplicateMembers_silent_iff h hbelow
  | methodDeclaration =>
    rw [hkind] at hother
    exact hother rfl (checkMethodDeclaration_eq_nil hgrammar h hbelow hkind)
  | constructorDeclaration =>
    rw [hkind] at hother
    exact hother rfl (checkConstructorDeclaration_eq_nil h hbelow hkind)
  | fieldDeclaration =>
    rw [hkind] at hother
    exact hother rfl
      (checkRepeatedModifiers_eq_nil (h.modifiers node hbelow (by rw [hkind]; rfl)))
  | constantDeclaration =>
    rw [hkind] at hother
    exact hother rfl
      (checkRepeatedModifiers_eq_nil (h.modifiers node hbelow (by rw [hkind]; rfl)))
  | _ =>
    rw [hkind] at hother
    exact hother rfl rfl

/-!
# The file
-/

theorem topLevelTypes_below {root ty : Node} (h : ty ∈ topLevelTypes root) : Below root ty :=
  .child (Node.mem_children_of_mem_namedChildren (List.mem_of_mem_filter h)) (.here ty)

theorem checkFilename_eq_nil (hgrammar : Grammatical tree)
    (h : Valid erase tree filename expectedPackage) :
    checkFilename (topLevelTypes (Node.root tree)) filename = [] := by
  unfold checkFilename
  split
  · rfl
  · rename_i stem hstem
    rw [List.flatMap_eq_nil_iff]
    intro ty hty
    unfold checkFilenameOf
    split
    · rfl
    · split
      · rfl
      · split
        · rfl
        · rename_i hpublic
          have hmodifier := hasModifier_iff "public" hgrammar (topLevelTypes_below hty)
            (by decide) (by decide)
          have hkeyword : "public" ∈ keywords ty := by
            rw [<- hmodifier]
            simpa using hpublic
          split
          · rfl
          · rename_i name hname
            rw [if_pos (h.file stem hstem ty hty hkeyword name hname)]

theorem checkDuplicateTopLevel_eq_nil (h : Valid erase tree filename expectedPackage) :
    checkDuplicateTopLevel (topLevelTypes (Node.root tree)) = [] := by
  unfold checkDuplicateTopLevel
  rw [List.map_eq_nil_iff, repeats_eq_nil_iff]
  exact h.topLevel.sublist ((List.filter_sublist.filterMap _).map Node.text)

/-- The package of a valid unit is the expected one, so only its spelling can differ. -/
theorem checkPackage_silent_iff (h : Valid erase tree filename expectedPackage) :
    checkPackage (Node.root tree) expectedPackage = [] <->
      (expectedPackage.isSome = true ->
        forall decl, decl ∈ packageDeclarations (Node.root tree) ->
          forall path, path ∈ packagePath decl -> path = declaredPackage (Node.root tree)) := by
  cases hexpected : expectedPackage with
  | none => simp [checkPackage]
  | some expected =>
    have hpackage := h.package expected hexpected
    have hone := h.onePackage
    unfold checkPackage
    dsimp only
    cases hdecls : packageDeclarations (Node.root tree) with
    | nil =>
      have hempty : expected = "" := by
        rw [<- hpackage]
        simp [declaredPackage, hdecls]
      simp [hempty]
    | cons decl rest =>
      cases rest with
      | cons decl' rest =>
        rw [hdecls] at hone
        simp at hone
      | nil =>
        have hdecl : decl ∈ (Node.root tree).children :=
          List.mem_of_mem_filter (hdecls ▸ List.mem_cons_self)
        have herr : decl.hasError = false :=
          (Below.child hdecl (.here decl)).hasError_eq_false h.noError
        cases hpath : packagePath decl with
        | none => simp [herr, hpath]
        | some actual => simp [herr, hpath, hpackage]

theorem checkFile_silent_iff (hgrammar : Grammatical tree)
    (h : Valid erase tree filename expectedPackage) :
    checkFile (Node.root tree) filename expectedPackage = [] <->
      (expectedPackage.isSome = true ->
        forall decl, decl ∈ packageDeclarations (Node.root tree) ->
          forall path, path ∈ packagePath decl -> path = declaredPackage (Node.root tree)) := by
  unfold checkFile
  rw [checkFilename_eq_nil hgrammar h, checkDuplicateTopLevel_eq_nil h, List.nil_append,
    List.nil_append, checkPackage_silent_iff h]

end Silence

/--
A valid unit is free of reports exactly if it is plainly written, and in any unit a body is
reported only where it stands in the body of an interface or belongs to an abstract method.
-/
theorem structural_silence {τ : Type} (erase : Erasure τ) {tree : Tree}
    (filename expectedPackage : Option String) (hgrammar : Grammatical tree) :
    (Valid erase tree filename expectedPackage ->
      (structuralDiagnostics tree filename expectedPackage = [] <->
        PlainlyWritten tree expectedPackage)) ∧
      forall method, Below (Node.root tree) method -> method.kind = .methodDeclaration ->
        checkMethodBodyShape method ≠ [] ->
          (exists body, ownBody method = some body ∧ body.kind = .interfaceBody) ∨
            "abstract" ∈ keywords method := by
  constructor
  · intro h
    rw [structuralDiagnostics_eq_nil_iff, checkFile_silent_iff hgrammar h]
    constructor
    · intro hsilent
      constructor
      · intro node hbelow
        exact (checkNode_silent_iff hgrammar h hbelow).mp (hsilent.2 node hbelow)
      · exact hsilent.1
    · intro hplain
      constructor
      · exact hplain.package
      · intro node hbelow
        exact (checkNode_silent_iff hgrammar h hbelow).mpr (hplain.methods node hbelow)
  · intro method hbelow hkind hreport
    rcases (checkMethodBodyShape_cases hgrammar hbelow hkind hreport).2 with hinterface | habstract
    · exact Or.inl hinterface.1
    · exact Or.inr habstract

/-!
# Two units
-/

namespace Units

def token (text : String) : Tree :=
  .node (.token text) none text false []

def nameOf (text : String) : Tree :=
  .node .identifier (some .name) text false []

def phrase (kind : NodeKind) (field : Option Field) (children : List Tree) : Tree :=
  .node kind field (String.intercalate " " (children.map Tree.text)) false children

def modifiers (words : List String) : Tree :=
  phrase .modifiers none (words.map token)

def dimension (text : String) : Tree :=
  .node (.other "dimensions") (some .dimensions) text false []

def parameter (type name : String) (dimensions : List Tree) : Tree :=
  phrase .formalParameter none
    (.node (.other "type") (some .type) type false [] :: nameOf name :: dimensions)

/-- A method without a result and with nothing in its body. -/
def method (words : List String) (name : String) (parameters : List Tree) : Tree :=
  phrase .methodDeclaration none
    [modifiers words, token "void", nameOf name,
      phrase (.other "formal_parameters") (some .parameters)
        (token "(" :: (parameters ++ [token ")"])),
      phrase (.other "block") (some .body) [token "\x7b", token "\x7d"]]

def classDeclaration (name : String) (members : List Tree) : Tree :=
  phrase (.typeDeclaration .classKind) none
    [modifiers ["public"], token "class", nameOf name,
      phrase .classBody (some .body) (token "\x7b" :: (members ++ [token "\x7d"]))]

def interfaceDeclaration (name : String) (members : List Tree) : Tree :=
  phrase (.typeDeclaration .interface) none
    [token "interface", nameOf name,
      phrase .interfaceBody (some .body) (token "\x7b" :: (members ++ [token "\x7d"]))]

def packageDeclaration (name : String) : Tree :=
  phrase .packageDeclaration none
    [token "package", .node .identifier none name false [], token ";"]

def eraseText : Erasure String :=
  fun _ _ parameter => parameter.type ++ parameter.dimensions.getD ""

/-- A class with an overloaded method beside an interface with a default method. -/
def overloaded : Tree :=
  phrase .program none
    [packageDeclaration "p",
      classDeclaration "A"
        [method [] "m" [parameter "int" "a" []], method [] "m" [parameter "String" "a" []]],
      interfaceDeclaration "I" [method ["default"] "k" []]]

/-- `void m(int a)` and `void m(int a[])`. -/
def arrayOverload : Tree :=
  phrase .program none
    [classDeclaration "A"
      [method [] "m" [parameter "int" "a" []],
        method [] "m" [parameter "int" "a" [dimension "[]"]]]]

theorem written_overloaded :
    Grammatical overloaded ∧ Valid eraseText overloaded (some "A.java") (some "p") ∧
      PlainlyWritten overloaded (some "p") := by
  refine ⟨?_, ?_, ?_⟩
  all_goals
    constructor
    all_goals decide +kernel

/-- The overloads of a plainly written unit are told apart. -/
theorem structural_silence_overloaded :
    structuralDiagnostics overloaded (some "A.java") (some "p") = [] :=
  ((structural_silence eraseText (some "A.java") (some "p") written_overloaded.1).1
    written_overloaded.2.1).mpr written_overloaded.2.2

/-- The second of two methods is reported although an array is not a number. -/
theorem valid_overload_reported :
    Grammatical arrayOverload ∧ Valid eraseText arrayOverload (some "A.java") none ∧
      (structuralDiagnostics arrayOverload (some "A.java") none).map Diagnostic.message =
        ["method m(int) is already defined in class A"] := by
  refine ⟨?_, ?_, ?_⟩
  · constructor
    all_goals decide +kernel
  · constructor
    all_goals decide +kernel
  · decide +kernel

end Units

end Structural
end JavaVsixLite
