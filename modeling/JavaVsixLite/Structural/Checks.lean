import JavaVsixLite.Structural.SyntaxTree

/-!
# The structural checks

Files, packages, duplicates and modifiers, judged by the tree alone.  A declaration with a
parse error is passed over.  A diagnostic is given with the node it points at.
-/

namespace JavaVsixLite
namespace Structural

open Foundation

def maxDiagnostics : Nat := 100

structure Diagnostic where
  place : Node
  message : String

def fromKind : NodeKind -> Option TypeKind
  | .typeDeclaration kind => some kind
  | _ => none

def bodyKind : TypeKind -> NodeKind
  | .classKind => .classBody
  | .record => .classBody
  | .interface => .interfaceBody
  | .enum => .enumBody
  | TypeKind.annotation => .annotationTypeBody

/-!
# Modifiers
-/

def modifiersNode (decl : Node) : Option Node :=
  decl.namedChildren.find? (fun child => child.kind == .modifiers)

def hasModifier (decl : Node) (keyword : String) : Bool :=
  match modifiersNode decl with
  | none => false
  | some mods => mods.children.any (fun child => child.text == keyword)

/-- The unnamed children: the keywords without annotations and comments. -/
def keywordNodes (mods : Node) : List Node :=
  mods.children.filter (fun child => !child.isNamed)

def checkRepeatedModifiers (decl : Node) : List Diagnostic :=
  if decl.hasError then []
  else
    match modifiersNode decl with
    | none => []
    | some mods =>
      (repeats Node.kind [] (keywordNodes mods)).map (fun token => ⟨token, "repeated modifier"⟩)

def checkModifierCombo (decl : Node) (a b : String) : List Diagnostic :=
  if decl.hasError then []
  else
    match modifiersNode decl with
    | none => []
    | some mods =>
      let keywords := (keywordNodes mods).map Node.kind
      match keywords.idxOf? (.token a), keywords.idxOf? (.token b) with
      | some pa, some pb =>
        let named := if pa < pb then (a, b) else (b, a)
        match decl.childByFieldName .name with
        | none => []
        | some name =>
          [⟨name, "illegal combination of modifiers: " ++ named.1 ++ " and " ++ named.2⟩]
      | _, _ => []

/-!
# Members
-/

structure Member where
  name : String
  kind : MemberKind
  node : Node
  isStatic : Bool

def declaratorMembers (child : Node) : List Member :=
  let isStatic := child.kind == .constantDeclaration || hasModifier child "static"
  (child.namedChildren.filter (fun declarator => declarator.kind == .variableDeclarator)).filterMap
    (fun declarator =>
      (declarator.childByFieldName .name).map
        (fun name => ⟨name.text, .field, declarator, isStatic⟩))

def namedMember (child : Node) (kind : MemberKind) (isStatic : Bool) : List Member :=
  match child.childByFieldName .name with
  | none => []
  | some name => [⟨name.text, kind, child, isStatic⟩]

mutual

def membersOfAll (ancestors : List Tree) : List Tree -> List Member
  | [] => []
  | tree :: rest => membersOfChild ancestors tree ++ membersOfAll ancestors rest

/-- The members of an enum after its constants stand in a node of their own. -/
def membersOfChild (ancestors : List Tree) : Tree -> List Member
  | .node kind field text missing children =>
    let tree := Tree.node kind field text missing children
    let child : Node := ⟨tree, ancestors⟩
    match kind with
    | .fieldDeclaration => declaratorMembers child
    | .constantDeclaration => declaratorMembers child
    | .methodDeclaration => namedMember child .method (hasModifier child "static")
    | .annotationTypeElementDeclaration => namedMember child .method (hasModifier child "static")
    | .enumConstant => namedMember child .enumConstant true
    | .enumBodyDeclarations => membersOfAll (tree :: ancestors) children
    | .typeDeclaration nested =>
      namedMember child (.nestedType nested) (hasModifier child "static")
    | _ => []

end

def collectBodyMembers (body : Node) : List Member :=
  membersOfAll (body.tree :: body.ancestors) body.tree.children

structure TypeDecl where
  name : String
  kind : TypeKind
  node : Node

namespace TypeDecl

def fromNode (node : Node) : Option TypeDecl :=
  match fromKind node.kind, node.childByFieldName .name with
  | some kind, some name => some ⟨name.text, kind, node⟩
  | _, _ => none

def body (decl : TypeDecl) : Option Node :=
  decl.node.namedChildren.find? (fun child => child.kind == bodyKind decl.kind)

def componentMembers (decl : TypeDecl) : List Member :=
  match decl.kind, decl.node.childByFieldName .parameters with
  | .record, some params =>
    (params.namedChildren.filter (fun p => p.kind == .formalParameter)).filterMap
      (fun p => (p.childByFieldName .name).map (fun name => ⟨name.text, .field, p, false⟩))
  | _, _ => []

def ownMembers (decl : TypeDecl) : List Member :=
  decl.componentMembers ++
    match decl.body with
    | none => []
    | some body => collectBodyMembers body

/-- The fields declared in the body, which the components of a record are not. -/
def declaredFields (decl : TypeDecl) : List Member :=
  decl.ownMembers.filter
    (fun member => decide (member.kind = .field) && member.node.kind == .variableDeclarator)

def declaredMethods (decl : TypeDecl) : List Member :=
  decl.ownMembers.filter
    (fun member => decide (member.kind = .method) && member.node.kind == .methodDeclaration)

end TypeDecl

/-!
# What is known of a member
-/

/-- A member stands below the children it was collected from, and has the name of its node. -/
structure MemberOf (decl : Node) (member : Member) : Prop where
  below : Below decl member.node
  named : exists name, member.node.childByFieldName .name = some name ∧ name.text = member.name

theorem memberOf_namedMember {child : Node} {kind : MemberKind} {isStatic : Bool}
    {member : Member} (h : member ∈ namedMember child kind isStatic) : MemberOf child member := by
  unfold namedMember at h
  cases hname : child.childByFieldName .name with
  | none => simp [hname] at h
  | some name =>
    rw [hname, List.mem_singleton] at h
    rw [h]
    exact ⟨.here child, name, hname, rfl⟩

theorem memberOf_declaratorMembers {child : Node} {member : Member}
    (h : member ∈ declaratorMembers child) : MemberOf child member := by
  unfold declaratorMembers at h
  rw [List.mem_filterMap] at h
  rcases h with ⟨declarator, hdeclarator, hmember⟩
  rw [Option.map_eq_some_iff] at hmember
  rcases hmember with ⟨name, hname, heq⟩
  have hchild := Node.mem_children_of_mem_namedChildren (List.mem_of_mem_filter hdeclarator)
  rw [<- heq]
  exact ⟨.child hchild (.here declarator), name, hname, rfl⟩

theorem MemberOf.of_child {decl child : Node} {member : Member} (hchild : child ∈ decl.children)
    (h : MemberOf child member) : MemberOf decl member :=
  ⟨.child hchild h.below, h.named⟩

mutual

theorem memberOf_membersOfChild (ancestors : List Tree) {member : Member} (tree : Tree)
    (h : member ∈ membersOfChild ancestors tree) : MemberOf ⟨tree, ancestors⟩ member := by
  cases tree with
  | node kind field text missing children =>
    cases kind with
    | fieldDeclaration => exact memberOf_declaratorMembers h
    | constantDeclaration => exact memberOf_declaratorMembers h
    | methodDeclaration => exact memberOf_namedMember h
    | annotationTypeElementDeclaration => exact memberOf_namedMember h
    | enumConstant => exact memberOf_namedMember h
    | typeDeclaration nested => exact memberOf_namedMember h
    | enumBodyDeclarations =>
      rcases memberOf_membersOfAll _ children h with ⟨tree, htree, hmember⟩
      exact hmember.of_child (List.mem_map_of_mem htree)
    | _ => cases h

theorem memberOf_membersOfAll (ancestors : List Tree) {member : Member} (trees : List Tree)
    (h : member ∈ membersOfAll ancestors trees) :
    exists tree, tree ∈ trees ∧ MemberOf ⟨tree, ancestors⟩ member := by
  cases trees with
  | nil => cases h
  | cons tree rest =>
    rw [membersOfAll, List.mem_append] at h
    rcases h with htree | hrest
    · exact ⟨tree, List.mem_cons_self, memberOf_membersOfChild ancestors tree htree⟩
    · rcases memberOf_membersOfAll ancestors rest hrest with ⟨found, hfound, hmember⟩
      exact ⟨found, List.mem_cons_of_mem tree hfound, hmember⟩

end

namespace TypeDecl

theorem memberOf_ownMembers {decl : TypeDecl} {member : Member} (h : member ∈ decl.ownMembers) :
    MemberOf decl.node member := by
  unfold ownMembers at h
  rw [List.mem_append] at h
  rcases h with hcomponent | hbody
  · unfold componentMembers at hcomponent
    split at hcomponent
    · rename_i params hkind hparams
      rw [List.mem_filterMap] at hcomponent
      rcases hcomponent with ⟨p, hp, hmember⟩
      rw [Option.map_eq_some_iff] at hmember
      rcases hmember with ⟨name, hname, heq⟩
      have hp' := Node.mem_children_of_mem_namedChildren (List.mem_of_mem_filter hp)
      have hparams' := Node.mem_children_of_childByFieldName hparams
      rw [<- heq]
      exact ⟨.child hparams' (.child hp' (.here p)), name, hname, rfl⟩
    · cases hcomponent
  · cases hbodyNode : decl.body with
    | none => simp [hbodyNode] at hbody
    | some body =>
      rw [hbodyNode] at hbody
      rcases memberOf_membersOfAll _ _ hbody with ⟨tree, htree, hmember⟩
      have hchild : body ∈ decl.node.children :=
        Node.mem_children_of_mem_namedChildren (List.mem_of_find?_eq_some hbodyNode)
      exact (hmember.of_child (List.mem_map_of_mem htree)).of_child hchild

theorem node_fromNode {node : Node} {decl : TypeDecl} (h : fromNode node = some decl) :
    decl.node = node := by
  unfold fromNode at h
  split at h
  · cases h
    rfl
  · cases h

end TypeDecl

/-!
# Where a node belongs
-/

/-- The body of an anonymous class counts as the declaration of a class. -/
@[grind =] def enclosingAmong : List Tree -> Option (Node × TypeKind)
  | [] => none
  | p :: rest =>
    if p.kind = .classBody ∧ rest.head?.map Tree.kind = some .objectCreationExpression then
      some (⟨p, rest⟩, .classKind)
    else
      match fromKind p.kind with
      | some kind => some (⟨p, rest⟩, kind)
      | none => enclosingAmong rest

def enclosingType (node : Node) : Option (Node × TypeKind) :=
  enclosingAmong node.ancestors

/-!
# Bodies of methods
-/

def interfaceBodyMessage : String := "interface abstract methods cannot have body"

def abstractBodyMessage : String := "abstract methods cannot have a body"

def checkMethodBodyShape (method : Node) : List Diagnostic :=
  if method.hasError then []
  else
    match method.childByFieldName .body, enclosingType method with
    | some body, some (enclosing, kind) =>
      if enclosing.hasError then []
      else if kind = .interface then
        if hasModifier method "default" || hasModifier method "static" ||
            hasModifier method "private" then []
        else [⟨body, interfaceBodyMessage⟩]
      else if hasModifier method "abstract" then
        match method.childByFieldName .name with
        | none => []
        | some name => [⟨name, abstractBodyMessage⟩]
      else []
    | _, _ => []

/-!
# Duplicates
-/

def memberOwnerKeyword : TypeKind -> String
  | .classKind => "class"
  | TypeKind.annotation => "class"
  | .interface => "interface"
  | .enum => "enum"
  | .record => "record"

def paramTypesText (decl : Node) : Option (List String) :=
  match decl.childByFieldName .parameters with
  | none => none
  | some params =>
    if params.hasError then none
    else
      params.namedChildren.mapM (fun p =>
        if p.kind = .formalParameter then (p.childByFieldName .type).map Node.text else none)

def fieldInOrder (member : Member) : Bool :=
  !member.node.hasError &&
    (match member.node.parent with
      | none => true
      | some parent => !parent.hasError)

def checkDuplicateFields (decl : TypeDecl) : List Diagnostic :=
  let named := (decl.declaredFields.filter fieldInOrder).filterMap
    (fun member => (member.node.childByFieldName .name).map (fun name => (member, name)))
  (repeats (fun entry => entry.1.name) [] named).map (fun entry =>
    ⟨entry.2, "variable " ++ entry.1.name ++ " is already defined in " ++
      memberOwnerKeyword decl.kind ++ " " ++ decl.name⟩)

/-- The methods that are compared, each with the written types of its parameters. -/
def comparedMethods (decl : TypeDecl) : List (Member × List String) :=
  (decl.declaredMethods.filter (fun member => !member.node.hasError)).filterMap
    (fun member => (paramTypesText member.node).map (fun types => (member, types)))

def methodKey (entry : Member × List String) : String × List String :=
  (entry.1.name, entry.2)

def checkDuplicateMethods (decl : TypeDecl) : List Diagnostic :=
  (repeats methodKey [] (comparedMethods decl)).filterMap (fun entry =>
    (entry.1.node.childByFieldName .name).map (fun name =>
      ⟨name, "method " ++ entry.1.name ++ "(" ++ String.intercalate "," entry.2 ++
        ") is already defined in " ++ memberOwnerKeyword decl.kind ++ " " ++ decl.name⟩))

def checkDuplicateMembers (ty : Node) : List Diagnostic :=
  match TypeDecl.fromNode ty with
  | none => []
  | some decl => checkDuplicateFields decl ++ checkDuplicateMethods decl

/-- The names of the parameters, those of a list with an error left out. -/
def parameterNames (params : Node) : List Node :=
  (params.namedChildren.filter (fun p =>
    !p.hasError && (p.kind == .formalParameter || p.kind == .spreadParameter))).filterMap
      (fun p => p.childByFieldName .name)

def checkDuplicateParams (decl : Node) (ownerLabel : String) : List Diagnostic :=
  match decl.childByFieldName .parameters with
  | none => []
  | some params =>
    if params.hasError then []
    else
      (repeats Node.text [] (parameterNames params)).map (fun name =>
        ⟨name, "variable " ++ name.text ++ " is already defined in " ++ ownerLabel⟩)

/-!
# Files and packages
-/

def stripSuffix (suffix text : String) : Option String :=
  if suffix.toList <:+ text.toList then
    some (String.ofList (text.toList.take (text.toList.length - suffix.toList.length)))
  else none

def filenameKeyword : TypeKind -> String
  | .classKind => "class"
  | .record => "class"
  | .interface => "interface"
  | TypeKind.annotation => "interface"
  | .enum => "enum"

def checkFilenameOf (stem : String) (ty : Node) : List Diagnostic :=
  if ty.hasError then []
  else
    match fromKind ty.kind with
    | none => []
    | some kind =>
      if !hasModifier ty "public" then []
      else
        match ty.childByFieldName .name with
        | none => []
        | some name =>
          if name.text = stem then []
          else
            [⟨name, filenameKeyword kind ++ " " ++ name.text ++
              " is public, should be declared in a file named " ++ name.text ++ ".java"⟩]

def checkFilename (topLevel : List Node) (filename : Option String) : List Diagnostic :=
  match filename.bind (stripSuffix ".java") with
  | none => []
  | some stem => topLevel.flatMap (checkFilenameOf stem)

def checkDuplicateTopLevel (topLevel : List Node) : List Diagnostic :=
  let names := (topLevel.filter (fun ty => !ty.hasError)).filterMap
    (fun ty => ty.childByFieldName .name)
  (repeats Node.text [] names).map (fun name => ⟨name, "duplicate class: " ++ name.text⟩)

def packagePath (decl : Node) : Option String :=
  (decl.children.find? (fun child =>
    child.kind == .identifier || child.kind == .scopedIdentifier)).map Node.text

def packageMessage (actual expected : String) : String :=
  "The declared package \"" ++ actual ++ "\" does not match the expected package \"" ++
    expected ++ "\""

def packageDeclarations (root : Node) : List Node :=
  root.children.filter (fun child => child.kind == .packageDeclaration)

/-- More than one declaration is left alone, and so is a file without types. -/
def checkPackage (root : Node) (expectedPackage : Option String) : List Diagnostic :=
  match expectedPackage with
  | none => []
  | some expected =>
    match packageDeclarations root with
    | [] =>
      if root.namedChildren.any (fun child => (fromKind child.kind).isSome) &&
          expected != "" && !root.hasError then
        [⟨root.children.headD root, packageMessage "" expected⟩]
      else []
    | [decl] =>
      if decl.hasError then []
      else
        match packagePath decl with
        | none => []
        | some actual =>
          if actual = expected then [] else [⟨decl, packageMessage actual expected⟩]
    | _ :: _ :: _ => []

/-!
# All checks
-/

def checkTypeDeclaration (kind : TypeKind) (node : Node) : List Diagnostic :=
  checkRepeatedModifiers node ++
    (if kind = .classKind then checkModifierCombo node "abstract" "final" else []) ++
    (if kind = .classKind ∨ kind = .interface then
      checkModifierCombo node "sealed" "non-sealed" else []) ++
    checkDuplicateMembers node

def checkMethodDeclaration (node : Node) : List Diagnostic :=
  checkRepeatedModifiers node ++ checkModifierCombo node "abstract" "final" ++
    checkModifierCombo node "abstract" "private" ++ checkMethodBodyShape node ++
    (if node.hasError then []
    else
      match node.childByFieldName .name with
      | none => []
      | some name => checkDuplicateParams node ("method " ++ name.text))

def checkConstructorDeclaration (node : Node) : List Diagnostic :=
  checkRepeatedModifiers node ++
    (if node.hasError then []
    else
      match enclosingType node with
      | none => []
      | some (enclosing, _) =>
        if enclosing.hasError then []
        else
          match enclosing.childByFieldName .name with
          | none => []
          | some name => checkDuplicateParams node ("constructor " ++ name.text))

def checkNode (node : Node) : List Diagnostic :=
  match node.kind with
  | .typeDeclaration kind => checkTypeDeclaration kind node
  | .methodDeclaration => checkMethodDeclaration node
  | .constructorDeclaration => checkConstructorDeclaration node
  | .fieldDeclaration => checkRepeatedModifiers node
  | .constantDeclaration => checkRepeatedModifiers node
  | _ => []

def topLevelTypes (root : Node) : List Node :=
  root.namedChildren.filter (fun child => (fromKind child.kind).isSome)

def checkFile (root : Node) (filename expectedPackage : Option String) : List Diagnostic :=
  checkFilename (topLevelTypes root) filename ++ checkDuplicateTopLevel (topLevelTypes root) ++
    checkPackage root expectedPackage

def structuralDiagnostics (tree : Tree) (filename expectedPackage : Option String) :
    List Diagnostic :=
  let root := Node.root tree
  (stackWalk Node.children checkNode maxDiagnostics root.size [root]
    (checkFile root filename expectedPackage)).take maxDiagnostics

/-- Nothing is reported exactly if no check of the file and of no node has something to say. -/
theorem structuralDiagnostics_eq_nil_iff {tree : Tree} {filename expectedPackage : Option String} :
    structuralDiagnostics tree filename expectedPackage = [] <->
      checkFile (Node.root tree) filename expectedPackage = [] ∧
        forall node, Below (Node.root tree) node -> checkNode node = [] := by
  unfold structuralDiagnostics
  rw [take_stackWalk Node.size Node.visits Node.sum_size_children_lt Node.visits_eq _ _ _ (by simp),
    take_reports_eq_nil_iff (by decide)]
  simp only [mem_visits_iff]

end Structural
end JavaVsixLite
