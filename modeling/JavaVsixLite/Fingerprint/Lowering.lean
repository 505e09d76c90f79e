import JavaVsixLite.Members.SourceClass

/-!
# Declarations as other files see them

A document is lowered to the classes that other files read, with every type name
looked up through a function `pick` that chooses among candidate names.  Local
and anonymous classes have no binary name and are left out, and so are the
bodies of methods and the rendered signatures.
-/

namespace JavaVsixLite

namespace TypeNode

mutual
def qualified : TypeNode -> Bool
  | .scoped qualifier _ => !qualifier.isEmpty
  | .generic base args => qualified base && qualifiedAll args
  | .array element _ => qualified element
  | .annotated inner => qualified inner
  | .wildcard _ bound => qualifiedBound bound
  | _ => true

def qualifiedAll : List TypeNode -> Bool
  | [] => true
  | node :: rest => qualified node && qualifiedAll rest

def qualifiedBound : Option TypeNode -> Bool
  | none => true
  | some node => qualified node
end

end TypeNode

namespace Fingerprint

abbrev Pick := List String -> Option String

inductive Access where
  | publicAccess
  | protectedAccess
  | packageAccess
  | privateAccess

structure Modifiers where
  isPublic : Bool
  isProtected : Bool
  isPrivate : Bool
  isStatic : Bool
  isAbstract : Bool
  isDefault : Bool
  isFinal : Bool

def Modifiers.none : Modifiers := ⟨false, false, false, false, false, false, false⟩

def accessOf (modifiers : Modifiers) (default : Access) : Access :=
  if modifiers.isPublic then .publicAccess
  else if modifiers.isProtected then .protectedAccess
  else if modifiers.isPrivate then .privateAccess
  else default

/-!
# Source
-/

structure WrittenType where
  node : TypeNode
  text : String
  qualified : node.qualified = true

/-- `dims` counts the brackets after the name of a formal parameter. -/
inductive Parameter where
  | formal (type : Option WrittenType) (dims : Nat)
  | spread (type : Option WrittenType)

/-- `parametersText` is the text of the parameter list; `renders` says that the
declaration has an erased signature. -/
structure MethodDecl where
  name : String
  modifiers : Modifiers
  typeParameters : List (String × List WrittenType)
  parameters : Option (List Parameter)
  parametersText : String
  result : Option WrittenType
  hasBody : Bool
  headerBroken : Bool
  renders : Bool

/-- A field or a record component. -/
structure FieldDecl where
  name : String
  modifiers : Modifiers
  isStatic : Bool
  isComponent : Bool
  type : Option WrittenType
  dims : Nat
  renders : Bool
  marks : Marks

inductive MemberDecl where
  | method (decl : MethodDecl)
  | field (decl : FieldDecl)
  | enumConstant (name : String)

structure ConstructorDecl where
  name : String
  modifiers : Modifiers
  typeParameters : List (String × List WrittenType)
  parameters : Option (List Parameter)
  parametersText : String
  headerBroken : Bool
  renders : Bool

/-- `scopeNames` are the member types that a scope walk sees in the body;
`unclassified` says that the body has a member the parser could not classify. -/
structure Header where
  name : String
  kind : TypeKind
  modifiers : Modifiers
  typeParameters : List (String × List WrittenType)
  superNodes : List WrittenType
  hasSuperclass : Bool
  headerBroken : Bool
  members : List MemberDecl
  constructors : List ConstructorDecl
  compactConstructor : Option (Modifiers × Bool)
  components : Option (List Parameter)
  unclassified : Bool
  scopeNames : List String
  marks : Marks

/-- `types` are the declarations inside, each with whether it is a member type.
`enclosed` says that the scope walk goes on to the declaration around it. -/
inductive Decl where
  | mk (header : Header) (enclosed : Bool) (types : List (Bool × Decl))

namespace Decl

def header : Decl -> Header
  | .mk header _ _ => header

def enclosed : Decl -> Bool
  | .mk _ enclosed _ => enclosed

def types : Decl -> List (Bool × Decl)
  | .mk _ _ types => types

end Decl

structure Doc where
  imports : Imports
  usesLombok : Bool
  types : List (Bool × Decl)

/-!
# What other files read
-/

structure ClassMetadata where
  id : String
  kind : TypeKind
  access : Access
  isAbstract : Bool
  isStatic : Bool
  enclosingClass : Option String
  typeParameters : List TypeParameter
  supertypes : List TypeRef
  hierarchyComplete : Bool
  constructorsComplete : Bool

structure MemberMetadata where
  declaringClass : String
  access : Access
  isStatic : Bool
  isAbstract : Bool
  parameters : Option (List TypeRef)
  result : TypeRef
  typeParameters : List TypeParameter
  isVarargs : Bool

structure ExternalMember where
  name : String
  kind : ExternalMemberKind
  isStatic : Bool
  retFqn : Option String
  retDisplay : Option String
  metadata : Option MemberMetadata

structure ExternalClass where
  supers : List String
  typeParams : List String
  members : List ExternalMember
  metadata : Option ClassMetadata

/-- A declaration with its binary name and the member types in scope. -/
structure Located where
  header : Header
  binary : String
  levels : List (List String)

/-!
# Lowering
-/

/-- A dotted name is tried as a path, then through the imports of its head; a
member type in scope shadows the imports. -/
def resolveNamed (pick : Pick) (imports : Imports) (scope : List (String × String))
    (name : String) (dotted : Bool) : Option String :=
  if dotted then
    match importPathToBinary name (fun candidate => (pick [candidate]).isSome) with
    | some binary => some binary
    | none =>
      match splitHead name with
      | none => none
      | some (head, rest) =>
        match pick (imports.candidates head) with
        | none => none
        | some outer => pick [outer ++ "$" ++ nestedPath rest]
  else
    match scope.find? (fun entry => entry.1 == name) with
    | some entry => some entry.2
    | none => pick (imports.candidates name)

section Members

variable (pick : Pick) (imports : Imports) (resolve : TypeNode.Resolver)

abbrev lowerType (vars : TypeNode.VariableScope) (type : WrittenType) : TypeRef :=
  TypeNode.lower vars resolve type.node

/-- The names in scope, with the outer ones first, and the lowered parameters. -/
def lowerTypeParameters (owner : String) (outer : TypeNode.VariableScope)
    (parameters : List (String × List WrittenType)) :
    TypeNode.VariableScope × List TypeParameter :=
  TypeNode.lowerTypeParameters owner resolve 0 outer
    (parameters.map (fun p => (p.1, p.2.map WrittenType.node)))

def wrapArray (element : TypeRef) : Nat -> TypeRef
  | 0 => element
  | dims + 1 => .array (wrapArray element dims)

def lowerParameter (vars : TypeNode.VariableScope) : Parameter -> Option TypeRef
  | .formal none _ => none
  | .formal (some type) dims => some (wrapArray (lowerType resolve vars type) dims)
  | .spread none => some (.array .unknown)
  | .spread (some type) => some (.array (lowerType resolve vars type))

def Parameter.isSpread : Parameter -> Bool
  | .spread _ => true
  | .formal _ _ => false

def lowerParameters (vars : TypeNode.VariableScope) (parameters : Option (List Parameter)) :
    List TypeRef × Bool :=
  match parameters with
  | none => ([], false)
  | some parameters =>
    (parameters.filterMap (lowerParameter resolve vars), parameters.any Parameter.isSpread)

def resolveRetFqn (type : WrittenType) : Option String :=
  match type.node.baseTypeName with
  | none => none
  | some simple => pick (imports.candidates simple)

def lowerOrUnknown (vars : TypeNode.VariableScope) : Option WrittenType -> TypeRef
  | none => .unknown
  | some type => lowerType resolve vars type

def methodOwner (binary name : String) (parameters : Option (List Parameter)) (text : String) :
    String :=
  match parameters with
  | some _ => binary ++ "#" ++ name ++ text
  | none => binary ++ "#" ++ name ++ "()"

def isInterface (kind : TypeKind) : Bool :=
  kind == .interface

def memberAccess (kind : TypeKind) (modifiers : Modifiers) : Access :=
  accessOf modifiers (if isInterface kind then .publicAccess else .packageAccess)

def methodIsAbstract (kind : TypeKind) (decl : MethodDecl) : Bool :=
  decl.modifiers.isAbstract ||
    (isInterface kind && !decl.modifiers.isStatic && !decl.modifiers.isPrivate &&
      !decl.modifiers.isDefault && !decl.hasBody)

def lowerMethod (kind : TypeKind) (binary : String) (vars : TypeNode.VariableScope)
    (decl : MethodDecl) : ExternalMember :=
  let owner := methodOwner binary decl.name decl.parameters decl.parametersText
  let typeParameters := lowerTypeParameters resolve owner vars decl.typeParameters
  let parameters := lowerParameters resolve typeParameters.1 decl.parameters
  { name := decl.name
    kind := .method
    isStatic := decl.modifiers.isStatic
    retFqn := decl.result.bind (resolveRetFqn pick imports)
    retDisplay := decl.result.map WrittenType.text
    metadata := some
      { declaringClass := binary
        access := memberAccess kind decl.modifiers
        isStatic := decl.modifiers.isStatic
        isAbstract := methodIsAbstract kind decl
        parameters := if decl.headerBroken then none else some parameters.1
        result := lowerOrUnknown resolve typeParameters.1 decl.result
        typeParameters := typeParameters.2
        isVarargs := parameters.2 } }

def lowerField (kind : TypeKind) (binary : String) (vars : TypeNode.VariableScope)
    (decl : FieldDecl) : ExternalMember :=
  { name := decl.name
    kind := .field
    isStatic := decl.isStatic
    retFqn := decl.type.bind (resolveRetFqn pick imports)
    retDisplay := decl.type.map WrittenType.text
    metadata := some
      { declaringClass := binary
        access := memberAccess kind decl.modifiers
        isStatic := decl.isStatic
        isAbstract := false
        parameters := none
        result := wrapArray (lowerOrUnknown resolve vars decl.type) decl.dims
        typeParameters := []
        isVarargs := false } }

def lowerEnumConstant (binary name : String) : ExternalMember :=
  { name := name
    kind := .field
    isStatic := true
    retFqn := none
    retDisplay := none
    metadata := some
      { declaringClass := binary
        access := .publicAccess
        isStatic := true
        isAbstract := false
        parameters := none
        result := TypeRef.ofName binary
        typeParameters := []
        isVarargs := false } }

def MemberDecl.externallyVisible : MemberDecl -> Bool
  | .method decl => !decl.modifiers.isPrivate
  | .field decl => decl.isComponent || !decl.modifiers.isPrivate
  | .enumConstant _ => true

def memberFromNode (kind : TypeKind) (binary : String) (vars : TypeNode.VariableScope) :
    MemberDecl -> Option ExternalMember
  | .enumConstant name => some (lowerEnumConstant binary name)
  | .method decl =>
    if decl.renders then some (lowerMethod pick imports resolve kind binary vars decl) else none
  | .field decl =>
    if decl.renders then some (lowerField pick imports resolve kind binary vars decl) else none

/-!
# Constructors
-/

def constructorMember (name binary : String) (access : Access)
    (parameters : Option (List TypeRef)) (typeParameters : List TypeParameter)
    (isVarargs : Bool) : ExternalMember :=
  { name := name
    kind := .constructor
    isStatic := false
    retFqn := none
    retDisplay := none
    metadata := some
      { declaringClass := binary
        access := access
        isStatic := false
        isAbstract := false
        parameters := parameters
        result := .void
        typeParameters := typeParameters
        isVarargs := isVarargs } }

def constructorMemberFromNode (binary : String) (vars : TypeNode.VariableScope)
    (decl : ConstructorDecl) : Option ExternalMember :=
  if decl.renders then
    let owner := methodOwner binary "<init>" decl.parameters decl.parametersText
    let typeParameters := lowerTypeParameters resolve owner vars decl.typeParameters
    let parameters := lowerParameters resolve typeParameters.1 decl.parameters
    some (constructorMember decl.name binary (accessOf decl.modifiers .packageAccess)
      (if decl.headerBroken then none else some parameters.1) typeParameters.2 parameters.2)
  else none

def defaultConstructor (header : Header) (binary : String) (classAccess : Access) :
    ExternalMember :=
  constructorMember header.name binary classAccess (some []) [] false

def recordCanonicalConstructor (header : Header) (binary : String) (classAccess : Access)
    (vars : TypeNode.VariableScope) : ExternalMember :=
  let parameters := lowerParameters resolve vars header.components
  let access :=
    match header.compactConstructor with
    | some compact => accessOf compact.1 classAccess
    | none => classAccess
  constructorMember header.name binary access (some parameters.1) [] parameters.2

def constructorMembers (header : Header) (binary : String) (classAccess : Access)
    (vars : TypeNode.VariableScope) : List ExternalMember :=
  if header.kind = .interface ∨ header.kind = TypeKind.annotation then []
  else if header.constructors.isEmpty then
    if header.kind = .record then
      [recordCanonicalConstructor resolve header binary classAccess vars]
    else [defaultConstructor header binary classAccess]
  else header.constructors.filterMap (constructorMemberFromNode resolve binary vars)

end Members

/-!
# Lombok
-/

structure SyntheticMember where
  name : String
  isStatic : Bool
  retDisplay : Option String
  retFqn : Option String

structure FieldInfo where
  name : String
  typeText : String
  isFinal : Bool
  marks : Marks

def fieldInfo : MemberDecl -> Option FieldInfo
  | .field decl =>
    if decl.isStatic || decl.isComponent then none
    else
      decl.type.map (fun type =>
        { name := decl.name
          typeText := type.text
          isFinal := decl.modifiers.isFinal
          marks := decl.marks })
  | _ => none

def instanceFields (header : Header) : List FieldInfo :=
  header.members.filterMap fieldInfo

section Lombok

variable (toUppercase : Char -> List Char)

/-- A `boolean` field named like `isOpen` keeps its own name. -/
def getterName (field : FieldInfo) : String :=
  if field.typeText = "boolean" then
    match field.name.toList with
    | 'i' :: 's' :: c :: _ =>
      if isAsciiUppercase c then field.name
      else "is" ++ capitalized toUppercase field.name
    | _ => "is" ++ capitalized toUppercase field.name
  else "get" ++ capitalized toUppercase field.name

def synthesizeField (header : Header) (field : FieldInfo) : List SyntheticMember :=
  let getter :=
    header.marks.getter || header.marks.data || header.marks.value || field.marks.getter
  let setter :=
    (header.marks.setter || header.marks.data || field.marks.setter) &&
      !field.isFinal && !header.marks.value
  let wither := header.marks.wither || field.marks.wither
  (if getter then
    [{ name := getterName toUppercase field, isStatic := false
       retDisplay := some field.typeText, retFqn := none }]
   else []) ++
  (if setter then
    [{ name := "set" ++ capitalized toUppercase field.name, isStatic := false
       retDisplay := some "void", retFqn := none }]
   else []) ++
  (if wither then
    [{ name := "with" ++ capitalized toUppercase field.name, isStatic := false
       retDisplay := some header.name, retFqn := none }]
   else [])

def builderSimple (header : Header) : String :=
  header.name ++ "Builder"

def builderMembers (loc : Located) : List SyntheticMember :=
  if loc.header.marks.builder then
    [{ name := "builder", isStatic := true
       retDisplay := some (builderSimple loc.header)
       retFqn := some (loc.binary ++ "$" ++ builderSimple loc.header) }]
  else []

def MemberDecl.isMethodNamed (name : String) : MemberDecl -> Bool
  | .method decl => decl.name == name
  | _ => false

/-- Only classes are extended, and a declared method is never duplicated. -/
def synthesize (loc : Located) : List SyntheticMember :=
  if loc.header.kind = .classKind then
    ((instanceFields loc.header).flatMap (synthesizeField toUppercase loc.header) ++
      builderMembers loc).filter (fun m =>
        !(loc.header.members.any (MemberDecl.isMethodNamed m.name)))
  else []

/-- The base name of a rendered type, unless it is an array or a primitive. -/
def displayBaseSimple (display : String) : Option String :=
  let base := ((display.splitOn "<").headD "").trimAscii.toString
  if base.endsWith "[]" then none
  else
    let simple := lastSegment base
    match simple.toList with
    | [] => none
    | c :: _ => if isAsciiUppercase c then some simple else none

def SyntheticMember.intoExternal (pick : Pick) (imports : Imports) (m : SyntheticMember) :
    ExternalMember :=
  { name := m.name
    kind := .method
    isStatic := m.isStatic
    retFqn :=
      match m.retFqn with
      | some fqn => some fqn
      | none =>
        match m.retDisplay.bind displayBaseSimple with
        | some simple => pick (imports.candidates simple)
        | none => none
    retDisplay := m.retDisplay
    metadata := none }

/-- The companion of a class with a builder, which only Lombok generates. -/
def builderClass (loc : Located) : Option ExternalClass :=
  if loc.header.marks.builder then
    let builderFqn := loc.binary ++ "$" ++ builderSimple loc.header
    some
      { supers := ["java.lang.Object"]
        typeParams := []
        members :=
          (instanceFields loc.header).map (fun field =>
            { name := field.name, kind := .method, isStatic := false
              retFqn := some builderFqn
              retDisplay := some (builderSimple loc.header), metadata := none }) ++
          [{ name := "build", kind := .method, isStatic := false
             retFqn := some loc.binary
             retDisplay := some loc.header.name, metadata := none }]
        metadata := none }
  else none

/-!
# Classes
-/

variable (pick : Pick) (imports : Imports) (usesLombok : Bool)

def enumSyntheticMembers (name : String) (ownFqn : Option String) : List ExternalMember :=
  [ { name := "values", kind := .method, isStatic := true, retFqn := none
      retDisplay := some (name ++ "[]"), metadata := none },
    { name := "valueOf", kind := .method, isStatic := true, retFqn := ownFqn
      retDisplay := some name, metadata := none } ]

def implicitSupertype (loc : Located) : List TypeRef :=
  match loc.header.kind with
  | .enum => [.named (.named "java.lang.Enum") [TypeRef.ofName loc.binary]]
  | .record => [TypeRef.ofName "java.lang.Record"]
  | .classKind =>
    if loc.header.hasSuperclass then [] else [TypeRef.ofName "java.lang.Object"]
  | _ => []

def constructorsComplete (header : Header) : Bool :=
  header.constructors.all (fun c => !c.headerBroken) &&
    header.compactConstructor.all (fun c => !c.2) &&
    !header.unclassified

def Located.resolver (loc : Located) : TypeNode.Resolver :=
  resolveNamed pick imports (nestedTypesInScope loc.binary loc.levels)

def lowerMetadata (loc : Located) : ClassMetadata :=
  let resolve := loc.resolver pick imports
  let params := lowerTypeParameters resolve loc.binary [] loc.header.typeParameters
  let supertypes :=
    implicitSupertype loc ++ loc.header.superNodes.map (lowerType resolve params.1)
  let enclosing := enclosingBinary loc.binary
  { id := loc.binary
    kind := loc.header.kind
    access := accessOf loc.header.modifiers .packageAccess
    isAbstract :=
      loc.header.modifiers.isAbstract || loc.header.kind == .interface ||
        loc.header.kind == TypeKind.annotation
    isStatic :=
      enclosing.isNone || loc.header.modifiers.isStatic || loc.header.kind != .classKind
    enclosingClass := enclosing
    typeParameters := params.2
    supertypes := supertypes
    hierarchyComplete :=
      !loc.header.headerBroken && !supertypes.any TypeRef.containsUnknown
    constructorsComplete := constructorsComplete loc.header }

def lowerSupers (loc : Located) : List String :=
  let explicit := loc.header.superNodes.filterMap (resolveRetFqn pick imports)
  if loc.header.kind = .enum then "java.lang.Enum" :: explicit
  else if explicit.isEmpty then ["java.lang.Object"]
  else explicit

def toExternalClass (loc : Located) : ExternalClass :=
  let resolve := loc.resolver pick imports
  let classNames :=
    (lowerTypeParameters resolve loc.binary [] loc.header.typeParameters).1
  let classAccess := accessOf loc.header.modifiers .packageAccess
  { supers := lowerSupers pick imports loc
    typeParams := classNames.map (fun entry => entry.1)
    members :=
      (loc.header.members.filter MemberDecl.externallyVisible).filterMap
          (memberFromNode pick imports resolve loc.header.kind loc.binary classNames) ++
        constructorMembers resolve loc.header loc.binary classAccess classNames ++
        (if loc.header.kind = .enum then
          enumSyntheticMembers loc.header.name (pick (imports.candidates loc.header.name))
         else []) ++
        (if usesLombok then
          (synthesize toUppercase loc).map (SyntheticMember.intoExternal pick imports)
         else [])
    metadata := some (lowerMetadata pick imports loc) }

end Lombok

/-!
# Documents
-/

def firstNamed (types : List (Bool × Decl)) (name : String) : Option Decl :=
  (types.find? (fun entry => entry.1 && entry.2.header.name == name)).map (fun entry => entry.2)

def Decl.locate (decl : Decl) (binary : String) (outer : List (List String)) : Located :=
  { header := decl.header
    binary := binary
    levels := decl.header.scopeNames :: (if decl.enclosed then outer else []) }

/-- `find_type_by_path`, with the path split at its dots. -/
def findTypeByPath (qualifyName : String -> String) (outer : List (List String))
    (types : List (Bool × Decl)) : List String -> Option Located
  | [] => none
  | name :: rest =>
    match firstNamed types name with
    | none => none
    | some decl =>
      let loc := decl.locate (qualifyName name) outer
      match rest with
      | [] => some loc
      | _ :: _ =>
        findTypeByPath (fun inner => loc.binary ++ "$" ++ inner) loc.levels decl.types rest

def Doc.qualifyName (doc : Doc) (name : String) : String :=
  match doc.imports.package with
  | some p => if p.isEmpty then name else p ++ "." ++ name
  | none => name

def Doc.find (doc : Doc) (path : List String) : Option Located :=
  findTypeByPath doc.qualifyName [] doc.types path

def classFromDoc (toUppercase : Char -> List Char) (pick : Pick) (doc : Doc)
    (path : List String) : Option ExternalClass :=
  match doc.find path with
  | some loc => some (toExternalClass toUppercase pick doc.imports doc.usesLombok loc)
  | none =>
    match doc.find path.dropLast with
    | none => none
    | some outer =>
      if path.getLast? = some (builderSimple outer.header) && doc.usesLombok then
        builderClass outer
      else none

/-!
# The fingerprint
-/

mutual
/-- The declarations of a subtree, later children first. -/
def walk (binary : String) (outer : List (List String)) : Decl -> List Located
  | .mk header enclosed types =>
    let levels := header.scopeNames :: (if enclosed then outer else [])
    { header := header, binary := binary, levels := levels } ::
      walkAll (fun inner => binary ++ "$" ++ inner) levels types

def walkAll (qualifyName : String -> String) (outer : List (List String)) :
    List (Bool × Decl) -> List Located
  | [] => []
  | (_, .mk header enclosed types) :: rest =>
    walkAll qualifyName outer rest ++
      walk (qualifyName header.name) outer (.mk header enclosed types)
end

def Doc.declarations (doc : Doc) : List Located :=
  walkAll doc.qualifyName [] doc.types

/-- The part of a class that is hashed. -/
structure Shape where
  metadata : Option ClassMetadata
  members : List (String × ExternalMemberKind × Option MemberMetadata)

def ExternalClass.shape (c : ExternalClass) : Shape :=
  { metadata := c.metadata
    members := c.members.map (fun m => (m.name, m.kind, m.metadata)) }

def pickFirst : Pick := fun candidates => candidates.head?

/-- The sorted entries that are hashed, hashes taken as injective. -/
def declarationFingerprint (toUppercase : Char -> List Char) (doc : Doc) :
    List (String × Shape) :=
  let entries := doc.declarations.map (fun loc =>
    (loc.binary,
      (toExternalClass toUppercase pickFirst doc.imports doc.usesLombok loc).shape))
  entries.mergeSort (fun a b => decide (a.1 ≤ b.1))

end Fingerprint
end JavaVsixLite
