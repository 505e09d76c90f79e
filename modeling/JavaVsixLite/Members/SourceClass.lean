import JavaVsixLite.Source.Imports
import JavaVsixLite.Source.TypeNodes

/-!
# Classes lowered from source

A type declaration as the walks see it, the members Lombok and the compiler add
to it, and its lowering to the shape a class file has.  The lowering keeps two
supertype lists: the erased names of `supers` and the structured `supertypes`.
-/

namespace JavaVsixLite

inductive TypeKind where
  | classKind
  | interface
  | enum
  | record
  | annotation
deriving DecidableEq

inductive MemberKind where
  | field
  | method
  | enumConstant
  | nestedType (kind : TypeKind)
deriving DecidableEq

structure Marks where
  getter : Bool
  setter : Bool
  data : Bool
  value : Bool
  builder : Bool
  wither : Bool
deriving DecidableEq

def Marks.none : Marks := ⟨false, false, false, false, false, false⟩

/--
A declared member, known by the node of its declaration.  `erased` is its
signature without generics, if it has one; a record component has no modifiers
of its own.
-/
structure Member where
  node : Nat
  name : String
  kind : MemberKind
  isStatic : Bool
  isPrivate : Bool
  isComponent : Bool
  signature : String
  erased : Option String
  typeText : String
  isFinal : Bool
  marks : Marks
deriving DecidableEq

/--
`memberTypes` lists the simple names of the member types of the declaration and
of each declaration around it, innermost first.
-/
structure TypeDecl where
  doc : Nat
  name : String
  binaryName : Option String
  kind : TypeKind
  typeParameters : List (String × List TypeNode)
  superNodes : List TypeNode
  hasSuperclass : Bool
  headerBroken : Bool
  memberTypes : List (List String)
  ownMembers : List Member
  constructors : List String
  usesLombok : Bool
  marks : Marks

def TypeDecl.plain (name binary : String) (superNodes : List TypeNode) :
    TypeDecl where
  doc := 0
  name := name
  binaryName := some binary
  kind := .classKind
  typeParameters := []
  superNodes := superNodes
  hasSuperclass := !superNodes.isEmpty
  headerBroken := false
  memberTypes := []
  ownMembers := []
  constructors := []
  usesLombok := false
  marks := Marks.none

inductive ExternalMemberKind where
  | method
  | field
  | constructor
deriving DecidableEq

structure ExternalMember where
  name : String
  kind : ExternalMemberKind
  signature : String
  isStatic : Bool
deriving DecidableEq

structure ExternalClass where
  supers : List String
  members : List ExternalMember
  metadata : Option ClassMetadata

/-!
# Synthesised members
-/

def enumSyntheticMembers (simple : String) : List ExternalMember :=
  [ { name := "values", kind := .method
      signature := simple ++ "[] values()", isStatic := true },
    { name := "valueOf", kind := .method
      signature := simple ++ " valueOf(String)", isStatic := true } ]

section Lombok

variable (toUppercase : Char -> List Char)

def capitalized (name : String) : String :=
  match name.toList with
  | [] => ""
  | first :: rest => String.ofList (toUppercase first ++ rest)

def isAsciiUppercase (c : Char) : Bool :=
  'A' ≤ c && c ≤ 'Z'

/-- A `boolean` field named like `isOpen` keeps its own name. -/
def getterName (field : Member) : String :=
  if field.typeText = "boolean" then
    match field.name.toList with
    | 'i' :: 's' :: c :: _ =>
      if isAsciiUppercase c then field.name
      else "is" ++ capitalized toUppercase field.name
    | _ => "is" ++ capitalized toUppercase field.name
  else "get" ++ capitalized toUppercase field.name

def instanceFields (td : TypeDecl) : List Member :=
  td.ownMembers.filter (fun m =>
    m.kind == .field && !m.isStatic && !m.isComponent)

def synthesizeField (td : TypeDecl) (field : Member) : List ExternalMember :=
  let getter :=
    td.marks.getter || td.marks.data || td.marks.value || field.marks.getter
  let setter :=
    (td.marks.setter || td.marks.data || field.marks.setter) &&
      !field.isFinal && !td.marks.value
  let wither := td.marks.wither || field.marks.wither
  let getterName := getterName toUppercase field
  let setterName := "set" ++ capitalized toUppercase field.name
  let witherName := "with" ++ capitalized toUppercase field.name
  let parameter := "(" ++ field.typeText ++ " " ++ field.name ++ ")"
  (if getter then
    [{ name := getterName, kind := .method, isStatic := false
       signature := field.typeText ++ " " ++ getterName ++ "()" }]
   else []) ++
  (if setter then
    [{ name := setterName, kind := .method, isStatic := false
       signature := "void " ++ setterName ++ parameter }]
   else []) ++
  (if wither then
    [{ name := witherName, kind := .method, isStatic := false
       signature := td.name ++ " " ++ witherName ++ parameter }]
   else [])

def builderMembers (td : TypeDecl) : List ExternalMember :=
  if td.marks.builder then
    [{ name := "builder", kind := .method, isStatic := true
       signature := td.name ++ "." ++ td.name ++ "Builder builder()" }]
  else []

/-- Only classes are extended, and a declared method is never duplicated. -/
def synthesize (td : TypeDecl) : List ExternalMember :=
  if td.kind = .classKind then
    ((instanceFields td).flatMap (synthesizeField toUppercase td) ++
      builderMembers td).filter (fun m =>
        !(td.ownMembers.any (fun own => own.kind == .method && own.name == m.name)))
  else []

def lombokMembers (td : TypeDecl) : List ExternalMember :=
  if td.usesLombok then synthesize toUppercase td else []

end Lombok

/-!
# Lowering
-/

/-- Record components and enum constants have no modifiers to hide them. -/
def externallyVisible (m : Member) : Bool :=
  m.isComponent || m.kind == .enumConstant || !m.isPrivate

def memberFromNode (m : Member) : Option ExternalMember :=
  match m.kind with
  | .enumConstant =>
    some { name := m.name, kind := .field, signature := m.name
           isStatic := m.isStatic }
  | .nestedType _ => none
  | .method =>
    m.erased.map (fun signature =>
      { name := m.name, kind := .method, signature := signature
        isStatic := m.isStatic })
  | .field =>
    m.erased.map (fun signature =>
      { name := m.name, kind := .field, signature := signature
        isStatic := m.isStatic })

def enclosingBinary (binary : String) : Option String :=
  match binary.toList.reverse.span (fun c => c != '$') with
  | (_, _ :: rest) => some (String.ofList rest.reverse)
  | (_, []) => none

def nestedTypesInScope : String -> List (List String) -> List (String × String)
  | _, [] => []
  | binary, names :: outer =>
    names.map (fun simple => (simple, binary ++ "$" ++ simple)) ++
      match enclosingBinary binary with
      | none => []
      | some enclosing => nestedTypesInScope enclosing outer

def splitHead (path : String) : Option (String × String) :=
  match path.toList.span (fun c => c != '.') with
  | (head, _ :: rest) => some (String.ofList head, String.ofList rest)
  | (_, []) => none

def nestedPath (path : String) : String :=
  String.ofList (path.toList.map (fun c => if c = '.' then '$' else c))

def resolveLowered (known : String -> Bool) (imports : Imports)
    (scope : List (String × String)) (name : String) (dotted : Bool) :
    Option String :=
  if dotted then
    match importPathToBinary name known with
    | some binary => some binary
    | none =>
      match splitHead name with
      | none => none
      | some (head, rest) =>
        match pickFqn known (imports.candidates head) with
        | none => none
        | some outer => pickFqn known [outer ++ "$" ++ nestedPath rest]
  else
    match scope.find? (fun entry => entry.1 == name) with
    | some entry => some entry.2
    | none => pickFqn known (imports.candidates name)

/-- The class an `extends` or `implements` clause is lowered to, if any. -/
def superFqn (known : String -> Bool) (imports : Imports) (clause : TypeNode) :
    Option String :=
  match clause.baseTypeName with
  | none => none
  | some simple => pickFqn known (imports.candidates simple)

def loweredSupers (known : String -> Bool) (imports : Imports) (td : TypeDecl) :
    List String :=
  let explicit := td.superNodes.filterMap (superFqn known imports)
  if td.kind = .enum then "java.lang.Enum" :: explicit
  else if explicit.isEmpty then ["java.lang.Object"]
  else explicit

def implicitSupertype (td : TypeDecl) (binary : String) : List TypeRef :=
  match td.kind with
  | .enum => [.named (.named "java.lang.Enum") [TypeRef.ofName binary]]
  | .record => [TypeRef.ofName "java.lang.Record"]
  | .classKind =>
    if td.hasSuperclass then [] else [TypeRef.ofName "java.lang.Object"]
  | _ => []

def loweredMetadata (known : String -> Bool) (imports : Imports)
    (td : TypeDecl) : ClassMetadata :=
  let binary := td.binaryName.getD td.name
  let scope := nestedTypesInScope binary td.memberTypes
  let resolveNamed := resolveLowered known imports scope
  let params :=
    TypeNode.lowerTypeParameters binary resolveNamed 0 [] td.typeParameters
  let supertypes :=
    implicitSupertype td binary ++
      td.superNodes.map (TypeNode.lower params.1 resolveNamed)
  { typeParameters := params.2
    supertypes := supertypes
    hierarchyComplete :=
      !td.headerBroken && !supertypes.any TypeRef.containsUnknown }

def toExternalClass (toUppercase : Char -> List Char) (known : String -> Bool)
    (imports : Imports) (td : TypeDecl) : ExternalClass where
  supers := loweredSupers known imports td
  members :=
    (td.ownMembers.filter externallyVisible).filterMap memberFromNode ++
      td.constructors.map (fun signature =>
        { name := td.name, kind := .constructor, signature := signature
          isStatic := false }) ++
      (if td.kind = .enum then enumSyntheticMembers td.name else []) ++
      lombokMembers toUppercase td
  metadata := some (loweredMetadata known imports td)

end JavaVsixLite
