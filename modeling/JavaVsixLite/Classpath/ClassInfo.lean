import JavaVsixLite.Classpath.TypeIndex
import JavaVsixLite.Fingerprint.Lowering
import JavaVsixLite.Signatures.JvmSignature

/-!
# Methods of class files

The methods of a parsed class file become members.  A member is shown with the erased
types of its descriptor, and its structured types come from the generic signature when
there is one that fits the descriptor.  The type variables of a generic method are owned
by a text made of the class, the name of the method and its erased parameters.
-/

namespace JavaVsixLite
namespace Classpath
namespace ClassInfo

open Foundation
open Signatures
open Fingerprint (Access MemberMetadata)

/-!
# Class files
-/

/-- The characters that no name in a class name contains (JVMS 4.2.2). -/
def segmentStops : List Char :=
  ['.', ';', '[', '/']

structure Segment where
  text : Text
  nonempty : text ≠ []
  unreserved : text.all (fun c => !segmentStops.contains c) = true
deriving DecidableEq

structure ClassName where
  packages : List Segment
  last : Segment
deriving DecidableEq

def ClassName.text (name : ClassName) : Text :=
  name.packages.flatMap (fun segment => segment.text ++ ['/']) ++ name.last.text

inductive FieldType where
  | base (p : PrimitiveType)
  | object (name : ClassName)
deriving DecidableEq

structure FieldDescriptor where
  dimensions : Nat
  fieldType : FieldType
deriving DecidableEq

/-- No return descriptor is `void`. -/
structure MethodDescriptor where
  parameters : List FieldDescriptor
  returnType : Option FieldDescriptor
deriving DecidableEq

structure MethodAccessFlags where
  isPublic : Bool
  isProtected : Bool
  isPrivate : Bool
  isStatic : Bool
  isAbstract : Bool
  isVarargs : Bool
  isBridge : Bool
  isSynthetic : Bool

inductive AttributeData where
  | signature (sig : List UInt8)
  | other

structure MethodInfo where
  accessFlags : MethodAccessFlags
  name : Text
  descriptor : MethodDescriptor
  attributes : List AttributeData

structure ClassFile where
  thisClass : ClassName
  superClass : Option ClassName
  interfaces : List ClassName
  attributes : List AttributeData
  methods : List MethodInfo

def signatureAttr (attributes : List AttributeData) : Option (List UInt8) :=
  attributes.findSome? (fun data =>
    match data with
    | .signature sig => some sig
    | .other => none)

/-!
# Erased types
-/

def fqnOf (name : ClassName) : Text :=
  replaceChar '/' '.' name.text

def simpleName (name : ClassName) : Text :=
  replaceChar '$' '.' (lastPiece '/' name.text)

/-- How a field type is shown without its dimensions. -/
def FieldType.render : FieldType -> Text
  | .base p => p.name.toList
  | .object name => simpleName name

def brackets (dimensions : Nat) : Text :=
  (List.replicate dimensions "[]".toList).flatten

def renderField (descriptor : FieldDescriptor) : Text :=
  descriptor.fieldType.render ++ brackets descriptor.dimensions

def renderReturn : Option FieldDescriptor -> Text
  | none => "void".toList
  | some field => renderField field

def renderMethod (name : Text) (descriptor : MethodDescriptor) : Text :=
  renderReturn descriptor.returnType ++ ' ' :: name ++
    '(' :: ", ".toList.intercalate (descriptor.parameters.map renderField) ++ [')']

def renderConstructor (name : Text) (descriptor : MethodDescriptor) : Text :=
  name ++ '(' :: ", ".toList.intercalate (descriptor.parameters.map renderField) ++ [')']

def objectFqn (descriptor : FieldDescriptor) : Option Text :=
  if descriptor.dimensions ≠ 0 then none
  else
    match descriptor.fieldType with
    | .object name => some (fqnOf name)
    | .base _ => none

def descriptorTypeRef (descriptor : FieldDescriptor) : TypeRef :=
  (List.range descriptor.dimensions).foldl (fun t _ => TypeRef.array t)
    (match descriptor.fieldType with
    | .base p => TypeRef.primitive p
    | .object name => TypeRef.ofName (String.ofList (fqnOf name)))

def returnTypeRef : Option FieldDescriptor -> TypeRef
  | none => .void
  | some field => descriptorTypeRef field

def erasedDescriptorKey (descriptor : MethodDescriptor) : Text :=
  [','].intercalate (descriptor.parameters.map renderField)

/-!
# Members
-/

inductive MemberKind where
  | method
  | constructor

structure Member where
  name : Text
  kind : MemberKind
  signature : Text
  template : Option Text
  isStatic : Bool
  retFqn : Option Text
  retDisplay : Option Text
  hidden : Bool
  metadata : Option MemberMetadata

def methodVisible (flags : MethodAccessFlags) : Bool :=
  (flags.isPublic || flags.isProtected) && !flags.isSynthetic && !flags.isBridge

def methodAccess (flags : MethodAccessFlags) : Access :=
  if flags.isPublic then .publicAccess
  else if flags.isProtected then .protectedAccess
  else if flags.isPrivate then .privateAccess
  else .packageAccess

namespace ClassFile

variable (cls : ClassFile)

def fqn : Text := fqnOf cls.thisClass

def supers : List Text :=
  (cls.superClass.toList ++ cls.interfaces).map fqnOf

/-- The names of the formal type parameters. -/
def typeParams : List Text :=
  ((signatureAttr cls.attributes).bind (fun sig =>
    (Signatures.typeParams (typeRender { params := [], shadow := [] } maxSigDepth) sig).1)).getD []

/-- Nothing when the signature does not list as many supertypes as the class has. -/
def typeParameters : List TypeParameter :=
  match (signatureAttr cls.attributes).bind
      (fun sig => parseClassSignature sig (String.ofList cls.fqn)) with
  | some (params, sups) => if sups.length = cls.supers.length then params else []
  | none => []

def namedTypeParameters : NamedParams :=
  cls.typeParams.zip cls.typeParameters

/-- The owner of the type variables of a method. -/
def ownerOf (method : MethodInfo) : Text :=
  cls.fqn ++ '#' :: method.name ++ '(' :: erasedDescriptorKey method.descriptor ++ [')']

end ClassFile

def erasedStructure (descriptor : MethodDescriptor) :
    List TypeParameter × List TypeRef × TypeRef :=
  ([], descriptor.parameters.map descriptorTypeRef, returnTypeRef descriptor.returnType)

/-- The type parameters, parameters and result; a signature must have as many parameters
as the descriptor. -/
def methodStructured (descriptor : MethodDescriptor) (signature : Option (List UInt8))
    (classParams : NamedParams) (owner : String) : List TypeParameter × List TypeRef × TypeRef :=
  match signature.bind (fun sig => parseMethodSignature sig classParams owner) with
  | some (typeParams, ret, params) =>
    if params.length = descriptor.parameters.length then (typeParams, params, ret)
    else erasedStructure descriptor
  | none => erasedStructure descriptor

def typeParamsPrefix (typeParams : List Text) : Text :=
  if typeParams.isEmpty then []
  else '<' :: ", ".toList.intercalate typeParams ++ "> ".toList

def metadataOf (cls : ClassFile) (method : MethodInfo) : MemberMetadata :=
  let (typeParams, params, result) := methodStructured method.descriptor
    (signatureAttr method.attributes) cls.namedTypeParameters (String.ofList (cls.ownerOf method))
  { declaringClass := String.ofList cls.fqn
    access := methodAccess method.accessFlags
    isStatic := method.accessFlags.isStatic
    isAbstract := method.accessFlags.isAbstract
    parameters := some params
    result := result
    typeParameters := typeParams
    isVarargs := method.accessFlags.isVarargs }

def constructorMember (cls : ClassFile) (method : MethodInfo) : Member :=
  let simple := simpleName cls.thisClass
  let parsed := (signatureAttr method.attributes).bind
    (fun sig => methodTemplate sig cls.typeParams)
  { name := simple
    kind := .constructor
    signature := renderConstructor simple method.descriptor
    template := parsed.map (fun (typeParams, _, params) =>
      typeParamsPrefix typeParams ++ simple ++ '(' :: ", ".toList.intercalate params ++ [')'])
    isStatic := false
    retFqn := none
    retDisplay := none
    hidden := !methodVisible method.accessFlags
    metadata := some
      { metadataOf cls method with isStatic := false, isAbstract := false, result := .void } }

def namedMember (cls : ClassFile) (method : MethodInfo) : Member :=
  let parsed := (signatureAttr method.attributes).bind
    (fun sig => methodTemplate sig cls.typeParams)
  { name := method.name
    kind := .method
    signature := renderMethod method.name method.descriptor
    template := parsed.map (fun (typeParams, ret, params) =>
      typeParamsPrefix typeParams ++ ret ++ ' ' :: method.name ++
        '(' :: ", ".toList.intercalate params ++ [')'])
    isStatic := method.accessFlags.isStatic
    retFqn := method.descriptor.returnType.bind objectFqn
    retDisplay := some ((parsed.map (fun (_, ret, _) => ret)).getD
      (renderReturn method.descriptor.returnType))
    hidden := !methodVisible method.accessFlags
    metadata := some (metadataOf cls method) }

/-- What the compiler adds is left out, and so is every other name in angle brackets. -/
def methodMember (cls : ClassFile) (method : MethodInfo) : Option Member :=
  if method.accessFlags.isSynthetic || method.accessFlags.isBridge then none
  else if method.name.head? = some '<' ∧ method.name ≠ "<init>".toList then none
  else if method.name = "<init>".toList then some (constructorMember cls method)
  else some (namedMember cls method)

def methodMembers (cls : ClassFile) : List Member :=
  cls.methods.filterMap (methodMember cls)

end ClassInfo
end Classpath
end JavaVsixLite
