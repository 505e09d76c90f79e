import JavaVsixLite.Signatures.JvmSignature

/-!
# The grammar of signatures

The trees of JVMS 4.7.9.1, how they are written, and what they stand for.  A class
type is a chain of simple names with type arguments; it stands for the innermost
class, with `$` between the names, applied to the innermost arguments.
-/

namespace JavaVsixLite
namespace Signatures

open Foundation

def reserved : List Char :=
  ['.', ';', '[', '/', '<', '>', ':']

def identifier (name : Text) : Bool :=
  !name.isEmpty && name.all (fun c => !reserved.contains c)

mutual
inductive Sig where
  | base (p : PrimitiveType)
  | typeVar (name : Text)
  | array (element : Sig)
  | classType (packages : List Text) (name : Text) (args : Args) (suffixes : Suffixes)

inductive Args where
  | nil
  | any (rest : Args)
  | exactly (t : Sig) (rest : Args)
  | upper (t : Sig) (rest : Args)
  | lower (t : Sig) (rest : Args)

inductive Suffixes where
  | nil
  | cons (name : Text) (args : Args) (rest : Suffixes)
end

/-!
# Printing
-/

def baseLetter : PrimitiveType -> Char
  | .byte => 'B'
  | .char => 'C'
  | .double => 'D'
  | .float => 'F'
  | .int => 'I'
  | .long => 'J'
  | .short => 'S'
  | .boolean => 'Z'

def qualified (separator : Char) (packages : List Text) (name : Text) : Text :=
  packages.flatMap (fun package => package ++ [separator]) ++ name

mutual
@[grind =] def Sig.print : Sig -> List UInt8
  | .base p => [ascii (baseLetter p)]
  | .typeVar name => ascii 'T' :: (Utf8.encode name ++ [ascii ';'])
  | .array element => ascii '[' :: element.print
  | .classType packages name args suffixes =>
    ascii 'L' :: (Utf8.encode (qualified '/' packages name) ++
      (args.print ++ (suffixes.print ++ [ascii ';'])))

@[grind =] def Args.printItems : Args -> List UInt8
  | .nil => []
  | .any rest => ascii '*' :: rest.printItems
  | .exactly t rest => t.print ++ rest.printItems
  | .upper t rest => ascii '+' :: (t.print ++ rest.printItems)
  | .lower t rest => ascii '-' :: (t.print ++ rest.printItems)

@[grind =] def Args.print : Args -> List UInt8
  | .nil => []
  | .any rest => ascii '<' :: (ascii '*' :: rest.printItems ++ [ascii '>'])
  | .exactly t rest => ascii '<' :: (t.print ++ rest.printItems ++ [ascii '>'])
  | .upper t rest => ascii '<' :: (ascii '+' :: (t.print ++ rest.printItems) ++ [ascii '>'])
  | .lower t rest => ascii '<' :: (ascii '-' :: (t.print ++ rest.printItems) ++ [ascii '>'])

@[grind =] def Suffixes.print : Suffixes -> List UInt8
  | .nil => []
  | .cons name args rest => ascii '.' :: (Utf8.encode name ++ (args.print ++ rest.print))
end

/-!
# Meaning
-/

def Suffixes.join (binary : Text) : Suffixes -> Text
  | .nil => binary
  | .cons name _ rest => rest.join (binary ++ '$' :: name)

mutual
@[grind =] def Sig.denote (lookup : Text -> TypeRef) : Sig -> TypeRef
  | .base p => .primitive p
  | .typeVar name => lookup name
  | .array element => .array (element.denote lookup)
  | .classType packages name args suffixes =>
    .named (.named (String.ofList (suffixes.join (qualified '.' packages name))))
      (suffixes.innermost lookup (args.denote lookup))

@[grind =] def Args.denote (lookup : Text -> TypeRef) : Args -> List TypeRef
  | .nil => []
  | .any rest => .wildcard none none :: rest.denote lookup
  | .exactly t rest => t.denote lookup :: rest.denote lookup
  | .upper t rest => .wildcard (some (t.denote lookup)) none :: rest.denote lookup
  | .lower t rest => .wildcard none (some (t.denote lookup)) :: rest.denote lookup

@[grind =] def Suffixes.innermost (lookup : Text -> TypeRef) (outer : List TypeRef) :
    Suffixes -> List TypeRef
  | .nil => outer
  | .cons _ args rest => rest.innermost lookup (args.denote lookup)
end

mutual
def Sig.vars : Sig -> List Text
  | .base _ => []
  | .typeVar name => [name]
  | .array element => element.vars
  | .classType _ _ args suffixes => suffixes.vars args.vars

def Args.vars : Args -> List Text
  | .nil => []
  | .any rest => rest.vars
  | .exactly t rest => t.vars ++ rest.vars
  | .upper t rest => t.vars ++ rest.vars
  | .lower t rest => t.vars ++ rest.vars

def Suffixes.vars (outer : List Text) : Suffixes -> List Text
  | .nil => outer
  | .cons _ args rest => rest.vars args.vars
end

/-!
# Limits
-/

mutual
@[grind =] def Sig.depth : Sig -> Nat
  | .base _ => 1
  | .typeVar _ => 1
  | .array element => element.depth + 1
  | .classType _ _ args suffixes => max args.depth suffixes.depth + 1

@[grind =] def Args.depth : Args -> Nat
  | .nil => 0
  | .any rest => rest.depth
  | .exactly t rest => max t.depth rest.depth
  | .upper t rest => max t.depth rest.depth
  | .lower t rest => max t.depth rest.depth

@[grind =] def Suffixes.depth : Suffixes -> Nat
  | .nil => 0
  | .cons _ args rest => max args.depth rest.depth
end

mutual
@[grind =] def Sig.wellFormed : Sig -> Bool
  | .base _ => true
  | .typeVar name => identifier name
  | .array element => element.wellFormed
  | .classType packages name args suffixes =>
    packages.all identifier && identifier name && args.wellFormed && suffixes.wellFormed

@[grind =] def Args.wellFormed : Args -> Bool
  | .nil => true
  | .any rest => rest.wellFormed
  | .exactly t rest => t.wellFormed && rest.wellFormed
  | .upper t rest => t.wellFormed && rest.wellFormed
  | .lower t rest => t.wellFormed && rest.wellFormed

@[grind =] def Suffixes.wellFormed : Suffixes -> Bool
  | .nil => true
  | .cons name args rest => identifier name && args.wellFormed && rest.wellFormed
end

def Sig.isClassType : Sig -> Bool
  | .classType _ _ _ _ => true
  | _ => false

/-- A type within the limits of the parser. -/
def Sig.admissible (t : Sig) : Bool :=
  t.wellFormed && t.depth ≤ maxSigDepth

/-!
# Type parameters, methods and classes
-/

structure ParamSig where
  name : Text
  classBound : Option Sig
  interfaceBounds : List Sig

namespace ParamSig

def bounds (p : ParamSig) : List Sig :=
  p.classBound.toList ++ p.interfaceBounds

def vars (p : ParamSig) : List Text :=
  p.bounds.flatMap Sig.vars

def printBounds (p : ParamSig) : List UInt8 :=
  ascii ':' :: ((p.classBound.map Sig.print).getD [] ++
    p.interfaceBounds.flatMap (fun bound => ascii ':' :: bound.print))

def print (p : ParamSig) : List UInt8 :=
  Utf8.encode p.name ++ p.printBounds

def wellFormed (p : ParamSig) : Bool :=
  identifier p.name && p.bounds.all Sig.wellFormed

def admissible (p : ParamSig) : Bool :=
  identifier p.name && p.bounds.all Sig.admissible

end ParamSig

def printParams : List ParamSig -> List UInt8
  | [] => []
  | p :: ps => ascii '<' :: ((p :: ps).flatMap ParamSig.print ++ [ascii '>'])

def headers (owner : String) (ps : List ParamSig) : NamedParams :=
  ps.mapIdx (fun i p => (p.name, { id := { owner := owner, index := i }, bounds := [] }))

def declaredParams (outer : Scope) (owner : String) (ps : List ParamSig) : NamedParams :=
  ps.mapIdx (fun i p =>
    (p.name,
      { id := { owner := owner, index := i }
        bounds := p.bounds.map (Sig.denote (lookupVar (outer ++ [headers owner ps]))) }))

def paramsAdmissible (ps : List ParamSig) : Bool :=
  ps.all ParamSig.admissible && ps.length ≤ maxEntries

structure MethodSig where
  typeParams : List ParamSig
  params : List Sig
  /-- None for `void`. -/
  ret : Option Sig
  throws : List Sig

namespace MethodSig

def printThrows (m : MethodSig) : List UInt8 :=
  m.throws.flatMap (fun t => ascii '^' :: t.print)

def printReturn (m : MethodSig) : List UInt8 :=
  (m.ret.map Sig.print).getD [ascii 'V']

def print (m : MethodSig) : List UInt8 :=
  printParams m.typeParams ++ (ascii '(' :: (m.params.flatMap Sig.print ++
    (ascii ')' :: (m.printReturn ++ m.printThrows))))

def denote (classParams : NamedParams) (owner : String) (m : MethodSig) :
    List TypeParameter × TypeRef × List TypeRef :=
  let mparams := declaredParams [classParams] owner m.typeParams
  let lookup := lookupVar [classParams, mparams]
  (mparams.map Prod.snd, (m.ret.map (Sig.denote lookup)).getD .void,
    m.params.map (Sig.denote lookup))

def wellFormed (m : MethodSig) : Bool :=
  m.typeParams.all ParamSig.wellFormed && m.params.all Sig.wellFormed &&
    m.ret.all Sig.wellFormed && m.throws.all Sig.wellFormed

def admissible (m : MethodSig) : Bool :=
  paramsAdmissible m.typeParams && m.params.all Sig.admissible && m.ret.all Sig.admissible

end MethodSig

/-- The superclass, then the interfaces. -/
structure ClassSig where
  typeParams : List ParamSig
  supers : List Sig

namespace ClassSig

def print (c : ClassSig) : List UInt8 :=
  printParams c.typeParams ++ c.supers.flatMap Sig.print

def denote (owner : String) (c : ClassSig) : List TypeParameter × List TypeRef :=
  let params := declaredParams [] owner c.typeParams
  (params.map Prod.snd, c.supers.map (Sig.denote (lookupVar [params])))

def admissible (c : ClassSig) : Bool :=
  paramsAdmissible c.typeParams && c.supers.all (fun t => t.admissible && t.isClassType) &&
    c.supers.length ≤ maxEntries

end ClassSig

end Signatures
end JavaVsixLite
