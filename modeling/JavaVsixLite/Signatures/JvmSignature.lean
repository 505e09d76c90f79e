import JavaVsixLite.Foundation.Parsing
import JavaVsixLite.Types.ClassTable

/-!
# Generic signatures of class files

Two parsers over the same grammar: one renders types for display, with `{i}` in
place of the class's own type parameters, and one builds structured types.  Class
files are untrusted, so the nesting of types is capped and a malformed signature
gives `none`.
-/

namespace JavaVsixLite
namespace Signatures

open Foundation

/-- Recursion cap on nested types. -/
def maxSigDepth : Nat := 32

def maxEntries : Nat := 64

def classNameStops : List UInt8 :=
  [ascii '<', ascii ';', ascii '.']

/-!
# The display parser
-/

/-- `shadow` holds the method's own parameters, which hide those of the class. -/
structure DisplayScope where
  params : List Text
  shadow : List Text

def DisplayScope.var (scope : DisplayScope) (name : Text) : Text :=
  if scope.shadow.contains name then name
  else
    match scope.params.findIdx? (fun p => p == name) with
    | some i => Char.ofNat 0x7b :: ((toString i).toList ++ [Char.ofNat 0x7d])
    | none => name

/-- The part of a binary name behind the packages, dots between nested names. -/
def simple (binary : Text) : Text :=
  ((binary.reverse.takeWhile (fun c => c != '/')).reverse).map
    (fun c => if c = '$' then '.' else c)

def typeArg (typeRender : Parser Text) : Parser Text := do
  let b <- Parser.peek
  match Char.ofNat b.toNat with
  | '*' => do
      let _ <- Parser.bump
      pure "?".toList
  | '+' => do
      let _ <- Parser.bump
      let bound <- typeRender
      pure ("? extends ".toList ++ bound)
  | '-' => do
      let _ <- Parser.bump
      let bound <- typeRender
      pure ("? super ".toList ++ bound)
  | _ => typeRender

def typeArgList (typeRender : Parser Text) : Parser (List Text) := do
  Parser.expect (ascii '<')
  let args <- Parser.manyUntil (ascii '>') (typeArg typeRender)
  Parser.expect (ascii '>')
  pure args

def maybeTypeArgList (typeRender : Parser Text) : Parser (List Text) := do
  let next <- Parser.look
  if next = some (ascii '<') then typeArgList typeRender else pure []

def readClassName : Parser Text :=
  Parser.readUntil classNameStops

/-- The `L` is consumed already; of nested segments only the innermost is kept. -/
def classTypeParts (typeRender : Parser Text) : Parser (Text × List Text) := do
  let name <- readClassName
  let args <- maybeTypeArgList typeRender
  let parts <- Parser.whileNext (ascii '.')
    (fun _ => do
      let inner <- readClassName
      let args <- maybeTypeArgList typeRender
      pure (simple inner, args))
    (simple name, args)
  Parser.expect (ascii ';')
  pure parts

def classType (typeRender : Parser Text) : Parser Text := do
  let (name, args) <- classTypeParts typeRender
  if args.isEmpty then pure name
  else pure (name ++ '<' :: (List.intercalate ", ".toList args ++ ['>']))

def typeRenderInner (scope : DisplayScope) (typeRender : Parser Text) : Parser Text := do
  let b <- Parser.bump
  match Char.ofNat b.toNat with
  | 'B' => pure "byte".toList
  | 'C' => pure "char".toList
  | 'D' => pure "double".toList
  | 'F' => pure "float".toList
  | 'I' => pure "int".toList
  | 'J' => pure "long".toList
  | 'S' => pure "short".toList
  | 'Z' => pure "boolean".toList
  | '[' => do
      let inner <- typeRender
      pure (inner ++ "[]".toList)
  | 'T' => do
      let name <- Parser.readUntil [ascii ';']
      Parser.expect (ascii ';')
      pure (scope.var name)
  | 'L' => classType typeRender
  | _ => Parser.fail

/-- `levels` is how much deeper the types may still nest. -/
def typeRender (scope : DisplayScope) : Nat -> Parser Text
  | 0 => Parser.fail
  | levels + 1 => typeRenderInner scope (typeRender scope levels)

def endsBound (next : Option UInt8) : Bool :=
  next == some (ascii ':') || next == some (ascii '>') || next == none

def skipBounds (typeRender : Parser Text) : Parser Unit :=
  Parser.whileNext (ascii ':')
    (fun _ => do
      let next <- Parser.look
      if endsBound next then pure ()
      else do
        let _ <- Parser.attempt typeRender
        pure ())
    ()

/-- `left` counts down from the cap on the entries. -/
def typeParamsFrom (typeRender : Parser Text) : Nat -> List Text -> Parser (List Text)
  | 0, out => do
      let next <- Parser.look
      if next = none then pure out
      else do
        let _ <- Parser.bump
        pure out
  | left + 1, out => do
      let next <- Parser.look
      match next with
      | none => pure out
      | some c =>
        if c = ascii '>' then do
          let _ <- Parser.bump
          pure out
        else do
          let name <- Parser.readUntil [ascii ':']
          skipBounds typeRender
          typeParamsFrom typeRender left (out ++ [name])

def typeParams (typeRender : Parser Text) : Parser (List Text) := do
  let next <- Parser.look
  if next != some (ascii '<') then pure []
  else do
    let _ <- Parser.bump
    typeParamsFrom typeRender maxEntries []

def fieldTemplate (sig : List UInt8) (classParams : List Text) : Option Text :=
  (typeRender { params := classParams, shadow := [] } maxSigDepth sig).1

/-- The return type, `V` for none. -/
def returnRender (typeRender : Parser Text) : Parser Text := do
  let b <- Parser.peek
  if b = ascii 'V' then do
    let _ <- Parser.bump
    pure "void".toList
  else typeRender

def methodTemplateParser (classParams : List Text) :
    Parser (List Text × Text × List Text) := do
  let methodTypeParams <-
    typeParams (typeRender { params := classParams, shadow := [] } maxSigDepth)
  let render := typeRender { params := classParams, shadow := methodTypeParams } maxSigDepth
  Parser.expect (ascii '(')
  let params <- Parser.manyUntil (ascii ')') render
  Parser.expect (ascii ')')
  let ret <- returnRender render
  pure (methodTypeParams, ret, params)

def methodTemplate (sig : List UInt8) (classParams : List Text) :
    Option (List Text × Text × List Text) :=
  (methodTemplateParser classParams sig).1

/-!
# The structured parser
-/

/-- A type-parameter list, each parameter with its declared name. -/
abbrev NamedParams := List (Text × TypeParameter)

/-- The lists in scope, the innermost last. -/
abbrev Scope := List NamedParams

def lookupVar (scope : Scope) (name : Text) : TypeRef :=
  match scope.reverse.findSome? (fun params => params.find? (fun entry => entry.1 == name)) with
  | some entry => .typeVariable entry.2.id
  | none => .unknown

def typeArgStructured (typeParse : Parser TypeRef) : Parser TypeRef := do
  let b <- Parser.peek
  match Char.ofNat b.toNat with
  | '*' => do
      let _ <- Parser.bump
      pure (.wildcard none none)
  | '+' => do
      let _ <- Parser.bump
      let upper <- typeParse
      pure (.wildcard (some upper) none)
  | '-' => do
      let _ <- Parser.bump
      let lower <- typeParse
      pure (.wildcard none (some lower))
  | _ => typeParse

def typeArgsStructured (typeParse : Parser TypeRef) : Parser (List TypeRef) := do
  let next <- Parser.look
  if next != some (ascii '<') then pure []
  else do
    Parser.expect (ascii '<')
    let args <- Parser.manyUntil (ascii '>') (typeArgStructured typeParse)
    Parser.expect (ascii '>')
    pure args

/-- `replace('/', ".")` -/
def slashesToDots (name : Text) : Text :=
  name.map (fun c => if c = '/' then '.' else c)

/-- One more name of `Outer<..>.Inner<..>`, which is `Outer$Inner` with the innermost
arguments. -/
def innerClassStructured (typeParse : Parser TypeRef) (read : Text × List TypeRef) :
    Parser (Text × List TypeRef) := do
  let inner <- Parser.readUntil classNameStops
  let args <- typeArgsStructured typeParse
  pure (read.1 ++ '$' :: inner, args)

def classTypeStructured (typeParse : Parser TypeRef) : Parser TypeRef := do
  let outer <- Parser.readUntil classNameStops
  let outerArgs <- typeArgsStructured typeParse
  let (binary, args) <- Parser.whileNext (ascii '.') (innerClassStructured typeParse)
    (slashesToDots outer, outerArgs)
  Parser.expect (ascii ';')
  pure (.named (.named (String.ofList binary)) args)

def typeParseInner (scope : Scope) (typeParse : Parser TypeRef) : Parser TypeRef := do
  let b <- Parser.bump
  match Char.ofNat b.toNat with
  | 'B' => pure (.primitive .byte)
  | 'C' => pure (.primitive .char)
  | 'D' => pure (.primitive .double)
  | 'F' => pure (.primitive .float)
  | 'I' => pure (.primitive .int)
  | 'J' => pure (.primitive .long)
  | 'S' => pure (.primitive .short)
  | 'Z' => pure (.primitive .boolean)
  | '[' => do
      let element <- typeParse
      pure (.array element)
  | 'T' => do
      let name <- Parser.readUntil [ascii ';']
      Parser.expect (ascii ';')
      pure (lookupVar scope name)
  | 'L' => classTypeStructured typeParse
  | _ => Parser.fail

def typeParse (scope : Scope) : Nat -> Parser TypeRef
  | 0 => Parser.fail
  | levels + 1 => typeParseInner scope (typeParse scope levels)

/-- The bound behind a colon, which may be missing; one that cannot be parsed is unknown. -/
def boundStructured (typeParse : Parser TypeRef) (bounds : List TypeRef) :
    Parser (List TypeRef) := do
  let next <- Parser.look
  if endsBound next then pure bounds
  else do
    let bound <- Parser.attempt typeParse
    pure (bounds ++ [bound.getD .unknown])

def boundsStructured (typeParse : Parser TypeRef) : Parser (List TypeRef) :=
  Parser.whileNext (ascii ':') (boundStructured typeParse) []

/-- The parameters read so far are the innermost scope of the next one's bounds. -/
def typeParamsStructuredFrom (scope : Scope) (levels : Nat) (owner : String) :
    Nat -> NamedParams -> Parser NamedParams
  | 0, out => do
      let next <- Parser.look
      if next = none then pure out
      else do
        let _ <- Parser.bump
        pure out
  | left + 1, out => do
      let next <- Parser.look
      match next with
      | none => pure out
      | some c =>
        if c = ascii '>' then do
          let _ <- Parser.bump
          pure out
        else do
          let name <- Parser.readUntil [ascii ':']
          let bounds <- boundsStructured (typeParse (scope ++ [out]) levels)
          let id : TypeVariableId := { owner := owner, index := out.length }
          typeParamsStructuredFrom scope levels owner left
            (out ++ [(name, { id := id, bounds := bounds })])

def typeParamsStructured (scope : Scope) (levels : Nat) (owner : String) :
    Parser NamedParams := do
  let next <- Parser.look
  if next != some (ascii '<') then pure []
  else do
    let _ <- Parser.bump
    typeParamsStructuredFrom scope levels owner maxEntries []

def parseFieldSignature (sig : List UInt8) (classParams : NamedParams) : Option TypeRef :=
  (typeParse [classParams] maxSigDepth sig).1

def returnParse (typeParse : Parser TypeRef) : Parser TypeRef := do
  let b <- Parser.peek
  if b = ascii 'V' then do
    let _ <- Parser.bump
    pure .void
  else typeParse

def methodSignatureParser (classParams : NamedParams) (owner : String) :
    Parser (List TypeParameter × TypeRef × List TypeRef) := do
  let mparams <- typeParamsStructured [] maxSigDepth owner
  let parse := typeParse [classParams, mparams] maxSigDepth
  Parser.expect (ascii '(')
  let params <- Parser.manyUntil (ascii ')') parse
  Parser.expect (ascii ')')
  let ret <- returnParse parse
  pure (mparams.map Prod.snd, ret, params)

def parseMethodSignature (sig : List UInt8) (classParams : NamedParams) (owner : String) :
    Option (List TypeParameter × TypeRef × List TypeRef) :=
  (methodSignatureParser classParams owner sig).1

/-- `left` counts down from the cap on the supertypes. -/
def supersFrom (typeParse : Parser TypeRef) : Nat -> Parser (List TypeRef)
  | 0 => do
      let next <- Parser.look
      if next != some (ascii 'L') then pure [] else Parser.fail
  | left + 1 => do
      let next <- Parser.look
      if next != some (ascii 'L') then pure []
      else do
        let first <- typeParse
        let others <- supersFrom typeParse left
        pure (first :: others)

def classSignatureParser (owner : String) : Parser (List TypeParameter × List TypeRef) := do
  let params <- typeParamsStructured [] maxSigDepth owner
  let supers <- supersFrom (typeParse [params] maxSigDepth) maxEntries
  pure (params.map Prod.snd, supers)

def parseClassSignature (sig : List UInt8) (owner : String) :
    Option (List TypeParameter × List TypeRef) :=
  (classSignatureParser owner sig).1

end Signatures
end JavaVsixLite
