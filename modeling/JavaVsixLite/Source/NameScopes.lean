import JavaVsixLite.Source.TypeNames

/-!
# What a type name means

The language looks for a type name in the bodies around it, innermost first,
then among the single imports of the file, in its package, and among the types
imported on demand.  A qualified name is read from the type its first
identifier means, and as the name of a package only if there is no such type.
-/

namespace JavaVsixLite

/-- A type by its binary name, or a local type, which has none. -/
inductive Meaning where
  | binary (name : String)
  | unnamed
deriving DecidableEq

/--
The types of a project and its dependencies, as one file sees them: which
binary names exist, which of the types can be accessed from here, the member
types that static imports bind by name, those that an import on demand from a
type brings in, and what a chain of member names selects from a type.
-/
structure Project where
  isType : String -> Bool
  accessible : String -> Bool
  staticTypes : List (String × String)
  nestedDemand : String -> List String
  select : Meaning -> String -> Option Meaning

/-- The readings of a dotted path as a binary name, fewest nestings first. -/
@[grind =] def readingsFrom : Nat -> String -> List String
  | 0, path => [path]
  | dots + 1, path =>
    path :: (match replaceLastDot path with
      | none => []
      | some next => readingsFrom dots next)

def readings (path : String) : List String :=
  readingsFrom (path.toList.count '.') path

namespace NameSite

section Meanings

variable (P : Project) (site : NameSite)

def declares (level : Level) (name : String) : Option String :=
  match level.decl with
  | some (_, some binary) =>
    if P.isType (binary ++ "$" ++ name) then some (binary ++ "$" ++ name)
    else none
  | _ => none

@[grind =] def lexicalMeaning (name : String) : List Level -> Option Meaning
  | [] => none
  | level :: outer =>
    if level.locals.contains name then some .unnamed
    else
      match declares P level name with
      | some binary => some (.binary binary)
      | none =>
        match level.inherited.lookup name with
        | some binary => some (.binary binary)
        | none => lexicalMeaning name outer

def demanded (name : String) : List String :=
  (TypeTable.onDemand site.imports name).filter
      (fun b => P.isType b && P.accessible b) ++
    P.nestedDemand name

def unitMeaning (name : String) : Option Meaning :=
  match site.imports.singleImport name with
  | some path => ((readings path).find? P.isType).map .binary
  | none =>
    match P.staticTypes.lookup name with
    | some binary => some (.binary binary)
    | none =>
      if P.isType (qualify site.imports.package name) then
        some (.binary (qualify site.imports.package name))
      else (demanded P site name).head?.map .binary

def simpleMeaning (name : String) : Option Meaning :=
  (lexicalMeaning P name site.levels).or (unitMeaning P site name)

def splitFirst (path : String) : String × String :=
  (String.ofList (path.toList.takeWhile (fun c => c != '.')),
    String.ofList ((path.toList.dropWhile (fun c => c != '.')).drop 1))

def qualifiedMeaning (path : String) : Option Meaning :=
  match simpleMeaning P site (splitFirst path).1 with
  | some first => P.select first (splitFirst path).2
  | none => ((readings path).find? P.isType).map .binary

end Meanings

/-- An answer of the resolver is what the language assigns to the name. -/
def SimpleFaithful (P : Project) (file : FileSite) (name : String) : Prop :=
  forall b, namedResolver file.read name false = some b ->
    simpleMeaning P file.written name = some (.binary b)

def QualifiedFaithful (P : Project) (file : FileSite) (path : String) : Prop :=
  forall b, namedResolver file.read path true = some b ->
    qualifiedMeaning P file.written path = some (.binary b)

/-!
# Valid projects
-/

def Nested (P : Project) (package : Option String) : List Level -> Prop
  | [] => True
  | [top] => exists name, top.decl = some (name, some (qualify package name)) ∧
      P.isType (qualify package name) = true
  | inner :: outer :: rest =>
    (match inner.decl with
      | none => True
      | some (name, none) => name ∈ outer.locals
      | some (name, some binary) =>
        outer.locals = [] ∧ P.isType binary = true ∧
          exists around front, outer.decl = some (around, some front) ∧
            binary = front ++ "$" ++ name) ∧
    Nested P package (outer :: rest)

/--
A valid program, some of its files open, in which the declarations around the
name are registered under their binary names.  Types that are not open are
answered by the symbol source; a dotted path names at most one type; a class has
no member or local class with its own name.
-/
structure Valid (P : Project) (site : NameSite) : Prop where
  answered : forall b, P.isType b = true ->
    b ∈ site.table.binaries ∨ site.source b = true
  truthful : forall b, site.source b = true -> P.isType b = true
  nested : Nested P site.imports.package site.levels
  ownName : forall level, level ∈ site.levels -> forall name binary,
    level.decl = some (name, binary) ->
      name ∉ level.locals ∧ declares P level name = none
  inheritedTypes : forall level, level ∈ site.levels -> forall name b,
    level.inherited.lookup name = some b -> P.isType b = true
  oneReading : forall path a b, a ∈ readings path -> b ∈ readings path ->
    P.isType a = true -> P.isType b = true -> a = b

/-- The type of that name in the package, then the ones imported on demand. -/
def packageNames (site : NameSite) (name : String) : List String :=
  qualify site.imports.package name :: TypeTable.onDemand site.imports name

/--
The rules for this name: imports name types, an import does not shadow a type
of its own file, only member types are imported statically, and what is
imported on demand is accessible and not ambiguous.  A top-level type is
registered once, and nothing else under its name.
-/
structure ValidName (P : Project) (site : NameSite) (name : String) : Prop where
  nonempty : name ≠ ""
  imported : forall path, site.imports.singleImport name = some path ->
    lastSegment path = name ∧ exists t, t ∈ readings path ∧ P.isType t = true
  ownUnit : forall level, level ∈ site.levels ->
    level.decl = some (name, some (qualify site.imports.package name)) ->
      unitMeaning P site name =
        some (.binary (qualify site.imports.package name))
  staticNested : forall b, P.staticTypes.lookup name = some b ->
    P.isType b = true ∧ b ∉ packageNames site name
  nestedDemanded : forall b, b ∈ P.nestedDemand name ->
    P.isType b = true ∧ P.accessible b = true
  demandedOnce : forall a b, a ∈ demanded P site name ->
    b ∈ demanded P site name -> a = b
  topLevel : forall c,
    c ∈ (site.imports.singleImport name).toList ++ packageNames site name ->
      c ∈ site.table.binaries -> P.isType c = true ∧ site.table.binaries.count c = 1

end NameSite

end JavaVsixLite
