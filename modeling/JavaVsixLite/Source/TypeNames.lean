import JavaVsixLite.Source.Imports

/-!
# Resolving a type name

`namedResolver` reads a type name of an open document.  It asks the open
declarations first, through the scopes around the name, and the symbol source
after that, through the import candidates of the file.
-/

namespace JavaVsixLite

/--
A class body around a type name.  A declaration has its simple name and, unless
it is local, its binary name; an anonymous body has no declaration.  `locals`
are the types without a binary name that are in scope in the body (local
classes, and the member types of a local class); `inherited` are the member
types inherited from supertypes and not hidden.
-/
structure Level where
  decl : Option (String × Option String)
  locals : List String
  inherited : List (String × String)

structure TypeTable where
  binaries : List String

namespace TypeTable

def containsKey (table : TypeTable) (binary : String) : Bool :=
  table.binaries.contains binary

def getNamed (table : TypeTable) (binary : String) : Option String :=
  if table.binaries.count binary = 1 then some binary else none

/-- The nearest enclosing declaration that has the name or declares it. -/
@[grind =] def lexical (table : TypeTable) (simple : String) :
    List Level -> Option (Option String)
  | [] => none
  | level :: outer =>
    match level.decl with
    | none => lexical table simple outer
    | some (name, binary) =>
      if name = simple then some binary
      else
        match binary with
        | none => lexical table simple outer
        | some b =>
          match table.getNamed (b ++ "$" ++ simple) with
          | some found => some (some found)
          | none => lexical table simple outer

/-- The types that on-demand imports may mean, `java.lang` last. -/
def onDemand (imports : Imports) (simple : String) : List String :=
  imports.wildcards.map (fun w => w ++ "." ++ simple) ++
    ["java.lang." ++ simple]

/--
The declaration a name means among the open documents, given by its binary
name.  Dotted text is read as a qualified name and bypasses the scopes.
-/
def resolveTypeNameAt (table : TypeTable) (levels : List Level)
    (simple : String) (dotted : Option String) (imports : Imports) :
    Option (Option String) :=
  match dotted with
  | some path =>
    (pathToBinary (fun b => (table.getNamed b).isSome) 8 path).map some
  | none =>
    match table.lexical simple levels with
    | some found => some found
    | none =>
      match imports.singleImport simple with
      | some path =>
        ((importPathToBinary path table.containsKey).bind
          table.getNamed).map some
      | none =>
        if table.containsKey (qualify imports.package simple) then
          (table.getNamed (qualify imports.package simple)).map some
        else
          match (onDemand imports simple).filter table.containsKey with
          | [first] => (table.getNamed first).map some
          | _ => none

end TypeTable

/-- The position of a type name, and what the request sees. -/
structure NameSite where
  levels : List Level
  imports : Imports
  table : TypeTable
  source : String -> Bool

namespace NameSite

/-- An open declaration first, even if it has no binary name to answer with. -/
def namedResolver (site : NameSite) (name : String) (dotted : Bool) :
    Option String :=
  match site.table.resolveTypeNameAt site.levels
      (if dotted then lastSegment name else name)
      (if dotted then some name else none) site.imports with
  | some found => found
  | none =>
    if dotted then
      if site.source name then some name else none
    else pickFqn site.source (site.imports.candidates name)

end NameSite

/-- A type name in an open file, with the declarations at the head of the file. -/
structure FileSite where
  header : Source.FileHeader
  levels : List Level
  table : TypeTable
  source : String -> Bool

namespace FileSite

/-- The site with the imports as the program reads them. -/
def read (file : FileSite) : NameSite where
  levels := file.levels
  imports := Imports.parse file.header.nodes
  table := file.table
  source := file.source

/-- The site with the imports as they are declared. -/
def written (file : FileSite) : NameSite where
  levels := file.levels
  imports := file.header.declared
  table := file.table
  source := file.source

end FileSite

end JavaVsixLite
