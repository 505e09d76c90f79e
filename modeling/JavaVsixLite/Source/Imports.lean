import Mathlib.Data.List.DropRight
import JavaVsixLite.Classpath.Pom
import JavaVsixLite.Foundation.JoinedLists

/-!
# Imports

The import context of one source file and the names it gives to a simple type
name, in the order in which they are tried.  The context is read from the text
of the declarations, white space dropped; a comment in the text stays in the
path.
-/

namespace JavaVsixLite

open Classpath (isWhitespace trim trimStart)
open Foundation (words flatten_words)

/-- `single` binds simple names to import paths; a later import wins. -/
structure Imports where
  package : Option String
  single : List (String × String)
  wildcards : List String

/-- A package member; the unnamed package adds nothing to the simple name. -/
def qualify (package : Option String) (simple : String) : String :=
  match package with
  | some p => p ++ "." ++ simple
  | none => simple

namespace Imports

def singleImport (imports : Imports) (simple : String) : Option String :=
  (imports.single.reverse.find? (fun entry => entry.1 == simple)).map
    (fun entry => entry.2)

/-- Explicit import, same package, wildcard packages, then `java.lang`. -/
def candidates (imports : Imports) (simple : String) : List String :=
  (imports.singleImport simple).toList ++
    [qualify imports.package simple] ++
    imports.wildcards.map (fun w => w ++ "." ++ simple) ++
    ["java.lang." ++ simple]

end Imports

def pickFqn (known : String -> Bool) (candidates : List String) :
    Option String :=
  candidates.find? known

def lastSegment (path : String) : String :=
  String.ofList (path.toList.reverse.takeWhile (fun c => c != '.')).reverse

theorem lastSegment_append {front name : String} (h : '.' ∉ name.toList) :
    lastSegment (front ++ "." ++ name) = name := by
  have hdot : ".".toList = ['.'] := rfl
  have hname : forall c, c ∈ name.toList.reverse -> (c != '.') = true := by
    intro c hc
    simp only [bne_iff_ne]
    rintro rfl
    exact h (List.mem_reverse.mp hc)
  simp only [lastSegment, String.toList_append, hdot, List.reverse_append,
    List.reverse_cons, List.reverse_nil, List.nil_append]
  rw [List.takeWhile_append_of_pos hname]
  simp

/-!
# Reading the declarations
-/

/-- `dotted_path` -/
def dottedPath (text : List Char) (keyword : String) : Option String :=
  if keyword.toList.isPrefixOf (trim text) then
    let rest := trim ((trim text).drop keyword.toList.length)
    let path := (words isWhitespace (rest.rdropWhile (fun c => c == ';'))).flatten
    if path.isEmpty then none else some (String.ofList path)
  else none

/-- The nodes of a file that `Imports::parse` reads, by their text. -/
inductive HeaderNode where
  | package (text : List Char)
  | importDeclaration (text : List Char)

def Imports.readPath (imports : Imports) (path : String) : Imports :=
  if ".*".toList.isSuffixOf path.toList then
    { imports with
      wildcards := imports.wildcards ++ [String.ofList (path.toList.rdrop 2)] }
  else { imports with single := imports.single ++ [(lastSegment path, path)] }

def Imports.readNode (imports : Imports) : HeaderNode -> Imports
  | .package text => { imports with package := dottedPath text "package" }
  | .importDeclaration text =>
    if "import static".toList.isPrefixOf (trimStart text) then imports
    else
      match dottedPath text "import" with
      | some path => imports.readPath path
      | none => imports

def Imports.parse (nodes : List HeaderNode) : Imports :=
  nodes.foldl Imports.readNode ⟨none, [], []⟩

/-!
# What the declarations say
-/

namespace Source

/-- A dotted name with the white space and comments around its dots. -/
structure SpacedName where
  first : String
  others : List (String × String × String)

namespace SpacedName

def path (name : SpacedName) : String :=
  name.others.foldl (fun path other => path ++ "." ++ other.2.2) name.first

def text (name : SpacedName) : String :=
  name.others.foldl
    (fun text other => text ++ other.1 ++ "." ++ other.2.1 ++ other.2.2) name.first

end SpacedName

/-- `before` is what stands before the keyword, such as annotations. -/
structure PackageDeclaration where
  before : String
  behindKeyword : String
  name : SpacedName
  beforeSemicolon : String

def PackageDeclaration.text (d : PackageDeclaration) : String :=
  d.before ++ "package" ++ d.behindKeyword ++ d.name.text ++ d.beforeSemicolon ++ ";"

structure ImportDeclaration where
  behindKeyword : String
  behindStatic : Option String
  name : SpacedName
  onDemand : Option (String × String)
  beforeSemicolon : String

namespace ImportDeclaration

def staticText (d : ImportDeclaration) : String :=
  match d.behindStatic with
  | some gap => "static" ++ gap
  | none => ""

def demandText (d : ImportDeclaration) : String :=
  match d.onDemand with
  | some gaps => gaps.1 ++ "." ++ gaps.2 ++ "*"
  | none => ""

def text (d : ImportDeclaration) : String :=
  "import" ++
    (d.behindKeyword ++ d.staticText ++ d.name.text ++ d.demandText ++
      d.beforeSemicolon) ++ ";"

/-- A static import binds a member, not a type name. -/
def declare (imports : Imports) (d : ImportDeclaration) : Imports :=
  if d.behindStatic.isSome then imports
  else if d.onDemand.isSome then
    { imports with wildcards := imports.wildcards ++ [d.name.path] }
  else { imports with single := imports.single ++ [(lastSegment d.name.path, d.name.path)] }

end ImportDeclaration

/-!
# Declarations with white space only
-/

def Blank (gap : String) : Prop :=
  forall c, c ∈ gap.toList -> isWhitespace c = true

def Unspaced (identifier : String) : Prop :=
  forall c, c ∈ identifier.toList -> isWhitespace c = false ∧ c ≠ ';'

structure SpacedName.Plain (name : SpacedName) : Prop where
  first : Unspaced name.first
  others : forall other, other ∈ name.others ->
    Blank other.1 ∧ Blank other.2.1 ∧ Unspaced other.2.2

/-- No comment stands in the declaration. -/
structure ImportDeclaration.Plain (d : ImportDeclaration) : Prop where
  behindKeyword : Blank d.behindKeyword
  behindStatic : forall gap, d.behindStatic = some gap -> Blank gap
  name : d.name.Plain
  onDemand : forall gaps, d.onDemand = some gaps -> Blank gaps.1 ∧ Blank gaps.2
  beforeSemicolon : Blank d.beforeSemicolon

/-- The declared path; `static` and `.*` are kept. -/
def ImportDeclaration.path (d : ImportDeclaration) : String :=
  (if d.behindStatic.isSome then "static" else "") ++ d.name.path ++
    (if d.onDemand.isSome then ".*" else "")

/-- Without its white space the text is the path. -/
def Squeezes (text path : String) : Prop :=
  text.toList.filter (fun c => !isWhitespace c) = path.toList ∧ ';' ∉ text.toList

theorem Squeezes.append {front back first second : String}
    (hfront : Squeezes front first) (hback : Squeezes back second) :
    Squeezes (front ++ back) (first ++ second) := by
  constructor
  · simp only [String.toList_append, List.filter_append, hfront.1, hback.1]
  · simp [hfront.2, hback.2]

theorem Blank.squeezes {gap : String} (h : Blank gap) : Squeezes gap "" := by
  constructor
  · rw [String.toList_empty, List.filter_eq_nil_iff]
    intro c hc
    simp [h c hc]
  · intro hmem
    exact absurd (h ';' hmem) (by decide)

theorem Unspaced.squeezes {identifier : String} (h : Unspaced identifier) :
    Squeezes identifier identifier := by
  constructor
  · rw [List.filter_eq_self]
    intro c hc
    simp [(h c hc).1]
  · intro hmem
    exact (h ';' hmem).2 rfl

theorem squeezes_dot : Squeezes "." "." := by
  constructor <;> decide

theorem SpacedName.Plain.squeezes {name : SpacedName} (plain : name.Plain) :
    Squeezes name.text name.path := by
  have hfold : forall (others : List (String × String × String)) (text path : String),
      (forall other, other ∈ others ->
        Blank other.1 ∧ Blank other.2.1 ∧ Unspaced other.2.2) ->
      Squeezes text path ->
      Squeezes (SpacedName.text ⟨text, others⟩) (SpacedName.path ⟨path, others⟩) := by
    intro others
    induction others with
    | nil =>
      intro text path _ h
      exact h
    | cons other rest ih =>
      intro text path hothers h
      rcases hothers other List.mem_cons_self with ⟨hbefore, hbehind, hname⟩
      have hnext : Squeezes (text ++ other.1 ++ "." ++ other.2.1 ++ other.2.2)
          (path ++ "" ++ "." ++ "" ++ other.2.2) :=
        (((h.append hbefore.squeezes).append squeezes_dot).append
          hbehind.squeezes).append hname.squeezes
      simp only [String.append_empty] at hnext
      exact ih _ _ (fun o ho => hothers o (List.mem_cons_of_mem _ ho)) hnext
  exact hfold name.others name.first name.first plain.others plain.first.squeezes

theorem ImportDeclaration.Plain.squeezes {d : ImportDeclaration} (plain : d.Plain) :
    Squeezes (d.behindKeyword ++ d.staticText ++ d.name.text ++ d.demandText ++
      d.beforeSemicolon) d.path := by
  have hstatic : Squeezes d.staticText
      (if d.behindStatic.isSome then "static" else "") := by
    unfold ImportDeclaration.staticText
    cases hgap : d.behindStatic with
    | none => exact ⟨rfl, List.not_mem_nil⟩
    | some gap =>
      have hkeyword : Squeezes "static" "static" := by constructor <;> decide
      exact hkeyword.append (plain.behindStatic gap hgap).squeezes
  have hdemand : Squeezes d.demandText (if d.onDemand.isSome then ".*" else "") := by
    unfold ImportDeclaration.demandText
    cases hgaps : d.onDemand with
    | none => exact ⟨rfl, List.not_mem_nil⟩
    | some gaps =>
      have hstar : Squeezes "*" "*" := by constructor <;> decide
      rcases plain.onDemand gaps hgaps with ⟨hbefore, hbehind⟩
      exact ((hbefore.squeezes.append squeezes_dot).append hbehind.squeezes).append hstar
  have hall := (((plain.behindKeyword.squeezes.append hstatic).append
    plain.name.squeezes).append hdemand).append plain.beforeSemicolon.squeezes
  rwa [String.empty_append, String.append_empty] at hall

/-- The package and import declarations of a file, as they are written. -/
structure FileHeader where
  package : Option PackageDeclaration
  imports : List ImportDeclaration

namespace FileHeader

def nodes (header : FileHeader) : List HeaderNode :=
  (header.package.map (fun d => HeaderNode.package d.text.toList)).toList ++
    header.imports.map (fun d => .importDeclaration d.text.toList)

/-- What the declarations say in the language. -/
def declared (header : FileHeader) : Imports :=
  header.imports.foldl ImportDeclaration.declare
    ⟨header.package.map (fun d => d.name.path), [], []⟩

end FileHeader

theorem filter_dropWhile {p : Char -> Bool} (xs : List Char) :
    (xs.dropWhile p).filter (fun c => !p c) = xs.filter (fun c => !p c) := by
  induction xs with
  | nil => rfl
  | cons x rest ih =>
    cases hx : p x with
    | false => rw [List.dropWhile_cons_of_neg (by simp [hx])]
    | true => rw [List.dropWhile_cons_of_pos hx, ih, List.filter_cons_of_neg (by simp [hx])]

theorem trim_semicolon (text : List Char) :
    trim (text ++ [';']) = text.dropWhile isWhitespace ++ [';'] := by
  have hsemicolon : isWhitespace ';' = false := by decide
  rw [trim, List.dropWhile_append]
  split
  · rename_i hnil
    rw [List.isEmpty_iff.mp hnil, List.dropWhile_cons_of_neg (by simp [hsemicolon])]
    rfl
  · rw [List.reverse_append, List.reverse_singleton, List.singleton_append,
      List.dropWhile_cons_of_neg (by simp [hsemicolon])]
    simp

theorem dottedPath_of_squeezes {rest path : String} (h : Squeezes rest path) :
    dottedPath ("import" ++ rest ++ ";").toList "import" =
      if path.toList.isEmpty then none else some path := by
  have htext : ("import" ++ rest ++ ";").toList = "import".toList ++ rest.toList ++ [';'] := by
    simp only [String.toList_append]
    rfl
  have hstart : ("import".toList ++ rest.toList).dropWhile isWhitespace =
      "import".toList ++ rest.toList :=
    List.dropWhile_cons_of_neg (by decide)
  have htrim : trim ("import" ++ rest ++ ";").toList =
      "import".toList ++ (rest.toList ++ [';']) := by
    rw [htext, trim_semicolon, hstart, List.append_assoc]
  have hend : (rest.toList.dropWhile isWhitespace ++ [';']).rdropWhile (fun c => c == ';') =
      rest.toList.dropWhile isWhitespace := by
    rw [List.rdropWhile_concat_pos _ _ _ (by decide), List.rdropWhile_eq_self_iff]
    intro hne hlast
    have hmem := (List.dropWhile_sublist _).subset (List.getLast_mem hne)
    rw [eq_of_beq hlast] at hmem
    exact h.2 hmem
  unfold dottedPath
  rw [htrim, if_pos (List.isPrefixOf_iff_prefix.mpr (List.prefix_append _ _)),
    List.drop_left]
  simp only [trim_semicolon, hend, flatten_words, filter_dropWhile, h.1, String.ofList_toList]

/-- A declaration without comments is read as it is written. -/
theorem ImportDeclaration.Plain.dottedPath {d : ImportDeclaration} (plain : d.Plain) :
    dottedPath d.text.toList "import" =
      if d.path.toList.isEmpty then none else some d.path :=
  dottedPath_of_squeezes plain.squeezes

end Source

def replaceLastDot (path : String) : Option String :=
  match path.toList.reverse.span (fun c => c != '.') with
  | (suffix, _ :: rest) =>
    some (String.ofList (rest.reverse ++ '$' :: suffix.reverse))
  | (_, []) => none

def pathToBinary (known : String -> Bool) : Nat -> String -> Option String
  | 0, _ => none
  | attempts + 1, candidate =>
    if known candidate then some candidate
    else
      match replaceLastDot candidate with
      | none => none
      | some next => pathToBinary known attempts next

def importPathToBinary (path : String) (known : String -> Bool) :
    Option String :=
  if path.isEmpty then none else pathToBinary known 8 path

end JavaVsixLite
