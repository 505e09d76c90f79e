import JavaVsixLite.Classpath.Pom
import JavaVsixLite.Classpath.TypeIndex
import JavaVsixLite.Fingerprint.Lowering
import JavaVsixLite.Foundation.Overlays
import JavaVsixLite.Foundation.Substrings

/-!
# Classes of the workspace

A class of the workspace is read from the open document that declares its outermost class,
or else from the file that the index finds.  The open documents are entered under the names
they declare in the order of a hash map, and a later one takes the place of an earlier one.
The classpath, the index, the files on disk and the upper-case mapping are given.
-/

namespace JavaVsixLite
namespace Server

open Foundation
open Classpath (isWhitespace rsplitOnce trim)
open Fingerprint (Decl Doc Pick classFromDoc firstNamed)

/-!
# Documents
-/

inductive RootChild where
  | packageDeclaration (raw : Text)
  | typeDeclaration (decl : Decl) (identifier : '.' ∉ decl.header.name.toList)
  | other

/-- A document with its syntax tree. -/
structure ParsedDocument where
  children : List RootChild
  imports : Imports
  usesLombok : Bool

def RootChild.type : RootChild -> Option (Bool × Decl)
  | .typeDeclaration decl _ => some (true, decl)
  | _ => none

/-- What `class_from_doc` reads of a document. -/
def ParsedDocument.doc (document : ParsedDocument) : Doc where
  imports := document.imports
  usesLombok := document.usesLombok
  types := document.children.filterMap RootChild.type

def packageDeclarationPath (raw : Text) : Option Text :=
  ((raw.dropWhile isWhitespace).dropPrefix? "package".toList).map
    (fun rest => trim ((trim rest).reverse.dropWhile (fun c => c == ';')).reverse)

def fqnOf (package simple : Text) : Text :=
  if package.isEmpty then simple else package ++ '.' :: simple

def topLevelBinaryNamesFrom (package : Text) : List RootChild -> List Text
  | [] => []
  | .packageDeclaration raw :: rest =>
    topLevelBinaryNamesFrom ((packageDeclarationPath raw).getD package) rest
  | .typeDeclaration decl _ :: rest =>
    fqnOf package decl.header.name.toList :: topLevelBinaryNamesFrom package rest
  | .other :: rest => topLevelBinaryNamesFrom package rest

def topLevelBinaryNames (document : ParsedDocument) : List Text :=
  topLevelBinaryNamesFrom [] document.children

/-!
# Names of classes
-/

structure ProjectFqn where
  package : Text
  outerSimple : Text
  typePath : Text

def packageAndSimple (binaryOuter : Text) : Text × Text :=
  (rsplitOnce '.' binaryOuter).getD ([], binaryOuter)

/-- Nested names stand behind dollars in a binary name, and behind dots in a path. -/
def splitProjectFqn (fqn : Text) : Option ProjectFqn :=
  let nested := splitOnce ['$'] fqn
  let halves := packageAndSimple ((nested.map Prod.fst).getD fqn)
  if halves.2 = [] then none
  else
    some
      { package := halves.1
        outerSimple := halves.2
        typePath :=
          match nested with
          | some (_, rest) =>
            halves.2 ++ '.' :: rest.map (fun c => if c = '$' then '.' else c)
          | none => halves.2 }

def ProjectFqn.outerBinary (parts : ProjectFqn) : Text :=
  fqnOf parts.package parts.outerSimple

/-- The path as `class_from_doc` walks it. -/
def ProjectFqn.segments (parts : ProjectFqn) : List String :=
  (parts.typePath.splitOn '.').map String.ofList

/-!
# Lookups
-/

/-- What is the same for all the open documents. -/
structure Workspace (Path : Type) where
  classpathClass : Text -> Bool
  findType : Text -> Text -> Option Path
  parsedProjectFile : Path -> Option ParsedDocument

structure ProjectSymbols (Path : Type) where
  workspace : Workspace Path
  overlay : Table Text ParsedDocument

namespace ProjectSymbols

variable {Path : Type}

/-- The documents in the order in which the hash map gives them. -/
def new (workspace : Workspace Path) (docs : List ParsedDocument) : ProjectSymbols Path where
  workspace := workspace
  overlay := Overlay.fill topLevelBinaryNames docs

/-- `exists` -/
def known (symbols : ProjectSymbols Path) (fqn : Text) : Bool :=
  symbols.workspace.classpathClass fqn ||
    match splitProjectFqn fqn with
    | some parts =>
      (symbols.overlay.lookup parts.outerBinary).isSome ||
        (symbols.workspace.findType parts.package parts.outerSimple).isSome
    | none => false

def pickFqn (symbols : ProjectSymbols Path) : Pick :=
  fun candidates => candidates.find? (fun candidate => symbols.known candidate.toList)

variable (toUppercase : Char -> List Char)

def classIn (symbols : ProjectSymbols Path) (document : ParsedDocument) (parts : ProjectFqn) :
    Option Fingerprint.ExternalClass :=
  classFromDoc toUppercase symbols.pickFqn document.doc parts.segments

def compute (symbols : ProjectSymbols Path) (fqn : Text) : Option Fingerprint.ExternalClass :=
  match splitProjectFqn fqn with
  | none => none
  | some parts =>
    match symbols.overlay.lookup parts.outerBinary with
    | some document => symbols.classIn toUppercase document parts
    | none =>
      match symbols.workspace.findType parts.package parts.outerSimple with
      | none => none
      | some path =>
        match symbols.workspace.parsedProjectFile path with
        | none => none
        | some document => symbols.classIn toUppercase document parts

abbrev Memo := Table Text (Option Fingerprint.ExternalClass)

/-- `class`, with the memo it leaves behind. -/
def lookupClass (symbols : ProjectSymbols Path) (memo : Memo) (fqn : Text) :
    Option Fingerprint.ExternalClass × Memo :=
  Memoized.ask (symbols.compute toUppercase) memo fqn

def answer (symbols : ProjectSymbols Path) (earlier : List Text) (fqn : Text) :
    Option Fingerprint.ExternalClass :=
  (symbols.lookupClass toUppercase
    (earlier.foldl (fun memo fqn => (symbols.lookupClass toUppercase memo fqn).2) ∅) fqn).1

variable {toUppercase}

theorem answer_eq_compute (symbols : ProjectSymbols Path) (earlier : List Text) (fqn : Text) :
    symbols.answer toUppercase earlier fqn = symbols.compute toUppercase fqn :=
  (Memoized.Sound.empty.foldl earlier).answer fqn

end ProjectSymbols

/-!
# What is declared
-/

theorem rsplitOnce_none_iff {sep : Char} {text : Text} :
    rsplitOnce sep text = none <-> sep ∉ text := by
  refine ⟨?_, Classpath.rsplitOnce_of_notMem⟩
  intro hnone hsep
  induction text with
  | nil => cases hsep
  | cons c rest ih =>
    rw [rsplitOnce] at hnone
    cases hrest : rsplitOnce sep rest with
    | some halves =>
      rw [hrest] at hnone
      cases hnone
    | none =>
      simp only [hrest] at hnone
      by_cases hc : c = sep
      · rw [if_pos hc] at hnone
        cases hnone
      · rcases List.mem_cons.mp hsep with heq | hmem
        · exact hc heq.symm
        · exact ih hrest hmem

theorem notMem_of_rsplitOnce {sep : Char} {text : Text} {halves : Text × Text}
    (h : rsplitOnce sep text = some halves) : sep ∉ halves.2 := by
  induction text generalizing halves with
  | nil => cases h
  | cons c rest ih =>
    rw [rsplitOnce] at h
    cases hrest : rsplitOnce sep rest with
    | some inner =>
      rw [hrest] at h
      rcases inner with ⟨before, after⟩
      cases h
      have hafter := ih hrest
      exact hafter
    | none =>
      simp only [hrest] at h
      by_cases hc : c = sep
      · rw [if_pos hc, Option.some.injEq] at h
        rw [← h]
        exact rsplitOnce_none_iff.mp hrest
      · rw [if_neg hc] at h
        cases h

theorem packageAndSimple_fqnOf (package : Text) {simple : Text} (h : '.' ∉ simple) :
    packageAndSimple (fqnOf package simple) = (package, simple) := by
  unfold packageAndSimple
  cases package with
  | nil =>
    have hname : fqnOf [] simple = simple := rfl
    rw [hname, Classpath.rsplitOnce_of_notMem h]
    rfl
  | cons c rest =>
    have hname : fqnOf (c :: rest) simple = (c :: rest) ++ '.' :: simple := rfl
    rw [hname, Classpath.rsplitOnce_append (c :: rest) h]
    rfl

theorem dot_notMem_packageAndSimple (outer : Text) : '.' ∉ (packageAndSimple outer).2 := by
  unfold packageAndSimple
  cases hsplit : rsplitOnce '.' outer with
  | none => exact rsplitOnce_none_iff.mp hsplit
  | some halves => exact notMem_of_rsplitOnce hsplit

theorem notMem_fqnOf_packageAndSimple {c : Char} {outer : Text} (h : c ∉ outer) :
    c ∉ fqnOf (packageAndSimple outer).1 (packageAndSimple outer).2 := by
  unfold packageAndSimple
  cases hsplit : rsplitOnce '.' outer with
  | none => exact h
  | some halves =>
    rw [Classpath.eq_of_rsplitOnce hsplit] at h
    rw [Option.getD_some, fqnOf]
    split
    · exact fun hmem => h (List.mem_append_right _ (List.mem_cons_of_mem _ hmem))
    · exact h

theorem notMem_of_splitOnce {c : Char} {text : Text} {halves : Text × Text}
    (h : splitOnce [c] text = some halves) : c ∉ halves.1 := by
  intro hmem
  rcases List.append_of_mem hmem with ⟨before, after, heq⟩
  apply startsNotIn_of_splitOnce h (c :: after) (List.cons_ne_nil _ _)
  · rw [heq]
    exact List.suffix_append before _
  · exact List.prefix_append [c] (after ++ _)

theorem splitProjectFqn_fqnOf (package : Text) {simple : Text} (hne : simple ≠ [])
    (hdot : '.' ∉ simple) (hdollar : '$' ∉ fqnOf package simple) :
    splitProjectFqn (fqnOf package simple) =
      some { package := package, outerSimple := simple, typePath := simple } := by
  have hplain : splitOnce ['$'] (fqnOf package simple) = none := by
    rw [splitOnce_eq_none_iff, List.singleton_infix_iff]
    exact hdollar
  simp only [splitProjectFqn, hplain, Option.map_none, Option.getD_none,
    packageAndSimple_fqnOf package hdot, if_neg hne]

/-- The name of the outermost class has no dollar, and its simple name no dot. -/
theorem splitProjectFqn_parts {fqn : Text} {parts : ProjectFqn}
    (h : splitProjectFqn fqn = some parts) :
    parts.outerSimple ≠ [] ∧ '.' ∉ parts.outerSimple ∧ '$' ∉ parts.outerBinary := by
  have hplain : '$' ∉ ((splitOnce ['$'] fqn).map Prod.fst).getD fqn := by
    cases hnested : splitOnce ['$'] fqn with
    | none =>
      rw [splitOnce_eq_none_iff, List.singleton_infix_iff] at hnested
      exact hnested
    | some halves => exact notMem_of_splitOnce hnested
  unfold splitProjectFqn at h
  dsimp only at h
  split at h
  · cases h
  · rename_i hne
    cases h
    exact ⟨hne, dot_notMem_packageAndSimple _, notMem_fqnOf_packageAndSimple hplain⟩

theorem exists_decl_of_mem_topLevelBinaryNamesFrom {package key : Text}
    {children : List RootChild} (h : key ∈ topLevelBinaryNamesFrom package children) :
    exists decl package', (true, decl) ∈ children.filterMap RootChild.type ∧
      '.' ∉ decl.header.name.toList ∧ key = fqnOf package' decl.header.name.toList := by
  induction children generalizing package with
  | nil => cases h
  | cons child rest ih =>
    cases child with
    | packageDeclaration raw => exact ih h
    | other => exact ih h
    | typeDeclaration decl identifier =>
      have hchildren : (RootChild.typeDeclaration decl identifier :: rest).filterMap
          RootChild.type = (true, decl) :: rest.filterMap RootChild.type := rfl
      rw [hchildren]
      rcases List.mem_cons.mp h with rfl | hrest
      · exact ⟨decl, package, List.mem_cons_self, identifier, rfl⟩
      · rcases ih hrest with ⟨decl', package', hmem, hdot, hkey⟩
        exact ⟨decl', package', List.mem_cons_of_mem _ hmem, hdot, hkey⟩

theorem isSome_classFromDoc_of_firstNamed {toUppercase : Char -> List Char} {pick : Pick}
    {doc : Doc} {name : String} (h : (firstNamed doc.types name).isSome) :
    (classFromDoc toUppercase pick doc [name]).isSome := by
  rcases Option.isSome_iff_exists.mp h with ⟨decl, hdecl⟩
  unfold classFromDoc Doc.find Fingerprint.findTypeByPath
  rw [hdecl]
  rfl

theorem isSome_classFromDoc_of_declared (toUppercase : Char -> List Char) (pick : Pick)
    {document : ParsedDocument} {package simple : Text} (hdot : '.' ∉ simple)
    (h : fqnOf package simple ∈ topLevelBinaryNames document) :
    (classFromDoc toUppercase pick document.doc [String.ofList simple]).isSome := by
  rcases exists_decl_of_mem_topLevelBinaryNamesFrom h with ⟨decl, package', hmem, hname, hkey⟩
  have hparts := packageAndSimple_fqnOf package hdot
  rw [hkey, packageAndSimple_fqnOf package' hname, Prod.mk.injEq] at hparts
  apply isSome_classFromDoc_of_firstNamed
  rw [firstNamed, Option.isSome_map, List.find?_isSome]
  refine ⟨(true, decl), hmem, ?_⟩
  rw [← hparts.2, String.ofList_toList]
  simp

/-!
# Orders of the open documents
-/

section Orders

variable {Path : Type} (toUppercase : Char -> List Char) (workspace : Workspace Path)

/-- Any two orders of the hash map give the same answers, whatever was asked before. -/
def OrderIndependent (docs : List ParsedDocument) : Prop :=
  forall first second, docs.Perm first -> docs.Perm second -> forall earlier earlier' fqn,
    (ProjectSymbols.new workspace first).answer toUppercase earlier fqn =
      (ProjectSymbols.new workspace second).answer toUppercase earlier' fqn

local instance : LawfulBEq Text := inferInstance

/-- The open documents that declare the outermost class of a name. -/
def declaring (docs : List ParsedDocument) (parts : ProjectFqn) : List ParsedDocument :=
  docs.filter (fun document => parts.outerBinary ∈ topLevelBinaryNames document)

/-- There is no answer for a name that more than one open document declares. -/
def NotGuessed (docs : List ParsedDocument) : Prop :=
  forall order, docs.Perm order -> forall earlier fqn parts,
    splitProjectFqn fqn = some parts -> 1 < (declaring docs parts).length ->
      (ProjectSymbols.new workspace order).answer toUppercase earlier fqn = none

variable {toUppercase workspace}
variable {docs order : List ParsedDocument} {parts : ProjectFqn} {fqn : Text}

theorem mem_declaring {document : ParsedDocument} :
    document ∈ declaring docs parts <->
      document ∈ docs ∧ parts.outerBinary ∈ topLevelBinaryNames document := by
  simp [declaring]

theorem known_perm (h : docs.Perm order) (fqn : Text) :
    (ProjectSymbols.new workspace docs).known fqn =
      (ProjectSymbols.new workspace order).known fqn := by
  unfold ProjectSymbols.known
  cases splitProjectFqn fqn with
  | none => rfl
  | some parts =>
    have hkey := @Overlay.isSome_lookup_perm _ _ _ topLevelBinaryNames _ _ h parts.outerBinary
    simp only [ProjectSymbols.new, hkey]

theorem classIn_perm (h : docs.Perm order) (document : ParsedDocument) (parts : ProjectFqn) :
    (ProjectSymbols.new workspace docs).classIn toUppercase document parts =
      (ProjectSymbols.new workspace order).classIn toUppercase document parts := by
  have hpick : (ProjectSymbols.new workspace docs).pickFqn =
      (ProjectSymbols.new workspace order).pickFqn := by
    funext candidates
    unfold ProjectSymbols.pickFqn
    simp only [known_perm h]
  rw [ProjectSymbols.classIn, ProjectSymbols.classIn, hpick]

theorem compute_of_lookup {document : ParsedDocument} (hsplit : splitProjectFqn fqn = some parts)
    (h : (Overlay.fill topLevelBinaryNames order).lookup parts.outerBinary = some document) :
    (ProjectSymbols.new workspace order).compute toUppercase fqn =
      (ProjectSymbols.new workspace order).classIn toUppercase document parts := by
  have hlookup : (ProjectSymbols.new workspace order).overlay.lookup parts.outerBinary =
      some document := h
  rw [ProjectSymbols.compute, hsplit]
  simp only [hlookup]

variable (toUppercase workspace) in
theorem exists_order_answer {document : ParsedDocument}
    (hsplit : splitProjectFqn fqn = some parts) (h : document ∈ declaring docs parts) :
    exists order, docs.Perm order ∧
      (ProjectSymbols.new workspace order).answer toUppercase [] fqn =
        (ProjectSymbols.new workspace docs).classIn toUppercase document parts := by
  rcases mem_declaring.mp h with ⟨hmem, hdeclared⟩
  rcases Overlay.exists_order hmem hdeclared with ⟨order, hperm, hlookup⟩
  refine ⟨order, hperm, ?_⟩
  rw [ProjectSymbols.answer_eq_compute, compute_of_lookup hsplit hlookup, classIn_perm hperm]

theorem compute_eq {first second : List ParsedDocument} (hfirst : docs.Perm first)
    (hsecond : docs.Perm second)
    (hsame : forall parts, splitProjectFqn fqn = some parts ->
      forall document, document ∈ declaring docs parts ->
        forall document', document' ∈ declaring docs parts ->
          (ProjectSymbols.new workspace docs).classIn toUppercase document parts =
            (ProjectSymbols.new workspace docs).classIn toUppercase document' parts) :
    (ProjectSymbols.new workspace first).compute toUppercase fqn =
      (ProjectSymbols.new workspace second).compute toUppercase fqn := by
  cases hsplit : splitProjectFqn fqn with
  | none => rw [ProjectSymbols.compute, ProjectSymbols.compute, hsplit]
  | some parts =>
    have hisSome := @Overlay.isSome_lookup_perm _ _ _ topLevelBinaryNames _ _
      (hfirst.symm.trans hsecond) parts.outerBinary
    cases hlookup : (Overlay.fill topLevelBinaryNames first).lookup parts.outerBinary with
    | some document =>
      rw [hlookup, Option.isSome_some, eq_comm, Option.isSome_iff_exists] at hisSome
      rcases hisSome with ⟨document', hlookup'⟩
      have hmem := Overlay.mem_of_lookup hlookup
      have hmem' := Overlay.mem_of_lookup hlookup'
      rw [compute_of_lookup hsplit hlookup, compute_of_lookup hsplit hlookup',
        ← classIn_perm hfirst, ← classIn_perm hsecond]
      exact hsame parts hsplit document
        (mem_declaring.mpr ⟨hfirst.mem_iff.mpr hmem.1, hmem.2⟩) document'
        (mem_declaring.mpr ⟨hsecond.mem_iff.mpr hmem'.1, hmem'.2⟩)
    | none =>
      rw [hlookup, Option.isSome_none, eq_comm, Option.isSome_eq_false_iff,
        Option.isNone_iff_eq_none] at hisSome
      -- The class is read from its file, where only `pick` sees the open documents.
      have hoverlay : (ProjectSymbols.new workspace first).overlay.lookup parts.outerBinary =
        none := hlookup
      have hoverlay' : (ProjectSymbols.new workspace second).overlay.lookup parts.outerBinary =
        none := hisSome
      rw [ProjectSymbols.compute, ProjectSymbols.compute, hsplit]
      simp only [hoverlay, hoverlay', ← classIn_perm hfirst, ← classIn_perm hsecond]
      rfl

/-- The answers do not depend on the order if and only if the documents that declare a class
agree about it. -/
theorem orderIndependent_iff :
    OrderIndependent toUppercase workspace docs <->
      forall fqn parts, splitProjectFqn fqn = some parts ->
        forall document, document ∈ declaring docs parts ->
          forall document', document' ∈ declaring docs parts ->
            (ProjectSymbols.new workspace docs).classIn toUppercase document parts =
              (ProjectSymbols.new workspace docs).classIn toUppercase document' parts := by
  constructor
  · intro h fqn parts hsplit document hdocument document' hdocument'
    rcases exists_order_answer toUppercase workspace hsplit hdocument with ⟨first, hfirst, hanswer⟩
    rcases exists_order_answer toUppercase workspace hsplit hdocument' with
      ⟨second, hsecond, hanswer'⟩
    rw [← hanswer, ← hanswer']
    exact h first second hfirst hsecond [] [] fqn
  · intro hsame first second hfirst hsecond earlier earlier' fqn
    rw [ProjectSymbols.answer_eq_compute, ProjectSymbols.answer_eq_compute]
    exact compute_eq hfirst hsecond (hsame fqn)

theorem not_notGuessed (hsplit : splitProjectFqn fqn = some parts)
    (htwice : 1 < (declaring docs parts).length) :
    ¬ NotGuessed toUppercase workspace docs := by
  rcases splitProjectFqn_parts hsplit with ⟨hne, hdot, hdollar⟩
  rcases List.exists_mem_of_length_pos (Nat.lt_of_succ_lt htwice) with ⟨document, hdocument⟩
  have houter := splitProjectFqn_fqnOf parts.package hne hdot hdollar
  rcases exists_order_answer toUppercase workspace houter hdocument with ⟨order, hperm, hanswer⟩
  intro h
  have hnone := h order hperm [] _ _ houter htwice
  have hsegments : (parts.outerSimple.splitOn '.').map String.ofList =
      [String.ofList parts.outerSimple] := by
    rw [List.splitOn_eq_splitOnP, List.splitOnP_eq_singleton]
    · rfl
    · intro c hc
      exact beq_eq_false_iff_ne.mpr (fun heq => hdot (heq ▸ hc))
  have hsome := isSome_classFromDoc_of_declared toUppercase
    (ProjectSymbols.new workspace docs).pickFqn hdot (mem_declaring.mp hdocument).2
  rw [hanswer, ProjectSymbols.classIn, ProjectFqn.segments, hsegments] at hnone
  rw [hnone] at hsome
  cases hsome

end Orders

theorem eq_of_length_le_one {α : Type} {xs : List α} (h : xs.length ≤ 1) {a b : α} (ha : a ∈ xs)
    (hb : b ∈ xs) : a = b := by
  match xs, h with
  | [x], _ => rw [List.mem_singleton.mp ha, List.mem_singleton.mp hb]

/-- The answers do not depend on the order where the documents that declare a class agree
about it.  No class is guessed only where no two open documents declare it. -/
theorem open_buffers_order_iff {Path : Type} (toUppercase : Char -> List Char)
    (workspace : Workspace Path) (docs : List ParsedDocument) :
    (OrderIndependent toUppercase workspace docs <->
      forall fqn parts, splitProjectFqn fqn = some parts ->
        forall document, document ∈ declaring docs parts ->
          forall document', document' ∈ declaring docs parts ->
            (ProjectSymbols.new workspace docs).classIn toUppercase document parts =
              (ProjectSymbols.new workspace docs).classIn toUppercase document' parts) ∧
    (OrderIndependent toUppercase workspace docs ∧ NotGuessed toUppercase workspace docs <->
      forall fqn parts, splitProjectFqn fqn = some parts ->
        (declaring docs parts).length ≤ 1) := by
  refine ⟨orderIndependent_iff, ?_, ?_⟩
  · rintro ⟨-, hguess⟩ fqn parts hsplit
    by_contra htwice
    exact not_notGuessed hsplit (Nat.lt_of_not_le htwice) hguess
  · intro honce
    refine ⟨orderIndependent_iff.mpr ?_, ?_⟩
    · intro fqn parts hsplit document hdocument document' hdocument'
      rw [eq_of_length_le_one (honce fqn parts hsplit) hdocument hdocument']
    · intro order _ earlier fqn parts hsplit htwice
      exact absurd htwice (Nat.not_lt.mpr (honce fqn parts hsplit))

namespace TwoBuffers

def header (kind : TypeKind) : Fingerprint.Header where
  name := "Task"
  kind := kind
  modifiers := .none
  typeParameters := []
  superNodes := []
  hasSuperclass := false
  headerBroken := false
  members := []
  constructors := []
  compactConstructor := none
  components := none
  unclassified := false
  scopeNames := []
  marks := .none

theorem dot_notMem_task : '.' ∉ "Task".toList := by decide

/-- A document with `package demo;` and one empty type `Task`. -/
def buffer (kind : TypeKind) : ParsedDocument where
  children :=
    [.packageDeclaration "package demo;".toList,
      .typeDeclaration (.mk (header kind) false []) dot_notMem_task]
  imports := { package := some "demo", single := [], wildcards := [] }
  usesLombok := false

def docs : List ParsedDocument :=
  [buffer .classKind, buffer .interface]

def noFiles : Workspace Unit where
  classpathClass _ := false
  findType _ _ := none
  parsedProjectFile _ := none

/-- What `demo.Task` is said to be. -/
def kindOfTask (order : List ParsedDocument) : Option TypeKind :=
  (((ProjectSymbols.new noFiles order).answer (fun c => [c.toUpper]) [] "demo.Task".toList).bind
    Fingerprint.ExternalClass.metadata).map Fingerprint.ClassMetadata.kind

/-- The class is a class or an interface, as the hash map gives the documents. -/
theorem kind_depends_on_order :
    docs.Perm docs.reverse ∧ kindOfTask docs = some .interface ∧
      kindOfTask docs.reverse = some .classKind ∧
      ¬ OrderIndependent (fun c => [c.toUpper]) noFiles docs := by
  have hfirst : kindOfTask docs = some .interface := by decide +kernel
  have hsecond : kindOfTask docs.reverse = some .classKind := by decide +kernel
  refine ⟨(List.reverse_perm docs).symm, hfirst, hsecond, ?_⟩
  intro h
  have hsame := h docs docs.reverse (List.Perm.refl docs) (List.reverse_perm docs).symm [] []
    "demo.Task".toList
  have hkinds : kindOfTask docs = kindOfTask docs.reverse := by
    unfold kindOfTask
    rw [hsame]
  rw [hfirst, hsecond] at hkinds
  cases hkinds

end TwoBuffers

end Server
end JavaVsixLite
