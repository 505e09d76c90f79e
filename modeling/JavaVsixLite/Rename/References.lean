import JavaVsixLite.Members.SourceClass
import JavaVsixLite.Scopes.Bindings

/-!
# References to a declaration

One document is walked for identifiers with the spelling of a declaration, and
each of them is resolved by its position.  The types of receivers and the
members of a type are left to the resolver; bare names are looked up in the
scopes around them and then among the types of the documents.
-/

namespace JavaVsixLite
namespace Rename

inductive Tier where
  | fileLocal
  | workspace
deriving DecidableEq

structure ByteRange where
  start : Nat
  stop : Nat
deriving DecidableEq

/-- A declared name: its document, as an index of the documents at hand, and the
range of the name. -/
structure DeclSite where
  doc : Nat
  nameRange : ByteRange
deriving DecidableEq

structure ReferenceTarget where
  doc : Nat
  nameRange : ByteRange
  name : String
  tier : Tier

def ReferenceTarget.site (target : ReferenceTarget) : DeclSite :=
  { doc := target.doc, nameRange := target.nameRange }

/-- `possible` counts the occurrences that could not be resolved. -/
structure ReferenceHits where
  ranges : List ByteRange
  possible : Nat

inductive MemberNamespace where
  | method
  | field
deriving DecidableEq

structure MemberSite where
  node : Nat
  name : String
  kind : MemberKind
  isPrivate : Bool

inductive HierMember where
  | inProject (m : MemberSite)
  | external (name : String) (kind : ExternalMemberKind)

structure TypeSite where
  node : Nat
  doc : Nat
  name : String
  binaryName : Option String
  isPrivate : Bool

section Resolver

variable {Expr Receiver : Type}

/-- What an identifier is in the node around it.  A path of a scoped name counts
only at its last segment. -/
inductive Place (Expr : Type) where
  | methodName (node : Nat) (isPrivate : Bool)
  | fieldAccess (object : Option Expr)
  | invocation (object : Option Expr)
  | scopedPath (segments : List Expr) (isLast : Bool)
  | other

/-- An identifier or type identifier. -/
structure Ident (Expr : Type) where
  range : ByteRange
  text : String
  place : Place Expr
  steps : List Scopes.Step

/--
The documents of one resolution, with the current one first.  `declSite` and
`isPrivate` are about declaration nodes; `enclosing` gives the type of a type
declaration as a receiver.
-/
structure Ctx (Expr Receiver : Type) where
  current : Nat
  scopes : Scopes.Context
  declSite : Nat -> Option DeclSite
  isPrivate : Nat -> Bool
  imports : Imports
  types : List TypeSite
  enclosing : Nat -> Option Receiver
  resolveReceiverType : Expr -> Option Receiver
  collectMembers : Receiver -> List HierMember

/-!
# Resolved sites
-/

inductive ResolvedSite where
  | binding (b : Scopes.Binding)
  | member (m : MemberSite)
  | type (t : TypeSite)

inductive Occurrence where
  | site (s : ResolvedSite)
  | unresolvedReceiver
  | none

def tierOf (isPrivate : Bool) : Tier :=
  if isPrivate then .fileLocal else .workspace

namespace ResolvedSite

def declSite (ctx : Ctx Expr Receiver) : ResolvedSite -> Option DeclSite
  | .binding b => ctx.declSite b.binder.site
  | .member m => ctx.declSite m.node
  | .type t => ctx.declSite t.node

def tier (ctx : Ctx Expr Receiver) : ResolvedSite -> Tier
  | .binding b =>
    match b.kind with
    | .field => tierOf (ctx.isPrivate b.binder.site)
    | _ => .fileLocal
  | .member m => tierOf m.isPrivate
  | .type t => tierOf t.isPrivate

end ResolvedSite

/-!
# One identifier
-/

namespace MemberNamespace

def matchesKind : MemberNamespace -> MemberKind -> Bool
  | .method, .method => true
  | .field, .field => true
  | .field, .enumConstant => true
  | _, _ => false

def matchesMember : MemberNamespace -> HierMember -> Bool
  | ns, .inProject m => ns.matchesKind m.kind
  | .method, .external _ kind => kind == .method
  | .field, .external _ kind => kind == .field

end MemberNamespace

def HierMember.name : HierMember -> String
  | .inProject m => m.name
  | .external name _ => name

def findMemberHierOfKind (ctx : Ctx Expr Receiver) (receiver : Receiver) (name : String)
    (ns : MemberNamespace) : Option HierMember :=
  (ctx.collectMembers receiver).find? (fun m => m.name == name && ns.matchesMember m)

def memberOccurrence (ctx : Ctx Expr Receiver) (receiver : Receiver) (name : String)
    (ns : MemberNamespace) : Occurrence :=
  match findMemberHierOfKind ctx receiver name ns with
  | some (.inProject m) => .site (.member m)
  | _ => .none

def resolveSimpleInProject (ctx : Ctx Expr Receiver) (simple : String) : Option TypeSite :=
  let candidates := ctx.types.filter (fun t => t.name == simple)
  match candidates.find? (fun t => t.doc == ctx.current) with
  | some t => some t
  | none =>
    candidates.find? (fun t =>
      match t.binaryName with
      | some binary => (ctx.imports.candidates simple).contains binary
      | none => false)

def bareTypeSite (ctx : Ctx Expr Receiver) (name : String) : Occurrence :=
  match resolveSimpleInProject ctx name with
  | some t => .site (.type t)
  | none => .none

def ofReceiver (ctx : Ctx Expr Receiver) (receiver : Option Receiver) (name : String)
    (ns : MemberNamespace) : Occurrence :=
  match receiver with
  | some receiver => memberOccurrence ctx receiver name ns
  | none => .unresolvedReceiver

def enclosingTypedecl (ctx : Ctx Expr Receiver) (steps : List Scopes.Step) : Option Receiver :=
  (Scopes.enclosingTypes steps).head?.bind ctx.enclosing

def plainReference (ctx : Ctx Expr Receiver) (ident : Ident Expr) : Occurrence :=
  match Scopes.lookupBinding ctx.scopes ident.steps ident.text with
  | some b => .site (.binding b)
  | none => bareTypeSite ctx ident.text

def classify (ctx : Ctx Expr Receiver) (ident : Ident Expr) : Occurrence :=
  match ident.place with
  | .methodName node isPrivate =>
    .site (.member
      { node := node, name := ident.text, kind := .method, isPrivate := isPrivate })
  | .fieldAccess none => .none
  | .fieldAccess (some object) =>
    ofReceiver ctx (ctx.resolveReceiverType object) ident.text .field
  | .invocation (some object) =>
    ofReceiver ctx (ctx.resolveReceiverType object) ident.text .method
  | .invocation none =>
    ofReceiver ctx (enclosingTypedecl ctx ident.steps) ident.text .method
  | .scopedPath (first :: _ :: _) true =>
    ofReceiver ctx (ctx.resolveReceiverType first) ident.text .field
  | .scopedPath _ _ => plainReference ctx ident
  | .other => plainReference ctx ident

def referenceTarget (ctx : Ctx Expr Receiver) (cursor : Option (Ident Expr)) :
    Option ReferenceTarget :=
  match cursor with
  | none => none
  | some ident =>
    match classify ctx ident with
    | .site s =>
      (s.declSite ctx).map (fun site =>
        { doc := site.doc
          nameRange := site.nameRange
          name := ident.text
          tier := s.tier ctx })
    | _ => none

/-!
# One document
-/

def confirms (ctx : Ctx Expr Receiver) (target : ReferenceTarget) (ident : Ident Expr) : Bool :=
  match classify ctx ident with
  | .site s => s.declSite ctx == some target.site
  | _ => false

def isUnresolved (ctx : Ctx Expr Receiver) (ident : Ident Expr) : Bool :=
  match classify ctx ident with
  | .unresolvedReceiver => true
  | _ => false

def isDeclaration (ctx : Ctx Expr Receiver) (target : ReferenceTarget) (ident : Ident Expr) :
    Bool :=
  ctx.current == target.doc && ident.range == target.nameRange

def visit (ctx : Ctx Expr Receiver) (target : ReferenceTarget) (includeDeclaration : Bool)
    (hits : ReferenceHits) (ident : Ident Expr) : ReferenceHits :=
  if ident.text == target.name then
    if confirms ctx target ident then
      if includeDeclaration || !isDeclaration ctx target ident then
        { hits with ranges := hits.ranges ++ [ident.range] }
      else hits
    else if isUnresolved ctx ident then { hits with possible := hits.possible + 1 }
    else hits
  else hits

/-- The stack walk meets the identifiers of a document from the last to the first. -/
def referencesInDoc (ctx : Ctx Expr Receiver) (identifiers : List (Ident Expr))
    (target : ReferenceTarget) (includeDeclaration : Bool) : ReferenceHits :=
  identifiers.reverse.foldl (visit ctx target includeDeclaration) { ranges := [], possible := 0 }

theorem mem_visit_ranges (ctx : Ctx Expr Receiver) (target : ReferenceTarget)
    (hits : ReferenceHits) (ident : Ident Expr) (range : ByteRange) :
    range ∈ (visit ctx target true hits ident).ranges <->
      range ∈ hits.ranges ∨
        (ident.text = target.name ∧ confirms ctx target ident = true ∧ ident.range = range) := by
  unfold visit
  by_cases hname : ident.text = target.name
  · rw [if_pos (beq_iff_eq.mpr hname)]
    cases hconfirms : confirms ctx target ident with
    | true =>
      simp only [if_true, Bool.true_or, List.mem_append, List.mem_singleton, hname, true_and]
      rw [eq_comm]
    | false =>
      simp only [Bool.false_eq_true, if_false, false_and, and_false, or_false]
      split
      · rfl
      · rfl
  · rw [if_neg (fun h => hname (beq_iff_eq.mp h))]
    simp only [hname, false_and, or_false]

theorem mem_foldl_visit (ctx : Ctx Expr Receiver) (target : ReferenceTarget) (range : ByteRange)
    (identifiers : List (Ident Expr)) :
    forall hits : ReferenceHits,
      range ∈ (identifiers.foldl (visit ctx target true) hits).ranges <->
        range ∈ hits.ranges ∨ exists ident, ident ∈ identifiers ∧ ident.text = target.name ∧
          confirms ctx target ident = true ∧ ident.range = range := by
  induction identifiers with
  | nil =>
    intro hits
    simp only [List.foldl_nil, List.not_mem_nil, false_and, exists_false, or_false]
  | cons ident rest ih =>
    intro hits
    rw [List.foldl_cons, ih, mem_visit_ranges, or_assoc]
    simp only [List.mem_cons, exists_eq_or_imp]

/-- The ranges are those of the identifiers with the name of the target at which
the resolver finds it. -/
theorem mem_referencesInDoc (ctx : Ctx Expr Receiver) (identifiers : List (Ident Expr))
    (target : ReferenceTarget) (range : ByteRange) :
    range ∈ (referencesInDoc ctx identifiers target true).ranges <->
      exists ident, ident ∈ identifiers ∧ ident.text = target.name ∧
        confirms ctx target ident = true ∧ ident.range = range := by
  unfold referencesInDoc
  rw [mem_foldl_visit]
  simp only [List.not_mem_nil, false_or, List.mem_reverse]

end Resolver

end Rename
end JavaVsixLite
