import JavaVsixLite.Fingerprint.Wellformed

/-!
# What the fingerprint covers

Two versions of a document with the same fingerprint look alike to other files
exactly when they agree on what the fingerprint leaves out.  Other open documents
read the declarations themselves too, with the private members, and an edit that
keeps the fingerprint leaves their diagnostics as they were.
-/

namespace JavaVsixLite
namespace Fingerprint

/-!
# Declarations that a path leads to
-/

theorem mem_walkAll {qualifyName : String -> String} {outer : List (List String)}
    {types : List (Bool × Decl)} {isMember : Bool} {decl : Decl} {loc : Located}
    (hmem : (isMember, decl) ∈ types)
    (hloc : loc ∈ walk (qualifyName decl.header.name) outer decl) :
    loc ∈ walkAll qualifyName outer types := by
  induction types with
  | nil => cases hmem
  | cons entry rest ih =>
    rcases entry with ⟨flag, ⟨header, enclosed, inner⟩⟩
    simp only [walkAll]
    rcases List.mem_cons.mp hmem with heq | hrest
    · cases heq
      exact List.mem_append_right _ hloc
    · exact List.mem_append_left _ (ih hrest)

theorem locate_mem_walk (decl : Decl) (binary : String) (outer : List (List String)) :
    decl.locate binary outer ∈ walk binary outer decl := by
  cases decl with
  | mk header enclosed types =>
    simp only [walk]
    exact List.mem_cons_self

theorem inner_mem_walk {decl : Decl} {binary : String} {outer : List (List String)}
    {loc : Located}
    (h : loc ∈ walkAll (fun inner => binary ++ "$" ++ inner) (decl.locate binary outer).levels
      decl.types) :
    loc ∈ walk binary outer decl := by
  cases decl with
  | mk header enclosed types =>
    simp only [walk]
    exact List.mem_cons_of_mem _ h

theorem firstNamed_mem {types : List (Bool × Decl)} {name : String} {decl : Decl}
    (h : firstNamed types name = some decl) :
    decl.header.name = name ∧ exists isMember, (isMember, decl) ∈ types := by
  rcases Option.map_eq_some_iff.mp h with ⟨⟨isMember, found⟩, hfind, rfl⟩
  have hname := List.find?_some hfind
  simp only [Bool.and_eq_true, beq_iff_eq] at hname
  exact ⟨hname.2, isMember, List.mem_of_find?_eq_some hfind⟩

theorem findTypeByPath_mem (path : List String) :
    forall {qualifyName : String -> String} {outer : List (List String)}
      {types : List (Bool × Decl)} {loc : Located},
      findTypeByPath qualifyName outer types path = some loc ->
      loc ∈ walkAll qualifyName outer types := by
  induction path with
  | nil =>
    intro qualifyName outer types loc h
    cases h
  | cons name rest ih =>
    intro qualifyName outer types loc h
    unfold findTypeByPath at h
    cases hfirst : firstNamed types name with
    | none =>
      rw [hfirst] at h
      cases h
    | some decl =>
      rcases firstNamed_mem hfirst with ⟨hname, isMember, hmem⟩
      apply mem_walkAll hmem
      rw [hfirst] at h
      cases rest with
      | nil =>
        cases h
        rw [hname]
        exact locate_mem_walk decl (qualifyName name) outer
      | cons next rest =>
        rw [hname]
        exact inner_mem_walk (ih h)

theorem find_mem {doc : Doc} {path : List String} {loc : Located} (h : doc.find path = some loc) :
    loc ∈ doc.declarations :=
  findTypeByPath_mem path h

/-!
# Equal fingerprints
-/

section Coverage

variable (toUppercase : Char -> List Char)

abbrev Doc.symClass (doc : Doc) (loc : Located) : SymClass :=
  Fingerprint.symClass toUppercase doc.imports doc.usesLombok loc

/-- The hashed entries before they are sorted. -/
def entries (doc : Doc) : List (String × Shape) :=
  doc.declarations.map (fun loc =>
    (loc.binary, ((doc.symClass toUppercase loc).eval pickFirst).shape))

def isRepeated (doc : Doc) (binary : String) : Bool :=
  decide (1 < doc.declarations.countP (fun loc => loc.binary == binary))

variable {toUppercase}

theorem fingerprint_eq_sort (doc : Doc) :
    declarationFingerprint toUppercase doc =
      (entries toUppercase doc).mergeSort (fun a b => decide (a.1 ≤ b.1)) := by
  simp only [declarationFingerprint, entries, toExternalClass_eq_eval]

theorem entries_perm {doc doc' : Doc}
    (h : declarationFingerprint toUppercase doc = declarationFingerprint toUppercase doc') :
    (entries toUppercase doc).Perm (entries toUppercase doc') := by
  rw [fingerprint_eq_sort doc, fingerprint_eq_sort doc'] at h
  have hleft := List.mergeSort_perm (entries toUppercase doc) (fun a b => decide (a.1 ≤ b.1))
  have hright := List.mergeSort_perm (entries toUppercase doc') (fun a b => decide (a.1 ≤ b.1))
  rw [h] at hleft
  exact hleft.symm.trans hright

theorem isRepeated_eq {doc doc' : Doc}
    (h : declarationFingerprint toUppercase doc = declarationFingerprint toUppercase doc')
    (binary : String) : isRepeated doc binary = isRepeated doc' binary := by
  have hcount := (entries_perm h).countP_eq (fun entry => entry.1 == binary)
  simp only [entries, List.countP_map] at hcount
  unfold isRepeated
  have hleft : doc.declarations.countP (fun loc => loc.binary == binary) =
      doc'.declarations.countP (fun loc => loc.binary == binary) := hcount
  rw [hleft]

theorem eq_of_countP_le_one {A : Type} {p : A -> Bool} {as : List A} (hcount : as.countP p ≤ 1)
    {a b : A} (ha : a ∈ as) (hpa : p a = true) (hb : b ∈ as) (hpb : p b = true) : a = b := by
  have hmema := List.mem_filter.mpr ⟨ha, hpa⟩
  have hmemb := List.mem_filter.mpr ⟨hb, hpb⟩
  rw [List.countP_eq_length_filter] at hcount
  match hfilter : as.filter p, hcount with
  | [x], _ =>
    rw [hfilter] at hmema hmemb
    rw [List.mem_singleton.mp hmema, List.mem_singleton.mp hmemb]
  | [], _ =>
    rw [hfilter] at hmema
    cases hmema

theorem shape_eq {doc doc' : Doc}
    (h : declarationFingerprint toUppercase doc = declarationFingerprint toUppercase doc')
    {loc loc' : Located} (hloc : loc ∈ doc.declarations) (hloc' : loc' ∈ doc'.declarations)
    (hbinary : loc.binary = loc'.binary) (honce : isRepeated doc loc.binary = false) :
    ((doc.symClass toUppercase loc).eval pickFirst).shape =
      ((doc'.symClass toUppercase loc').eval pickFirst).shape := by
  have hcount : (entries toUppercase doc).countP (fun entry => entry.1 == loc.binary) ≤ 1 := by
    simp only [entries, List.countP_map]
    exact Nat.not_lt.mp (of_decide_eq_false honce)
  have hmem := List.mem_map_of_mem (f := fun l =>
    (l.binary, ((doc.symClass toUppercase l).eval pickFirst).shape)) hloc
  have hmem' := (entries_perm h).mem_iff.mpr (List.mem_map_of_mem (f := fun l =>
    (l.binary, ((doc'.symClass toUppercase l).eval pickFirst).shape)) hloc')
  have hentry := eq_of_countP_le_one hcount hmem (beq_self_eq_true _) hmem'
    (beq_iff_eq.mpr hbinary.symm)
  exact (Prod.mk.inj hentry).2

/-!
# What is left out
-/

variable (toUppercase)

/-- What the hash of a class leaves out: the candidates behind its names, the texts
of results, the parameter names, and which of several declarations is meant. -/
structure Unhashed where
  binary : String
  typeParams : List String
  supers : List (List String)
  lookups : List Lookup
  details : List SymDetail
  repeated : Option SymClass

/-- A builder companion is not hashed at all. -/
inductive LeftOut where
  | absent
  | builder (binary name : String) (fields : List String)
  | declared (unhashed : Unhashed)

def unhashed (doc : Doc) (loc : Located) : Unhashed :=
  let c := doc.symClass toUppercase loc
  { binary := loc.binary
    typeParams := c.typeParams
    supers := c.supers
    lookups := c.shape.lookups
    details := c.details
    repeated := if isRepeated doc loc.binary then some c else none }

def builderLeftOut (outer : Located) : LeftOut :=
  if outer.header.marks.builder then
    .builder outer.binary outer.header.name
      ((instanceFields outer.header).map (fun field => field.name))
  else .absent

def missing (doc : Doc) (path : List String) : LeftOut :=
  match doc.find path.dropLast with
  | none => .absent
  | some outer =>
    if path.getLast? = some (builderSimple outer.header) && doc.usesLombok then
      builderLeftOut outer
    else .absent

def leftOut (doc : Doc) (path : List String) : LeftOut :=
  match doc.find path with
  | some loc => .declared (unhashed toUppercase doc loc)
  | none => missing doc path

variable {toUppercase}

theorem symClass_eq_of_unhashed {doc doc' : Doc}
    (h : declarationFingerprint toUppercase doc = declarationFingerprint toUppercase doc')
    {loc loc' : Located} (hloc : loc ∈ doc.declarations) (hloc' : loc' ∈ doc'.declarations)
    (heq : unhashed toUppercase doc loc = unhashed toUppercase doc' loc') :
    doc.symClass toUppercase loc = doc'.symClass toUppercase loc' := by
  rcases Unhashed.mk.inj heq with ⟨hbinary, htypeParams, hsupers, hlookups, hdetails, hrepeated⟩
  cases honce : isRepeated doc loc.binary with
  | true =>
    have honce' := honce
    rw [isRepeated_eq h, hbinary] at honce'
    rw [honce, honce'] at hrepeated
    exact Option.some.inj hrepeated
  | false =>
    exact SymClass.recover (qualified_symClass toUppercase doc.imports doc.usesLombok loc)
      (qualified_symClass toUppercase doc'.imports doc'.usesLombok loc')
      (shape_eq h hloc hloc' hbinary honce) hlookups hsupers htypeParams hdetails

theorem unhashed_eq_of_symClass {doc doc' : Doc}
    (h : declarationFingerprint toUppercase doc = declarationFingerprint toUppercase doc')
    {loc loc' : Located}
    (heq : doc.symClass toUppercase loc = doc'.symClass toUppercase loc') :
    unhashed toUppercase doc loc = unhashed toUppercase doc' loc' := by
  have hbinary : loc.binary = loc'.binary := congrArg SymClass.id heq
  simp only [unhashed, heq, hbinary, isRepeated_eq h]

/-!
# Builder companions
-/

def companion (binary name : String) (fields : List String) : ExternalClass :=
  { supers := ["java.lang.Object"]
    typeParams := []
    members :=
      fields.map (fun field =>
        { name := field, kind := .method, isStatic := false
          retFqn := some (binary ++ "$" ++ (name ++ "Builder"))
          retDisplay := some (name ++ "Builder"), metadata := none }) ++
      [{ name := "build", kind := .method, isStatic := false
         retFqn := some binary
         retDisplay := some name, metadata := none }]
    metadata := none }

def LeftOut.companion : LeftOut -> Option ExternalClass
  | .builder binary name fields => some (Fingerprint.companion binary name fields)
  | _ => none

theorem builderClass_eq (outer : Located) :
    builderClass outer = (builderLeftOut outer).companion := by
  unfold builderClass builderLeftOut
  cases outer.header.marks.builder with
  | false => rfl
  | true =>
    simp only [if_true, LeftOut.companion, companion, List.map_map]
    rfl

theorem companion_injective {binary binary' name name' : String} {fields fields' : List String}
    (h : companion binary name fields = companion binary' name' fields') :
    LeftOut.builder binary name fields = LeftOut.builder binary' name' fields' := by
  have hmembers := congrArg ExternalClass.members h
  rcases List.append_inj' hmembers rfl with ⟨hfields, hbuild⟩
  have hlast := (List.cons.inj hbuild).1
  have hbinary := Option.some.inj (congrArg ExternalMember.retFqn hlast)
  have hname := Option.some.inj (congrArg ExternalMember.retDisplay hlast)
  have hnames := congrArg (List.map ExternalMember.name) hfields
  simp only [List.map_map, Function.comp_def, List.map_id'] at hnames
  rw [hbinary, hname, hnames]

theorem missing_not_declared (doc : Doc) (path : List String) (u : Unhashed) :
    missing doc path ≠ .declared u := by
  unfold missing builderLeftOut
  split
  · intro h
    cases h
  · split
    · split
      · intro h
        cases h
      · intro h
        cases h
    · intro h
      cases h

theorem missing_of_plain {doc : Doc} (h : doc.usesLombok = false) (path : List String) :
    missing doc path = .absent := by
  unfold missing
  rw [h]
  cases doc.find path.dropLast with
  | none => rfl
  | some outer => simp only [Bool.and_false, Bool.false_eq_true, if_false]

theorem missing_eq_of_companion {doc doc' : Doc} {path : List String}
    (h : (missing doc path).companion = (missing doc' path).companion) :
    missing doc path = missing doc' path := by
  cases hmissing : missing doc path with
  | declared u => exact absurd hmissing (missing_not_declared doc path u)
  | absent =>
    cases hmissing' : missing doc' path with
    | declared u => exact absurd hmissing' (missing_not_declared doc' path u)
    | absent => rfl
    | builder binary name fields =>
      rw [hmissing, hmissing'] at h
      cases h
  | builder binary name fields =>
    cases hmissing' : missing doc' path with
    | declared u => exact absurd hmissing' (missing_not_declared doc' path u)
    | absent =>
      rw [hmissing, hmissing'] at h
      cases h
    | builder binary' name' fields' =>
      rw [hmissing, hmissing'] at h
      exact companion_injective (Option.some.inj h)

section Views

variable {pick : Pick} {doc : Doc} {path : List String}

theorem leftOut_found {loc : Located} (h : doc.find path = some loc) :
    leftOut toUppercase doc path = .declared (unhashed toUppercase doc loc) := by
  simp only [leftOut, h]

theorem leftOut_missing (h : doc.find path = none) :
    leftOut toUppercase doc path = missing doc path := by
  simp only [leftOut, h]

theorem classFromDoc_found {loc : Located} (h : doc.find path = some loc) :
    classFromDoc toUppercase pick doc path = some ((doc.symClass toUppercase loc).eval pick) := by
  simp only [classFromDoc, h, toExternalClass_eq_eval]

theorem classFromDoc_missing (h : doc.find path = none) :
    classFromDoc toUppercase pick doc path = (missing doc path).companion := by
  simp only [classFromDoc, h, missing]
  cases doc.find path.dropLast with
  | none => rfl
  | some outer =>
    simp only [builderClass_eq]
    split
    · rfl
    · rfl

theorem found_ne_companion (c : SymClass) (l : LeftOut) : some (c.eval pick) ≠ l.companion := by
  intro h
  cases l with
  | builder binary name fields =>
    have hmetadata := congrArg ExternalClass.metadata (Option.some.inj h)
    cases hmetadata
  | _ => cases h

end Views

/-!
# The declarations as other open documents read them
-/

def MemberDecl.name : MemberDecl -> String
  | .method decl => decl.name
  | .field decl => decl.name
  | .enumConstant name => name

/-- The names of the own members, private ones and member types included. -/
def ownMemberNames (header : Header) : List String :=
  header.members.map MemberDecl.name ++ header.scopeNames

/--
The checks of another open document go to the declaration itself, through
`own_members` and `for_document`: no member is hidden from them.
-/
structure OpenDeclaration where
  memberNames : List String
  declared : ExternalClass

def openClass (toUppercase : Char -> List Char) (pick : Pick) (doc : Doc) (loc : Located) :
    ExternalClass :=
  let resolve := loc.resolver pick doc.imports
  let classNames :=
    (lowerTypeParameters resolve loc.binary [] loc.header.typeParameters).1
  { toExternalClass toUppercase pick doc.imports doc.usesLombok loc with
    members := loc.header.members.filterMap
      (memberFromNode pick doc.imports resolve loc.header.kind loc.binary classNames) }

def openDeclaration (toUppercase : Char -> List Char) (pick : Pick) (doc : Doc)
    (path : List String) : Option OpenDeclaration :=
  (doc.find path).map (fun loc =>
    { memberNames := ownMemberNames loc.header
      declared := openClass toUppercase pick doc loc })

/-- All that the checks of another open document read of this one. -/
structure Readings where
  classes : Pick -> List String -> Option ExternalClass
  declarations : Pick -> List String -> Option OpenDeclaration

def Doc.readings (toUppercase : Char -> List Char) (doc : Doc) : Readings where
  classes := fun pick path => classFromDoc toUppercase pick doc path
  declarations := fun pick path => openDeclaration toUppercase pick doc path

/--
An edit that keeps the fingerprint leaves the diagnostics of the other open
documents as they are, whatever these compute from what they read.
-/
def FastPathSafe (toUppercase : Char -> List Char) (doc doc' : Doc) : Prop :=
  forall (R : Type) (diagnose : Readings -> R),
    diagnose (doc.readings toUppercase) = diagnose (doc'.readings toUppercase)

def symOpenClass (toUppercase : Char -> List Char) (doc : Doc) (loc : Located) : SymClass :=
  let params :=
    symTypeParameters (loc.lookup doc.imports) loc.binary [] loc.header.typeParameters
  { doc.symClass toUppercase loc with
    members := loc.header.members.filterMap (symMemberFromNode (loc.lookup doc.imports)
      doc.imports loc.header.kind loc.binary params.1) }

/-- What no class of another file has: the names of all members, and the members with
the candidates behind their types. -/
def openLeftOut (toUppercase : Char -> List Char) (doc : Doc) (path : List String) :
    Option (List String × SymClass) :=
  (doc.find path).map (fun loc =>
    (ownMemberNames loc.header, symOpenClass toUppercase doc loc))

theorem openClass_eq_eval (pick : Pick) (doc : Doc) (loc : Located) :
    openClass toUppercase pick doc loc = (symOpenClass toUppercase doc loc).eval pick := by
  have hmember :
      memberFromNode pick doc.imports (resolverOf pick (loc.lookup doc.imports))
          loc.header.kind loc.binary
          (symTypeParameters (loc.lookup doc.imports) loc.binary []
            loc.header.typeParameters).1 =
        fun decl => (symMemberFromNode (loc.lookup doc.imports) doc.imports loc.header.kind
          loc.binary (symTypeParameters (loc.lookup doc.imports) loc.binary []
            loc.header.typeParameters).1 decl).map (SymMember.eval pick) := by
    funext decl
    exact memberFromNode_eq pick doc.imports (loc.lookup doc.imports) loc.header.kind
      loc.binary _ decl
  have hmembers :
      loc.header.members.filterMap (memberFromNode pick doc.imports
          (loc.resolver pick doc.imports) loc.header.kind loc.binary
          (lowerTypeParameters (loc.resolver pick doc.imports) loc.binary []
            loc.header.typeParameters).1) =
        (symOpenClass toUppercase doc loc).members.map (SymMember.eval pick) := by
    rw [resolver_eq, lowerTypeParameters_eq, hmember]
    simp only [symOpenClass, List.map_filterMap]
  have hopen : openClass toUppercase pick doc loc =
      { toExternalClass toUppercase pick doc.imports doc.usesLombok loc with
        members := loc.header.members.filterMap (memberFromNode pick doc.imports
          (loc.resolver pick doc.imports) loc.header.kind loc.binary
          (lowerTypeParameters (loc.resolver pick doc.imports) loc.binary []
            loc.header.typeParameters).1) } := rfl
  rw [hopen, hmembers, toExternalClass_eq_eval]
  rfl

theorem qualified_symOpenClass (doc : Doc) (loc : Located) :
    (symOpenClass toUppercase doc loc).Qualified := by
  have hclass := qualified_symClass toUppercase doc.imports doc.usesLombok loc
  have hmember : forall m, m ∈ (symOpenClass toUppercase doc loc).members ->
      m.Qualified := by
    intro m hm
    rcases List.mem_filterMap.mp hm with ⟨decl, _, hdecl⟩
    exact qualified_symMemberFromNode doc.imports _ hdecl
  constructor
  · constructor
    · exact hclass.shape.typeParameters
    · exact hclass.shape.supertypes
    · intro m hm
      rcases List.mem_map.mp hm with ⟨member, hmem, rfl⟩
      exact (hmember member hmem).metadata
    · exact hclass.shape.broken
  · intro d hd
    rcases List.mem_map.mp hd with ⟨member, hmem, rfl⟩
    exact (hmember member hmem).detail
  · exact hclass.supers

theorem openDeclaration_eq_iff (doc doc' : Doc) (path : List String) :
    (forall pick, openDeclaration toUppercase pick doc path =
        openDeclaration toUppercase pick doc' path) <->
      openLeftOut toUppercase doc path = openLeftOut toUppercase doc' path := by
  simp only [openDeclaration, openLeftOut, openClass_eq_eval]
  cases doc.find path with
  | none =>
    cases doc'.find path with
    | none => exact ⟨fun _ => rfl, fun _ _ => rfl⟩
    | some loc' =>
      constructor
      · intro heq
        cases heq pickFirst
      · intro heq
        cases heq
  | some loc =>
    cases doc'.find path with
    | none =>
      constructor
      · intro heq
        cases heq pickFirst
      · intro heq
        cases heq
    | some loc' =>
      simp only [Option.map_some, Option.some.injEq, OpenDeclaration.mk.injEq,
        Prod.mk.injEq]
      constructor
      · intro heq
        refine ⟨(heq pickFirst).left, ?_⟩
        apply SymClass.separate (qualified_symOpenClass doc loc)
          (qualified_symOpenClass doc' loc')
        intro pick
        exact (heq pick).right
      · rintro ⟨hnames, hclass⟩ pick
        exact ⟨hnames, by rw [hclass]⟩

/-!
# Coverage
-/

theorem classFromDoc_eq_of_leftOut {doc doc' : Doc}
    (h : declarationFingerprint toUppercase doc = declarationFingerprint toUppercase doc')
    {path : List String} (heq : leftOut toUppercase doc path = leftOut toUppercase doc' path)
    (pick : Pick) :
    classFromDoc toUppercase pick doc path = classFromDoc toUppercase pick doc' path := by
  cases hfind : doc.find path with
  | some loc =>
    rw [leftOut_found hfind] at heq
    cases hfind' : doc'.find path with
    | some loc' =>
      rw [leftOut_found hfind'] at heq
      rw [classFromDoc_found hfind, classFromDoc_found hfind',
        symClass_eq_of_unhashed h (find_mem hfind) (find_mem hfind') (LeftOut.declared.inj heq)]
    | none =>
      rw [leftOut_missing hfind'] at heq
      exact absurd heq.symm (missing_not_declared doc' path _)
  | none =>
    rw [leftOut_missing hfind] at heq
    cases hfind' : doc'.find path with
    | some loc' =>
      rw [leftOut_found hfind'] at heq
      exact absurd heq (missing_not_declared doc path _)
    | none =>
      rw [leftOut_missing hfind'] at heq
      rw [classFromDoc_missing hfind, classFromDoc_missing hfind', heq]

theorem leftOut_eq_of_classFromDoc {doc doc' : Doc}
    (h : declarationFingerprint toUppercase doc = declarationFingerprint toUppercase doc')
    {path : List String}
    (heq : forall pick, classFromDoc toUppercase pick doc path =
      classFromDoc toUppercase pick doc' path) :
    leftOut toUppercase doc path = leftOut toUppercase doc' path := by
  cases hfind : doc.find path with
  | some loc =>
    cases hfind' : doc'.find path with
    | some loc' =>
      have hclass : doc.symClass toUppercase loc = doc'.symClass toUppercase loc' := by
        apply SymClass.separate
          (qualified_symClass toUppercase doc.imports doc.usesLombok loc)
          (qualified_symClass toUppercase doc'.imports doc'.usesLombok loc')
        intro pick
        have hpick := heq pick
        rw [classFromDoc_found hfind, classFromDoc_found hfind'] at hpick
        exact Option.some.inj hpick
      rw [leftOut_found hfind, leftOut_found hfind', unhashed_eq_of_symClass h hclass]
    | none =>
      have hpick := heq pickFirst
      rw [classFromDoc_found hfind, classFromDoc_missing hfind'] at hpick
      exact absurd hpick (found_ne_companion _ _)
  | none =>
    cases hfind' : doc'.find path with
    | some loc' =>
      have hpick := heq pickFirst
      rw [classFromDoc_missing hfind, classFromDoc_found hfind'] at hpick
      exact absurd hpick.symm (found_ne_companion _ _)
    | none =>
      have hpick := heq pickFirst
      rw [classFromDoc_missing hfind, classFromDoc_missing hfind'] at hpick
      rw [leftOut_missing hfind, leftOut_missing hfind', missing_eq_of_companion hpick]

end Coverage

/-!
# A class with one method
-/

namespace OneClass

def accessor : MemberDecl :=
  .method
    { name := "items", modifiers := .none, typeParameters := [], parameters := some []
      parametersText := "()", result := some ⟨.name "List", "List", rfl⟩
      hasBody := true, headerBroken := false, renders := true }

theorem int_qualified : (TypeNode.primitive PrimitiveType.int).qualified = true := rfl

def counter : MemberDecl :=
  .method
    { name := "size", modifiers := .none, typeParameters := [], parameters := some []
      parametersText := "()", result := some ⟨.primitive .int, "int", int_qualified⟩
      hasBody := true, headerBroken := false, renders := true }

def hidden (name : String) : MemberDecl :=
  .field
    { name := name, modifiers := { Modifiers.none with isPrivate := true }, isStatic := false
      isComponent := false, type := some ⟨.primitive .int, "int", int_qualified⟩, dims := 0
      renders := true, marks := .none }

def header (members : List MemberDecl) : Header :=
  { name := "Shelf", kind := .classKind, modifiers := .none, typeParameters := []
    superNodes := [], hasSuperclass := false, headerBroken := false, members := members
    constructors := [], compactConstructor := none, components := none, unclassified := false
    scopeNames := [], marks := .none }

def doc (wildcards : List String) (members : List MemberDecl) : Doc :=
  { imports := { package := some "shop", single := [], wildcards := wildcards }
    usesLombok := false
    types := [(true, .mk (header members) false [])] }

def upper (c : Char) : List Char :=
  [c.toUpper]

def loc (members : List MemberDecl) : Located :=
  { header := header members, binary := "shop.Shelf", levels := [[]] }

theorem declarations_eq (wildcards : List String) (members : List MemberDecl) :
    (doc wildcards members).declarations = [loc members] := by
  rfl

theorem find_shelf (wildcards : List String) (members : List MemberDecl) :
    (doc wildcards members).find ["Shelf"] = some (loc members) := by
  rfl

theorem find_other (wildcards : List String) (members : List MemberDecl) {path : List String}
    (h : path ≠ ["Shelf"]) : (doc wildcards members).find path = none := by
  cases path with
  | nil => rfl
  | cons name rest =>
    by_cases hname : name = "Shelf"
    · subst hname
      cases rest with
      | nil => exact absurd rfl h
      | cons next rest => rfl
    · have hfirst : firstNamed (doc wildcards members).types name = none := by
        simp only [firstNamed, doc, header, Decl.header, List.find?_cons, Bool.true_and,
          beq_eq_false_iff_ne.mpr (Ne.symm hname), List.find?_nil, Option.map_none]
      simp only [Doc.find, findTypeByPath, hfirst]

theorem fingerprint_eq_of_shape {wildcards wildcards' : List String}
    {members members' : List MemberDecl}
    (h : (((doc wildcards members).symClass upper (loc members)).eval pickFirst).shape =
      (((doc wildcards' members').symClass upper (loc members')).eval pickFirst).shape) :
    declarationFingerprint upper (doc wildcards members) =
      declarationFingerprint upper (doc wildcards' members') := by
  have hentries : entries upper (doc wildcards members) =
      entries upper (doc wildcards' members') := by
    unfold entries
    rw [declarations_eq, declarations_eq, List.map_cons, List.map_cons, List.map_nil,
      List.map_nil, h]
    rfl
  rw [fingerprint_eq_sort, fingerprint_eq_sort, hentries]

theorem symMethod_of_primitive {decl : MethodDecl} {type : WrittenType} {p : PrimitiveType}
    (htypeParameters : decl.typeParameters = []) (hparameters : decl.parameters = some [])
    (hresult : decl.result = some type) (hnode : type.node = .primitive p)
    (lookup lookup' : String -> Bool -> Lookup) (imports imports' : Imports) (kind : TypeKind)
    (binary : String) (vars : TypeNode.VariableScope) :
    symMethod lookup imports kind binary vars decl =
      symMethod lookup' imports' kind binary vars decl := by
  simp only [symMethod, htypeParameters, hparameters, hresult, symTypeParameters,
    symTypeParametersFrom, symParameters, List.filterMap_nil, symOrUnknown, symType, hnode,
    SymType.ofNode, Option.bind_some, symRet, TypeNode.baseTypeName, Option.map_none]

theorem visible_counter :
    (loc [counter]).header.members.filter MemberDecl.externallyVisible = [counter] := by
  rfl

theorem symConstructors_counter (lookup lookup' : String -> Bool -> Lookup) :
    symConstructors lookup (header [counter]) "shop.Shelf" .packageAccess [] =
      symConstructors lookup' (header [counter]) "shop.Shelf" .packageAccess [] := by
  rfl

theorem symMembers_counter (imports imports' : Imports) :
    symMembers upper imports false (loc [counter]) [] =
      symMembers upper imports' false (loc [counter]) [] := by
  have hmember : symMemberFromNode ((loc [counter]).lookup imports) imports .classKind
        "shop.Shelf" [] counter =
      symMemberFromNode ((loc [counter]).lookup imports') imports' .classKind
        "shop.Shelf" [] counter :=
    congrArg some (symMethod_of_primitive rfl rfl rfl rfl _ _ _ _ _ _ _)
  have hconstructors := symConstructors_counter ((loc [counter]).lookup imports)
    ((loc [counter]).lookup imports')
  unfold symMembers
  rw [visible_counter, List.filterMap_cons, List.filterMap_cons]
  simp only [loc, header, reduceCtorEq, if_false, Bool.false_eq_true, List.filterMap_nil,
    List.append_nil] at hmember hconstructors ⊢
  rw [hmember]
  exact congrArg _ hconstructors

theorem symClass_counter (wildcards : List String) :
    (doc wildcards [counter]).symClass upper (loc [counter]) =
      (doc [] [counter]).symClass upper (loc [counter]) := by
  have hmembers := symMembers_counter (doc wildcards [counter]).imports (doc [] [counter]).imports
  have hsupers : symSupers (doc wildcards [counter]).imports (loc [counter]) =
      symSupers (doc [] [counter]).imports (loc [counter]) := by
    rfl
  simp only [Doc.symClass, doc] at hmembers hsupers ⊢
  simp only [symClass, hsupers]
  simp only [loc, header, symTypeParameters, symTypeParametersFrom, List.map_nil] at hmembers ⊢
  rw [hmembers]

theorem symClass_hidden (name : String) :
    (doc [] [counter, hidden name]).symClass upper (loc [counter, hidden name]) =
      (doc [] [counter]).symClass upper (loc [counter]) := by
  rfl

/-- A private field gets another name, which other open documents read. -/
example :
    declarationFingerprint upper (doc [] [counter, hidden "count"]) =
        declarationFingerprint upper (doc [] [counter, hidden "total"]) ∧
      ¬ FastPathSafe upper (doc [] [counter, hidden "count"])
        (doc [] [counter, hidden "total"]) := by
  constructor
  · apply fingerprint_eq_of_shape
    rw [symClass_hidden, symClass_hidden]
  · intro hsafe
    have hnames := hsafe (Option (List String)) (fun readings =>
      (readings.declarations pickFirst ["Shelf"]).map OpenDeclaration.memberNames)
    simp only [Doc.readings, openDeclaration, find_shelf, Option.map_some] at hnames
    exact absurd (Option.some.inj hnames) (by decide)

theorem scope_empty (binary : String) : nestedTypesInScope binary [[]] = [] := by
  simp only [nestedTypesInScope]
  cases enclosingBinary binary with
  | none => rfl
  | some enclosing => rfl

theorem lookup_eq (wildcards : List String) :
    (loc [accessor]).lookup (doc wildcards [accessor]).imports "List" false =
      .candidates ("shop.List" ::
        (wildcards.map (fun w => w ++ "." ++ "List") ++ ["java.lang.List"])) := by
  simp only [Located.lookup, loc, scope_empty, lookupOf]
  rfl

theorem members_eq (wildcards : List String) :
    ((doc wildcards [accessor]).symClass upper (loc [accessor])).members =
      [ { name := "items", kind := .method, isStatic := false
          ret := some (.candidates ((doc wildcards [accessor]).imports.candidates "List"))
          retDisplay := some "List"
          metadata := some
            { declaringClass := "shop.Shelf", access := .packageAccess, isStatic := false
              isAbstract := false, parameters := some []
              result := .named
                ((loc [accessor]).lookup (doc wildcards [accessor]).imports "List" false) []
              typeParameters := [], isVarargs := false } },
        symConstructorMember "Shelf" "shop.Shelf" .packageAccess (some []) [] false ] := by
  rfl

theorem shape_wildcards (wildcards : List String) :
    (((doc wildcards [accessor]).symClass upper (loc [accessor])).eval pickFirst).shape =
      (((doc [] [accessor]).symClass upper (loc [accessor])).eval pickFirst).shape := by
  rw [SymClass.shape_eval, SymClass.shape_eval]
  simp only [SymShape.eval, SymClass.shape, members_eq, lookup_eq]
  simp only [symClass, symTypeParametersFrom, loc, header, List.map_nil, List.append_nil,
    List.map_cons, SymMember.shape, symConstructorMember, Option.map_some,
    SymMemberMetadata.eval, SymType.eval, Lookup.resolve, pickFirst, List.head?_cons]

/-- The class named `List` that a reader finds through an import of `java.util`. -/
def readsUtil (wildcards : List String) : Option String :=
  pickFqn (fun name => name == "java.util.List")
    ((doc wildcards [accessor]).imports.candidates "List")

end OneClass

end Fingerprint
end JavaVsixLite
