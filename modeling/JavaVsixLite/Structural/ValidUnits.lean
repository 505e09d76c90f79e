import JavaVsixLite.Structural.Checks

/-!
# Valid compilation units

The rules of the language on modifiers, bodies, duplicates, files and packages, and what the
checks report on a unit that keeps them.  What the type of a parameter erases to is given: it
depends on the declaration the method stands in, on the type parameters of the method, and on
the type and the dimensions that are written.
-/

namespace JavaVsixLite
namespace Structural

open Foundation

/-!
# The shape of a unit
-/

@[grind =] def parentAllowed : NodeKind -> Option NodeKind -> Bool
  | .program, parent => parent.isNone
  | .methodDeclaration, parent =>
    [some .classBody, some .interfaceBody, some .enumBodyDeclarations, some .program].contains
      parent
  | .classBody, parent =>
    [some (.typeDeclaration .classKind), some (.typeDeclaration .record),
      some .objectCreationExpression, some .enumConstant].contains parent
  | .interfaceBody, parent => parent == some (.typeDeclaration .interface)
  | .enumBody, parent => parent == some (.typeDeclaration .enum)
  | .annotationTypeBody, parent => parent == some (.typeDeclaration TypeKind.annotation)
  | .enumBodyDeclarations, parent => parent == some .enumBody
  | .enumConstant, parent => parent == some .enumBody
  | _, _ => true

@[grind =] def tokenText : NodeKind -> Option String
  | .token text => some text
  | _ => none

/-- A keyword is written as such; annotations and comments start with a sign of their own. -/
def modifierAllowed (child : Node) : Bool :=
  match tokenText child.kind with
  | some text => child.text == text
  | none => child.text.toList.head? == some '@' || child.text.toList.head? == some '/'

structure Grammatical (tree : Tree) : Prop where
  parents : forall node, Below (Node.root tree) node ->
    parentAllowed node.kind (node.parent.map Node.kind) = true
  modifiers : forall node, Below (Node.root tree) node ->
    forall mods, mods ∈ modifiersNode node ->
      forall child, child ∈ mods.children -> modifierAllowed child = true

@[grind =] def isBody : NodeKind -> Bool
  | .classBody => true
  | .interfaceBody => true
  | .enumBody => true
  | .annotationTypeBody => true
  | _ => false

@[grind =] def bodyAmong : List Tree -> Option Node
  | [] => none
  | p :: rest => if isBody p.kind then some ⟨p, rest⟩ else bodyAmong rest

/-- The body a node stands in, be it of a type, an anonymous class or an enum constant. -/
def ownBody (node : Node) : Option Node :=
  bodyAmong node.ancestors

/-!
# Ownership
-/

section Ownership

variable {tree : Tree}

variable {p : Tree} {rest : List Tree}

theorem enclosingAmong_cons_of_other (hbody : p.kind ≠ .classBody)
    (hkind : fromKind p.kind = none) :
    enclosingAmong (p :: rest) = enclosingAmong rest := by
  rw [enclosingAmong, if_neg (fun h => hbody h.1), hkind]

theorem enclosingAmong_cons_of_type {kind : TypeKind} (hkind : p.kind = .typeDeclaration kind) :
    enclosingAmong (p :: rest) = some (⟨p, rest⟩, kind) := by
  rw [enclosingAmong, if_neg (fun h => by simp [hkind] at h), hkind]
  rfl

theorem Grammatical.parent_allowed (h : Grammatical tree)
    (hbelow : Below (Node.root tree) ⟨p, rest⟩) :
    parentAllowed p.kind (rest.head?.map Tree.kind) = true := by
  have hp := h.parents ⟨p, rest⟩ hbelow
  cases rest with
  | nil => exact hp
  | cons q rest => exact hp

theorem enclosingAmong_enumBody (h : Grammatical tree) (hbelow : Below (Node.root tree) ⟨p, rest⟩)
    (hkind : p.kind = .enumBody) :
    exists enclosing, enclosingAmong (p :: rest) = some (enclosing, .enum) := by
  have hparent := h.parent_allowed hbelow
  rw [hkind] at hparent
  cases rest with
  | nil => simp [parentAllowed] at hparent
  | cons q rest =>
    have hq : q.kind = .typeDeclaration .enum := by
      simpa [parentAllowed] using hparent
    rw [enclosingAmong_cons_of_other (by simp [hkind]) (by rw [hkind]; rfl),
      enclosingAmong_cons_of_type hq]
    exact ⟨_, rfl⟩

theorem enclosingAmong_in_enumBody (h : Grammatical tree)
    (hbelow : Below (Node.root tree) ⟨p, rest⟩)
    (hkind : p.kind = .enumConstant ∨ p.kind = .enumBodyDeclarations) :
    exists enclosing, enclosingAmong (p :: rest) = some (enclosing, .enum) := by
  have hparent := h.parent_allowed hbelow
  have hparent' : rest.head?.map Tree.kind = some .enumBody := by
    rcases hkind with hkind | hkind
    · rw [hkind] at hparent
      simpa [parentAllowed] using hparent
    · rw [hkind] at hparent
      simpa [parentAllowed] using hparent
  have hother : enclosingAmong (p :: rest) = enclosingAmong rest := by
    apply enclosingAmong_cons_of_other
    · rcases hkind with hkind | hkind
      · simp [hkind]
      · simp [hkind]
    · rcases hkind with hkind | hkind
      · rw [hkind]
        rfl
      · rw [hkind]
        rfl
  cases rest with
  | nil => simp at hparent'
  | cons q rest =>
    rw [hother]
    exact enclosingAmong_enumBody h (hbelow.parent_of_root rfl) (by simpa using hparent')

theorem enclosingAmong_classBody (h : Grammatical tree) (hbelow : Below (Node.root tree) ⟨p, rest⟩)
    (hkind : p.kind = .classBody) :
    exists enclosing kind, enclosingAmong (p :: rest) = some (enclosing, kind) ∧
      kind ≠ .interface := by
  have hparent := h.parent_allowed hbelow
  rw [hkind] at hparent
  cases rest with
  | nil => simp [parentAllowed] at hparent
  | cons q rest =>
    by_cases hanonymous : q.kind = .objectCreationExpression
    · rw [enclosingAmong, if_pos ⟨hkind, by simp [hanonymous]⟩]
      exact ⟨_, _, rfl, by decide⟩
    · rw [enclosingAmong, if_neg (fun hp => hanonymous (by simpa using hp.2)), hkind]
      change exists enclosing kind, enclosingAmong (q :: rest) = some (enclosing, kind) ∧ _
      have hcases : q.kind = .typeDeclaration .classKind ∨ q.kind = .typeDeclaration .record ∨
          q.kind = .enumConstant := by
        simpa [parentAllowed, hanonymous] using hparent
      rcases hcases with hclass | hrecord | hconstant
      · rw [enclosingAmong_cons_of_type hclass]
        exact ⟨_, _, rfl, by decide⟩
      · rw [enclosingAmong_cons_of_type hrecord]
        exact ⟨_, _, rfl, by decide⟩
      · rcases enclosingAmong_in_enumBody h (hbelow.parent_of_root rfl) (Or.inl hconstant) with
          ⟨enclosing, henclosing⟩
        rw [henclosing]
        exact ⟨_, _, rfl, by decide⟩

theorem ownBody_of_enclosingType (h : Grammatical tree) {method enclosing : Node}
    (hbelow : Below (Node.root tree) method) (hkind : method.kind = .methodDeclaration)
    (henclosing : enclosingType method = some (enclosing, .interface)) :
    exists body, ownBody method = some body ∧ body.kind = .interfaceBody := by
  cases method with
  | mk self ancestors =>
    have hparent := h.parent_allowed hbelow
    change self.kind = _ at hkind
    rw [hkind] at hparent
    change enclosingAmong ancestors = _ at henclosing
    change exists body, bodyAmong ancestors = some body ∧ _
    cases ancestors with
    | nil => simp [parentAllowed] at hparent
    | cons p rest =>
      have hp : Below (Node.root tree) ⟨p, rest⟩ := hbelow.parent_of_root rfl
      have hcases : p.kind = .classBody ∨ p.kind = .interfaceBody ∨
          p.kind = .enumBodyDeclarations ∨ p.kind = .program := by
        simpa [parentAllowed] using hparent
      rcases hcases with hclass | hinterface | henum | hprogram
      · rcases enclosingAmong_classBody h hp hclass with ⟨found, kind, hfound, hne⟩
        rw [hfound] at henclosing
        cases henclosing
        exact absurd rfl hne
      · exact ⟨⟨p, rest⟩, by simp [bodyAmong, hinterface, isBody], hinterface⟩
      · rcases enclosingAmong_in_enumBody h hp (Or.inr henum) with ⟨found, hfound⟩
        rw [hfound] at henclosing
        cases henclosing
      · have htop := h.parent_allowed hp
        rw [hprogram] at htop
        cases rest with
        | nil => simp [enclosingAmong, hprogram, fromKind] at henclosing
        | cons q rest => simp [parentAllowed] at htop

end Ownership

/-!
# Modifiers
-/

/-- The modifiers of a declaration without its annotations. -/
def keywords (decl : Node) : List String :=
  match modifiersNode decl with
  | none => []
  | some mods => mods.children.filterMap (fun child => tokenText child.kind)

def isModified : NodeKind -> Bool
  | .typeDeclaration _ => true
  | .methodDeclaration => true
  | .constructorDeclaration => true
  | .fieldDeclaration => true
  | .constantDeclaration => true
  | _ => false

section Keywords

variable {tree : Tree}

theorem isNamed_eq (node : Node) : node.isNamed = (tokenText node.kind).isNone := by
  unfold Node.isNamed Tree.isNamed Node.kind
  cases node.tree.kind <;> rfl

theorem map_kind_keywordNodes (mods : Node) :
    (keywordNodes mods).map Node.kind =
      (mods.children.filterMap (fun child => tokenText child.kind)).map NodeKind.token := by
  unfold keywordNodes
  induction mods.children with
  | nil => rfl
  | cons child rest ih =>
    rw [List.filter_cons, List.filterMap_cons, isNamed_eq]
    cases hkind : child.kind with
    | token text => simp [tokenText, hkind, ih]
    | _ => simp [tokenText, ih]

theorem checkRepeatedModifiers_eq_nil {decl : Node} (h : (keywords decl).Nodup) :
    checkRepeatedModifiers decl = [] := by
  unfold checkRepeatedModifiers
  split
  · rfl
  · cases hmods : modifiersNode decl with
    | none => rfl
    | some mods =>
      have hnodup : ((keywordNodes mods).map Node.kind).Nodup := by
        rw [map_kind_keywordNodes]
        apply List.Nodup.map (fun a b hab => by cases hab; rfl)
        simpa [keywords, hmods] using h
      rw [List.map_eq_nil_iff, repeats_eq_nil_iff]
      exact hnodup

theorem checkModifierCombo_eq_nil {decl : Node} {a b : String}
    (h : a ∈ keywords decl -> b ∉ keywords decl) : checkModifierCombo decl a b = [] := by
  unfold checkModifierCombo
  split
  · rfl
  · cases hmods : modifiersNode decl with
    | none => rfl
    | some mods =>
      have hmem (word : String) (pos : Nat)
          (hpos : ((keywordNodes mods).map Node.kind).idxOf? (.token word) = some pos) :
          word ∈ keywords decl := by
        have hne : ((keywordNodes mods).map Node.kind).idxOf? (.token word) ≠ none := by
          rw [hpos]
          exact Option.some_ne_none pos
        rw [Ne, List.idxOf?_eq_none_iff, map_kind_keywordNodes] at hne
        simpa [keywords, hmods] using hne
      dsimp only
      split
      · rename_i pa pb ha hb
        exact absurd (hmem b pb hb) (h (hmem a pa ha))
      · rfl

variable (keyword : String) in
theorem hasModifier_iff (h : Grammatical tree) {decl : Node} (hbelow : Below (Node.root tree) decl)
    (hat : keyword.toList.head? ≠ some '@')
    (hslash : keyword.toList.head? ≠ some '/') :
    hasModifier decl keyword = true <-> keyword ∈ keywords decl := by
  unfold hasModifier keywords
  cases hmods : modifiersNode decl with
  | none => simp
  | some mods =>
    simp only [List.any_eq_true, beq_iff_eq, List.mem_filterMap]
    constructor
    · intro hfound
      rcases hfound with ⟨child, hchild, htext⟩
      have hallowed := h.modifiers decl hbelow mods hmods child hchild
      exists child
      constructor
      · exact hchild
      · unfold modifierAllowed at hallowed
        cases htoken : tokenText child.kind with
        | none => simp [htoken, htext, hat, hslash] at hallowed
        | some text =>
          have heq : child.text = text := by
            simpa [htoken] using hallowed
          rw [<- heq, htext]
    · intro hfound
      rcases hfound with ⟨child, hchild, htoken⟩
      have hallowed := h.modifiers decl hbelow mods hmods child hchild
      exists child
      constructor
      · exact hchild
      · simpa [modifierAllowed, htoken] using hallowed

theorem checkMethodBodyShape_cases (h : Grammatical tree) {method : Node}
    (hbelow : Below (Node.root tree) method) (hkind : method.kind = .methodDeclaration)
    (hreport : checkMethodBodyShape method ≠ []) :
    (method.childByFieldName .body).isSome ∧
      ((exists body, ownBody method = some body ∧ body.kind = .interfaceBody) ∧
          "default" ∉ keywords method ∧ "static" ∉ keywords method ∧
          "private" ∉ keywords method ∨
        "abstract" ∈ keywords method) := by
  have hmodifier (keyword : String) (hat : keyword.toList.head? ≠ some '@')
      (hslash : keyword.toList.head? ≠ some '/') :=
    hasModifier_iff keyword h hbelow hat hslash
  unfold checkMethodBodyShape at hreport
  split at hreport
  · exact absurd rfl hreport
  · split at hreport
    · rename_i body enclosing kind hbody henclosing
      constructor
      · rw [hbody]
        rfl
      · split at hreport
        · exact absurd rfl hreport
        · split at hreport
          · rename_i hinterface
            rw [hinterface] at henclosing
            split at hreport
            · exact absurd rfl hreport
            · rename_i hallowed
              left
              constructor
              · exact ownBody_of_enclosingType h hbelow hkind henclosing
              · rw [Bool.or_eq_true, Bool.or_eq_true, hmodifier "default" (by decide) (by decide),
                  hmodifier "static" (by decide) (by decide),
                  hmodifier "private" (by decide) (by decide), not_or, not_or] at hallowed
                exact ⟨hallowed.1.1, hallowed.1.2, hallowed.2⟩
          · split at hreport
            · rename_i habstract
              right
              exact (hmodifier "abstract" (by decide) (by decide)).mp habstract
            · exact absurd rfl hreport
    · exact absurd rfl hreport

end Keywords

/-!
# Written signatures
-/

/-- A plain parameter: the type before its name and the dimensions after it. -/
structure Parameter where
  type : String
  dimensions : Option String
deriving DecidableEq

structure WrittenMethod where
  name : String
  typeParameters : Option String
  parameters : List Parameter
deriving DecidableEq

def plainParameter (p : Node) : Option Parameter :=
  if p.kind = .formalParameter then
    (p.childByFieldName .type).map
      (fun type => ⟨type.text, (p.childByFieldName .dimensions).map Node.text⟩)
  else none

/-- A list with a receiver, a variable parameter or a comment in it is not plain. -/
def plainParameters (method : Node) : Option (List Parameter) :=
  (method.childByFieldName .parameters).bind
    (fun params => params.namedChildren.mapM plainParameter)

def writtenMethod (member : Member) : Option WrittenMethod :=
  (plainParameters member.node).map (fun parameters =>
    ⟨member.name, (member.node.childByFieldName .typeParameters).map Node.text, parameters⟩)

def writtenMethods (decl : TypeDecl) : List WrittenMethod :=
  decl.declaredMethods.filterMap writtenMethod

def writtenKey (method : WrittenMethod) : String × List String :=
  (method.name, method.parameters.map Parameter.type)

section Written

variable {decl : TypeDecl}

theorem mapM_map_option {α β γ : Type} (f : α -> Option β) (g : β -> γ) (xs : List α) :
    (xs.mapM f).map (List.map g) = xs.mapM (fun x => (f x).map g) := by
  induction xs with
  | nil => rfl
  | cons x rest ih =>
    rw [List.mapM_cons, List.mapM_cons, <- ih]
    cases f x with
    | none => rfl
    | some y =>
      cases rest.mapM f with
      | none => rfl
      | some ys => rfl

theorem paramTypesText_eq {method : Node} (herr : method.hasError = false) :
    paramTypesText method = (plainParameters method).map (List.map Parameter.type) := by
  unfold paramTypesText plainParameters
  cases hparams : method.childByFieldName .parameters with
  | none => rfl
  | some params =>
    have hparamsErr : params.hasError = false :=
      Node.hasError_child herr (Node.mem_children_of_childByFieldName hparams)
    dsimp only
    rw [if_neg (by simp [hparamsErr]), Option.bind_some, mapM_map_option]
    congr 1
    funext p
    unfold plainParameter
    split
    · rw [Option.map_map]
      rfl
    · rfl

theorem mem_declaredMethods {member : Member} (h : member ∈ decl.declaredMethods) :
    MemberOf decl.node member :=
  TypeDecl.memberOf_ownMembers (List.mem_of_mem_filter h)

theorem map_methodKey_comparedMethods (herr : decl.node.hasError = false) :
    (comparedMethods decl).map methodKey = (writtenMethods decl).map writtenKey := by
  have hmethods : forall member, member ∈ decl.declaredMethods -> member.node.hasError = false :=
    fun member hmember => (mem_declaredMethods hmember).below.hasError_eq_false herr
  unfold comparedMethods writtenMethods
  rw [List.filter_eq_self.mpr (fun member hmember => by simp [hmethods member hmember]),
    List.map_filterMap, List.map_filterMap]
  apply List.filterMap_congr
  intro member hmember
  rw [paramTypesText_eq (hmethods member hmember), writtenMethod, Option.map_map, Option.map_map,
    Option.map_map]
  rfl

theorem checkDuplicateMethods_eq_nil_iff (herr : decl.node.hasError = false) :
    checkDuplicateMethods decl = [] <-> ((writtenMethods decl).map writtenKey).Nodup := by
  rw [<- map_methodKey_comparedMethods herr, <- repeats_eq_nil_iff]
  unfold checkDuplicateMethods
  rw [List.filterMap_eq_nil_iff]
  constructor
  · intro hnone
    rw [List.eq_nil_iff_forall_not_mem]
    intro entry hentry
    have hcompared : entry ∈ comparedMethods decl := repeats_sublist.subset hentry
    unfold comparedMethods at hcompared
    rw [List.mem_filterMap] at hcompared
    rcases hcompared with ⟨member, hmember, heq⟩
    rw [Option.map_eq_some_iff] at heq
    rcases heq with ⟨types, htypes, heq⟩
    rcases (mem_declaredMethods (List.mem_of_mem_filter hmember)).named with ⟨name, hname, htext⟩
    have hentryNone := hnone entry hentry
    rw [<- heq, hname] at hentryNone
    cases hentryNone
  · intro hnil entry hentry
    rw [hnil] at hentry
    cases hentry

end Written

/-!
# The rules
-/

mutual

def identifiersOf : Tree -> List String
  | .node kind _ text _ children =>
    if kind = .identifier then [text] else identifiersOfAll children

def identifiersOfAll : List Tree -> List String
  | [] => []
  | tree :: rest => identifiersOf tree ++ identifiersOfAll rest

end

def pathNode (decl : Node) : Option Node :=
  decl.children.find? (fun child => child.kind == .identifier || child.kind == .scopedIdentifier)

/-- The name of the package of a unit, whatever stands between its parts. -/
def declaredPackage (root : Node) : String :=
  match (packageDeclarations root).head?.bind pathNode with
  | none => ""
  | some path => String.intercalate "." (identifiersOf path.tree)

def formalNames (decl : Node) : List String :=
  match decl.childByFieldName .parameters with
  | none => []
  | some params =>
    ((params.namedChildren.filter (fun p =>
      p.kind == .formalParameter || p.kind == .spreadParameter)).filterMap
        (fun p => p.childByFieldName .name)).map Node.text

/-- What the type of a parameter erases to where it is declared. -/
abbrev Erasure (τ : Type) :=
  Node -> Option String -> Parameter -> τ

def erasedSignature {τ : Type} (erase : Erasure τ) (decl : TypeDecl) (method : WrittenMethod) :
    String × List τ :=
  (method.name, method.parameters.map (erase decl.node method.typeParameters))

/-- Of the signatures only those of plain parameters are compared. -/
structure Valid {τ : Type} (erase : Erasure τ) (tree : Tree)
    (filename expectedPackage : Option String) : Prop where
  noError : tree.hasError = false
  modifiers : forall node, Below (Node.root tree) node -> isModified node.kind = true ->
    (keywords node).Nodup
  classes : forall node, Below (Node.root tree) node ->
    node.kind = .typeDeclaration .classKind -> "abstract" ∈ keywords node ->
      "final" ∉ keywords node
  sealedTypes : forall node, Below (Node.root tree) node ->
    node.kind = .typeDeclaration .classKind ∨ node.kind = .typeDeclaration .interface ->
      "sealed" ∈ keywords node -> "non-sealed" ∉ keywords node
  abstractMethods : forall node, Below (Node.root tree) node -> node.kind = .methodDeclaration ->
    "abstract" ∈ keywords node ->
      "final" ∉ keywords node ∧ "private" ∉ keywords node ∧
        (node.childByFieldName .body).isSome = false
  interfaceMethods : forall node, Below (Node.root tree) node -> node.kind = .methodDeclaration ->
    (ownBody node).map Node.kind = some .interfaceBody ->
      (node.childByFieldName .body).isSome = true ->
        "default" ∈ keywords node ∨ "static" ∈ keywords node ∨ "private" ∈ keywords node
  fields : forall node, Below (Node.root tree) node -> forall decl, decl ∈ TypeDecl.fromNode node ->
    (decl.declaredFields.map Member.name).Nodup
  methods : forall node, Below (Node.root tree) node -> forall decl,
    decl ∈ TypeDecl.fromNode node ->
    ((writtenMethods decl).map (erasedSignature erase decl)).Nodup
  parameters : forall node, Below (Node.root tree) node ->
    node.kind = .methodDeclaration ∨ node.kind = .constructorDeclaration ->
      (formalNames node).Nodup
  topLevel : (((topLevelTypes (Node.root tree)).filterMap
    (fun ty => ty.childByFieldName .name)).map Node.text).Nodup
  file : forall stem, stem ∈ filename.bind (stripSuffix ".java") ->
    forall ty, ty ∈ topLevelTypes (Node.root tree) -> "public" ∈ keywords ty ->
      forall name, name ∈ ty.childByFieldName .name -> name.text = stem
  onePackage : (packageDeclarations (Node.root tree)).length ≤ 1
  package : forall expected, expected ∈ expectedPackage ->
    declaredPackage (Node.root tree) = expected

/--
Methods of one declaration that agree in their names and in the types as written agree in
their type parameters and dimensions too, and the name of a package that is looked at is
written without anything between its parts.
-/
structure PlainlyWritten (tree : Tree) (expectedPackage : Option String) : Prop where
  methods : forall node, Below (Node.root tree) node -> forall decl,
    decl ∈ TypeDecl.fromNode node ->
    forall m, m ∈ writtenMethods decl -> forall m', m' ∈ writtenMethods decl ->
      writtenKey m = writtenKey m' -> m = m'
  package : expectedPackage.isSome = true ->
    forall decl, decl ∈ packageDeclarations (Node.root tree) ->
      forall path, path ∈ packagePath decl -> path = declaredPackage (Node.root tree)

instance decidableForallBelow (root : Node) (P : Node -> Prop) [DecidablePred P] :
    Decidable (forall node, Below root node -> P node) :=
  decidable_of_iff (forall node, node ∈ root.visits -> P node) (by simp only [mem_visits_iff])

end Structural
end JavaVsixLite
