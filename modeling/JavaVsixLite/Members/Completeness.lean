import Mathlib.Logic.Relation
import JavaVsixLite.Members.Walks

/-!
# The completeness flag

A walk that ends with its flag set has visited everything its own edges lead to.
What the flag promises is more: that no declared supertype is missing among
these edges.  The lowering of a closed source drops the clauses it cannot place
and places a qualified one by its simple name.
-/

namespace JavaVsixLite

variable (w : Workspace)

/-!
# What the diagnostic walk reads at a type
-/

def successors : ResolvedType -> List ResolvedType
  | .inProject node _ =>
    (w.resolvedClauses node).filterMap id ++
      if (w.decl node).kind = .enum then [enumType] else []
  | .external fqn _ =>
    match w.classOf fqn with
    | some c => c.supers.map (fun sup => .external sup [])
    | none => []
  | _ => []

def contributedNames : ResolvedType -> List String
  | .inProject node _ =>
    (w.decl node).ownMembers.map Member.name ++
      if (w.decl node).kind = .enum then
        (enumSyntheticMembers (w.decl node).name).map ExternalMember.name
      else []
  | .external fqn _ =>
    match w.classOf fqn with
    | some c => externalNames c
    | none => []
  | .array _ => ["length", "clone"]
  | _ => []

def Known : ResolvedType -> Prop
  | .inProject node _ => forall clause, clause ∈ w.resolvedClauses node ->
      clause.isSome
  | .external fqn _ => (w.classOf fqn).isSome
  | _ => True

def Covered (s : DiagState) : ResolvedType -> Prop
  | .inProject node _ => node ∈ s.visitedNode
  | .external fqn _ => fqn ∈ s.visitedFqn
  | .array _ => "length" ∈ s.names ∧ "clone" ∈ s.names
  | _ => True

structure Explored (s : DiagState) (t : ResolvedType) : Prop where
  known : Known w t
  names : contributedNames w t ⊆ s.names
  successors : forall u, u ∈ successors w t -> Covered s u

/-!
# One walk grows the state
-/

structure Grows (s s' : DiagState) : Prop where
  names : s.names ⊆ s'.names
  visitedNode : s.visitedNode ⊆ s'.visitedNode
  visitedFqn : s.visitedFqn ⊆ s'.visitedFqn
  complete : s'.complete = true -> s.complete = true

structure Closes (s s' : DiagState) : Prop extends Grows s s' where
  nodes : s'.complete = true -> forall node, node ∈ s'.visitedNode ->
    node ∈ s.visitedNode ∨ Explored w s' (.inProject node [])
  fqns : s'.complete = true -> forall fqn, fqn ∈ s'.visitedFqn ->
    fqn ∈ s.visitedFqn ∨ Explored w s' (.external fqn [])

variable {w} {s s' s'' : DiagState}

theorem covered_mono (h : Grows s s') {t : ResolvedType} (hcovered : Covered s t) :
    Covered s' t := by
  cases t with
  | inProject node args => exact h.visitedNode hcovered
  | external fqn args => exact h.visitedFqn hcovered
  | array element => exact ⟨h.names hcovered.left, h.names hcovered.right⟩
  | _ => exact trivial

theorem Explored.mono (h : Grows s s') {t : ResolvedType}
    (hexplored : Explored w s t) : Explored w s' t where
  known := hexplored.known
  names := fun _ hname => h.names (hexplored.names hname)
  successors := fun u hu => covered_mono h (hexplored.successors u hu)

theorem grows_refl (s : DiagState) : Grows s s where
  names := fun _ h => h
  visitedNode := fun _ h => h
  visitedFqn := fun _ h => h
  complete := fun h => h

theorem Grows.trans (h : Grows s s') (h' : Grows s' s'') : Grows s s'' where
  names := fun _ hname => h'.names (h.names hname)
  visitedNode := fun _ hnode => h'.visitedNode (h.visitedNode hnode)
  visitedFqn := fun _ hfqn => h'.visitedFqn (h.visitedFqn hfqn)
  complete := fun hcomplete => h.complete (h'.complete hcomplete)

theorem closes_refl (s : DiagState) : Closes w s s where
  toGrows := grows_refl s
  nodes := fun _ _ hnode => Or.inl hnode
  fqns := fun _ _ hfqn => Or.inl hfqn

theorem Closes.trans (h : Closes w s s') (h' : Closes w s' s'') :
    Closes w s s'' where
  toGrows := h.toGrows.trans h'.toGrows
  nodes := by
    intro hcomplete node hnode
    rcases h'.nodes hcomplete node hnode with hold | hexplored
    · rcases h.nodes (h'.complete hcomplete) node hold with hold | hexplored
      · exact Or.inl hold
      · exact Or.inr (hexplored.mono h'.toGrows)
    · exact Or.inr hexplored
  fqns := by
    intro hcomplete fqn hfqn
    rcases h'.fqns hcomplete fqn hfqn with hold | hexplored
    · rcases h.fqns (h'.complete hcomplete) fqn hold with hold | hexplored
      · exact Or.inl hold
      · exact Or.inr (hexplored.mono h'.toGrows)
    · exact Or.inr hexplored

theorem closes_giveUp (s : DiagState) : Closes w s s.giveUp where
  names := fun _ h => h
  visitedNode := fun _ h => h
  visitedFqn := fun _ h => h
  complete := fun h => by cases h
  nodes := fun _ _ hnode => Or.inl hnode
  fqns := fun _ _ hfqn => Or.inl hfqn

theorem closes_addNames (s : DiagState) (names : List String) :
    Closes w s (s.addNames names) where
  names := fun _ h => List.mem_append_right names h
  visitedNode := fun _ h => h
  visitedFqn := fun _ h => h
  complete := fun h => h
  nodes := fun _ _ hnode => Or.inl hnode
  fqns := fun _ _ hfqn => Or.inl hfqn

/-!
A fold of walks closes what each of them closes, and a property each of them
establishes holds at the end when growing states keep it.
-/

theorem foldl_closes {α : Type} {step : DiagState -> α -> DiagState}
    {P : α -> DiagState -> Prop}
    (hmono : forall a s s', Grows s s' -> P a s -> P a s')
    (hstep : forall s a, Closes w s (step s a) ∧
      ((step s a).complete = true -> P a (step s a)))
    (xs : List α) (s : DiagState) :
    Closes w s (xs.foldl step s) ∧
      ((xs.foldl step s).complete = true ->
        forall a, a ∈ xs -> P a (xs.foldl step s)) := by
  induction xs generalizing s with
  | nil =>
    constructor
    · exact closes_refl s
    · intro _hcomplete a ha
      cases ha
  | cons x rest ih =>
    rcases hstep s x with ⟨hcloses, hestablished⟩
    rcases ih (step s x) with ⟨hrest, hall⟩
    constructor
    · exact hcloses.trans hrest
    · intro hcomplete a ha
      rcases List.mem_cons.mp ha with hhead | htail
      · rw [hhead]
        exact hmono x _ _ hrest.toGrows
          (hestablished (hrest.complete hcomplete))
      · exact hall hcomplete a htail

theorem closes_visitNode {node : Nat} {names : List String}
    (h : Closes w (DiagState.addNames
      { s with visitedNode := node :: s.visitedNode } names) s')
    (hexplored : s'.complete = true -> Explored w s' (.inProject node [])) :
    Closes w s s' where
  names := fun _ hname => h.names (List.mem_append_right names hname)
  visitedNode := fun _ hnode => h.visitedNode (List.mem_cons_of_mem node hnode)
  visitedFqn := h.visitedFqn
  complete := h.complete
  nodes := by
    intro hcomplete other hother
    rcases h.nodes hcomplete other hother with hold | hnew
    · rcases List.mem_cons.mp hold with heq | hold
      · rw [heq]
        exact Or.inr (hexplored hcomplete)
      · exact Or.inl hold
    · exact Or.inr hnew
  fqns := h.fqns

theorem closes_visitFqn {fqn : String} {names : List String}
    (h : Closes w (DiagState.addNames
      { s with visitedFqn := fqn :: s.visitedFqn } names) s')
    (hexplored : s'.complete = true -> Explored w s' (.external fqn [])) :
    Closes w s s' where
  names := fun _ hname => h.names (List.mem_append_right names hname)
  visitedNode := h.visitedNode
  visitedFqn := fun _ hfqn => h.visitedFqn (List.mem_cons_of_mem fqn hfqn)
  complete := h.complete
  nodes := h.nodes
  fqns := by
    intro hcomplete other hother
    rcases h.fqns hcomplete other hother with hold | hnew
    · rcases List.mem_cons.mp hold with heq | hold
      · rw [heq]
        exact Or.inr (hexplored hcomplete)
      · exact Or.inl hold
    · exact Or.inr hnew

def WalkCloses (w : Workspace) (budget : Nat) : Prop :=
  forall t s, Closes w s (diagWalk w budget t s) ∧
    ((diagWalk w budget t s).complete = true -> Covered (diagWalk w budget t s) t)

def clauseStep (w : Workspace) (budget : Nat) (s : DiagState)
    (clause : Option ResolvedType) : DiagState :=
  match clause with
  | some sup => diagWalk w budget sup s
  | none => s.giveUp

theorem clauses_close {budget : Nat} (hwalk : WalkCloses w budget)
    (clauses : List (Option ResolvedType)) (s : DiagState) :
    Closes w s (clauses.foldl (clauseStep w budget) s) ∧
      ((clauses.foldl (clauseStep w budget) s).complete = true ->
        forall clause, clause ∈ clauses -> exists sup, clause = some sup ∧
          Covered (clauses.foldl (clauseStep w budget) s) sup) := by
  apply foldl_closes
    (P := fun clause s => exists sup, clause = some sup ∧ Covered s sup)
  · rintro clause s s' hgrows ⟨sup, heq, hcovered⟩
    exact ⟨sup, heq, covered_mono hgrows hcovered⟩
  · intro s clause
    cases clause with
    | none =>
      constructor
      · exact closes_giveUp s
      · intro hcomplete
        cases hcomplete
    | some sup =>
      constructor
      · exact (hwalk sup s).left
      · intro hcomplete
        exact ⟨sup, rfl, (hwalk sup s).right hcomplete⟩

theorem explored_node {node : Nat}
    (hclauses : forall clause, clause ∈ w.resolvedClauses node ->
      exists sup, clause = some sup ∧ Covered s sup)
    (hnames : contributedNames w (.inProject node []) ⊆ s.names)
    (henum : (w.decl node).kind = .enum -> Covered s enumType) :
    Explored w s (.inProject node []) where
  known := by
    intro clause hclause
    rcases hclauses clause hclause with ⟨sup, heq, _⟩
    rw [heq]
    rfl
  names := hnames
  successors := by
    intro u hu
    rcases List.mem_append.mp hu with hclause | himplicit
    · rcases List.mem_filterMap.mp hclause with ⟨clause, hmem, heq⟩
      rcases hclauses clause hmem with ⟨sup, hsup, hcovered⟩
      rw [hsup] at heq
      cases heq
      exact hcovered
    · split at himplicit
      · rename_i hkind
        rw [List.mem_singleton.mp himplicit]
        exact henum hkind
      · cases himplicit

theorem diagWalk_node_closes {budget : Nat} (hwalk : WalkCloses w budget)
    (node : Nat) (args : List TypeRef) (s : DiagState) :
    Closes w s (diagWalk w (budget + 1) (.inProject node args) s) ∧
      Covered (diagWalk w (budget + 1) (.inProject node args) s)
        (.inProject node args) := by
  by_cases hvisited : node ∈ s.visitedNode
  · have heq : diagWalk w (budget + 1) (.inProject node args) s = s := by
      simp [diagWalk, hvisited]
    rw [heq]
    exact ⟨closes_refl s, hvisited⟩
  · let start := DiagState.addNames { s with visitedNode := node :: s.visitedNode }
      ((w.decl node).ownMembers.map Member.name)
    let inherited := (w.resolvedClauses node).foldl (clauseStep w budget) start
    have hclauses := clauses_close hwalk (w.resolvedClauses node) start
    have hstart : node ∈ start.visitedNode := List.mem_cons_self
    by_cases hkind : (w.decl node).kind = .enum
    · let walked := diagWalk w budget enumType inherited
      let synthetic :=
        (enumSyntheticMembers (w.decl node).name).map ExternalMember.name
      have heq : diagWalk w (budget + 1) (.inProject node args) s =
          walked.addNames synthetic := by
        simp only [diagWalk, hvisited, hkind, if_false, if_true]
        rfl
      rw [heq]
      have henum := hwalk enumType inherited
      have hlast : Closes w walked (walked.addNames synthetic) :=
        closes_addNames walked synthetic
      have hrest : Closes w start (walked.addNames synthetic) :=
        (hclauses.left.trans henum.left).trans hlast
      constructor
      · apply closes_visitNode hrest
        intro hcomplete
        apply explored_node
        · intro clause hclause
          rcases hclauses.right (henum.left.complete (hlast.complete hcomplete))
            clause hclause with ⟨sup, hsup, hcovered⟩
          exact ⟨sup, hsup,
            covered_mono (henum.left.trans hlast).toGrows hcovered⟩
        · intro name hname
          simp only [contributedNames, hkind, if_true] at hname
          rcases List.mem_append.mp hname with hown | hsynthetic
          · exact hrest.names (List.mem_append_left _ hown)
          · exact List.mem_append_left _ hsynthetic
        · intro _hkind
          exact covered_mono hlast.toGrows (henum.right (hlast.complete hcomplete))
      · exact hrest.visitedNode hstart
    · have heq : diagWalk w (budget + 1) (.inProject node args) s = inherited := by
        simp only [diagWalk, hvisited, hkind, if_false]
        rfl
      rw [heq]
      constructor
      · apply closes_visitNode hclauses.left
        intro hcomplete
        apply explored_node (hclauses.right hcomplete)
        · intro name hname
          simp only [contributedNames, hkind, if_false, List.append_nil] at hname
          exact hclauses.left.names (List.mem_append_left _ hname)
        · intro henum
          exact absurd henum hkind
      · exact hclauses.left.visitedNode hstart

theorem diagWalk_fqn_closes {budget : Nat} (hwalk : WalkCloses w budget)
    (fqn : String) (args : List TypeRef) (s : DiagState) :
    Closes w s (diagWalk w (budget + 1) (.external fqn args) s) ∧
      Covered (diagWalk w (budget + 1) (.external fqn args) s)
        (.external fqn args) := by
  by_cases hvisited : fqn ∈ s.visitedFqn
  · have heq : diagWalk w (budget + 1) (.external fqn args) s = s := by
      simp [diagWalk, hvisited]
    rw [heq]
    exact ⟨closes_refl s, hvisited⟩
  · cases hclass : w.classOf fqn with
    | none =>
      have heq : diagWalk w (budget + 1) (.external fqn args) s =
          DiagState.giveUp { s with visitedFqn := fqn :: s.visitedFqn } := by
        simp [diagWalk, hvisited, hclass]
      rw [heq]
      constructor
      · constructor
        · exact ⟨fun _ h => h, fun _ h => h,
            fun _ h => List.mem_cons_of_mem fqn h, fun h => by cases h⟩
        · intro hcomplete
          cases hcomplete
        · intro hcomplete
          cases hcomplete
      · exact List.mem_cons_self
    | some c =>
      let start := DiagState.addNames
        { s with visitedFqn := fqn :: s.visitedFqn } (externalNames c)
      have heq : diagWalk w (budget + 1) (.external fqn args) s =
          c.supers.foldl
            (fun s sup => diagWalk w budget (.external sup []) s) start := by
        simp only [diagWalk, hvisited, hclass, if_false]
        rfl
      rw [heq]
      have hsupers := foldl_closes
        (P := fun sup s => Covered s (.external sup []))
        (fun _ _ _ hgrows hcovered => covered_mono hgrows hcovered)
        (fun s sup => hwalk (.external sup []) s) c.supers start
      constructor
      · apply closes_visitFqn hsupers.left
        intro hcomplete
        constructor
        · show (w.classOf fqn).isSome
          rw [hclass]
          rfl
        · intro name hname
          simp only [contributedNames, hclass] at hname
          exact hsupers.left.names (List.mem_append_left _ hname)
        · intro u hu
          simp only [successors, hclass] at hu
          rcases List.mem_map.mp hu with ⟨sup, hsup, hu⟩
          rw [← hu]
          exact hsupers.right hcomplete sup hsup
      · exact hsupers.left.visitedFqn List.mem_cons_self

theorem diagWalk_closes (w : Workspace) (budget : Nat) : WalkCloses w budget := by
  induction budget with
  | zero =>
    intro t s
    constructor
    · exact closes_giveUp s
    · intro hcomplete
      cases hcomplete
  | succ budget ih =>
    intro t s
    cases t with
    | inProject node args =>
      rcases diagWalk_node_closes ih node args s with ⟨hcloses, hcovered⟩
      exact ⟨hcloses, fun _ => hcovered⟩
    | external fqn args =>
      rcases diagWalk_fqn_closes ih fqn args s with ⟨hcloses, hcovered⟩
      exact ⟨hcloses, fun _ => hcovered⟩
    | array element =>
      constructor
      · exact closes_addNames s _
      · intro _hcomplete
        constructor
        · exact List.mem_append_left _ List.mem_cons_self
        · exact List.mem_append_left _
            (List.mem_cons_of_mem _ List.mem_cons_self)
    | _ => exact ⟨closes_refl s, fun _ => trivial⟩

/-!
# Everything reachable is explored
-/

def Reachable (w : Workspace) : ResolvedType -> ResolvedType -> Prop :=
  Relation.ReflTransGen (fun t u => u ∈ successors w t)

def finalState (w : Workspace) (receiver : ResolvedType) : DiagState :=
  diagWalk w (maxResolveDepth + 1) receiver DiagState.empty

theorem explored_of_covered {receiver t : ResolvedType}
    (hcomplete : (finalState w receiver).complete = true)
    (hcovered : Covered (finalState w receiver) t) :
    Explored w (finalState w receiver) t := by
  have hcloses := (diagWalk_closes w (maxResolveDepth + 1) receiver
    DiagState.empty).left
  cases t with
  | inProject node args =>
    rcases hcloses.nodes hcomplete node hcovered with hold | hexplored
    · cases hold
    · exact ⟨hexplored.known, hexplored.names, hexplored.successors⟩
  | external fqn args =>
    rcases hcloses.fqns hcomplete fqn hcovered with hold | hexplored
    · cases hold
    · exact ⟨hexplored.known, hexplored.names, hexplored.successors⟩
  | array element =>
    refine ⟨trivial, ?_, ?_⟩
    · intro name hname
      simp only [contributedNames, List.mem_cons, List.not_mem_nil,
        or_false] at hname
      rcases hname with hname | hname
      · rw [hname]
        exact hcovered.left
      · rw [hname]
        exact hcovered.right
    · intro u hu
      cases hu
  | _ =>
    refine ⟨trivial, ?_, ?_⟩
    · intro name hname
      cases hname
    · intro u hu
      cases hu

theorem covered_of_reachable {receiver t : ResolvedType}
    (hcomplete : (finalState w receiver).complete = true)
    (h : Reachable w receiver t) : Covered (finalState w receiver) t := by
  induction h with
  | refl =>
    exact (diagWalk_closes w (maxResolveDepth + 1) receiver
      DiagState.empty).right hcomplete
  | tail _ hstep ih =>
    exact (explored_of_covered hcomplete ih).successors _ hstep

theorem explored_of_reachable {receiver t : ResolvedType}
    (hcomplete : (finalState w receiver).complete = true)
    (h : Reachable w receiver t) : Explored w (finalState w receiver) t :=
  explored_of_covered hcomplete (covered_of_reachable hcomplete h)

theorem finalState_of_memberNames {receiver : ResolvedType}
    (h : (memberNames w receiver).2 = true) :
    (finalState w receiver).complete = true ∧
      (finalState w receiver).names ⊆ (memberNames w receiver).1 := by
  unfold memberNames at h ⊢
  split at h
  · exact ⟨h, fun _ hname => hname⟩
  · exact ⟨h, fun _ hname => hname⟩
  · exact ⟨h, fun _ hname => hname⟩
  · split at h
    · rename_i object _hobject
      exact ⟨h, fun _ hname => List.mem_append_right _ hname⟩
    · cases h

/-!
# Declared clauses
-/

namespace Workspace

/-- The class a resolved type is of. -/
def classId (w : Workspace) : ResolvedType -> Option TypeId
  | .inProject node _ =>
    match (w.decl node).binaryName with
    | some binary => some (.named binary)
    | none => some (.localClass (w.decl node).doc node)
  | .external fqn _ => some (.named fqn)
  | _ => none

end Workspace

/--
The class that a clause written in a declaration names in the language, with its
qualifier and whether or not the program knows the class.
-/
abbrev ClauseMeaning := Option TypeId -> TypeNode -> Option TypeId

/--
The clauses of a type: the class each names, and what it is resolved to.  A
class file has the binary names of its supertypes.
-/
def declaredClauses (w : Workspace) (names : ClauseMeaning) (t : ResolvedType) :
    List (Option TypeId × Option ResolvedType) :=
  match t with
  | .inProject node _ =>
    ((w.decl node).superNodes.map (names (w.classId t))).zip
      (w.resolvedClauses node)
  | .external fqn _ =>
    match w.sources fqn with
    | some (.closed imports td) =>
      td.superNodes.map (fun clause =>
        (names (w.classId t) clause,
          (superFqn w.known imports clause).map (fun sup => .external sup [])))
    | some (.compiled c) =>
      c.supers.map (fun sup => (some (.named sup), some (.external sup [])))
    | none => []
  | _ => []

/--
Every declaration found from the receiver is read, and each of its clauses was
resolved to the class it names and walked.
-/
def FlagSound (w : Workspace) (names : ClauseMeaning) (receiver : ResolvedType) :
    Prop :=
  (memberNames w receiver).2 = true ->
    forall t, Reachable w receiver t ->
      Known w t ∧ contributedNames w t ⊆ (memberNames w receiver).1 ∧
        forall named placed, (named, placed) ∈ declaredClauses w names t ->
          exists sup, placed = some sup ∧ sup ∈ successors w t ∧
            exists id, named = some id ∧ w.classId sup = some id

/--
The clauses found from the receiver are placed at the classes they name.  For a
closed source that is the first class known among the import candidates of the
simple name, for an open document what the clause resolves to, if it does.
-/
structure ClausesPlaced (w : Workspace) (names : ClauseMeaning)
    (receiver : ResolvedType) : Prop where
  closed : forall fqn args imports td, Reachable w receiver (.external fqn args) ->
    w.sources fqn = some (.closed imports td) ->
    forall clause, clause ∈ td.superNodes ->
      exists sup, superFqn w.known imports clause = some sup ∧
        names (some (.named fqn)) clause = some (.named sup)
  opened : forall node args, Reachable w receiver (.inProject node args) ->
    w.hasDocument (w.decl node).doc = true ->
    forall clause, clause ∈ (w.decl node).superNodes ->
    forall sup, w.resolveTypeNode node clause = some sup ->
      exists id, names (w.classId (.inProject node args)) clause = some id ∧
        w.classId sup = some id

theorem declaredClauses_opened {names : ClauseMeaning} {node : Nat}
    {args : List TypeRef} :
    declaredClauses w names (.inProject node args) =
      (w.decl node).superNodes.map (fun clause =>
        (names (w.classId (.inProject node args)) clause,
          if w.hasDocument (w.decl node).doc then w.resolveTypeNode node clause
          else none)) := by
  simp only [declaredClauses, Workspace.resolvedClauses, List.zip_map']

theorem mem_loweredSupers {known : String -> Bool} {imports : Imports}
    {td : TypeDecl} {clause : TypeNode} {sup : String}
    (hclause : clause ∈ td.superNodes)
    (hsup : superFqn known imports clause = some sup) :
    sup ∈ loweredSupers known imports td := by
  have hmem : sup ∈ td.superNodes.filterMap (superFqn known imports) :=
    List.mem_filterMap.mpr ⟨clause, hclause, hsup⟩
  unfold loweredSupers
  simp only
  split
  · exact List.mem_cons_of_mem _ hmem
  · split
    · rename_i hempty
      rw [List.isEmpty_iff.mp hempty] at hmem
      cases hmem
    · exact hmem

theorem clause_walked {names : ClauseMeaning} {receiver t : ResolvedType}
    (hplaced : ClausesPlaced w names receiver) (hreachable : Reachable w receiver t)
    (hknown : Known w t) {named : Option TypeId} {placed : Option ResolvedType}
    (hclause : (named, placed) ∈ declaredClauses w names t) :
    exists sup, placed = some sup ∧ sup ∈ successors w t ∧
      exists id, named = some id ∧ w.classId sup = some id := by
  cases t with
  | inProject node args =>
    rw [declaredClauses_opened] at hclause
    rcases List.mem_map.mp hclause with ⟨clause, hmem, heq⟩
    rcases Prod.mk.inj heq with ⟨rfl, rfl⟩
    have hresolved := List.mem_map_of_mem (f := fun clause =>
      if w.hasDocument (w.decl node).doc then w.resolveTypeNode node clause
      else none) hmem
    rcases Option.isSome_iff_exists.mp (hknown _ hresolved) with ⟨sup, hsup⟩
    refine ⟨sup, hsup, List.mem_append_left _ ?_, ?_⟩
    · exact List.mem_filterMap.mpr ⟨_, hresolved, hsup⟩
    · split at hsup
      · rename_i hdocument
        exact hplaced.opened node args hreachable hdocument clause hmem sup hsup
      · cases hsup
  | external fqn args =>
    simp only [declaredClauses] at hclause
    cases hsource : w.sources fqn with
    | none =>
      rw [hsource] at hclause
      cases hclause
    | some source =>
      rw [hsource] at hclause
      cases source with
      | closed imports td =>
        rcases List.mem_map.mp hclause with ⟨node, hnode, heq⟩
        rcases Prod.mk.inj heq with ⟨rfl, rfl⟩
        rcases hplaced.closed fqn args imports td hreachable hsource node hnode with
          ⟨sup, hsup, hnamed⟩
        refine ⟨.external sup [], by rw [hsup]; rfl, ?_, .named sup, hnamed, rfl⟩
        simp only [successors, Workspace.classOf, hsource, Option.map_some]
        exact List.mem_map.mpr ⟨sup, mem_loweredSupers hnode hsup, rfl⟩
      | compiled c =>
        rcases List.mem_map.mp hclause with ⟨sup, hsup, heq⟩
        rcases Prod.mk.inj heq with ⟨rfl, rfl⟩
        refine ⟨.external sup [], rfl, ?_, .named sup, rfl, rfl⟩
        simp only [successors, Workspace.classOf, hsource, Option.map_some]
        exact List.mem_map.mpr ⟨sup, hsup, rfl⟩
  | _ => cases hclause

theorem clausesPlaced_of_walked {names : ClauseMeaning} {receiver : ResolvedType}
    (hwalked : forall t, Reachable w receiver t ->
      forall named placed, (named, placed) ∈ declaredClauses w names t ->
        exists sup, placed = some sup ∧ sup ∈ successors w t ∧
          exists id, named = some id ∧ w.classId sup = some id) :
    ClausesPlaced w names receiver := by
  constructor
  · intro fqn args imports td hreachable hsource clause hclause
    have hmem : (names (some (.named fqn)) clause,
        (superFqn w.known imports clause).map
          (fun sup => ResolvedType.external sup [])) ∈
          declaredClauses w names (.external fqn args) := by
      simp only [declaredClauses, hsource]
      exact List.mem_map.mpr ⟨clause, hclause, rfl⟩
    rcases hwalked _ hreachable _ _ hmem with ⟨_, hsup, _, id, hnamed, hid⟩
    rcases Option.map_eq_some_iff.mp hsup with ⟨sup, hplaced, rfl⟩
    refine ⟨sup, hplaced, ?_⟩
    rw [hnamed, ← hid]
    rfl
  · intro node args hreachable hdocument clause hclause sup hsup
    have hmem : (names (w.classId (.inProject node args)) clause, some sup) ∈
        declaredClauses w names (.inProject node args) := by
      rw [declaredClauses_opened]
      refine List.mem_map.mpr ⟨clause, hclause, ?_⟩
      rw [if_pos hdocument, hsup]
    rcases hwalked _ hreachable _ _ hmem with ⟨sup', heq, _, id, hnamed, hid⟩
    cases heq
    exact ⟨id, hnamed, hid⟩

/--
The flag keeps its promise as long as the clauses on the way are placed at the
classes they name, and only then when the flag is set.
-/
theorem flag_sound_unless_dropped (w : Workspace) (names : ClauseMeaning)
    (receiver : ResolvedType) :
    (ClausesPlaced w names receiver -> FlagSound w names receiver) ∧
      ((memberNames w receiver).2 = true -> FlagSound w names receiver ->
        ClausesPlaced w names receiver) := by
  constructor
  · intro hplaced hflag t hreachable
    rcases finalState_of_memberNames hflag with ⟨hcomplete, hnames⟩
    have hexplored := explored_of_reachable hcomplete hreachable
    refine ⟨hexplored.known, fun _ hname => hnames (hexplored.names hname), ?_⟩
    intro named placed hclause
    exact clause_walked hplaced hreachable hexplored.known hclause
  · intro hflag hsound
    apply clausesPlaced_of_walked
    intro t hreachable
    exact (hsound hflag t hreachable).right.right

namespace MissingJar

def demoImports : Imports := ⟨some "demo", [], []⟩

def object : ExternalClass := ⟨[], [], none⟩

/-- The class `B` of the project has one `extends` clause. -/
def workspace (clauseOfB : TypeNode) : Workspace :=
  Workspace.closedOnly
    (fun fqn => fqn ∈ ["java.lang.Object", "demo.A", "demo.B"])
    (fun fqn =>
      if fqn = "java.lang.Object" then some (.compiled object)
      else if fqn = "demo.A" then
        some (.closed demoImports (TypeDecl.plain "A" "demo.A" []))
      else if fqn = "demo.B" then
        some (.closed demoImports (TypeDecl.plain "B" "demo.B" [clauseOfB]))
      else none)

/-- Simple names are of the package `demo`, qualified ones are written in full. -/
def names : ClauseMeaning
  | _, .name simple => some (.named ("demo." ++ simple))
  | _, .scoped qualifier simple => some (.named (TypeNode.dotted qualifier simple))
  | _, _ => none

def receiver : ResolvedType := .external "demo.B" []

/-- The jar that has `Missing` or `lib.A` is not there; `lib.A` is taken for `demo.A`. -/
theorem dropped_clause_flagged :
    ¬ FlagSound (workspace (.name "Missing")) names receiver ∧
      ¬ FlagSound (workspace (.scoped ["lib"] "A")) names receiver := by
  constructor
  · intro hsound
    have hflag : (memberNames (workspace (.name "Missing")) receiver).2 = true := rfl
    rcases hsound hflag receiver Relation.ReflTransGen.refl with
      ⟨_hknown, _hnames, hclauses⟩
    rcases hclauses (some (.named "demo.Missing")) none (by decide) with
      ⟨sup, hsup, _⟩
    cases hsup
  · intro hsound
    have hflag :
        (memberNames (workspace (.scoped ["lib"] "A")) receiver).2 = true := rfl
    rcases hsound hflag receiver Relation.ReflTransGen.refl with
      ⟨_hknown, _hnames, hclauses⟩
    rcases hclauses (some (.named "lib.A")) (some (.external "demo.A" []))
      (by decide) with ⟨sup, hsup, _hwalked, id, hnamed, hid⟩
    cases hsup
    cases hid
    exact absurd hnamed (by decide)

theorem reachable_from_receiver {t : ResolvedType}
    (h : Reachable (workspace (.name "A")) receiver t) :
    t ∈ [receiver, .external "demo.A" [], objectType] := by
  induction h with
  | refl => exact List.mem_cons_self
  | tail _ hstep ih =>
    simp only [List.mem_cons, List.not_mem_nil, or_false] at ih
    rcases ih with heq | heq | heq
    · subst heq
      rw [show successors (workspace (.name "A")) receiver =
        [.external "demo.A" []] by decide] at hstep
      rw [List.mem_singleton.mp hstep]
      decide
    · subst heq
      rw [show successors (workspace (.name "A")) (.external "demo.A" []) =
        [objectType] from rfl] at hstep
      rw [List.mem_singleton.mp hstep]
      decide
    · subst heq
      rw [show successors (workspace (.name "A")) objectType = [] from rfl] at hstep
      cases hstep

/-- `class B extends A` with both files in the project. -/
theorem placed_clause_flagged :
    (memberNames (workspace (.name "A")) receiver).2 = true ∧
      FlagSound (workspace (.name "A")) names receiver := by
  constructor
  · decide
  · apply (flag_sound_unless_dropped (workspace (.name "A")) names receiver).left
    constructor
    · intro fqn args imports td hreachable hsource clause hclause
      have hmem := reachable_from_receiver hreachable
      simp only [List.mem_cons, List.not_mem_nil, or_false] at hmem
      rcases hmem with heq | heq | heq
      · cases heq
        cases hsource
        rw [List.mem_singleton.mp hclause]
        exact ⟨"demo.A", by decide, by decide⟩
      · cases heq
        cases hsource
        cases hclause
      · cases heq
        cases hsource
    · intro node args _hreachable hdocument
      cases hdocument

end MissingJar

end JavaVsixLite
