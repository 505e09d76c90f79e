import JavaVsixLite.Members.Completeness

/-!
# The two walks compared

The collecting walk follows structured supertypes and adds what Lombok
generates, the diagnostic walk follows erased names and reads declarations only.
A name that only the collecting walk reads drifts, unless a class that the
diagnostic walk reads has a member of that name too.
-/

namespace JavaVsixLite

def HierMember.signature : HierMember -> String
  | .inProject m => m.signature
  | .external m => m.signature

/-!
# Types that a walk has been at
-/

namespace MemberAcc

def visit (acc : MemberAcc) : ResolvedType -> MemberAcc
  | .inProject node _ => { acc with visitedNode := node :: acc.visitedNode }
  | .external fqn _ => { acc with visitedFqn := fqn :: acc.visitedFqn }
  | _ => acc

def Visited (acc : MemberAcc) : ResolvedType -> Prop
  | .inProject node _ => node ∈ acc.visitedNode
  | .external fqn _ => fqn ∈ acc.visitedFqn
  | _ => False

def pushAll (acc : MemberAcc) (ms : List HierMember) : MemberAcc :=
  ms.foldl (fun acc m => acc.push m.signature m) acc

end MemberAcc

namespace DiagState

def visit (s : DiagState) : ResolvedType -> DiagState
  | .inProject node _ => { s with visitedNode := node :: s.visitedNode }
  | .external fqn _ => { s with visitedFqn := fqn :: s.visitedFqn }
  | _ => s

def Visited (s : DiagState) : ResolvedType -> Prop
  | .inProject node _ => node ∈ s.visitedNode
  | .external fqn _ => fqn ∈ s.visitedFqn
  | _ => False

end DiagState

namespace Members

/-!
# What the collecting walk reads at a type
-/

def walkSuccessors (w : Workspace) : ResolvedType -> List ResolvedType
  | .inProject node _ =>
    (w.resolvedClauses node).filterMap id ++
      if (w.decl node).kind = .enum then [enumType] else []
  | .array _ => [objectType]
  | .external fqn args =>
    match w.classOf fqn with
    | some c => externalSupertypes w c args
    | none => []
  | _ => []

/-- The members offered before the supertypes are followed. -/
def offeredFirst (w : Workspace) (staticOnly : Bool) :
    ResolvedType -> List HierMember
  | .inProject node _ =>
    (offeredMembers staticOnly (w.decl node)).map .inProject ++
      (offeredLombok w.toUppercase staticOnly (w.decl node)).map .external
  | .external fqn _ =>
    match w.classOf fqn with
    | some c => (offeredExternal staticOnly c).map .external
    | none => []
  | .array element =>
    if staticOnly then []
    else (arrayMembers (element.render ++ "[]")).map .external
  | _ => []

def offeredLast (w : Workspace) : ResolvedType -> List HierMember
  | .inProject node _ =>
    if (w.decl node).kind = .enum then
      (enumSyntheticMembers (w.decl node).name).map .external
    else []
  | _ => []

def offered (w : Workspace) (t : ResolvedType) : List HierMember :=
  offeredFirst w false t ++ offeredLast w t

variable {w : Workspace}

theorem foldl_pushExternal (ms : List ExternalMember) (acc : MemberAcc) :
    ms.foldl pushExternal acc = acc.pushAll (ms.map .external) := by
  simp only [MemberAcc.pushAll, List.foldl_map]
  rfl

theorem offeredFirst_subset (staticOnly : Bool) (t : ResolvedType) :
    offeredFirst w staticOnly t ⊆ offeredFirst w false t := by
  intro m hm
  cases staticOnly with
  | false => exact hm
  | true =>
    cases t with
    | inProject node args =>
      simp only [offeredFirst, offeredMembers, offeredLombok, List.mem_append,
        List.mem_map, List.mem_filter] at hm ⊢
      grind
    | external fqn args =>
      simp only [offeredFirst] at hm ⊢
      split at hm
      · simp only [offeredExternal, List.mem_map, List.mem_filter] at hm ⊢
        grind
      · cases hm
    | _ => cases hm

theorem walkMembers_visited {staticOnly : Bool} {budget : Nat} {t : ResolvedType}
    {acc : MemberAcc} (h : acc.Visited t) :
    walkMembers w staticOnly (budget + 1) t acc = acc := by
  cases t with
  | inProject node args => simp only [walkMembers, if_pos (show node ∈ _ from h)]
  | external fqn args => simp only [walkMembers, if_pos (show fqn ∈ _ from h)]
  | _ => cases h

/-- One step of the walk at a type that was not met before. -/
theorem walkMembers_step {staticOnly : Bool} {budget : Nat} {t : ResolvedType}
    {acc : MemberAcc} (h : ¬ acc.Visited t) :
    walkMembers w staticOnly (budget + 1) t acc =
      ((walkSuccessors w t).foldl
        (fun acc sup => walkMembers w staticOnly budget sup acc)
        ((acc.visit t).pushAll (offeredFirst w staticOnly t))).pushAll
          (offeredLast w t) := by
  cases t with
  | inProject node args =>
    have hnew : ¬ node ∈ acc.visitedNode := h
    simp only [walkMembers, if_neg hnew, foldl_pushExternal, walkSuccessors,
      offeredFirst, offeredLast, MemberAcc.visit, MemberAcc.pushAll,
      List.foldl_append, List.foldl_map]
    split <;> rfl
  | external fqn args =>
    have hnew : ¬ fqn ∈ acc.visitedFqn := h
    simp only [walkMembers, if_neg hnew, foldl_pushExternal, walkSuccessors,
      offeredFirst, offeredLast, MemberAcc.visit]
    cases w.classOf fqn <;> rfl
  | array element =>
    simp only [walkMembers, foldl_pushExternal, walkSuccessors, offeredFirst,
      offeredLast, MemberAcc.visit]
    split <;> rfl
  | _ => rfl

/-!
# What every step of the walk keeps
-/

theorem inv_foldl {σ α : Type} (Inv : σ -> Prop) {step : σ -> α -> σ} {xs : List α}
    (hstep : forall s x, x ∈ xs -> Inv s -> Inv (step s x)) {s : σ} (hs : Inv s) :
    Inv (xs.foldl step s) := by
  induction xs generalizing s with
  | nil => exact hs
  | cons x rest ih =>
    apply ih
    · intro s' y hy
      exact hstep s' y (List.mem_cons_of_mem x hy)
    · exact hstep s x List.mem_cons_self hs

/-- `good` types lead to good ones, and what is offered there keeps `Inv`. -/
structure KeptByWalk (w : Workspace) (good : ResolvedType -> Prop)
    (Inv : MemberAcc -> Prop) : Prop where
  push : forall acc t m, good t -> m ∈ offered w t -> Inv acc ->
    Inv (acc.push m.signature m)
  visit : forall acc t, Inv acc -> Inv (acc.visit t)
  successors : forall t, good t -> forall u, u ∈ walkSuccessors w t -> good u

theorem walkMembers_kept {good : ResolvedType -> Prop} {Inv : MemberAcc -> Prop}
    (hkept : KeptByWalk w good Inv) (staticOnly : Bool) (budget : Nat)
    (t : ResolvedType) (acc : MemberAcc) (ht : good t) (hacc : Inv acc) :
    Inv (walkMembers w staticOnly budget t acc) := by
  induction budget generalizing t acc with
  | zero => exact hacc
  | succ budget ih =>
    by_cases hvisited : acc.Visited t
    · rw [walkMembers_visited hvisited]
      exact hacc
    · rw [walkMembers_step hvisited]
      have hfirst : Inv ((acc.visit t).pushAll (offeredFirst w staticOnly t)) := by
        apply inv_foldl _ ?_ (hkept.visit acc t hacc)
        intro acc' m hm hacc'
        have hoffered : m ∈ offered w t :=
          List.mem_append_left _ (offeredFirst_subset staticOnly t hm)
        exact hkept.push acc' t m ht hoffered hacc'
      have hinherited : Inv ((walkSuccessors w t).foldl
          (fun acc sup => walkMembers w staticOnly budget sup acc)
          ((acc.visit t).pushAll (offeredFirst w staticOnly t))) := by
        apply inv_foldl _ ?_ hfirst
        intro acc' u hu hacc'
        exact ih u acc' (hkept.successors t ht u hu) hacc'
      apply inv_foldl _ ?_ hinherited
      intro acc' m hm hacc'
      exact hkept.push acc' t m ht (List.mem_append_right _ hm) hacc'

def AllOut (P : HierMember -> Prop) (acc : MemberAcc) : Prop :=
  forall m, m ∈ acc.out -> P m

theorem allOut_push {P : HierMember -> Prop} {acc : MemberAcc} {m : HierMember}
    (hacc : AllOut P acc) (hm : P m) : AllOut P (acc.push m.signature m) := by
  unfold MemberAcc.push
  split
  · exact hacc
  · intro m' hm'
    rcases List.mem_append.mp hm' with hold | hnew
    · exact hacc m' hold
    · rw [List.mem_singleton.mp hnew]
      exact hm

theorem allOut_visit {P : HierMember -> Prop} {acc : MemberAcc} (t : ResolvedType)
    (hacc : AllOut P acc) : AllOut P (acc.visit t) := by
  cases t <;> exact hacc

def WalkReachable (w : Workspace) : ResolvedType -> ResolvedType -> Prop :=
  Relation.ReflTransGen (fun t u => u ∈ walkSuccessors w t)

/-- Only what a type on the way up offers is collected. -/
theorem offered_of_collected {staticOnly : Bool} {receiver : ResolvedType}
    {m : HierMember} (hm : m ∈ collectMembers w staticOnly receiver) :
    exists t, WalkReachable w receiver t ∧ m ∈ offered w t := by
  have hkept : KeptByWalk w (WalkReachable w receiver)
      (AllOut (fun m => exists t, WalkReachable w receiver t ∧ m ∈ offered w t)) := by
    constructor
    · intro acc t m ht hm hacc
      exact allOut_push hacc ⟨t, ht, hm⟩
    · intro acc t hacc
      exact allOut_visit t hacc
    · intro t ht u hu
      exact ht.tail hu
  have hempty : AllOut (fun m => exists t, WalkReachable w receiver t ∧
      m ∈ offered w t) MemberAcc.empty := by
    intro m hm
    cases hm
  exact walkMembers_kept hkept staticOnly (maxResolveDepth + 1) receiver
    MemberAcc.empty .refl hempty m hm

/-!
# Names that drift
-/

/-- Nothing that is collected is missing from the diagnostic names. -/
def MembersNamed (w : Workspace) (receiver : ResolvedType) : Prop :=
  (memberNames w receiver).2 = true ->
    forall staticOnly m, m ∈ collectMembers w staticOnly receiver ->
      m.name ∈ (memberNames w receiver).1

def IsReference : ResolvedType -> Prop
  | .primitive _ => False
  | .void => False
  | .null => False
  | _ => True

/-- A class that the diagnostic walk leads to has a member of the name. -/
def Named (w : Workspace) (receiver : ResolvedType) (name : String) : Prop :=
  (exists t, Reachable w receiver t ∧ name ∈ contributedNames w t) ∨
    (IsReference receiver ∧ exists object, w.classOf "java.lang.Object" = some object ∧
      name ∈ object.members.map ExternalMember.name)

/-- Some type on the way up is not known, or `java.lang.Object` is not. -/
def Unread (w : Workspace) (receiver : ResolvedType) : Prop :=
  (exists t, Reachable w receiver t ∧ ¬ Known w t) ∨
    (IsReference receiver ∧ w.classOf "java.lang.Object" = none)

def SamePlace : ResolvedType -> ResolvedType -> Prop
  | .inProject node _, .inProject node' _ => node = node'
  | .external fqn _, .external fqn' _ => fqn = fqn'
  | t, t' => t = t'

/--
What the collecting walk alone reads: the members that Lombok generates, and the
types that only the structured supertypes lead to.
-/
structure DriftNamed (w : Workspace) (receiver : ResolvedType) : Prop where
  generated : forall node args, WalkReachable w receiver (.inProject node args) ->
    forall m, m ∈ lombokMembers w.toUppercase (w.decl node) ->
      Named w receiver m.name
  structured : forall t, WalkReachable w receiver t ->
    (forall s, Reachable w receiver s -> ¬ SamePlace t s) ->
    forall m, m ∈ offered w t -> Named w receiver m.name

theorem known_of_flag {receiver : ResolvedType}
    (hflag : (memberNames w receiver).2 = true) : ¬ Unread w receiver := by
  rintro (⟨t, hreachable, hunknown⟩ | ⟨hreference, hobject⟩)
  · exact hunknown
      (explored_of_reachable (finalState_of_memberNames hflag).left hreachable).known
  · cases receiver with
    | inProject node args | external fqn args | array element =>
      simp [memberNames, hobject] at hflag
    | _ => exact hreference

theorem named_in_memberNames {receiver : ResolvedType} {name : String}
    (hflag : (memberNames w receiver).2 = true) (hnamed : Named w receiver name) :
    name ∈ (memberNames w receiver).1 := by
  rcases hnamed with ⟨t, hreachable, hname⟩ | ⟨hreference, object, hobject, hname⟩
  · rcases finalState_of_memberNames hflag with ⟨hcomplete, hnames⟩
    exact hnames ((explored_of_reachable hcomplete hreachable).names hname)
  · cases receiver with
    | inProject node args | external fqn args | array element =>
      simp only [memberNames, hobject]
      exact List.mem_append_left _ hname
    | _ => cases hreference

/-- A type that both walks read offers Lombok's members and those both name. -/
theorem offered_of_samePlace {t s : ResolvedType} {m : HierMember}
    (hsame : SamePlace t s) (hm : m ∈ offered w t) :
    m.name ∈ contributedNames w s ∨ exists node args, t = .inProject node args ∧
      exists m', m' ∈ lombokMembers w.toUppercase (w.decl node) ∧
        m'.name = m.name := by
  cases t with
  | inProject node args =>
    cases s with
    | inProject node' args' =>
      cases hsame
      simp only [offered, offeredFirst, offeredLast, offeredMembers, offeredLombok,
        List.mem_append, List.mem_map, List.mem_filter] at hm
      rcases hm with (⟨own, hown, rfl⟩ | ⟨m', hm', rfl⟩) | hm
      · exact .inl (List.mem_append_left _ (List.mem_map.mpr ⟨own, hown.left, rfl⟩))
      · exact .inr ⟨node, args, rfl, m', hm'.left, rfl⟩
      · split at hm
        · rename_i hkind
          rcases List.mem_map.mp hm with ⟨m', hm', rfl⟩
          refine .inl (List.mem_append_right _ ?_)
          rw [if_pos hkind]
          exact List.mem_map.mpr ⟨m', hm', rfl⟩
        · cases hm
    | _ => cases hsame
  | external fqn args =>
    cases s with
    | external fqn' args' =>
      cases hsame
      simp only [offered, offeredFirst, offeredLast, List.append_nil] at hm
      simp only [contributedNames]
      cases hclass : w.classOf fqn with
      | none =>
        rw [hclass] at hm
        cases hm
      | some c =>
        rw [hclass] at hm
        rcases List.mem_map.mp hm with ⟨m', hm', rfl⟩
        rcases List.mem_filter.mp hm' with ⟨hmem, hkept⟩
        refine .inl (List.mem_map.mpr ⟨m', List.mem_filter.mpr ⟨hmem, ?_⟩, rfl⟩)
        exact (Bool.and_eq_true_iff.mp hkept).left
    | _ => cases hsame
  | array element =>
    cases s with
    | array element' =>
      simp only [offered, offeredFirst, offeredLast, arrayMembers,
        Bool.false_eq_true, if_false, List.append_nil, List.mem_map, List.mem_cons,
        List.not_mem_nil, or_false] at hm
      rcases hm with ⟨m', rfl | rfl, rfl⟩
      · exact .inl List.mem_cons_self
      · exact .inl (List.mem_cons_of_mem _ List.mem_cons_self)
    | _ => cases hsame
  | _ => cases hm

theorem named_of_driftNamed {receiver t : ResolvedType} {m : HierMember}
    (hdrift : DriftNamed w receiver) (hreachable : WalkReachable w receiver t)
    (hm : m ∈ offered w t) : Named w receiver m.name := by
  by_cases hread : exists s, Reachable w receiver s ∧ SamePlace t s
  · rcases hread with ⟨s, hs, hsame⟩
    rcases offered_of_samePlace hsame hm with hname | ⟨node, args, rfl, m', hm', heq⟩
    · exact .inl ⟨s, hs, hname⟩
    · rw [← heq]
      exact hdrift.generated node args hreachable m' hm'
  · push Not at hread
    exact hdrift.structured t hreachable hread m hm

/-!
# Where no walk is cut off
-/

/-- The steps up from the receiver fit under the depth limit, loops at a class apart. -/
def Shallow (next : ResolvedType -> List ResolvedType) (receiver : ResolvedType) :
    Prop :=
  exists height : ResolvedType -> Nat, height receiver + 2 ≤ maxResolveDepth + 1 ∧
    forall t, Relation.ReflTransGen (fun t u => u ∈ next t) receiver t ->
      forall u, u ∈ next t -> SamePlace t u ∨ height u < height t

/--
What the language promises of a hierarchy, and the depth.  A signature has the
name of its member in it.
-/
structure Lawful (w : Workspace) (receiver : ResolvedType) : Prop where
  shallow : Shallow (successors w) receiver
  walkShallow : Shallow (walkSuccessors w) receiver
  classTypes : forall fqn c metadata, w.classOf fqn = some c ->
    c.metadata = some metadata -> metadata.hierarchyComplete = true ->
    forall sup, sup ∈ metadata.supertypes -> exists id args, sup = .named id args
  signatures : forall t t', WalkReachable w receiver t ->
    WalkReachable w receiver t' -> forall m m', m ∈ offered w t ->
    m' ∈ offered w t' -> m.signature = m'.signature -> m.name = m'.name

/-!
# The diagnostic walk where all types are known
-/

def firstNames (w : Workspace) : ResolvedType -> List String
  | .inProject node _ => (w.decl node).ownMembers.map Member.name
  | .external fqn _ =>
    match w.classOf fqn with
    | some c => externalNames c
    | none => []
  | .array _ => ["length", "clone"]
  | _ => []

def lastNames (w : Workspace) : ResolvedType -> List String
  | .inProject node _ =>
    if (w.decl node).kind = .enum then
      (enumSyntheticMembers (w.decl node).name).map ExternalMember.name
    else []
  | _ => []

theorem mem_contributedNames {t : ResolvedType} {name : String}
    (h : name ∈ firstNames w t ∨ name ∈ lastNames w t) :
    name ∈ contributedNames w t := by
  cases t with
  | inProject node args => exact List.mem_append.mpr h
  | _ => exact h.resolve_right List.not_mem_nil

theorem clauses_foldl (w : Workspace) (budget : Nat)
    {clauses : List (Option ResolvedType)}
    (hknown : forall clause, clause ∈ clauses -> clause.isSome) (s : DiagState) :
    clauses.foldl (clauseStep w budget) s =
      (clauses.filterMap id).foldl (fun s sup => diagWalk w budget sup s) s := by
  induction clauses generalizing s with
  | nil => rfl
  | cons clause rest ih =>
    have hrest := ih (fun c hc => hknown c (List.mem_cons_of_mem clause hc))
    rcases Option.isSome_iff_exists.mp (hknown clause List.mem_cons_self) with
      ⟨sup, rfl⟩
    exact hrest (diagWalk w budget sup s)

theorem diagWalk_visited {budget : Nat} {t : ResolvedType} {s : DiagState}
    (h : s.Visited t) : diagWalk w (budget + 1) t s = s := by
  cases t with
  | inProject node args => simp only [diagWalk, if_pos (show node ∈ _ from h)]
  | external fqn args => simp only [diagWalk, if_pos (show fqn ∈ _ from h)]
  | _ => cases h

theorem diagWalk_step {budget : Nat} {t : ResolvedType} {s : DiagState}
    (hknown : Known w t) (h : ¬ s.Visited t) :
    diagWalk w (budget + 1) t s =
      ((successors w t).foldl (fun s sup => diagWalk w budget sup s)
        ((s.visit t).addNames (firstNames w t))).addNames (lastNames w t) := by
  cases t with
  | inProject node args =>
    have hnew : ¬ node ∈ s.visitedNode := h
    have hclauses := clauses_foldl w budget hknown
      (DiagState.addNames { s with visitedNode := node :: s.visitedNode }
        ((w.decl node).ownMembers.map Member.name))
    unfold clauseStep at hclauses
    simp only [diagWalk, if_neg hnew, successors, firstNames, lastNames,
      DiagState.visit, List.foldl_append]
    rw [← hclauses]
    split <;> rfl
  | external fqn args =>
    have hnew : ¬ fqn ∈ s.visitedFqn := h
    rcases Option.isSome_iff_exists.mp hknown with ⟨c, hclass⟩
    simp only [diagWalk, if_neg hnew, successors, firstNames, lastNames,
      DiagState.visit, hclass, List.foldl_map]
    rfl
  | _ => rfl

theorem visited_of_samePlace {t u : ResolvedType} {s : DiagState}
    (hsame : SamePlace t u) (h : s.Visited t) : s.Visited u := by
  cases t <;> cases u <;> exact hsame ▸ h

theorem visited_mono {t : ResolvedType} {s s' : DiagState} (hgrows : Grows s s')
    (h : s.Visited t) : s'.Visited t := by
  cases t with
  | inProject node args => exact hgrows.visitedNode h
  | external fqn args => exact hgrows.visitedFqn h
  | _ => cases h

theorem visited_visit {t : ResolvedType} (s : DiagState) (names : List String)
    (h : forall element, t ≠ .array element) (hnext : successors w t ≠ []) :
    ((s.visit t).addNames names).Visited t := by
  cases t with
  | inProject node args => exact List.mem_cons_self
  | external fqn args => exact List.mem_cons_self
  | array element => exact absurd rfl (h element)
  | _ => exact absurd rfl hnext

/-- Nothing but an unknown type or the depth clears the flag. -/
theorem diagWalk_complete {receiver : ResolvedType}
    (hknown : forall t, Reachable w receiver t -> Known w t)
    {height : ResolvedType -> Nat}
    (hheight : forall t, Reachable w receiver t -> forall u, u ∈ successors w t ->
      SamePlace t u ∨ height u < height t)
    (budget : Nat) (t : ResolvedType) (s : DiagState) (ht : Reachable w receiver t)
    (hbudget : height t + 2 ≤ budget) (hs : s.complete = true) :
    (diagWalk w budget t s).complete = true := by
  induction budget generalizing t s with
  | zero => omega
  | succ budget ih =>
    by_cases hvisited : s.Visited t
    · rw [diagWalk_visited hvisited]
      exact hs
    · rw [diagWalk_step (hknown t ht) hvisited]
      let start := (s.visit t).addNames (firstNames w t)
      have hstart : start.complete = true := by
        cases t <;> exact hs
      have hfold : Grows start ((successors w t).foldl
          (fun s sup => diagWalk w budget sup s) start) ∧
          ((successors w t).foldl
            (fun s sup => diagWalk w budget sup s) start).complete = true := by
        apply inv_foldl (fun s' => Grows start s' ∧ s'.complete = true) ?_
          ⟨grows_refl start, hstart⟩
        rintro s' u hu ⟨hgrows, hs'⟩
        have hgrown := hgrows.trans (diagWalk_closes w budget u s').left.toGrows
        refine ⟨hgrown, ?_⟩
        rcases hheight t ht u hu with hsame | hlower
        · have hmet : start.Visited t := by
            apply visited_visit
            · rintro element rfl
              cases hu
            · exact List.ne_nil_of_mem hu
          rcases Nat.exists_eq_add_of_lt (show 0 < budget by omega) with ⟨rest, rfl⟩
          rw [Nat.zero_add,
            diagWalk_visited (visited_of_samePlace hsame (visited_mono hgrows hmet))]
          exact hs'
        · exact ih u s' (ht.tail hu) (by omega) hs'
      exact hfold.right

theorem diagWalk_names {receiver : ResolvedType}
    (hknown : forall t, Reachable w receiver t -> Known w t) {name : String}
    (budget : Nat) (t : ResolvedType) (s : DiagState) (ht : Reachable w receiver t)
    (hs : name ∈ s.names -> exists u, Reachable w receiver u ∧
      name ∈ contributedNames w u) :
    name ∈ (diagWalk w budget t s).names ->
      exists u, Reachable w receiver u ∧ name ∈ contributedNames w u := by
  induction budget generalizing t s with
  | zero => exact hs
  | succ budget ih =>
    by_cases hvisited : s.Visited t
    · rw [diagWalk_visited hvisited]
      exact hs
    · rw [diagWalk_step (hknown t ht) hvisited]
      intro hname
      rcases List.mem_append.mp hname with hlast | hname
      · exact ⟨t, ht, mem_contributedNames (.inr hlast)⟩
      · revert hname
        apply inv_foldl (fun s' => name ∈ DiagState.names s' ->
          exists u, Reachable w receiver u ∧ name ∈ contributedNames w u)
        · intro s' u hu hs'
          exact ih u s' (ht.tail hu) hs'
        · intro hname
          rcases List.mem_append.mp hname with hfirst | hname
          · exact ⟨t, ht, mem_contributedNames (.inl hfirst)⟩
          · exact hs (by cases t <;> exact hname)

theorem flag_of_read {receiver : ResolvedType}
    (hshallow : Shallow (successors w) receiver) (hread : ¬ Unread w receiver) :
    (memberNames w receiver).2 = true := by
  rcases hshallow with ⟨height, hbudget, hheight⟩
  have hknown : forall t, Reachable w receiver t -> Known w t := by
    intro t ht
    by_contra hunknown
    exact hread (.inl ⟨t, ht, hunknown⟩)
  have hcomplete := diagWalk_complete hknown hheight (maxResolveDepth + 1) receiver
    DiagState.empty .refl hbudget rfl
  cases hclass : w.classOf "java.lang.Object" with
  | some object => cases receiver <;> simpa only [memberNames, hclass] using hcomplete
  | none =>
    cases receiver with
    | inProject node args => exact absurd (.inr ⟨trivial, hclass⟩) hread
    | external fqn args => exact absurd (.inr ⟨trivial, hclass⟩) hread
    | array element => exact absurd (.inr ⟨trivial, hclass⟩) hread
    | _ => rfl

theorem named_of_mem {receiver : ResolvedType} {name : String}
    (hflag : (memberNames w receiver).2 = true)
    (hname : name ∈ (memberNames w receiver).1) : Named w receiver name := by
  have hknown : forall t, Reachable w receiver t -> Known w t := by
    intro t ht
    exact (explored_of_reachable (finalState_of_memberNames hflag).left ht).known
  have hwalked : name ∈ (finalState w receiver).names -> Named w receiver name := by
    intro hname
    refine .inl (diagWalk_names hknown (maxResolveDepth + 1) receiver
      DiagState.empty .refl ?_ hname)
    intro hempty
    cases hempty
  cases receiver with
  | inProject node args | external fqn args | array element =>
    simp only [memberNames] at hname
    split at hname
    · rename_i object hobject
      rcases List.mem_append.mp hname with hmem | hmem
      · exact .inr ⟨trivial, object, hobject, hmem⟩
      · exact hwalked hmem
    · exact hwalked hname
  | _ => exact hwalked hname

/-!
# Everything offered is collected
-/

structure AccGrows (acc acc' : MemberAcc) : Prop where
  seen : acc.seen ⊆ acc'.seen
  visitedNode : acc.visitedNode ⊆ acc'.visitedNode
  visitedFqn : acc.visitedFqn ⊆ acc'.visitedFqn

def Seen (w : Workspace) (acc : MemberAcc) (t : ResolvedType) : Prop :=
  forall m, m ∈ offered w t -> m.signature ∈ acc.seen

/-- The walk has been at a type; an array is not remembered. -/
def Met (w : Workspace) (acc : MemberAcc) : ResolvedType -> Prop
  | .inProject node _ => node ∈ acc.visitedNode
  | .external fqn _ => fqn ∈ acc.visitedFqn
  | .array element =>
    Seen w acc (.array element) ∧ "java.lang.Object" ∈ acc.visitedFqn
  | _ => True

structure Collected (w : Workspace) (acc : MemberAcc) (t : ResolvedType) :
    Prop where
  seen : Seen w acc t
  successors : forall u, u ∈ walkSuccessors w t -> Met w acc u

/-- What is newly visited is collected. -/
structure Settles (w : Workspace) (acc acc' : MemberAcc) : Prop
    extends AccGrows acc acc' where
  settled : forall t, acc'.Visited t -> acc.Visited t ∨ Collected w acc' t

variable {acc acc' acc'' : MemberAcc}

theorem accGrows_refl (acc : MemberAcc) : AccGrows acc acc :=
  ⟨fun _ h => h, fun _ h => h, fun _ h => h⟩

theorem AccGrows.trans (h : AccGrows acc acc') (h' : AccGrows acc' acc'') :
    AccGrows acc acc'' :=
  ⟨fun _ hx => h'.seen (h.seen hx), fun _ hx => h'.visitedNode (h.visitedNode hx),
    fun _ hx => h'.visitedFqn (h.visitedFqn hx)⟩

theorem seen_mono {t : ResolvedType} (h : AccGrows acc acc') (hseen : Seen w acc t) :
    Seen w acc' t :=
  fun m hm => h.seen (hseen m hm)

theorem met_mono {t : ResolvedType} (h : AccGrows acc acc') (hmet : Met w acc t) :
    Met w acc' t := by
  cases t with
  | inProject node args => exact h.visitedNode hmet
  | external fqn args => exact h.visitedFqn hmet
  | array element => exact ⟨seen_mono h hmet.left, h.visitedFqn hmet.right⟩
  | _ => exact trivial

theorem Collected.mono {t : ResolvedType} (h : AccGrows acc acc')
    (hcollected : Collected w acc t) : Collected w acc' t where
  seen := seen_mono h hcollected.seen
  successors := fun u hu => met_mono h (hcollected.successors u hu)

theorem settles_refl (acc : MemberAcc) : Settles w acc acc where
  toAccGrows := accGrows_refl acc
  settled := fun _ h => Or.inl h

theorem Settles.trans (h : Settles w acc acc') (h' : Settles w acc' acc'') :
    Settles w acc acc'' where
  toAccGrows := h.toAccGrows.trans h'.toAccGrows
  settled := by
    intro t ht
    rcases h'.settled t ht with hold | hcollected
    · rcases h.settled t hold with hold | hcollected
      · exact Or.inl hold
      · exact Or.inr (hcollected.mono h'.toAccGrows)
    · exact Or.inr hcollected

theorem push_grows (acc : MemberAcc) (m : HierMember) :
    AccGrows acc (acc.push m.signature m) ∧
      m.signature ∈ (acc.push m.signature m).seen := by
  unfold MemberAcc.push
  split
  · rename_i hseen
    exact ⟨accGrows_refl acc, hseen⟩
  · exact ⟨⟨fun _ h => List.mem_cons_of_mem _ h, fun _ h => h, fun _ h => h⟩,
      List.mem_cons_self⟩

theorem pushAll_seen (ms : List HierMember) (acc : MemberAcc) :
    AccGrows acc (acc.pushAll ms) ∧
      forall m, m ∈ ms -> m.signature ∈ (acc.pushAll ms).seen := by
  induction ms generalizing acc with
  | nil =>
    refine ⟨accGrows_refl acc, ?_⟩
    intro m hm
    cases hm
  | cons x rest ih =>
    rcases push_grows acc x with ⟨hgrows, hx⟩
    rcases ih (acc.push x.signature x) with ⟨hrest, hall⟩
    refine ⟨hgrows.trans hrest, ?_⟩
    intro m hm
    rcases List.mem_cons.mp hm with rfl | htail
    · exact hrest.seen hx
    · exact hall m htail

theorem pushAll_visited (ms : List HierMember) (acc : MemberAcc) (t : ResolvedType) :
    (acc.pushAll ms).Visited t -> acc.Visited t := by
  apply inv_foldl (fun acc' => MemberAcc.Visited acc' t -> acc.Visited t)
  · intro acc' m _hm hacc'
    unfold MemberAcc.push
    split
    · exact hacc'
    · intro h
      exact hacc' (by cases t <;> exact h)
  · exact id

theorem visited_of_met {t u : ResolvedType} (hsame : SamePlace t u)
    (h : acc.Visited t) : acc.Visited u := by
  cases t <;> cases u <;> exact hsame ▸ h

theorem met_of_visited {t : ResolvedType} (h : acc.Visited t) : Met w acc t := by
  cases t <;> first | exact h | cases h

theorem met_of_samePlace {t u : ResolvedType} (hsame : SamePlace t u)
    (h : Met w acc t) : Met w acc u := by
  cases t <;> cases u <;> exact hsame ▸ h

theorem samePlace_refl (t : ResolvedType) : SamePlace t t := by
  cases t <;> rfl

theorem fromTypeRef_samePlace {id : TypeId} {args : List TypeRef} {u : ResolvedType}
    (h : w.fromTypeRef (.named id args) = some u) (args' : List TypeRef) :
    exists u', w.fromTypeRef (.named id args') = some u' ∧ SamePlace u' u := by
  cases id with
  | named binary =>
    simp only [Workspace.fromTypeRef] at h ⊢
    split at h
    · cases h
      exact ⟨_, rfl, rfl⟩
    · split at h
      · cases h
      · rename_i hduplicate
        rw [if_neg hduplicate]
        split at h
        · rename_i hclass
          cases h
          exact ⟨_, if_pos hclass, rfl⟩
        · cases h
  | localClass document declaration =>
    rcases Option.map_eq_some_iff.mp h with ⟨node, hnode, rfl⟩
    exact ⟨.inProject node args', by simp only [Workspace.fromTypeRef, hnode]; rfl, rfl⟩

/-- Supertypes are the same classes whatever the type arguments are. -/
theorem externalSupertypes_samePlace {receiver u : ResolvedType}
    (hlawful : Lawful w receiver) {fqn : String} {c : ExternalClass}
    (hclass : w.classOf fqn = some c) {args : List TypeRef}
    (hu : u ∈ externalSupertypes w c args) (args' : List TypeRef) :
    exists u', u' ∈ externalSupertypes w c args' ∧ SamePlace u' u := by
  unfold externalSupertypes at hu ⊢
  cases hmetadata : c.metadata with
  | none =>
    rw [hmetadata] at hu
    exact ⟨u, hu, samePlace_refl u⟩
  | some metadata =>
    rw [hmetadata] at hu
    simp only at hu ⊢
    by_cases hcomplete : metadata.hierarchyComplete
    · rw [if_pos hcomplete] at hu ⊢
      rcases List.mem_filterMap.mp hu with ⟨sup, hsup, hfrom⟩
      rcases hlawful.classTypes fqn c metadata hclass hmetadata hcomplete sup hsup with
        ⟨id, written, rfl⟩
      simp only [TypeRef.substitute] at hfrom
      rcases fromTypeRef_samePlace hfrom
        (TypeRef.substituteArgs (useSiteEnv metadata args') written) with
        ⟨u', hfrom', hsame⟩
      exact ⟨u', List.mem_filterMap.mpr ⟨_, hsup, hfrom'⟩, hsame⟩
    · rw [if_neg hcomplete] at hu ⊢
      exact ⟨u, hu, samePlace_refl u⟩

theorem collected_of_samePlace {receiver t t' : ResolvedType}
    (hlawful : Lawful w receiver) (hsame : SamePlace t t') (hclass : acc.Visited t)
    (h : Collected w acc t) : Collected w acc t' := by
  cases t with
  | inProject node args =>
    cases t' with
    | inProject node' args' =>
      cases hsame
      exact ⟨h.seen, h.successors⟩
    | _ => cases hsame
  | external fqn args =>
    cases t' with
    | external fqn' args' =>
      cases hsame
      refine ⟨h.seen, ?_⟩
      intro u hu
      cases hc : w.classOf fqn with
      | none =>
        simp only [walkSuccessors, hc] at hu
        cases hu
      | some c =>
        simp only [walkSuccessors, hc] at hu
        rcases externalSupertypes_samePlace hlawful hc hu args with ⟨u', hu', hsame⟩
        refine met_of_samePlace hsame (h.successors u' ?_)
        simp only [walkSuccessors, hc]
        exact hu'
    | _ => cases hsame
  | _ => cases hclass

theorem foldl_settles {α : Type} {step : MemberAcc -> α -> MemberAcc}
    {P : α -> MemberAcc -> Prop} {xs : List α} {start : MemberAcc}
    (hmono : forall a acc acc', AccGrows acc acc' -> P a acc -> P a acc')
    (hstep : forall acc a, a ∈ xs -> AccGrows start acc ->
      Settles w acc (step acc a) ∧ P a (step acc a)) :
    Settles w start (xs.foldl step start) ∧
      forall a, a ∈ xs -> P a (xs.foldl step start) := by
  induction xs generalizing start with
  | nil =>
    refine ⟨settles_refl start, ?_⟩
    intro a ha
    cases ha
  | cons x rest ih =>
    rcases hstep start x List.mem_cons_self (accGrows_refl start) with ⟨hsettles, hx⟩
    have hnext := hsettles.toAccGrows
    rcases @ih (step start x) (fun acc a ha hgrows =>
      hstep acc a (List.mem_cons_of_mem x ha) (hnext.trans hgrows)) with
      ⟨hrest, hall⟩
    refine ⟨hsettles.trans hrest, ?_⟩
    intro a ha
    rcases List.mem_cons.mp ha with rfl | htail
    · exact hmono a _ _ hrest.toAccGrows hx
    · exact hall a htail

theorem visit_grows (acc : MemberAcc) (t : ResolvedType) :
    AccGrows acc (acc.visit t) := by
  cases t with
  | inProject node args =>
    exact ⟨fun _ h => h, fun _ h => List.mem_cons_of_mem _ h, fun _ h => h⟩
  | external fqn args =>
    exact ⟨fun _ h => h, fun _ h => h, fun _ h => List.mem_cons_of_mem _ h⟩
  | _ => exact accGrows_refl acc

theorem visited_of_visit {t t' : ResolvedType} (h : (acc.visit t).Visited t') :
    acc.Visited t' ∨ (SamePlace t t' ∧ (acc.visit t).Visited t) := by
  cases t with
  | inProject node args =>
    cases t' with
    | inProject node' args' =>
      rcases List.mem_cons.mp h with heq | hold
      · exact Or.inr ⟨heq.symm, List.mem_cons_self⟩
      · exact Or.inl hold
    | _ => exact Or.inl h
  | external fqn args =>
    cases t' with
    | external fqn' args' =>
      rcases List.mem_cons.mp h with heq | hold
      · exact Or.inr ⟨heq.symm, List.mem_cons_self⟩
      · exact Or.inl hold
    | _ => exact Or.inl h
  | _ => exact Or.inl h

theorem accVisited_mono {t : ResolvedType} (h : AccGrows acc acc')
    (hvisited : acc.Visited t) : acc'.Visited t := by
  cases t with
  | inProject node args => exact h.visitedNode hvisited
  | external fqn args => exact h.visitedFqn hvisited
  | _ => cases hvisited

theorem visit_of_loop (acc : MemberAcc) {t u : ResolvedType} (hu : u ∈ walkSuccessors w t)
    (hsame : SamePlace t u) : (acc.visit t).Visited t := by
  cases t with
  | inProject node args => exact List.mem_cons_self
  | external fqn args => exact List.mem_cons_self
  | array element =>
    rw [List.mem_singleton.mp hu] at hsame
    cases hsame
  | _ => cases hu

theorem met_of_collected {t : ResolvedType} (hvisit : AccGrows (acc.visit t) acc')
    (h : Collected w acc' t) : Met w acc' t := by
  cases t with
  | inProject node args => exact hvisit.visitedNode List.mem_cons_self
  | external fqn args => exact hvisit.visitedFqn List.mem_cons_self
  | array element => exact ⟨h.seen, h.successors objectType List.mem_cons_self⟩
  | _ => exact trivial

/-- The walk collects what a type offers, with all that it leads to. -/
theorem walkMembers_settles {receiver : ResolvedType} (hlawful : Lawful w receiver)
    {height : ResolvedType -> Nat}
    (hheight : forall t, WalkReachable w receiver t ->
      forall u, u ∈ walkSuccessors w t -> SamePlace t u ∨ height u < height t)
    (budget : Nat) (t : ResolvedType) (acc : MemberAcc)
    (ht : WalkReachable w receiver t) (hbudget : height t + 2 ≤ budget) :
    Settles w acc (walkMembers w false budget t acc) ∧
      Met w (walkMembers w false budget t acc) t := by
  induction budget generalizing t acc with
  | zero => omega
  | succ budget ih =>
    by_cases hvisited : acc.Visited t
    · rw [walkMembers_visited hvisited]
      exact ⟨settles_refl acc, met_of_visited hvisited⟩
    · rw [walkMembers_step hvisited]
      let start := (acc.visit t).pushAll (offeredFirst w false t)
      let inherited := (walkSuccessors w t).foldl
        (fun acc sup => walkMembers w false budget sup acc) start
      have hstart := pushAll_seen (offeredFirst w false t) (acc.visit t)
      have hlast := pushAll_seen (offeredLast w t) inherited
      have hinherited : Settles w start inherited ∧
          forall u, u ∈ walkSuccessors w t -> Met w inherited u := by
        apply foldl_settles (P := fun u acc => Met w acc u)
        · intro u acc acc' hgrows hmet
          exact met_mono hgrows hmet
        · intro acc' u hu hgrows
          rcases hheight t ht u hu with hsame | hlower
          -- A loop at the class itself ends where it began.
          · have hmet := accVisited_mono (hstart.left.trans hgrows)
              (visit_of_loop acc hu hsame)
            have hback := visited_of_met hsame hmet
            rcases Nat.exists_eq_add_of_lt (show 0 < budget by omega) with ⟨rest, rfl⟩
            rw [Nat.zero_add, walkMembers_visited hback]
            exact ⟨settles_refl acc', met_of_visited hback⟩
          · exact ih u acc' (ht.tail hu) (by omega)
      have hrest := hinherited.left.toAccGrows.trans hlast.left
      have hcollected : Collected w (inherited.pushAll (offeredLast w t)) t := by
        constructor
        · intro m hm
          rcases List.mem_append.mp hm with hfirst | hlastly
          · exact hrest.seen (hstart.right m hfirst)
          · exact hlast.right m hlastly
        · intro u hu
          exact met_mono hlast.left (hinherited.right u hu)
      refine ⟨⟨(visit_grows acc t).trans (hstart.left.trans hrest), ?_⟩,
        met_of_collected (hstart.left.trans hrest) hcollected⟩
      intro t' ht'
      rcases hinherited.left.settled t'
        (pushAll_visited (offeredLast w t) inherited t' ht') with hold | hnew
      · rcases visited_of_visit (pushAll_visited _ _ t' hold) with hold | hhere
        · exact Or.inl hold
        · exact Or.inr (collected_of_samePlace hlawful hhere.left
            (accVisited_mono (hstart.left.trans hrest) hhere.right) hcollected)
      · exact Or.inr (hnew.mono hlast.left)

theorem collected_of_walkReachable {receiver t : ResolvedType}
    (hlawful : Lawful w receiver) (h : WalkReachable w receiver t) :
    Collected w (walkMembers w false (maxResolveDepth + 1) receiver MemberAcc.empty)
      t := by
  rcases hlawful.walkShallow with ⟨height, hbudget, hheight⟩
  rcases walkMembers_settles hlawful hheight (maxResolveDepth + 1) receiver
    MemberAcc.empty .refl hbudget with ⟨hsettles, hmet⟩
  have hcollected : forall u, Met w (walkMembers w false (maxResolveDepth + 1) receiver
      MemberAcc.empty) u -> Collected w (walkMembers w false (maxResolveDepth + 1)
        receiver MemberAcc.empty) u := by
    intro u hu
    cases u with
    | inProject node args =>
      exact (hsettles.settled (.inProject node args) hu).resolve_left List.not_mem_nil
    | external fqn args =>
      exact (hsettles.settled (.external fqn args) hu).resolve_left List.not_mem_nil
    | array element =>
      refine ⟨hu.left, ?_⟩
      intro u' hu'
      rw [List.mem_singleton.mp hu']
      exact hu.right
    | _ =>
      constructor
      · intro m hm
        cases hm
      · intro u' hu'
        cases hu'
  induction h with
  | refl => exact hcollected receiver hmet
  | tail _ hstep ih => exact hcollected _ (ih.successors _ hstep)

def SeenOut (acc : MemberAcc) : Prop :=
  forall signature, signature ∈ acc.seen -> exists m, m ∈ acc.out ∧
    m.signature = signature

theorem seenOut_walkMembers (staticOnly : Bool) (budget : Nat) (t : ResolvedType)
    (acc : MemberAcc) (hacc : SeenOut acc) :
    SeenOut (walkMembers w staticOnly budget t acc) := by
  have hkept : KeptByWalk w (fun _ => True) SeenOut := by
    constructor
    · intro acc u m _ht _hm hacc
      unfold MemberAcc.push
      split
      · exact hacc
      · intro signature hsignature
        rcases List.mem_cons.mp hsignature with rfl | hold
        · exact ⟨m, List.mem_append_right _ List.mem_cons_self, rfl⟩
        · rcases hacc signature hold with ⟨m', hm', heq⟩
          exact ⟨m', List.mem_append_left _ hm', heq⟩
    · intro acc u hacc
      cases u <;> exact hacc
    · exact fun _ _ _ _ => trivial
  exact walkMembers_kept hkept staticOnly budget t acc trivial hacc

/-- The name of each offered member is collected. -/
theorem name_collected {receiver t : ResolvedType} (hlawful : Lawful w receiver)
    (ht : WalkReachable w receiver t) {m : HierMember} (hm : m ∈ offered w t) :
    exists m', m' ∈ collectMembers w false receiver ∧ m'.name = m.name := by
  have hempty : SeenOut MemberAcc.empty := by
    intro signature hsignature
    cases hsignature
  have hseen := (collected_of_walkReachable hlawful ht).seen m hm
  rcases seenOut_walkMembers (w := w) false (maxResolveDepth + 1) receiver
    MemberAcc.empty hempty _ hseen with ⟨m', hm', heq⟩
  rcases offered_of_collected hm' with ⟨t', ht', hoffered⟩
  exact ⟨m', hm', hlawful.signatures t' t ht' ht m' m hoffered hm heq⟩

/--
The walks agree where something on the way up is not known, or each name that
only the collecting walk reads is one the diagnostic walk has; in a lawful
hierarchy they agree only there.
-/
theorem members_named_unless_drift (w : Workspace) (receiver : ResolvedType) :
    (Unread w receiver ∨ DriftNamed w receiver -> MembersNamed w receiver) ∧
      (Lawful w receiver -> MembersNamed w receiver ->
        Unread w receiver ∨ DriftNamed w receiver) := by
  constructor
  · intro hcondition hflag staticOnly m hm
    have hdrift := hcondition.resolve_left (known_of_flag hflag)
    rcases offered_of_collected hm with ⟨t, ht, hoffered⟩
    exact named_in_memberNames hflag (named_of_driftNamed hdrift ht hoffered)
  · intro hlawful hnamed
    by_cases hread : Unread w receiver
    · exact .inl hread
    · have hflag := flag_of_read hlawful.shallow hread
      have hoffered : forall t, WalkReachable w receiver t ->
          forall m, m ∈ offered w t -> Named w receiver m.name := by
        intro t ht m hm
        rcases name_collected hlawful ht hm with ⟨m', hm', heq⟩
        rw [← heq]
        exact named_of_mem hflag (hnamed hflag false m' hm')
      refine .inr ⟨?_, fun t ht _hread => hoffered t ht⟩
      intro node args ht m hm
      refine hoffered _ ht (.external m) ?_
      simp only [offered, offeredFirst, offeredLombok, List.mem_append, List.mem_map,
        List.mem_filter]
      exact .inl (.inr ⟨m, ⟨hm, rfl⟩, rfl⟩)

namespace LombokPerson

def nameField : Member where
  node := 2
  name := "name"
  kind := .field
  isStatic := false
  isPrivate := true
  isComponent := false
  signature := "private String name"
  erased := some "String name"
  typeText := "String"
  isFinal := false
  marks := Marks.none

/-- `class Person { private String name; }`, with or without `@Data`. -/
def person (data : Bool) : TypeDecl :=
  { TypeDecl.plain "Person" "demo.Person" [] with
    ownMembers := [nameField]
    usesLombok := data
    marks := { Marks.none with data := data } }

/-- The one open document declares `Person`. -/
def workspace (data : Bool) : Workspace :=
  { Workspace.closedOnly (fun fqn => fqn = "java.lang.Object")
      (fun fqn =>
        if fqn = "java.lang.Object" then some (.compiled ⟨[], [], none⟩)
        else none) with
    decl := fun _ => person data
    hasDocument := fun _ => true }

def receiver : ResolvedType := .inProject 0 []

/-- `getName()` is offered and reported as unresolved. -/
theorem getter_not_named : ¬ MembersNamed (workspace true) receiver := by
  intro hnamed
  have hflag : (memberNames (workspace true) receiver).2 = true := rfl
  have hoffered : HierMember.external
      { name := "getName", kind := .method, signature := "String getName()"
        isStatic := false } ∈ collectMembers (workspace true) false receiver := by
    decide
  exact absurd (hnamed hflag false _ hoffered) (by decide)

/-- `Person` has nothing above it that a walk follows. -/
theorem receiver_of_reachable {next : ResolvedType -> List ResolvedType}
    (hnext : next receiver = []) {t : ResolvedType}
    (h : Relation.ReflTransGen (fun t u => u ∈ next t) receiver t) : t = receiver := by
  induction h with
  | refl => rfl
  | tail _ ht ih =>
    rw [ih, hnext] at ht
    cases ht

theorem shallow_person {next : ResolvedType -> List ResolvedType}
    (hnext : next receiver = []) : Shallow next receiver := by
  refine ⟨fun _ => 0, by decide, ?_⟩
  intro t ht u hu
  rw [receiver_of_reachable hnext ht, hnext] at hu
  cases hu

theorem lawful_person : Lawful (workspace false) receiver where
  shallow := shallow_person rfl
  walkShallow := shallow_person rfl
  classTypes := by
    intro fqn c metadata hclass hmetadata
    simp only [workspace, Workspace.closedOnly, Workspace.classOf] at hclass
    split at hclass
    · cases hclass
      cases hmetadata
    · cases hclass
  signatures := by
    intro t t' ht ht' m m' hm hm' _heq
    rw [receiver_of_reachable rfl ht] at hm
    rw [receiver_of_reachable rfl ht'] at hm'
    rw [List.mem_singleton.mp hm, List.mem_singleton.mp hm']

/-- `Person` without `@Data`, in a lawful hierarchy. -/
theorem plain_person_named :
    (memberNames (workspace false) receiver).2 = true ∧
      MembersNamed (workspace false) receiver ∧
        (Unread (workspace false) receiver ∨ DriftNamed (workspace false) receiver) := by
  have hnamed : MembersNamed (workspace false) receiver := by
    apply (members_named_unless_drift (workspace false) receiver).left
    refine .inr ⟨?_, ?_⟩
    · intro node args ht m hm
      cases hm
    · intro t ht hread
      rw [receiver_of_reachable rfl ht] at hread
      exact absurd rfl (hread receiver .refl)
  refine ⟨by decide, hnamed, ?_⟩
  exact (members_named_unless_drift (workspace false) receiver).right lawful_person hnamed

/-- `@Data class Person extends Missing` is not read to the end. -/
example : MembersNamed { workspace true with
    decl := fun _ => { person true with superNodes := [.name "Missing"] } }
      receiver := by
  intro hflag
  cases hflag

end LombokPerson

end Members
end JavaVsixLite
