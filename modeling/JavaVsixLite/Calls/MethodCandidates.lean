import JavaVsixLite.Calls.Selection
import JavaVsixLite.Foundation.DepthFirst
import Mathlib.Data.Multiset.DershowitzManna

/-!
# The candidates of a method call

The methods of one name over the hierarchy of a receiver, where overridden methods are
collapsed to the declaration that is met first.  The walk keeps the types to come on a
stack.
-/

namespace JavaVsixLite

open Foundation

mutual
/-- Every type variable becomes `java.lang.Object`. -/
def TypeRef.eraseToObject : TypeRef -> TypeRef
  | .typeVariable _ => TypeRef.objectRef
  | .named id args => .named id (TypeRef.eraseToObjectArgs args)
  | .array element => .array element.eraseToObject
  | .primitive p => .primitive p
  | .void => .void
  | .null => .null
  | .wildcard upper lower => .wildcard upper lower
  | .unknown => .unknown

def TypeRef.eraseToObjectArgs : List TypeRef -> List TypeRef
  | [] => []
  | t :: rest => t.eraseToObject :: TypeRef.eraseToObjectArgs rest
end

namespace Calls

structure MethodMetadata extends MemberMetadata where
  isStatic : Bool
  result : TypeRef
deriving DecidableEq

structure ClassMember where
  name : String
  isMethod : Bool
  metadata : Option MethodMetadata
  retDisplay : Option String
  signature : String

inductive ClassKind where
  | classType
  | interfaceType
  | enumType
  | recordType
  | annotationType

structure ClassFacts where
  kind : ClassKind
  metadata : ClassMetadata
  members : List ClassMember

structure MethodCandidate where
  metadata : MethodMetadata
  env : TypeEnv
  inferred : List TypeVariableId
  resultDisplay : Option String
  declaredSignature : Option String
deriving DecidableEq

/-- The override key: the signature as seen through the type arguments. -/
def overrideKey (env : TypeEnv) (params : List TypeRef) : List TypeRef :=
  params.map (fun p => ((p.substitute env).erase).eraseToObject)

def maxCandidateDepth : Nat := 64

/-- The signatures met so far, and the candidates, each with the type it is declared in. -/
structure Collected where
  seenSigs : List (List TypeRef)
  out : List (TypeRef × MethodCandidate)
deriving DecidableEq

theorem replaced_lt {pushed : List Nat} {n : Nat} (rest : List Nat)
    (h : forall m, m ∈ pushed -> m < n) :
    Multiset.IsDershowitzMannaLT (↑(pushed ++ rest) : Multiset Nat) ↑(n :: rest) := by
  refine ⟨rest, pushed, {n}, Multiset.singleton_ne_zero n, ?_, ?_, ?_⟩
  · rw [Multiset.coe_add, Multiset.coe_eq_coe]
    exact List.perm_append_comm
  · rw [← Multiset.cons_coe, ← Multiset.singleton_add, add_comm]
  · intro m hm
    exact ⟨n, Multiset.mem_singleton_self n, h m (Multiset.mem_coe.mp hm)⟩

section Walk

variable (facts : TypeId -> Option ClassFacts) (objectOnClasspath : Bool) (name : String)
  (staticOnly : Bool)

def addMember (t : TypeRef) (env : TypeEnv) (acc : Collected) (m : ClassMember) :
    Option Collected :=
  if m.name != name || !m.isMethod then some acc
  else
    match m.metadata with
    | none => none
    | some metadata =>
      if staticOnly && !metadata.isStatic then some acc
      else
        match metadata.parameters with
        | none => none
        | some params =>
          let erased := overrideKey env params
          if acc.seenSigs.contains erased then some acc
          else
            some
              { seenSigs := erased :: acc.seenSigs
                out := acc.out ++ [(t,
                  { metadata := metadata
                    env := env
                    inferred := []
                    resultDisplay := m.retDisplay
                    declaredSignature := some m.signature })] }

def addMembers (t : TypeRef) (env : TypeEnv) : List ClassMember -> Collected -> Option Collected
  | [], acc => some acc
  | m :: rest, acc =>
    match addMember name staticOnly t env acc m with
    | none => none
    | some acc => addMembers t env rest acc

/-- One type of the walk: what is collected, and its direct supertypes. -/
def visitType (t : TypeRef) (acc : Collected) : Option (Collected × List TypeRef) :=
  match t with
  | .named id args =>
    match facts id with
    | none => none
    | some f =>
      if !f.metadata.hierarchyComplete then none
      else
        let env := f.metadata.environment args
        match addMembers name staticOnly t env f.members acc with
        | none => none
        | some acc =>
          if acc.out.isEmpty && id.asNamed == some "java.lang.Object" &&
              f.members.isEmpty && !objectOnClasspath then none
          else some (acc, f.metadata.supertypes.map (TypeRef.substitute env))
  | _ => none

@[grind =]
def candidatesFrom (stack : List (TypeRef × Nat)) (visited : List TypeRef) (acc : Collected) :
    Option (List (TypeRef × MethodCandidate)) :=
  match stack with
  | [] => some acc.out
  | (t, depth) :: rest =>
    if depth > maxCandidateDepth ∨ t ∈ visited then candidatesFrom rest visited acc
    else
      match visitType facts objectOnClasspath name staticOnly t acc with
      | none => none
      | some (acc, supertypes) =>
        candidatesFrom (supertypes.reverse.map (fun s => (s, depth + 1)) ++ rest)
          (t :: visited) acc
termination_by (stack.map (fun e => maxCandidateDepth + 1 - e.2) : Multiset Nat)
decreasing_by
  · have hsmaller : forall m, m ∈ ([] : List Nat) -> m < maxCandidateDepth + 1 - depth := by
      intro m hm
      cases hm
    exact replaced_lt _ hsmaller
  · rename_i hgo
    rw [not_or] at hgo
    rw [List.map_append, List.map_cons]
    apply replaced_lt
    intro m hm
    simp only [List.map_map, List.mem_map, Function.comp_apply] at hm
    rcases hm with ⟨s, _, rfl⟩
    omega

def candidatesWithTypes (recv : TypeRef) : Option (List (TypeRef × MethodCandidate)) :=
  candidatesFrom facts objectOnClasspath name staticOnly [(recv, 0)] [] ⟨[], []⟩

def methodCandidates (recv : TypeRef) : Option (List MethodCandidate) :=
  (candidatesWithTypes facts objectOnClasspath name staticOnly recv).map
    (fun found => found.map Prod.snd)

end Walk

/-!
# The hierarchy
-/

section Hierarchy

variable (facts : TypeId -> Option ClassFacts) (name : String) (staticOnly : Bool)

def directSupertypes : TypeRef -> List TypeRef
  | .named id args =>
    match facts id with
    | some f => f.metadata.supertypes.map (TypeRef.substitute (f.metadata.environment args))
    | none => []
  | _ => []

def callable (m : ClassMember) : Bool :=
  m.name == name && m.isMethod &&
    m.metadata.any (fun metadata => !staticOnly || metadata.isStatic)

def memberKey (env : TypeEnv) (m : ClassMember) : Option (List TypeRef) :=
  m.metadata.bind (fun metadata => metadata.parameters.map (overrideKey env))

/-- The type declares a method of the name with the override key. -/
def Declares (t : TypeRef) (key : List TypeRef) : Prop :=
  exists id args f m, t = .named id args ∧ facts id = some f ∧ m ∈ f.members ∧
    callable name staticOnly m = true ∧ memberKey (f.metadata.environment args) m = some key

end Hierarchy

def MethodCandidate.key (c : MethodCandidate) : List TypeRef :=
  overrideKey c.env (c.metadata.parameters.getD [])

/-!
# What one type adds
-/

section Members

variable {name : String} {staticOnly : Bool} {t : TypeRef} {env : TypeEnv}

structure Adds (t : TypeRef) (declared : List TypeRef -> Prop) (acc acc' : Collected) : Prop where
  seen : forall key, key ∈ acc'.seenSigs <-> key ∈ acc.seenSigs ∨ declared key
  kept : forall entry, entry ∈ acc.out -> entry ∈ acc'.out
  fresh : forall entry, entry ∈ acc'.out -> entry ∈ acc.out ∨
    entry.1 = t ∧ declared entry.2.key ∧ entry.2.key ∉ acc.seenSigs
  found : forall key, declared key -> key ∉ acc.seenSigs ->
    exists c, (t, c) ∈ acc'.out ∧ c.key = key

theorem Adds.refl (t : TypeRef) (acc : Collected) : Adds t (fun _ => False) acc acc where
  seen := by simp
  kept := fun _ h => h
  fresh := fun _ h => .inl h
  found := fun _ h => h.elim

variable {acc acc' : Collected} {m : ClassMember}

theorem Adds.trans {declared declared' : List TypeRef -> Prop} {acc'' : Collected}
    (h : Adds t declared acc acc') (h' : Adds t declared' acc' acc'') :
    Adds t (fun key => declared key ∨ declared' key) acc acc'' where
  seen := by
    intro key
    rw [h'.seen, h.seen, or_assoc]
  kept := fun entry hentry => h'.kept entry (h.kept entry hentry)
  fresh := by
    intro entry hentry
    rcases h'.fresh entry hentry with hold | ⟨ht, hdeclared, hnew⟩
    · rcases h.fresh entry hold with hold | ⟨ht, hdeclared, hnew⟩
      · exact .inl hold
      · exact .inr ⟨ht, .inl hdeclared, hnew⟩
    · exact .inr ⟨ht, .inr hdeclared, fun hseen => hnew ((h.seen _).mpr (.inl hseen))⟩
  found := by
    intro key hdeclared hnew
    by_cases hfirst : declared key
    · rcases h.found key hfirst hnew with ⟨c, hc, hkey⟩
      exact ⟨c, h'.kept _ hc, hkey⟩
    · apply h'.found key (hdeclared.resolve_left hfirst)
      rw [h.seen]
      exact fun hseen => hseen.elim hnew hfirst

theorem Adds.congr {declared declared' : List TypeRef -> Prop} (h : Adds t declared acc acc')
    (hiff : forall key, declared key <-> declared' key) :
    Adds t declared' acc acc' := by
  have heq : declared = declared' := funext (fun key => propext (hiff key))
  rw [← heq]
  exact h

theorem Adds.of_seen {erased : List TypeRef} (h : erased ∈ acc.seenSigs) :
    Adds t (fun key => key = erased) acc acc where
  seen := by
    intro key
    exact ⟨.inl, fun hkey => hkey.elim id (fun heq => heq ▸ h)⟩
  kept := fun _ hentry => hentry
  fresh := fun _ hentry => .inl hentry
  found := fun _ heq hnew => absurd (heq ▸ h) hnew

theorem Adds.of_new {c : MethodCandidate} (h : c.key ∉ acc.seenSigs) :
    Adds t (fun key => key = c.key) acc
      { seenSigs := c.key :: acc.seenSigs, out := acc.out ++ [(t, c)] } where
  seen := by
    intro key
    rw [List.mem_cons, or_comm]
  kept := fun _ hentry => List.mem_append_left _ hentry
  fresh := by
    intro entry hentry
    rcases List.mem_append.mp hentry with hold | hlast
    · exact .inl hold
    · rw [List.mem_singleton.mp hlast]
      exact .inr ⟨rfl, rfl, h⟩
  found := by
    rintro key rfl _
    exact ⟨c, List.mem_append_right _ (List.mem_singleton.mpr rfl), rfl⟩

theorem callable_eq {metadata : MethodMetadata} (hsame : ¬ (m.name != name || !m.isMethod) = true)
    (hmetadata : m.metadata = some metadata) :
    callable name staticOnly m = !(staticOnly && !metadata.isStatic) := by
  rw [Bool.not_eq_true, Bool.or_eq_false_iff, bne_eq_false_iff_eq, Bool.not_eq_false'] at hsame
  unfold callable
  rw [hmetadata, Option.any_some, hsame.1, hsame.2, beq_self_eq_true, Bool.true_and,
    Bool.true_and, Bool.not_and, Bool.not_not]

theorem addMember_cases (h : addMember name staticOnly t env acc m = some acc') :
    (callable name staticOnly m = false ∧ acc' = acc) ∨
      exists key, callable name staticOnly m = true ∧ memberKey env m = some key ∧
        Adds t (fun k => k = key) acc acc' := by
  unfold addMember at h
  split at h
  · rename_i hother
    refine .inl ⟨?_, (Option.some.inj h).symm⟩
    unfold callable
    rw [Bool.or_eq_true, bne_iff_ne, Bool.not_eq_true'] at hother
    rcases hother with hname | hmethod
    · rw [beq_false_of_ne hname, Bool.false_and, Bool.false_and]
    · rw [hmethod, Bool.and_false, Bool.false_and]
  · rename_i hsame
    cases hmetadata : m.metadata with
    | none =>
      rw [hmetadata] at h
      cases h
    | some metadata =>
      rw [hmetadata] at h
      dsimp only at h
      have hcallable : callable name staticOnly m = !(staticOnly && !metadata.isStatic) :=
        callable_eq hsame hmetadata
      split at h
      · rename_i hstatic
        rw [hstatic] at hcallable
        exact .inl ⟨hcallable, (Option.some.inj h).symm⟩
      · rename_i hstatic
        rw [Bool.eq_false_iff.mpr hstatic] at hcallable
        cases hparams : metadata.parameters with
        | none =>
          rw [hparams] at h
          cases h
        | some params =>
          rw [hparams] at h
          dsimp only at h
          refine .inr ⟨overrideKey env params, hcallable, ?_, ?_⟩
          · unfold memberKey
            rw [hmetadata, Option.bind_some, hparams, Option.map_some]
          · split at h <;> rw [(Option.some.inj h).symm]
            · rename_i hseen
              exact Adds.of_seen (List.contains_iff_mem.mp hseen)
            · rename_i hseen
              generalize hcandidate : MethodCandidate.mk metadata env [] m.retDisplay
                (some m.signature) = c
              have hkey : c.key = overrideKey env params := by
                rw [← hcandidate, MethodCandidate.key, hparams, Option.getD_some]
              rw [← hkey] at hseen ⊢
              exact Adds.of_new (fun hmem => hseen (List.contains_iff_mem.mpr hmem))

theorem addMember_adds (h : addMember name staticOnly t env acc m = some acc') :
    Adds t (fun key => callable name staticOnly m = true ∧
      memberKey env m = some key) acc acc' := by
  rcases addMember_cases h with ⟨hnot, rfl⟩ | ⟨key, hcallable, hkey, hadds⟩
  · rw [hnot]
    exact (Adds.refl t acc').congr (by simp)
  · rw [hcallable, hkey]
    exact hadds.congr (by simp [eq_comm])

theorem addMembers_adds {members : List ClassMember}
    (h : addMembers name staticOnly t env members acc = some acc') :
    Adds t (fun key => exists m, m ∈ members ∧ callable name staticOnly m = true ∧
      memberKey env m = some key) acc acc' := by
  induction members generalizing acc with
  | nil =>
    cases h
    exact (Adds.refl t acc').congr (by simp)
  | cons m rest ih =>
    unfold addMembers at h
    cases hfirst : addMember name staticOnly t env acc m with
    | none =>
      rw [hfirst] at h
      cases h
    | some mid =>
      rw [hfirst] at h
      apply ((addMember_adds hfirst).trans (ih h)).congr
      intro key
      simp [or_and_right, exists_or]

end Members

/-- A visit adds the signatures that the type declares, and goes on to its supertypes. -/
theorem visitType_eq_some {facts : TypeId -> Option ClassFacts} {objectOnClasspath : Bool}
    {name : String} {staticOnly : Bool} {t : TypeRef} {acc acc' : Collected}
    {supertypes : List TypeRef}
    (h : visitType facts objectOnClasspath name staticOnly t acc = some (acc', supertypes)) :
    Adds t (Declares facts name staticOnly t) acc acc' ∧ supertypes = directSupertypes facts t := by
  cases t with
  | named id args =>
    unfold visitType at h
    dsimp only at h
    cases hfacts : facts id with
    | none =>
      rw [hfacts] at h
      cases h
    | some f =>
      rw [hfacts] at h
      dsimp only at h
      split at h
      · cases h
      · cases hmembers : addMembers name staticOnly (.named id args)
            (f.metadata.environment args) f.members acc with
        | none =>
          rw [hmembers] at h
          cases h
        | some mid =>
          rw [hmembers] at h
          dsimp only at h
          split at h
          · cases h
          · injection h with h
            injection h with hacc hsupers
            rw [← hacc, ← hsupers]
            refine ⟨(addMembers_adds hmembers).congr ?_, ?_⟩
            · intro key
              constructor
              · rintro ⟨m, hm, hcallable, hkey⟩
                exact ⟨id, args, f, m, rfl, hfacts, hm, hcallable, hkey⟩
              · rintro ⟨id', args', f', m, heq, hfacts', hm, hcallable, hkey⟩
                injection heq with hid hargs
                subst hid
                subst hargs
                rw [hfacts] at hfacts'
                cases hfacts'
                exact ⟨m, hm, hcallable, hkey⟩
            · simp only [directSupertypes, hfacts]
  | _ => cases h

/-!
# The walk
-/

section Walk

open DepthFirst

variable {facts : TypeId -> Option ClassFacts} {objectOnClasspath : Bool} {name : String}
  {staticOnly : Bool}

theorem candidatesFrom_nil (visited : List TypeRef) (acc : Collected) :
    candidatesFrom facts objectOnClasspath name staticOnly [] visited acc = some acc.out := by
  rw [candidatesFrom]

variable {visited : List TypeRef} {acc : Collected} {stack : List (TypeRef × Nat)}
  {found : List (TypeRef × MethodCandidate)} {key : List TypeRef}

theorem candidatesFrom_visit {t : TypeRef} {depth : Nat} (rest : List (TypeRef × Nat))
    {acc' : Collected} {supertypes : List TypeRef}
    (hgo : ¬ (depth > maxCandidateDepth ∨ t ∈ visited))
    (hvisit : visitType facts objectOnClasspath name staticOnly t acc = some (acc', supertypes)) :
    candidatesFrom facts objectOnClasspath name staticOnly ((t, depth) :: rest) visited acc =
      candidatesFrom facts objectOnClasspath name staticOnly
        (supertypes.reverse.map (fun s => (s, depth + 1)) ++ rest) (t :: visited) acc' := by
  rw [candidatesFrom, if_neg hgo, hvisit]

theorem candidatesFrom_of_seen
    (h : candidatesFrom facts objectOnClasspath name staticOnly stack visited acc = some found)
    (hseen : key ∈ acc.seenSigs) {entry : TypeRef × MethodCandidate} (hkey : entry.2.key = key) :
    entry ∈ found <-> entry ∈ acc.out := by
  induction stack, visited, acc using candidatesFrom.induct facts objectOnClasspath name staticOnly
    generalizing found with
  | case1 visited acc =>
    rw [candidatesFrom_nil] at h
    cases h
    exact Iff.rfl
  | case2 visited acc t depth rest hskip ih =>
    rw [candidatesFrom, if_pos hskip] at h
    exact ih h hseen
  | case3 visited acc t depth rest hgo hvisit =>
    rw [candidatesFrom, if_neg hgo, hvisit] at h
    cases h
  | case4 visited acc t depth rest hgo acc' supertypes hvisit ih =>
    rw [candidatesFrom, if_neg hgo, hvisit] at h
    have hadds := (visitType_eq_some hvisit).1
    rw [ih h ((hadds.seen key).mpr (.inl hseen))]
    constructor
    · intro hentry
      rcases hadds.fresh entry hentry with hold | ⟨_, _, hnew⟩
      · exact hold
      · rw [hkey] at hnew
        exact absurd hseen hnew
    · exact hadds.kept entry

/-- The declarations of one override key: those that are kept are of the type whose route
comes before all others, and one is kept if there is any. -/
structure KeepsFirst (facts : TypeId -> Option ClassFacts) (name : String) (staticOnly : Bool)
    (recv : TypeRef) (key : List TypeRef) (found : List (TypeRef × MethodCandidate))
    (t : TypeRef) (p : List Nat) : Prop where
  route : SimpleRoute (directSupertypes facts) recv p t
  declares : Declares facts name staticOnly t key
  least : forall q v, SimpleRoute (directSupertypes facts) recv q v ->
    Declares facts name staticOnly v key -> p = q ∨ Precedes p q
  kept : exists c, (t, c) ∈ found ∧ c.key = key
  only : forall entry, entry ∈ found -> entry.2.key = key -> entry.1 = t

/-- No simple chain of supertypes is longer than the walk goes. -/
def WithinDepth (facts : TypeId -> Option ClassFacts) (recv : TypeRef) : Prop :=
  forall p v, SimpleRoute (directSupertypes facts) recv p v -> p.length ≤ maxCandidateDepth

/-- The first declaration that is met is kept: from there on its signature has been met. -/
theorem keepsFirst_of_declares {recv : TypeRef} {visited' : List TypeRef} {acc' : Collected}
    {e : Pending TypeRef} {pending : List (Pending TypeRef)}
    (h : candidatesFrom facts objectOnClasspath name staticOnly stack visited' acc' = some found)
    (hfrontier : Frontier (directSupertypes facts) recv
      (fun t => Declares facts name staticOnly t key) visited (e :: pending))
    (hunvisited : e.vertex ∉ visited) (hdeclares : Declares facts name staticOnly e.vertex key)
    (hadds : Adds e.vertex (Declares facts name staticOnly e.vertex) acc acc')
    (hnew : key ∉ acc.seenSigs) (hnone : forall entry, entry ∈ acc.out -> entry.2.key ≠ key) :
    KeepsFirst facts name staticOnly recv key found e.vertex e.positions where
  route := hfrontier.top_simple hunvisited
  declares := hdeclares
  least := fun _ _ hroute hv => hfrontier.least hroute hv
  kept := by
    have hseen : key ∈ acc'.seenSigs := (hadds.seen key).mpr (.inr hdeclares)
    rcases hadds.found key hdeclares hnew with ⟨c, hc, hkey⟩
    exact ⟨c, (candidatesFrom_of_seen h hseen hkey).mpr hc, hkey⟩
  only := by
    intro entry hentry hkey
    have hseen : key ∈ acc'.seenSigs := (hadds.seen key).mpr (.inr hdeclares)
    rcases hadds.fresh entry ((candidatesFrom_of_seen h hseen hkey).mp hentry) with
      hold | ⟨ht, _, _⟩
    · exact absurd hkey (hnone entry hold)
    · exact ht

theorem candidatesFrom_keeps {recv : TypeRef} (hdepth : WithinDepth facts recv)
    (h : candidatesFrom facts objectOnClasspath name staticOnly stack visited acc = some found)
    {pending : List (Pending TypeRef)} (hstack : stack = pending.map Pending.entry)
    (hfrontier : Frontier (directSupertypes facts) recv
      (fun t => Declares facts name staticOnly t key) visited pending)
    (hnew : key ∉ acc.seenSigs) (hnone : forall entry, entry ∈ acc.out -> entry.2.key ≠ key) :
    (exists t p, KeepsFirst facts name staticOnly recv key found t p) ∨
      ((forall p v, SimpleRoute (directSupertypes facts) recv p v ->
          ¬ Declares facts name staticOnly v key) ∧
        forall entry, entry ∈ found -> entry.2.key ≠ key) := by
  induction stack, visited, acc using candidatesFrom.induct facts objectOnClasspath name staticOnly
    generalizing found pending with
  | case1 visited acc =>
    rw [candidatesFrom_nil] at h
    cases h
    cases pending with
    | cons e pending => cases hstack
    | nil => exact .inr ⟨fun p v hroute => hfrontier.exhausted hroute, hnone⟩
  | case2 visited acc t depth rest hskip ih =>
    rw [candidatesFrom, if_pos hskip] at h
    cases pending with
    | nil => cases hstack
    | cons e pending =>
      injection hstack with htop hrest
      injection htop with ht hlen
      have hold : e.vertex ∈ visited := by
        by_contra hunvisited
        have hroute := hfrontier.top_simple hunvisited
        have hshort := hdepth _ _ hroute
        have hlength := (hfrontier.routes e List.mem_cons_self).length_eq
        rcases hskip with hdeep | hvisited
        · omega
        · rw [ht] at hvisited
          exact hunvisited hvisited
      exact ih h hrest (hfrontier.skip hold) hnew hnone
  | case3 visited acc t depth rest hgo hvisit =>
    rw [candidatesFrom, if_neg hgo, hvisit] at h
    cases h
  | case4 visited acc t depth rest hgo acc' supertypes hvisit ih =>
    rw [candidatesFrom, if_neg hgo, hvisit] at h
    rw [not_or] at hgo
    rcases visitType_eq_some hvisit with ⟨hadds, hsupers⟩
    cases pending with
    | nil => cases hstack
    | cons e pending =>
      injection hstack with htop hrest
      injection htop with ht hlen
      subst ht
      by_cases hdeclares : Declares facts name staticOnly e.vertex key
      · exact .inl ⟨e.vertex, e.positions,
          keepsFirst_of_declares h hfrontier hgo.2 hdeclares hadds hnew hnone⟩
      · have hchildren : supertypes.reverse.map (fun s => (s, depth + 1)) ++ rest =
            (e.children (directSupertypes facts) ++ pending).map Pending.entry := by
          rw [List.map_append, Pending.map_entry_children, hsupers, hrest, hlen]
        apply ih h hchildren (hfrontier.visit hgo.2 hdeclares)
        · rw [hadds.seen]
          exact fun hseen => hseen.elim hnew hdeclares
        · intro entry hentry hkey
          rcases hadds.fresh entry hentry with hold | ⟨_, hdeclared, _⟩
          · exact hnone entry hold hkey
          · rw [hkey] at hdeclared
            exact hdeclares hdeclared

end Walk

/-!
# The nearest declaration
-/

section Nearest

open DepthFirst

variable (facts : TypeId -> Option ClassFacts)

def superclass : TypeRef -> Option TypeRef
  | .named id args =>
    match facts id with
    | some f =>
      match f.kind with
      | .interfaceType => none
      | .annotationType => none
      | _ => (directSupertypes facts (.named id args)).head?
    | none => none
  | _ => none

def superclassAt : Nat -> TypeRef -> Option TypeRef
  | 0, t => some t
  | n + 1, t => (superclass facts t).bind (superclassAt n)

variable (name : String) (staticOnly : Bool) (recv : TypeRef)

/-- No declaration of the signature is nearer to the receiver, and at this distance the
superclass goes before interfaces. -/
def Nearest (key : List TypeRef) (t : TypeRef) : Prop :=
  exists p ts, Route (directSupertypes facts) recv p ts t ∧
    Declares facts name staticOnly t key ∧
    (forall q us v, Route (directSupertypes facts) recv q us v ->
      Declares facts name staticOnly v key -> p.length ≤ q.length) ∧
    forall s, superclassAt facts p.length recv = some s ->
      Declares facts name staticOnly s key -> s = t

/-- Every candidate that is kept is a nearest declaration of its signature. -/
def NearestKept (found : List (TypeRef × MethodCandidate)) : Prop :=
  forall entry, entry ∈ found -> Nearest facts name staticOnly recv entry.2.key entry.1

/-- Every signature that is declared has a nearest declaration with a route to it that comes
before all routes to declarations that are not nearest: such a route goes through it, or
parts from it towards a supertype that is listed earlier. -/
def NearestMetFirst : Prop :=
  forall key, (exists p v, SimpleRoute (directSupertypes facts) recv p v ∧
      Declares facts name staticOnly v key) ->
    exists t p, SimpleRoute (directSupertypes facts) recv p t ∧
      Nearest facts name staticOnly recv key t ∧
      forall v q, SimpleRoute (directSupertypes facts) recv q v ->
        Declares facts name staticOnly v key -> ¬ Nearest facts name staticOnly recv key v ->
        Precedes p q

/-- The walk takes the last supertype first, so it keeps the nearest declarations exactly
when that order does not reach another one earlier. -/
theorem nearest_kept_iff {objectOnClasspath : Bool} {found : List (TypeRef × MethodCandidate)}
    (hdepth : WithinDepth facts recv)
    (h : candidatesWithTypes facts objectOnClasspath name staticOnly recv = some found) :
    methodCandidates facts objectOnClasspath name staticOnly recv = some (found.map Prod.snd) ∧
      (NearestKept facts name staticOnly recv found <->
        NearestMetFirst facts name staticOnly recv) := by
  refine ⟨by rw [methodCandidates, h, Option.map_some], ?_⟩
  have hkeeps : forall key, (exists t p, KeepsFirst facts name staticOnly recv key found t p) ∨
      ((forall p v, SimpleRoute (directSupertypes facts) recv p v ->
          ¬ Declares facts name staticOnly v key) ∧
        forall entry, entry ∈ found -> entry.2.key ≠ key) := by
    intro key
    have hinitial := Frontier.initial (directSupertypes facts) recv
      (fun t => Declares facts name staticOnly t key)
    apply candidatesFrom_keeps hdepth h (by rfl) hinitial List.not_mem_nil
    intro entry hentry
    cases hentry
  constructor
  · rintro hnearest key ⟨p, v, hroute, hdeclares⟩
    rcases hkeeps key with ⟨t, p', hfirst⟩ | ⟨hnone, _⟩
    · rcases hfirst.kept with ⟨c, hc, hkey⟩
      have ht := hnearest (t, c) hc
      rw [hkey] at ht
      refine ⟨t, p', hfirst.route, ht, ?_⟩
      intro v q hroute hdeclares hfar
      rcases hfirst.least q v hroute hdeclares with heq | hprecedes
      · rw [← heq] at hroute
        rcases hfirst.route with ⟨ts, hts, _⟩
        rcases hroute with ⟨us, hus, _⟩
        rw [(hts.functional hus).2] at ht
        exact absurd ht hfar
      · exact hprecedes
    · exact absurd hdeclares (hnone p v hroute)
  · intro hcondition entry hentry
    rcases hkeeps entry.2.key with ⟨t, p, hfirst⟩ | ⟨_, hnone⟩
    · rw [hfirst.only entry hentry rfl]
      rcases hcondition entry.2.key ⟨p, t, hfirst.route, hfirst.declares⟩ with
        ⟨b, p', hroute, hb, hbefore⟩
      by_contra hfar
      have hprecedes := hbefore t p hfirst.route hfirst.declares hfar
      rcases hfirst.least p' b hroute hb.choose_spec.choose_spec.2.1 with heq | hback
      · rw [heq] at hprecedes
        exact hprecedes.asymm hprecedes
      · exact hprecedes.asymm hback
    · exact absurd rfl (hnone entry hentry)

end Nearest

namespace Diamond

def method (result : TypeRef) : ClassMember where
  name := "m"
  isMethod := true
  metadata := some
    { parameters := some []
      typeParameters := []
      isVarargs := false
      isStatic := false
      result := result }
  retDisplay := none
  signature := "m()"

def factsOf (kind : ClassKind) (supers : List String) (members : List ClassMember) :
    ClassFacts where
  kind := kind
  metadata :=
    { typeParameters := []
      supertypes := supers.map TypeRef.ofName
      hierarchyComplete := true }
  members := members

/-- `class C extends A implements I`, where `I extends J`; `A` and `J` declare `m()`. -/
def table : TypeId -> Option ClassFacts
  | .named "C" => some (factsOf .classType ["A", "I"] [])
  | .named "A" => some (factsOf .classType [] [method (TypeRef.ofName "Narrow")])
  | .named "I" => some (factsOf .interfaceType ["J"] [])
  | .named "J" => some (factsOf .interfaceType [] [method (TypeRef.ofName "Wide")])
  | _ => none

def wide : MethodCandidate where
  metadata :=
    { parameters := some []
      typeParameters := []
      isVarargs := false
      isStatic := false
      result := TypeRef.ofName "Wide" }
  env := []
  inferred := []
  resultDisplay := none
  declaredSignature := some "m()"

theorem walk_keeps_far :
    candidatesWithTypes table true "m" false (TypeRef.ofName "C") =
      some [(TypeRef.ofName "J", wide)] := by
  have hC : visitType table true "m" false (TypeRef.ofName "C") ⟨[], []⟩ =
      some (⟨[], []⟩, [TypeRef.ofName "A", TypeRef.ofName "I"]) := by decide
  have hI : visitType table true "m" false (TypeRef.ofName "I") ⟨[], []⟩ =
      some (⟨[], []⟩, [TypeRef.ofName "J"]) := by decide
  have hJ : visitType table true "m" false (TypeRef.ofName "J") ⟨[], []⟩ =
      some (⟨[[]], [(TypeRef.ofName "J", wide)]⟩, []) := by decide
  have hA : visitType table true "m" false (TypeRef.ofName "A")
      ⟨[[]], [(TypeRef.ofName "J", wide)]⟩ =
      some (⟨[[]], [(TypeRef.ofName "J", wide)]⟩, []) := by decide
  refine (candidatesFrom_visit [] (by decide) hC).trans ?_
  refine (candidatesFrom_visit [(TypeRef.ofName "A", 1)] (by decide) hI).trans ?_
  refine (candidatesFrom_visit [(TypeRef.ofName "A", 1)] (by decide) hJ).trans ?_
  refine (candidatesFrom_visit [] (by decide) hA).trans ?_
  exact candidatesFrom_nil _ _

theorem inherited_from_far_interface :
    exists found, candidatesWithTypes table true "m" false (TypeRef.ofName "C") = some found ∧
      methodCandidates table true "m" false (TypeRef.ofName "C") = some (found.map Prod.snd) ∧
      ¬ NearestKept table "m" false (TypeRef.ofName "C") found := by
  refine ⟨_, walk_keeps_far, by rw [methodCandidates, walk_keeps_far, Option.map_some], ?_⟩
  intro hnearest
  rcases hnearest (TypeRef.ofName "J", wide) List.mem_cons_self with ⟨p, ts, hroute, _, hleast, _⟩
  have hnear := hleast [0] [TypeRef.ofName "C"] (TypeRef.ofName "A")
    (.step rfl (.here _)) ⟨.named "A", [], _, _, rfl, rfl, List.mem_cons_self, rfl, rfl⟩
  have hsupers : directSupertypes table (TypeRef.ofName "C") =
      [TypeRef.ofName "A", TypeRef.ofName "I"] := by decide
  have hself : TypeRef.ofName "J" ≠ TypeRef.ofName "C" := by decide
  have hdirect : TypeRef.ofName "J" ∉ [TypeRef.ofName "A", TypeRef.ofName "I"] := by decide
  generalize TypeRef.ofName "J" = far at hroute hself hdirect
  cases hroute with
  | here => exact hself rfl
  | step hstep rest =>
    rw [hsupers] at hstep
    cases rest with
    | here => exact hdirect (List.mem_of_getElem? hstep)
    | step _ _ => simp at hnear

def narrow : MethodCandidate :=
  { wide with metadata := { wide.metadata with result := TypeRef.ofName "Narrow" } }

theorem withinDepth_of_A : WithinDepth table (TypeRef.ofName "A") := by
  intro p v hroute
  have hlt := hroute.length_lt (S := [TypeRef.ofName "A"]) (by decide) List.mem_cons_self
  simp only [List.length_singleton] at hlt
  omega

theorem own_declaration_met_first : NearestMetFirst table "m" false (TypeRef.ofName "A") := by
  have hA : visitType table true "m" false (TypeRef.ofName "A") ⟨[], []⟩ =
      some (⟨[[]], [(TypeRef.ofName "A", narrow)]⟩, []) := by decide
  have hwalk : candidatesWithTypes table true "m" false (TypeRef.ofName "A") =
      some [(TypeRef.ofName "A", narrow)] :=
    (candidatesFrom_visit [] (by decide) hA).trans (candidatesFrom_nil _ _)
  apply (nearest_kept_iff table "m" false (TypeRef.ofName "A") withinDepth_of_A hwalk).2.mp
  intro entry hentry
  rw [List.mem_singleton.mp hentry]
  refine ⟨[], [], .here _, ⟨.named "A", [], _, _, rfl, rfl, List.mem_cons_self, rfl, rfl⟩, ?_, ?_⟩
  · intro q us v _ _
    exact Nat.zero_le _
  · intro s hs _
    cases hs
    rfl

end Diamond

end Calls

end JavaVsixLite
