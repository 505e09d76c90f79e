import JavaVsixLite.Subtyping.Simulation

/-!
# Where the arguments of a walk come from

Every climb substitutes the use-site arguments into the arguments of a
supertype.  A wildcard of the use site therefore meets the expected class as an
argument of its own or, without being captured, somewhere inside a larger
argument.  The traced walk remembers which of the two it was.
-/

namespace JavaVsixLite

open Foundation
open Foundation.Verdict

/-!
# Bindings
-/

def boundTo {α : Type} (env : List (TypeVariableId × α))
    (v : TypeVariableId) : Option α :=
  (env.find? (fun entry => entry.1 == v)).map Prod.snd

theorem boundTo_cons {α : Type} (entry : TypeVariableId × α)
    (env : List (TypeVariableId × α)) (v : TypeVariableId) :
    boundTo (entry :: env) v =
      if entry.1 = v then some entry.2 else boundTo env v := by
  unfold boundTo
  by_cases h : entry.1 = v
  · simp [h]
  · simp [h]

theorem boundTo_zip_rel {α β : Type} {P : α -> β -> Prop} {xs : List α}
    {ys : List β} (h : List.Forall₂ P xs ys) (params : List TypeVariableId)
    (v : TypeVariableId) :
    Option.Rel P (boundTo (params.zip xs) v)
      (boundTo (params.zip ys) v) := by
  induction h generalizing params with
  | nil =>
    rw [List.zip_nil_right, List.zip_nil_right]
    exact .none
  | cons hhead _ ih =>
    cases params with
    | nil => exact .none
    | cons param rest =>
      rw [List.zip_cons_cons, List.zip_cons_cons, boundTo_cons,
        boundTo_cons]
      by_cases hparam : param = v
      · simp only [hparam, if_true]
        exact .some hhead
      · simp only [hparam, if_false]
        exact ih rest

theorem mem_of_boundTo {α : Type} {env : List (TypeVariableId × α)}
    {v : TypeVariableId} {x : α} (h : boundTo env v = some x) :
    (v, x) ∈ env := by
  induction env with
  | nil => cases h
  | cons entry rest ih =>
    rw [boundTo_cons] at h
    by_cases hkey : entry.1 = v
    · rw [if_pos hkey] at h
      cases h
      rw [← hkey]
      exact List.mem_cons_self
    · rw [if_neg hkey] at h
      exact List.mem_cons_of_mem entry (ih h)

namespace TypeRef

mutual
def mentioned : TypeRef -> List TypeVariableId
  | .typeVariable v => [v]
  | .named _ args => mentionedArgs args
  | .array element => mentioned element
  | .wildcard upper lower => mentionedBound upper ++ mentionedBound lower
  | _ => []

def mentionedArgs : List TypeRef -> List TypeVariableId
  | [] => []
  | t :: rest => mentioned t ++ mentionedArgs rest

def mentionedBound : Option TypeRef -> List TypeVariableId
  | none => []
  | some t => mentioned t
end

@[simp] theorem mentionedArgs_eq (args : List TypeRef) :
    mentionedArgs args = args.flatMap mentioned := by
  induction args with
  | nil => rfl
  | cons t rest ih => simp [mentionedArgs, ih]

theorem substitute_variable (env : TypeEnv) (v : TypeVariableId) :
    substitute env (.typeVariable v) =
      (boundTo env v).getD (.typeVariable v) := by
  unfold boundTo
  cases hfind : env.find? (fun entry => entry.1 == v) <;>
    simp [substitute, hfind]

theorem substitute_congr {env env' : TypeEnv} (t : TypeRef)
    (h : forall v, v ∈ t.mentioned -> boundTo env v = boundTo env' v) :
    t.substitute env = t.substitute env' := by
  induction t using induct with
  | named id args ih =>
    simp only [substitute, substituteArgs_eq, named.injEq, true_and]
    apply List.map_congr_left
    intro t ht
    apply ih t ht
    intro v hv
    apply h v
    simp only [mentioned, mentionedArgs_eq, List.mem_flatMap]
    exact ⟨t, ht, hv⟩
  | array element ih =>
    simp only [substitute, array.injEq]
    exact ih h
  | typeVariable v =>
    rw [substitute_variable, substitute_variable,
      h v List.mem_cons_self]
  | wildcard upper lower ihu ihl =>
    simp only [substitute, substituteBound_eq, wildcard.injEq]
    simp only [mentioned, List.mem_append] at h
    constructor
    · cases upper with
      | none => rfl
      | some u =>
        rw [Option.map_some, Option.map_some,
          ihu u rfl (fun v hv => h v (Or.inl hv))]
    · cases lower with
      | none => rfl
      | some l =>
        rw [Option.map_some, Option.map_some,
          ihl l rfl (fun v hv => h v (Or.inr hv))]
  | _ => rfl

end TypeRef

/-!
# Traced arguments
-/

/--
An argument is fixed when no wildcard of the use site reached it, it may be such
a wildcard itself, and otherwise one lies buried inside it.
-/
inductive Origin where
  | fixed
  | wildcard
  | buried
deriving DecidableEq

abbrev Traced := Origin × TypeRef

def useSiteOrigin : TypeRef -> Origin
  | .wildcard _ _ => .wildcard
  | _ => .fixed

def traced (args : List TypeRef) : List Traced :=
  args.map (fun t => (useSiteOrigin t, t))

def variableOrigin (env : List (TypeVariableId × Traced))
    (v : TypeVariableId) : Origin :=
  ((boundTo env v).map Prod.fst).getD .fixed

/-- The origin of a supertype's argument under traced use-site arguments. -/
def argumentOrigin (env : List (TypeVariableId × Traced)) : TypeRef -> Origin
  | .typeVariable v => variableOrigin env v
  | t =>
    if t.mentioned.all (fun v => variableOrigin env v == .fixed) then .fixed
    else .buried

namespace ClassMetadata

def instanceArgs (facts : ClassMetadata) (args supArgs : List TypeRef) :
    List TypeRef :=
  if facts.isRaw args then []
  else supArgs.map (TypeRef.substitute (facts.environment args))

def tracedArgs (facts : ClassMetadata) (args : List Traced)
    (supArgs : List TypeRef) : List Traced :=
  if facts.isRaw (args.map Prod.snd) then []
  else
    supArgs.map (fun s =>
      (argumentOrigin ((facts.typeParameters.map (fun p => p.id)).zip args) s,
        s.substitute (facts.environment (args.map Prod.snd))))

theorem tracedArgs_map_snd (facts : ClassMetadata) (args : List Traced)
    (supArgs : List TypeRef) :
    (facts.tracedArgs args supArgs).map Prod.snd =
      facts.instanceArgs (args.map Prod.snd) supArgs := by
  unfold tracedArgs instanceArgs
  cases facts.isRaw (args.map Prod.snd) <;> simp

theorem superInstance_named (facts : ClassMetadata) (args : List TypeRef)
    (id : TypeId) (supArgs : List TypeRef) :
    (if facts.isRaw args then (TypeRef.named id supArgs).erase
      else (TypeRef.named id supArgs).substitute (facts.environment args)) =
      .named id (facts.instanceArgs args supArgs) := by
  unfold instanceArgs
  cases facts.isRaw args <;> simp [TypeRef.erase, TypeRef.substitute]

theorem superInstance_mem {facts : ClassMetadata} {id : TypeId}
    {supArgs : List TypeRef} (h : .named id supArgs ∈ facts.supertypes)
    (args : List TypeRef) :
    .named id (facts.instanceArgs args supArgs) ∈ facts.superInstances args :=
  List.mem_map.mpr ⟨_, h, superInstance_named facts args id supArgs⟩

end ClassMetadata

def tracedViews (T : ClassTable) (target : TypeId) :
    Nat -> List TypeRef -> TypeId -> List Traced -> List (List Traced)
  | 0, _, _, _ => []
  | budget + 1, seen, id, args =>
    match walkRule T target budget seen (.named id (args.map Prod.snd)) with
    | .stops _ => []
    | .meets _ => [args]
    | .climbs facts _ =>
      facts.supertypes.flatMap (fun sup =>
        match sup with
        | .named supId supArgs =>
          tracedViews T target budget
            (.named id (args.map Prod.snd) :: seen) supId
            (facts.tracedArgs args supArgs)
        | _ => [])

theorem tracedViews_succ (T : ClassTable) (target : TypeId) (budget : Nat)
    (seen : List TypeRef) (id : TypeId) (args : List Traced) :
    tracedViews T target (budget + 1) seen id args =
      match walkRule T target budget seen (.named id (args.map Prod.snd)) with
      | .stops _ => []
      | .meets _ => [args]
      | .climbs facts _ =>
        facts.supertypes.flatMap (fun sup =>
          match sup with
          | .named supId supArgs =>
            tracedViews T target budget
              (.named id (args.map Prod.snd) :: seen) supId
              (facts.tracedArgs args supArgs)
          | _ => []) := rfl

/-!
# Two uses of one class

A second use of a class follows a traced one when its arguments are the traced
ones wherever these are fixed, and stand in a given relation to the wildcards.
-/

inductive Follows (R : TypeRef -> TypeRef -> Prop) :
    Traced -> TypeRef -> Prop where
  | fixed (t : TypeRef) : Follows R (.fixed, t) t
  | wildcard {t t' : TypeRef} : R t' t -> Follows R (.wildcard, t) t'
  | buried (t t' : TypeRef) : Follows R (.buried, t) t'

def FollowsArgs (R : TypeRef -> TypeRef -> Prop) (args : List Traced)
    (args' : List TypeRef) : Prop :=
  args = [] ∨ List.Forall₂ (Follows R) args args'

variable {R : TypeRef -> TypeRef -> Prop}

theorem follows_unbound (v : TypeVariableId)
    {binding : Option Traced} {binding' : Option TypeRef}
    (h : Option.Rel (Follows R) binding binding') :
    Follows R ((binding.map Prod.fst).getD .fixed,
        (binding.map Prod.snd).getD (.typeVariable v))
      (binding'.getD (.typeVariable v)) := by
  cases h with
  | none => exact .fixed _
  | some hfollows => exact hfollows

theorem boundTo_map_snd (env : List (TypeVariableId × Traced))
    (v : TypeVariableId) :
    boundTo (env.map (fun entry => (entry.1, entry.2.2))) v =
      (boundTo env v).map Prod.snd := by
  induction env with
  | nil => rfl
  | cons entry rest ih =>
    rw [List.map_cons, boundTo_cons, boundTo_cons, ih]
    by_cases hkey : entry.1 = v
    · simp [hkey]
    · simp [hkey]

theorem eq_of_variableOrigin_fixed {env : List (TypeVariableId × Traced)}
    {env' : TypeEnv} {v : TypeVariableId}
    (hrel : Option.Rel (Follows R) (boundTo env v) (boundTo env' v))
    (hfixed : variableOrigin env v = .fixed) :
    (boundTo env v).map Prod.snd = boundTo env' v := by
  unfold variableOrigin at hfixed
  generalize boundTo env v = binding at hrel hfixed ⊢
  generalize boundTo env' v = binding' at hrel ⊢
  cases hrel with
  | none => rfl
  | some hfollows =>
    cases hfollows with
    | fixed t => rfl
    | wildcard _ => cases hfixed
    | buried _ _ => cases hfixed

theorem substitute_follows {env : List (TypeVariableId × Traced)}
    {env' : TypeEnv}
    (hrel : forall v,
      Option.Rel (Follows R) (boundTo env v) (boundTo env' v))
    (s : TypeRef) :
    Follows R
      (argumentOrigin env s,
        s.substitute (env.map (fun entry => (entry.1, entry.2.2))))
      (s.substitute env') := by
  unfold argumentOrigin
  split
  · rename_i v
    rw [TypeRef.substitute_variable, TypeRef.substitute_variable,
      boundTo_map_snd]
    exact follows_unbound v (hrel v)
  · split
    · rename_i hall
      have heq : s.substitute (env.map (fun entry => (entry.1, entry.2.2))) =
          s.substitute env' := by
        apply TypeRef.substitute_congr
        intro v hv
        rw [boundTo_map_snd]
        apply eq_of_variableOrigin_fixed (hrel v)
        exact eq_of_beq (List.all_eq_true.mp hall v hv)
      rw [heq]
      exact .fixed _
    · exact .buried _ _

theorem environment_map_snd (facts : ClassMetadata) (args : List Traced) :
    facts.environment (args.map Prod.snd) =
      ((facts.typeParameters.map (fun p => p.id)).zip args).map
        (fun entry => (entry.1, entry.2.2)) := by
  unfold ClassMetadata.environment
  rw [List.zip_map_right]
  rfl

theorem isRaw_of_forall₂ {args : List Traced} {args' : List TypeRef}
    (h : List.Forall₂ (Follows R) args args') (facts : ClassMetadata) :
    facts.isRaw args' = facts.isRaw (args.map Prod.snd) := by
  cases h <;> rfl

theorem followsArgs_climb {args : List Traced} {args' : List TypeRef}
    (h : FollowsArgs R args args') (facts : ClassMetadata)
    (supArgs : List TypeRef) :
    FollowsArgs R (facts.tracedArgs args supArgs)
      (facts.instanceArgs args' supArgs) := by
  have hclimb : forall args : List Traced,
      (forall v, Option.Rel (Follows R)
        (boundTo ((facts.typeParameters.map (fun p => p.id)).zip args) v)
        (boundTo (facts.environment args') v)) ->
      List.Forall₂ (Follows R)
        (supArgs.map (fun s =>
          (argumentOrigin
              ((facts.typeParameters.map (fun p => p.id)).zip args) s,
            s.substitute (facts.environment (args.map Prod.snd)))))
        (supArgs.map (TypeRef.substitute (facts.environment args'))) := by
    intro args hrel
    rw [List.forall₂_map_left_iff, List.forall₂_map_right_iff,
      environment_map_snd]
    exact List.forall₂_same.mpr (fun s _ => substitute_follows hrel s)
  unfold FollowsArgs ClassMetadata.tracedArgs ClassMetadata.instanceArgs
  rcases h with hnil | hall
  · subst hnil
    cases hparams : facts.typeParameters with
    | cons p rest =>
      left
      simp [ClassMetadata.isRaw, hparams]
    | nil =>
      right
      have hraw : forall ts : List TypeRef, facts.isRaw ts = false := by
        intro ts
        simp [ClassMetadata.isRaw, hparams]
      rw [hraw, hraw]
      have henv : facts.environment args' = [] := by
        simp [ClassMetadata.environment, hparams]
      have hrows := hclimb [] (by
        intro v
        rw [henv, List.zip_nil_right]
        exact .none)
      rw [hparams] at hrows
      exact hrows
  · rw [isRaw_of_forall₂ hall facts]
    cases facts.isRaw (args.map Prod.snd) with
    | true =>
      left
      rfl
    | false =>
      right
      exact hclimb args (boundTo_zip_rel hall _)

end JavaVsixLite
