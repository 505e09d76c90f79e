import JavaVsixLite.Foundation.Pathnames

/-!
# Steps up in a path

A path is followed component by component, without looking at any file: a name goes
down and `..` takes back the last name.  Where no name is left to take back, the path
climbs above its start.
-/

namespace JavaVsixLite
namespace Foundation
namespace Component

def isDrive : Component -> Bool
  | .drive _ => true
  | _ => false

/-- The components that a path leads to from a base. -/
@[grind =] def resolve (base : List Component) : List Component -> Option (List Component)
  | [] => some base
  | .parent :: rest =>
    match base.getLast? with
    | some (.normal _) => resolve base.dropLast rest
    | _ => none
  | c :: rest => resolve (base ++ [c]) rest

def onto (base : List Component) : List Component -> List Component
  | .drive name :: rest => .drive name :: rest
  | .root :: rest => base.takeWhile isDrive ++ .root :: rest
  | path => base ++ path

/-- Some first part of the path goes up more often than down. -/
def ClimbsAbove (path : List Component) : Prop :=
  exists front, front <+: path ∧ front.countP isNormal < front.count .parent

theorem resolve_parent (base : List Component) (name : Text) (rest : List Component) :
    resolve (base ++ [.normal name]) (.parent :: rest) = resolve base rest := by
  rw [resolve, List.getLast?_concat]
  simp only
  rw [List.dropLast_concat]

theorem resolve_of_ne_parent (base : List Component) {c : Component} (h : c ≠ .parent)
    (rest : List Component) : resolve base (c :: rest) = resolve (base ++ [c]) rest := by
  cases c with
  | parent => exact absurd rfl h
  | _ => rfl

theorem resolve_append (base first second : List Component) :
    resolve base (first ++ second) =
      (resolve base first).bind (fun reached => resolve reached second) := by
  induction first generalizing base with
  | nil => rfl
  | cons c rest ih =>
    by_cases hc : c = .parent
    · subst hc
      rw [List.cons_append, resolve, resolve]
      cases base.getLast? with
      | none => rfl
      | some last =>
        cases last with
        | normal name => exact ih _
        | _ => rfl
    · rw [List.cons_append, resolve_of_ne_parent _ hc, resolve_of_ne_parent _ hc]
      exact ih _

theorem resolve_of_no_parent (base : List Component) {path : List Component}
    (h : forall c, c ∈ path -> c ≠ .parent) : resolve base path = some (base ++ path) := by
  induction path generalizing base with
  | nil => rw [resolve, List.append_nil]
  | cons c rest ih =>
    rw [resolve_of_ne_parent _ (h c List.mem_cons_self),
      ih _ (fun d hd => h d (List.mem_cons_of_mem c hd)), List.append_assoc,
      List.singleton_append]

theorem no_parent_of_resolve {base path out : List Component}
    (hbase : forall c, c ∈ base -> c ≠ .parent) (h : resolve base path = some out) :
    forall c, c ∈ out -> c ≠ .parent := by
  induction path generalizing base with
  | nil =>
    cases h
    exact hbase
  | cons c rest ih =>
    by_cases hc : c = .parent
    · subst hc
      rw [resolve] at h
      split at h
      · exact ih (fun d hd => hbase d (List.mem_of_mem_dropLast hd)) h
      · cases h
    · rw [resolve_of_ne_parent _ hc] at h
      apply ih _ h
      intro d hd
      rcases List.mem_append.mp hd with hold | hnew
      · exact hbase d hold
      · rw [List.mem_singleton.mp hnew]
        exact hc

theorem mem_of_resolve {base path out : List Component} (h : resolve base path = some out) :
    forall c, c ∈ out -> c ∈ base ∨ c ∈ path := by
  induction path generalizing base with
  | nil =>
    cases h
    exact fun c hc => .inl hc
  | cons d rest ih =>
    intro c hc
    by_cases hd : d = .parent
    · subst hd
      rw [resolve] at h
      split at h
      · cases ih h c hc with
        | inl hbase => exact .inl (List.mem_of_mem_dropLast hbase)
        | inr hrest => exact .inr (List.mem_cons_of_mem _ hrest)
      · cases h
    · rw [resolve_of_ne_parent _ hd] at h
      cases ih h c hc with
      | inl hbase =>
        cases List.mem_append.mp hbase with
        | inl hold => exact .inl hold
        | inr hnew =>
          rw [List.mem_singleton.mp hnew]
          exact .inr List.mem_cons_self
      | inr hrest => exact .inr (List.mem_cons_of_mem _ hrest)

theorem resolve_parent_of_anchors {anchors : List Component}
    (h : forall c, c ∈ anchors -> c.isNormal = false) (rest : List Component) :
    resolve anchors (.parent :: rest) = none := by
  rw [resolve]
  cases hlast : anchors.getLast? with
  | none => rfl
  | some last =>
    have hnormal := h last (List.mem_of_getLast? hlast)
    cases last with
    | normal name => cases hnormal
    | _ => rfl

/-!
# Climbing, component by component
-/

/-- As `ClimbsAbove`, when so many names may be taken back. -/
def ClimbsFrom (depth : Nat) (path : List Component) : Prop :=
  exists front, front <+: path ∧ depth + front.countP isNormal < front.count .parent

theorem climbs_iff (path : List Component) : ClimbsAbove path <-> ClimbsFrom 0 path := by
  unfold ClimbsAbove ClimbsFrom
  simp only [Nat.zero_add]

theorem not_climbsFrom_nil (depth : Nat) : ¬ ClimbsFrom depth [] := by
  intro h
  rcases h with ⟨front, hfront, hclimbs⟩
  rw [List.prefix_nil.mp hfront] at hclimbs
  simp at hclimbs

theorem climbsFrom_cons_iff (depth : Nat) (c : Component) (rest : List Component) :
    ClimbsFrom depth (c :: rest) <->
      exists front, front <+: rest ∧
        depth + (c :: front).countP isNormal < (c :: front).count .parent := by
  constructor
  · intro h
    rcases h with ⟨front, hfront, hclimbs⟩
    cases front with
    | nil => simp at hclimbs
    | cons d front =>
      rcases List.cons_prefix_cons.mp hfront with ⟨rfl, htail⟩
      exact ⟨front, htail, hclimbs⟩
  · intro h
    rcases h with ⟨front, hfront, hclimbs⟩
    exact ⟨c :: front, List.cons_prefix_cons.mpr ⟨rfl, hfront⟩, hclimbs⟩

theorem climbsFrom_normal (depth : Nat) (name : Text) (rest : List Component) :
    ClimbsFrom depth (.normal name :: rest) <-> ClimbsFrom (depth + 1) rest := by
  rw [climbsFrom_cons_iff]
  unfold ClimbsFrom
  simp [List.countP_cons, isNormal, Nat.add_assoc, Nat.add_comm 1]

theorem climbsFrom_parent_zero (rest : List Component) : ClimbsFrom 0 (.parent :: rest) := by
  rw [climbsFrom_cons_iff]
  exact ⟨[], List.nil_prefix, by simp [isNormal]⟩

theorem climbsFrom_parent_succ (depth : Nat) (rest : List Component) :
    ClimbsFrom (depth + 1) (.parent :: rest) <-> ClimbsFrom depth rest := by
  rw [climbsFrom_cons_iff]
  unfold ClimbsFrom
  simp [isNormal, Nat.add_right_comm]

theorem climbsFrom_anchor (depth : Nat) {c : Component} (hc : c.isNormal = false)
    (hparent : c ≠ .parent) (rest : List Component) :
    ClimbsFrom depth (c :: rest) <-> ClimbsFrom depth rest := by
  rw [climbsFrom_cons_iff]
  unfold ClimbsFrom
  simp [hc, hparent]

end Component
end Foundation
end JavaVsixLite
