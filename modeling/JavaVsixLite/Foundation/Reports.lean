import Mathlib.Algebra.GroupWithZero.Nat
import Mathlib.Data.List.Nodup

/-!
# Collected reports

A walk over the nodes of a tree collects what is reported at each of them.  The nodes
still to visit are on a stack, so the last child is visited first, and the walk ends
once the limit is reached.  Cut off at the limit, the outcome is the list of all reports
in the order of the visits.
-/

namespace JavaVsixLite
namespace Foundation

universe u v

/-!
# A walk with a stack
-/

section Walk

variable {α : Type u} {β : Type v}

def stackWalk (children : α -> List α) (report : α -> List β) (limit : Nat) :
    Nat -> List α -> List β -> List β
  | 0, _, out => out
  | _ + 1, [], out => out
  | fuel + 1, x :: stack, out =>
    if limit ≤ out.length then out
    else stackWalk children report limit fuel ((children x).reverse ++ stack) (out ++ report x)

variable {children : α -> List α} {report : α -> List β} {limit : Nat}

/-- The reports of a node and of everything below it, in the order of the walk. -/
def reportsOf (report : α -> List β) (visits : α -> List α) (stack : List α) : List β :=
  (stack.flatMap visits).flatMap report

theorem reportsOf_cons (visits : α -> List α)
    (hvisits : forall x, visits x = x :: (children x).reverse.flatMap visits) (x : α)
    (stack : List α) :
    reportsOf report visits (x :: stack) =
      report x ++ reportsOf report visits ((children x).reverse ++ stack) := by
  unfold reportsOf
  rw [List.flatMap_cons, hvisits x, List.cons_append, List.flatMap_cons, <- List.flatMap_append]

theorem take_stackWalk (size : α -> Nat) (visits : α -> List α)
    (hsize : forall x, ((children x).map size).sum < size x)
    (hvisits : forall x, visits x = x :: (children x).reverse.flatMap visits) (fuel : Nat)
    (stack : List α) (out : List β) (hfuel : (stack.map size).sum ≤ fuel) :
    (stackWalk children report limit fuel stack out).take limit =
      (out ++ reportsOf report visits stack).take limit := by
  induction fuel generalizing stack out with
  | zero =>
    cases stack with
    | nil => simp [stackWalk, reportsOf]
    | cons x stack =>
      have hpos := hsize x
      rw [List.map_cons, List.sum_cons] at hfuel
      omega
  | succ fuel ih =>
    cases stack with
    | nil => simp [stackWalk, reportsOf]
    | cons x stack =>
      rw [stackWalk]
      split
      · rename_i hfull
        rw [List.take_append_of_le_length hfull]
      · have hrest : ((((children x).reverse ++ stack)).map size).sum ≤ fuel := by
          have hx := hsize x
          rw [List.map_cons, List.sum_cons] at hfuel
          rw [List.map_append, List.sum_append, List.map_reverse, List.sum_reverse]
          omega
        rw [ih _ _ hrest, reportsOf_cons visits hvisits, List.append_assoc]

theorem take_reports_eq_nil_iff (hlimit : 0 < limit) {visits : α -> List α} {out : List β}
    {x : α} :
    (out ++ reportsOf report visits [x]).take limit = [] <->
      out = [] ∧ forall y, y ∈ visits x -> report y = [] := by
  have hzero : limit ≠ 0 := Nat.ne_of_gt hlimit
  simp [List.take_eq_nil_iff, hzero, reportsOf]

end Walk

/-!
# Repeated keys
-/

section Repeats

variable {α : Type u} {κ : Type v} [DecidableEq κ]

def repeats (key : α -> κ) : List κ -> List α -> List α
  | _, [] => []
  | seen, x :: rest =>
    if key x ∈ seen then x :: repeats key seen rest
    else repeats key (key x :: seen) rest

variable {key : α -> κ}

theorem repeats_sublist {seen : List κ} {xs : List α} : (repeats key seen xs).Sublist xs := by
  induction xs generalizing seen with
  | nil => exact List.Sublist.refl []
  | cons x rest ih =>
    rw [repeats]
    split
    · exact ih.cons_cons x
    · exact ih.cons x

theorem repeats_eq_nil_iff_disjoint {seen : List κ} {xs : List α} :
    repeats key seen xs = [] <-> (xs.map key).Nodup ∧ forall x, x ∈ xs -> key x ∉ seen := by
  induction xs generalizing seen with
  | nil => simp [repeats]
  | cons x rest ih =>
    rw [repeats]
    split
    · rename_i hseen
      constructor
      · intro hnil
        cases hnil
      · intro hfree
        exact absurd hseen (hfree.2 x List.mem_cons_self)
    · rename_i hseen
      rw [ih, List.map_cons, List.nodup_cons, List.mem_map]
      constructor
      · intro h
        constructor
        · constructor
          · intro hmem
            rcases hmem with ⟨y, hy, heq⟩
            exact h.2 y hy (heq ▸ List.mem_cons_self)
          · exact h.1
        · intro y hy
          cases hy with
          | head => exact hseen
          | tail _ hy => exact fun hmem => h.2 y hy (List.mem_cons_of_mem _ hmem)
      · intro h
        constructor
        · exact h.1.2
        · intro y hy hmem
          rcases List.mem_cons.mp hmem with heq | hmem
          · exact h.1.1 ⟨y, hy, heq⟩
          · exact h.2 y (List.mem_cons_of_mem x hy) hmem

theorem repeats_eq_nil_iff {xs : List α} : repeats key [] xs = [] <-> (xs.map key).Nodup := by
  simp [repeats_eq_nil_iff_disjoint]

omit [DecidableEq κ] in
theorem sublist_map_filterMap {γ : Type*} {f : α -> Option γ} {g : γ -> κ}
    (h : forall x y, f x = some y -> g y = key x) (xs : List α) :
    ((xs.filterMap f).map g).Sublist (xs.map key) := by
  induction xs with
  | nil => exact List.Sublist.refl []
  | cons x rest ih =>
    rw [List.filterMap_cons, List.map_cons]
    cases hx : f x with
    | none => exact ih.cons (key x)
    | some y =>
      rw [List.map_cons, h x y hx]
      exact ih.cons_cons (key x)

end Repeats

end Foundation
end JavaVsixLite
