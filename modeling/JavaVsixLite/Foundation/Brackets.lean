import Mathlib.Data.List.Infix
import Mathlib.Algebra.BigOperators.Group.List.Basic
import Mathlib.Algebra.Order.Group.Int
import Mathlib.Algebra.Ring.Int.Defs

/-!
# Brackets and their depth

A weight says of every element whether it opens a bracket, closes one, or does neither.
The depth of a list is the sum of its weights.  A list is nested when it closes all it
opens and every prefix has a depth of a given kind; it is balanced when no prefix closes
more than it opens.  Nested lists can be joined.  The depth of a balanced list never gets
past half of its length, so that a counter of fixed width does not return to zero inside
of a bracket.
-/

namespace JavaVsixLite
namespace Foundation

universe u

variable {α : Type u}

def depth (weight : α -> Int) (xs : List α) : Int :=
  (xs.map weight).sum

/-- All brackets are closed at the end, and on the way there the depth is as `P` says. -/
structure Nested (weight : α -> Int) (P : Int -> Prop) (xs : List α) : Prop where
  inside : forall front, front <+: xs -> P (depth weight front)
  closed : depth weight xs = 0

/-- No bracket is closed before it is opened, and all are closed at the end. -/
abbrev Balanced (weight : α -> Int) (xs : List α) : Prop :=
  Nested weight (fun n => 0 ≤ n) xs

/-- A bracket that is opened adds one, a bracket that is closed takes it back. -/
def UnitWeight (weight : α -> Int) : Prop :=
  forall a, -1 ≤ weight a ∧ weight a ≤ 1

section

variable {weight first second : α -> Int} {P Q : Int -> Prop} {xs ys : List α}

@[simp] theorem depth_nil : depth weight [] = 0 := rfl

@[simp] theorem depth_cons (a : α) (xs : List α) :
    depth weight (a :: xs) = weight a + depth weight xs := by
  simp [depth]

@[simp] theorem depth_append (xs ys : List α) :
    depth weight (xs ++ ys) = depth weight xs + depth weight ys := by
  simp [depth]

theorem depth_add (xs : List α) :
    depth (fun a => first a + second a) xs = depth first xs + depth second xs := by
  induction xs with
  | nil => rfl
  | cons a rest ih =>
    rw [depth_cons, depth_cons, depth_cons, ih]
    omega

theorem Nested.mono (hPQ : forall n, P n -> Q n) (h : Nested weight P xs) : Nested weight Q xs :=
  ⟨fun front hfront => hPQ _ (h.inside front hfront), h.closed⟩

theorem nested_of_plain (hzero : P 0) (h : forall a, a ∈ xs -> weight a = 0) :
    Nested weight P xs := by
  have hdepth : forall ys, ys <+: xs -> depth weight ys = 0 := by
    intro ys hys
    apply List.sum_eq_zero
    intro n hn
    rcases List.mem_map.mp hn with ⟨a, ha, rfl⟩
    exact h a (hys.subset ha)
  refine ⟨?_, hdepth xs (List.prefix_refl xs)⟩
  intro front hfront
  rw [hdepth front hfront]
  exact hzero

theorem Nested.append (hxs : Nested weight P xs) (hys : Nested weight P ys) :
    Nested weight P (xs ++ ys) := by
  constructor
  · intro front hfront
    rcases List.prefix_or_prefix_of_prefix hfront (List.prefix_append xs ys) with hin | hover
    · exact hxs.inside front hin
    · rcases hover with ⟨more, rfl⟩
      rw [depth_append, hxs.closed, Int.zero_add]
      exact hys.inside more ((List.prefix_append_right_inj xs).mp hfront)
  · rw [depth_append, hxs.closed, hys.closed, Int.add_zero]

theorem Nested.intercalate {sep : List α} {pieces : List (List α)} (hsep : Nested weight P sep)
    (h : forall piece, piece ∈ pieces -> Nested weight P piece) :
    Nested weight P (sep.intercalate pieces) := by
  have hzero : P 0 := hsep.inside [] List.nil_prefix
  induction pieces with
  | nil => exact nested_of_plain hzero (fun a ha => absurd ha List.not_mem_nil)
  | cons piece rest ih =>
    have hpiece := h piece List.mem_cons_self
    cases rest with
    | nil =>
      rw [List.intercalate_singleton]
      exact hpiece
    | cons next rest =>
      rw [List.intercalate_cons_of_ne_nil (List.cons_ne_nil next rest)]
      exact (hpiece.append hsep).append
        (ih (fun other hother => h other (List.mem_cons_of_mem _ hother)))

theorem balanced_add (hfirst : Balanced first xs) (hsecond : Balanced second xs) :
    Balanced (fun a => first a + second a) xs := by
  constructor
  · intro front hfront
    rw [depth_add]
    exact Int.add_nonneg (hfirst.inside front hfront) (hsecond.inside front hfront)
  · rw [depth_add, hfirst.closed, hsecond.closed, Int.add_zero]

theorem depth_bounds (hunit : UnitWeight weight) (xs : List α) :
    -(xs.length : Int) ≤ depth weight xs ∧ depth weight xs ≤ xs.length := by
  induction xs with
  | nil => exact ⟨Int.le_refl 0, Int.le_refl 0⟩
  | cons a rest ih =>
    have ha := hunit a
    rw [depth_cons, List.length_cons]
    omega

theorem nested_of_balanced (hunit : UnitWeight weight) (h : Balanced weight xs) :
    Nested weight (fun n => 0 ≤ n ∧ 2 * n ≤ xs.length) xs := by
  refine ⟨?_, h.closed⟩
  intro front hfront
  refine ⟨h.inside front hfront, ?_⟩
  rcases hfront with ⟨back, rfl⟩
  have hclosed := h.closed
  have hopens := depth_bounds hunit front
  have hcloses := depth_bounds hunit back
  rw [depth_append] at hclosed
  rw [List.length_append]
  omega

end

/-!
# Counters of 32 bits
-/

theorem ofInt_eq_zero_iff {n : Int} (hpos : 0 ≤ n) (hlt : n < 4294967296) :
    Int32.ofInt n = 0 <-> n = 0 := by
  constructor
  · intro h
    have htoInt := congrArg Int32.toInt h
    rw [Int32.toInt_ofInt] at htoInt
    have hzero : n.bmod Int32.size = 0 := htoInt
    have hdvd := Int.dvd_of_bmod_eq_zero hzero
    have hsize : (Int32.size : Int) = 4294967296 := rfl
    rw [hsize] at hdvd
    omega
  · rintro rfl
    rfl

end Foundation
end JavaVsixLite
