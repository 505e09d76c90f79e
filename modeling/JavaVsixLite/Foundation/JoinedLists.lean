import Mathlib.Data.List.Basic
import Mathlib.Data.List.Forall2

/-!
# Lists joined at a separator

Pieces without the separator can be read back from their join.  A join of joins is
one join of all the pieces.  Pieces may carry a tag that is written behind them; a
tag that starts with an element no piece contains can be read back too.  Words are the pieces
that are not empty.
-/

namespace JavaVsixLite
namespace Foundation

universe u v

variable {α : Type u}

/-!
# Joins
-/

theorem intercalate_append (sep : List α) {xs ys : List (List α)} (hxs : xs ≠ []) (hys : ys ≠ []) :
    sep.intercalate (xs ++ ys) = sep.intercalate xs ++ sep ++ sep.intercalate ys := by
  induction xs with
  | nil => exact absurd rfl hxs
  | cons x rest ih =>
    cases rest with
    | nil =>
      rw [List.singleton_append, List.intercalate_cons_of_ne_nil hys, List.intercalate_singleton]
    | cons y rest =>
      rw [List.cons_append, List.intercalate_cons_of_ne_nil (by simp),
        ih (List.cons_ne_nil y rest), List.intercalate_cons_of_ne_nil (List.cons_ne_nil y rest)]
      simp only [List.append_assoc]

theorem intercalate_flatten (sep : List α) {groups : List (List (List α))}
    (h : forall group, group ∈ groups -> group ≠ []) :
    sep.intercalate (groups.map (fun group => sep.intercalate group)) =
      sep.intercalate groups.flatten := by
  induction groups with
  | nil => rfl
  | cons group rest ih =>
    have hrest := ih (fun g hg => h g (List.mem_cons_of_mem _ hg))
    cases rest with
    | nil => simp
    | cons next rest =>
      have hnext : (next :: rest).flatten ≠ [] := by
        intro hnil
        exact h next (by simp) (List.flatten_eq_nil_iff.mp hnil next List.mem_cons_self)
      rw [List.map_cons, List.intercalate_cons_of_ne_nil (by simp), hrest,
        List.flatten_cons (l := group),
        intercalate_append sep (h group List.mem_cons_self) hnext]

theorem intercalate_ne_nil {sep x : List α} {rest : List (List α)} (hx : x ≠ []) :
    sep.intercalate (x :: rest) ≠ [] := by
  cases rest with
  | nil => simpa using hx
  | cons y rest => simp [List.intercalate_cons_of_ne_nil, hx]

theorem mem_intercalate {sep piece : List α} {pieces : List (List α)} (hpiece : piece ∈ pieces)
    {a : α} (ha : a ∈ piece) : a ∈ sep.intercalate pieces := by
  induction pieces with
  | nil => exact absurd hpiece List.not_mem_nil
  | cons first rest ih =>
    cases rest with
    | nil =>
      rw [List.mem_singleton.mp hpiece] at ha
      simpa using ha
    | cons next rest =>
      rw [List.intercalate_cons_of_ne_nil (List.cons_ne_nil next rest)]
      rcases List.mem_cons.mp hpiece with heq | hrest
      · rw [heq] at ha
        exact List.mem_append_left _ (List.mem_append_left _ ha)
      · exact List.mem_append_right _ (ih hrest)

theorem eq_of_map_eq {β : Type v} {f : α -> β} {xs ys : List α}
    (hf : forall x, x ∈ xs -> forall y, y ∈ ys -> f x = f y -> x = y)
    (h : xs.map f = ys.map f) : xs = ys := by
  induction xs generalizing ys with
  | nil => exact (List.map_eq_nil_iff.mp h.symm).symm
  | cons x xs ih =>
    cases ys with
    | nil => cases h
    | cons y ys =>
      rw [List.map_cons, List.map_cons, List.cons.injEq] at h
      rw [hf x List.mem_cons_self y List.mem_cons_self h.1,
        ih (fun x hx y hy => hf x (List.mem_cons_of_mem _ hx) y (List.mem_cons_of_mem _ hy)) h.2]

/-!
# Pieces
-/

theorem mem_of_mem_splitOnP {p : α -> Bool} {xs piece : List α} (h : piece ∈ xs.splitOnP p) :
    forall c, c ∈ piece -> c ∈ xs ∧ p c = false := by
  induction xs generalizing piece with
  | nil =>
    rw [List.splitOnP_nil, List.mem_singleton] at h
    rw [h]
    exact fun c hc => absurd hc List.not_mem_nil
  | cons first rest ih =>
    intro c hc
    rw [List.splitOnP_cons_eq_if_modifyHead] at h
    split at h
    · rcases List.mem_cons.mp h with rfl | hpiece
      · exact absurd hc List.not_mem_nil
      · exact (ih hpiece c hc).imp_left (List.mem_cons_of_mem first)
    · rename_i hfirst
      cases hsplit : rest.splitOnP p with
      | nil => exact absurd hsplit (List.splitOnP_ne_nil p rest)
      | cons head tail =>
        rw [hsplit, List.modifyHead_cons] at h
        rw [hsplit] at ih
        rcases List.mem_cons.mp h with rfl | hpiece
        · rcases List.mem_cons.mp hc with rfl | hc
          · exact ⟨List.mem_cons_self, by simpa using hfirst⟩
          · exact (ih List.mem_cons_self c hc).imp_left (List.mem_cons_of_mem first)
        · exact (ih (List.mem_cons_of_mem head hpiece) c hc).imp_left
            (List.mem_cons_of_mem first)

section Separators

variable [DecidableEq α] {c : α}

theorem notMem_of_mem_splitOn {xs piece : List α} (h : piece ∈ xs.splitOn c) : c ∉ piece := by
  rw [List.splitOn_eq_splitOnP] at h
  intro hc
  have hother := (mem_of_mem_splitOnP h c hc).2
  rw [beq_self_eq_true] at hother
  cases hother

theorem intercalate_injective {xs ys : List (List α)} (hxs : xs ≠ []) (hys : ys ≠ [])
    (hcx : forall x, x ∈ xs -> c ∉ x) (hcy : forall y, y ∈ ys -> c ∉ y)
    (h : [c].intercalate xs = [c].intercalate ys) : xs = ys := by
  rw [← List.splitOn_intercalate c hcx hxs, h, List.splitOn_intercalate c hcy hys]

end Separators

/-!
# Related lists
-/

theorem forall₂_mem_left {β : Type v} {R : α -> β -> Prop} {xs : List α}
    {ys : List β} (h : List.Forall₂ R xs ys) {x : α} (hx : x ∈ xs) :
    exists y, y ∈ ys ∧ R x y := by
  induction h with
  | nil => cases hx
  | cons hhead _ ih =>
    rcases List.mem_cons.mp hx with heq | htail
    · rw [heq]
      exact ⟨_, List.mem_cons_self, hhead⟩
    · rcases ih htail with ⟨y, hy, hR⟩
      exact ⟨y, List.mem_cons_of_mem _ hy, hR⟩

theorem forall₂_mem_right {β : Type v} {R : α -> β -> Prop} {xs : List α}
    {ys : List β} (h : List.Forall₂ R xs ys) {y : β} (hy : y ∈ ys) :
    exists x, x ∈ xs ∧ R x y :=
  forall₂_mem_left h.flip hy

/-!
# Words
-/

/-- `str::split_whitespace`, for any property of the elements between the words. -/
def words (p : α -> Bool) (xs : List α) : List (List α) :=
  (xs.splitOnP p).filter (fun piece => !piece.isEmpty)

theorem flatten_splitOnP (p : α -> Bool) (xs : List α) :
    (xs.splitOnP p).flatten = xs.filter (fun a => !p a) := by
  induction xs with
  | nil => rfl
  | cons a rest ih =>
    rw [List.splitOnP_cons_eq_if_modifyHead]
    by_cases ha : p a = true
    · rw [if_pos ha, List.filter_cons_of_neg (by simp [ha]), ← ih]
      rfl
    · rw [if_neg ha, List.filter_cons_of_pos (by simp [ha]), ← ih]
      cases hsplit : rest.splitOnP p with
      | nil => exact absurd hsplit (List.splitOnP_ne_nil p rest)
      | cons head tail => simp

theorem flatten_words (p : α -> Bool) (xs : List α) :
    (words p xs).flatten = xs.filter (fun a => !p a) := by
  rw [words, List.flatten_filter_not_isEmpty, flatten_splitOnP]

/-!
# Tags
-/

section Tags

variable {τ : Type v}

/-- The last element gets the tag `last`, those before it the tag `inner`. -/
def tagLast (inner last : τ) : List α -> List (α × τ)
  | [] => []
  | [a] => [(a, last)]
  | a :: b :: rest => (a, inner) :: tagLast inner last (b :: rest)

theorem map_fst_tagLast (inner last : τ) (xs : List α) :
    (tagLast inner last xs).map Prod.fst = xs := by
  induction xs with
  | nil => rfl
  | cons a rest ih =>
    cases rest with
    | nil => rfl
    | cons b rest => rw [tagLast, List.map_cons, ih]

theorem mem_of_mem_tagLast {inner last : τ} {xs : List α} {tagged : α × τ}
    (h : tagged ∈ tagLast inner last xs) : tagged.1 ∈ xs := by
  rw [← map_fst_tagLast inner last xs]
  exact List.mem_map_of_mem h

theorem tagLast_ne_nil {inner last : τ} {xs : List α} (h : xs ≠ []) :
    tagLast inner last xs ≠ [] := by
  intro hnil
  apply h
  rw [← map_fst_tagLast inner last xs, hnil, List.map_nil]

theorem intercalate_tagLast (sep : List α) (write : τ -> List α) {inner last : τ}
    (hinner : write inner = []) {pieces : List (List α)} (h : pieces ≠ []) :
    sep.intercalate ((tagLast inner last pieces).map (fun tagged => tagged.1 ++ write tagged.2)) =
      sep.intercalate pieces ++ write last := by
  induction pieces with
  | nil => exact absurd rfl h
  | cons piece rest ih =>
    cases rest with
    | nil => simp [tagLast]
    | cons next rest =>
      have hrest := ih (List.cons_ne_nil next rest)
      rw [tagLast, List.map_cons, List.intercalate_cons_of_ne_nil (by
        simpa using tagLast_ne_nil (List.cons_ne_nil next rest)), hrest,
        List.intercalate_cons_of_ne_nil (List.cons_ne_nil next rest), hinner]
      simp only [List.append_nil, List.append_assoc]

theorem tagged_injective [DecidableEq α] {write : τ -> List α} {mark : α}
    (hmark : forall t, write t = [] ∨ (write t).head? = some mark)
    (hwrite : forall s t, write s = write t -> s = t) {x y : List α × τ}
    (hx : mark ∉ x.1) (hy : mark ∉ y.1) (h : x.1 ++ write x.2 = y.1 ++ write y.2) : x = y := by
  have hbody : forall z : List α × τ, mark ∉ z.1 ->
      (z.1 ++ write z.2).takeWhile (fun a => a != mark) = z.1 := by
    intro z hz
    have hall : forall a, a ∈ z.1 -> (a != mark) = true :=
      fun a ha => bne_iff_ne.mpr (fun heq => hz (heq ▸ ha))
    rw [List.takeWhile_append_of_pos hall]
    rcases hmark z.2 with hnil | hhead
    · rw [hnil, List.takeWhile_nil, List.append_nil]
    · rcases List.head?_eq_some_iff.mp hhead with ⟨rest, hrest⟩
      rw [hrest, List.takeWhile_cons_of_neg (by simp), List.append_nil]
  have hfst : x.1 = y.1 := by
    rw [← hbody x hx, h, hbody y hy]
  rw [hfst] at h
  exact Prod.ext hfst (hwrite _ _ (List.append_cancel_left h))

end Tags

end Foundation
end JavaVsixLite
