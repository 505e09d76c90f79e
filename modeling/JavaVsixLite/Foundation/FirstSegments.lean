import Mathlib.Data.List.Infix
import Mathlib.Data.List.Lex
import Mathlib.Data.List.TakeWhile
import Mathlib.Order.Lattice

/-!
# First segments of words

Words are read up to a separator.  In a sorted list of words the first segments are
in order too, except where a letter below the separator follows: then the words with
the longer segment stand between those with the shorter one.
-/

namespace JavaVsixLite
namespace Foundation

universe u

variable {α : Type u} [LinearOrder α]

def firstSegment (sep : α) (word : List α) : List α :=
  word.takeWhile (fun a => a != sep)

variable {sep : α}

theorem firstSegment_cons_self (rest : List α) : firstSegment sep (sep :: rest) = [] := by
  simp [firstSegment]

theorem firstSegment_cons_of_ne {a : α} (h : a ≠ sep) (rest : List α) :
    firstSegment sep (a :: rest) = a :: firstSegment sep rest := by
  simp [firstSegment, h]

variable (sep) in
theorem notMem_firstSegment (word : List α) : sep ∉ firstSegment sep word := by
  intro hmem
  have hne := List.mem_takeWhile_imp hmem
  simp at hne

theorem firstSegment_of_notMem {word : List α} (h : sep ∉ word) : firstSegment sep word = word := by
  unfold firstSegment
  rw [List.takeWhile_eq_self_iff]
  intro a ha
  simp only [bne_iff_ne, ne_eq]
  intro heq
  rw [heq] at ha
  exact h ha

theorem firstSegment_append {word : List α} (h : sep ∉ word) (rest : List α) :
    firstSegment sep (word ++ sep :: rest) = word := by
  induction word with
  | nil => exact firstSegment_cons_self rest
  | cons a word ih =>
    have ha : a ≠ sep := by
      intro heq
      rw [heq] at h
      exact h List.mem_cons_self
    rw [List.cons_append, firstSegment_cons_of_ne ha,
      ih (fun hmem => h (List.mem_cons_of_mem a hmem))]

variable (sep) in
theorem firstSegment_split (word : List α) :
    word = firstSegment sep word ∨ exists rest, word = firstSegment sep word ++ sep :: rest := by
  induction word with
  | nil => exact Or.inl rfl
  | cons a word ih =>
    by_cases ha : a = sep
    · rw [ha, firstSegment_cons_self]
      exact Or.inr ⟨word, rfl⟩
    · rw [firstSegment_cons_of_ne ha]
      cases ih with
      | inl hwhole => exact Or.inl (congrArg (List.cons a) hwhole)
      | inr hmore =>
        cases hmore with
        | intro rest hrest => exact Or.inr ⟨rest, congrArg (List.cons a) hrest⟩

variable (sep) in
theorem firstSegment_le_or {xs ys : List α} (h : xs < ys) :
    firstSegment sep xs ≤ firstSegment sep ys ∨
      exists s c t y, firstSegment sep xs = s ++ c :: t ∧ c < sep ∧ ys = s ++ sep :: y := by
  induction xs generalizing ys with
  | nil => exact Or.inl (not_lt.mp (List.not_lt_nil _))
  | cons a xs ih =>
    cases ys with
    | nil => exact absurd h (List.not_lt_nil _)
    | cons b ys =>
      have hcases : a < b ∨ a = b ∧ xs < ys := List.cons_lt_cons_iff.mp h
      by_cases ha : a = sep
      · rw [ha, firstSegment_cons_self]
        exact Or.inl (not_lt.mp (List.not_lt_nil _))
      · rw [firstSegment_cons_of_ne ha]
        cases hcases with
        | inl hlt =>
          by_cases hb : b = sep
          · rw [hb] at hlt
            exact Or.inr ⟨[], a, _, ys, rfl, hlt, by rw [hb, List.nil_append]⟩
          · rw [firstSegment_cons_of_ne hb]
            exact Or.inl (le_of_lt (List.cons_lt_cons_iff.mpr (Or.inl hlt)))
        | inr hsame =>
          rw [← hsame.1, firstSegment_cons_of_ne ha]
          cases ih hsame.2 with
          | inl hle => exact Or.inl (List.cons_le_cons a hle)
          | inr hmore =>
            rcases hmore with ⟨s, c, t, y, hsegment, hc, hys⟩
            refine Or.inr ⟨a :: s, c, t, y, ?_, hc, ?_⟩
            · rw [hsegment, List.cons_append]
            · rw [hys, List.cons_append]

theorem append_lt_append_iff (front : List α) {xs ys : List α} :
    front ++ xs < front ++ ys <-> xs < ys := by
  induction front with
  | nil => exact Iff.rfl
  | cons a front ih =>
    have hcons : a :: (front ++ xs) < a :: (front ++ ys) <->
        a < a ∨ a = a ∧ front ++ xs < front ++ ys := List.cons_lt_cons_iff
    rw [List.cons_append, List.cons_append, hcons, ih]
    simp

end Foundation
end JavaVsixLite
