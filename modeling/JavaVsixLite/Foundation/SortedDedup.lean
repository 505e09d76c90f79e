import Mathlib.Order.Lattice

/-!
# Sorting by a key and dropping neighbours with equal keys

A stable sort brings the entries with one key together, so that it is enough to
compare neighbours: of each key the first entry stays.
-/

namespace JavaVsixLite
namespace Foundation

variable {α κ : Type} [LinearOrder κ]

/-- `sort_by_key` -/
def sortByKey (key : α -> κ) (xs : List α) : List α :=
  xs.mergeSort (fun a b => decide (key a ≤ key b))

/-- What `dedup_by_key` keeps behind an entry that stays. -/
@[grind =] def dedupAfter (key : α -> κ) (last : α) : List α -> List α
  | [] => []
  | b :: rest =>
    if key b = key last then dedupAfter key last rest
    else b :: dedupAfter key b rest

def dedupByKey (key : α -> κ) : List α -> List α
  | [] => []
  | a :: rest => a :: dedupAfter key a rest

section

variable {key : α -> κ}

variable {xs : List α} {a : α}

theorem mem_sortByKey : a ∈ sortByKey key xs <-> a ∈ xs :=
  (List.mergeSort_perm xs _).mem_iff

theorem sortByKey_trans (key : α -> κ) (a b c : α) (hab : decide (key a ≤ key b) = true)
    (hbc : decide (key b ≤ key c) = true) : decide (key a ≤ key c) = true :=
  decide_eq_true (le_trans (of_decide_eq_true hab) (of_decide_eq_true hbc))

theorem sortByKey_total (key : α -> κ) (a b : α) :
    (decide (key a ≤ key b) || decide (key b ≤ key a)) = true := by
  simpa using le_total (key a) (key b)

theorem pairwise_sortByKey (xs : List α) :
    (sortByKey key xs).Pairwise (fun a b => key a ≤ key b) :=
  (List.pairwise_mergeSort (sortByKey_trans key) (sortByKey_total key) xs).imp
    (fun h => of_decide_eq_true h)

theorem sortByKey_of_pairwise (h : xs.Pairwise (fun a b => key a ≤ key b)) :
    sortByKey key xs = xs :=
  List.mergeSort_of_pairwise (h.imp (fun hab => decide_eq_true hab))

theorem map_sortByKey (xs : List α) :
    (sortByKey key xs).map key = sortByKey (fun k => k) (xs.map key) :=
  List.map_mergeSort (fun _ _ _ _ => rfl)

theorem dedupAfter_sublist (last : α) (xs : List α) :
    (dedupAfter key last xs).Sublist xs := by
  induction xs generalizing last with
  | nil => exact List.Sublist.refl []
  | cons b rest ih =>
    rw [dedupAfter]
    split
    · exact (ih last).cons b
    · exact (ih b).cons_cons b

theorem pairwise_dedupAfter {last : α} (h : (last :: xs).Pairwise (fun a b => key a ≤ key b)) :
    (last :: dedupAfter key last xs).Pairwise (fun a b => key a < key b) := by
  induction xs generalizing last with
  | nil => exact List.pairwise_singleton _ _
  | cons b rest ih =>
    have hfirst : key last ≤ key b := List.rel_of_pairwise_cons h List.mem_cons_self
    rw [dedupAfter]
    split
    · have hrest : (last :: rest).Pairwise (fun a b => key a ≤ key b) :=
        h.sublist ((List.sublist_cons_self b rest).cons_cons last)
      exact ih hrest
    · rename_i hne
      have hlt : key last < key b :=
        lt_of_le_of_ne hfirst (Ne.symm hne)
      have htail := ih h.of_cons
      apply List.Pairwise.cons
      · intro c hc
        cases hc with
        | head => exact hlt
        | tail _ hc => exact lt_trans hlt (List.rel_of_pairwise_cons htail hc)
      · exact htail

theorem pairwise_dedupByKey (h : xs.Pairwise (fun a b => key a ≤ key b)) :
    (dedupByKey key xs).Pairwise (fun a b => key a < key b) := by
  cases xs with
  | nil => exact List.Pairwise.nil
  | cons a rest => exact pairwise_dedupAfter h

theorem exists_mem_dedupAfter {last : α} (ha : a ∈ last :: xs) :
    exists b, b ∈ last :: dedupAfter key last xs ∧ key b = key a := by
  induction xs generalizing last with
  | nil =>
    cases List.mem_singleton.mp ha
    exact ⟨a, List.mem_cons_self, rfl⟩
  | cons b rest ih =>
    rw [dedupAfter]
    split
    · rename_i heq
      cases ha with
      | head => exact ⟨a, List.mem_cons_self, rfl⟩
      | tail _ ha =>
        cases ha with
        | head => exact ⟨last, List.mem_cons_self, heq.symm⟩
        | tail _ ha => exact ih (List.mem_cons_of_mem last ha)
    · cases ha with
      | head => exact ⟨a, List.mem_cons_self, rfl⟩
      | tail _ ha =>
        have hkept := ih ha
        cases hkept with
        | intro c hc => exact ⟨c, List.mem_cons_of_mem last hc.1, hc.2⟩

theorem exists_mem_dedupByKey (ha : a ∈ xs) :
    exists b, b ∈ dedupByKey key xs ∧ key b = key a := by
  cases xs with
  | nil => cases ha
  | cons first rest => exact exists_mem_dedupAfter ha

theorem dedupByKey_sublist (xs : List α) : (dedupByKey key xs).Sublist xs := by
  cases xs with
  | nil => exact List.Sublist.refl []
  | cons a rest => exact (dedupAfter_sublist a rest).cons_cons a

theorem find_dedupAfter (last : α) (xs : List α) (k : κ) :
    (last :: dedupAfter key last xs).find? (fun a => decide (key a = k)) =
      (last :: xs).find? (fun a => decide (key a = k)) := by
  induction xs generalizing last with
  | nil => rfl
  | cons b rest ih =>
    rw [dedupAfter]
    split
    · rename_i heq
      rw [ih last]
      by_cases hlast : key last = k
      · simp [hlast]
      · simp [hlast, heq]
    · by_cases hlast : key last = k
      · simp [hlast]
      · have hrest := ih b
        simpa [hlast] using hrest

/-- Of each key the first entry is kept. -/
theorem find_dedupByKey (xs : List α) (k : κ) :
    (dedupByKey key xs).find? (fun a => decide (key a = k)) =
      xs.find? (fun a => decide (key a = k)) := by
  cases xs with
  | nil => rfl
  | cons first rest => exact find_dedupAfter first rest k

/-- The sort is stable. -/
theorem find_sortByKey (xs : List α) (k : κ) :
    (sortByKey key xs).find? (fun a => decide (key a = k)) =
      xs.find? (fun a => decide (key a = k)) := by
  have hsame : (xs.filter (fun a => decide (key a = k))).Pairwise
      (fun a b => decide (key a ≤ key b) = true) := by
    apply List.pairwise_of_forall_mem_list
    intro a ha b hb
    have hka : key a = k := of_decide_eq_true (List.mem_filter.mp ha).2
    have hkb : key b = k := of_decide_eq_true (List.mem_filter.mp hb).2
    exact decide_eq_true (le_of_eq (hka.trans hkb.symm))
  have hsub := (List.sublist_mergeSort (sortByKey_trans key) (sortByKey_total key) hsame
    List.filter_sublist).filter (fun a => decide (key a = k))
  rw [List.filter_filter] at hsub
  simp only [Bool.and_self] at hsub
  have hlength := ((List.mergeSort_perm xs (fun a b => decide (key a ≤ key b))).filter
    (fun a => decide (key a = k))).length_eq
  rw [← List.head?_filter, ← List.head?_filter, sortByKey, hsub.eq_of_length hlength.symm]

theorem find_of_pairwise (h : xs.Pairwise (fun a b => key a < key b)) (ha : a ∈ xs) :
    xs.find? (fun b => decide (key b = key a)) = some a := by
  induction xs with
  | nil => cases ha
  | cons first rest ih =>
    rcases List.mem_cons.mp ha with heq | hrest
    · simp [heq]
    · have hlt : key first < key a := List.rel_of_pairwise_cons h hrest
      simpa [hlt.ne] using ih h.of_cons hrest

/-- Sorted and without duplicates stand exactly the entries that are the first of their key. -/
theorem mem_dedup_sortByKey : a ∈ dedupByKey key (sortByKey key xs) <->
    xs.find? (fun b => decide (key b = key a)) = some a := by
  rw [← find_sortByKey, ← find_dedupByKey]
  constructor
  · exact find_of_pairwise (pairwise_dedupByKey (pairwise_sortByKey xs))
  · exact List.mem_of_find?_eq_some

theorem mem_dedupByKey_id {xs : List κ} {a : κ} : a ∈ dedupByKey id xs <-> a ∈ xs := by
  constructor
  · intro h
    exact (dedupByKey_sublist xs).subset h
  · intro h
    have hkept : exists b, b ∈ dedupByKey id xs ∧ id b = id a := exists_mem_dedupByKey h
    cases hkept with
    | intro b hb =>
      have hsame : b = a := hb.2
      rw [← hsame]
      exact hb.1

theorem pairwise_of_dedupAfter {last : κ} {xs : List κ}
    (h : (last :: dedupAfter id last xs).Pairwise (fun a b => a < b)) :
    (last :: xs).Pairwise (fun a b => a ≤ b) := by
  induction xs generalizing last with
  | nil => exact List.pairwise_singleton _ _
  | cons b rest ih =>
    rw [dedupAfter] at h
    split at h
    · rename_i heq
      have hrest := ih h
      have hsame : b = last := heq
      rw [hsame]
      apply List.Pairwise.cons
      · intro c hc
        cases hc with
        | head => exact le_refl _
        | tail _ hc => exact List.rel_of_pairwise_cons hrest hc
      · exact hrest
    · have hlt : last < b := List.rel_of_pairwise_cons h List.mem_cons_self
      have hrest := ih h.of_cons
      apply List.Pairwise.cons
      · intro c hc
        cases hc with
        | head => exact le_of_lt hlt
        | tail _ hc => exact le_trans (le_of_lt hlt) (List.rel_of_pairwise_cons hrest hc)
      · exact hrest

/-- A strictly sorted list is mapped to one in order exactly by a map that is monotone on it. -/
theorem pairwise_map_le_iff {β : Type} [LinearOrder β] {f : κ -> β} {xs : List κ}
    (h : xs.Pairwise (fun a b => a < b)) :
    (xs.map f).Pairwise (fun a b => a ≤ b) <->
      forall a, a ∈ xs -> forall b, b ∈ xs -> a < b -> f a ≤ f b := by
  rw [List.pairwise_map]
  constructor
  · intro hle
    have hahead : xs.Pairwise (fun a b => a < b -> f a ≤ f b) := by
      apply hle.imp
      intro a b hab _
      exact hab
    have hback : xs.Pairwise (flip (fun a b => a < b -> f a ≤ f b)) :=
      h.imp (fun hab hba => absurd hba (lt_asymm hab))
    exact fun a ha b hb => List.Pairwise.forall_of_forall_of_flip
      (fun c _ hcc => absurd hcc (lt_irrefl c)) hahead hback ha hb
  · intro hmono
    exact h.imp_of_mem (fun ha hb hab => hmono _ ha _ hb hab)

/-- Without neighbours that are equal a list increases strictly exactly if it was in order. -/
theorem pairwise_dedupByKey_id_iff {xs : List κ} :
    (dedupByKey id xs).Pairwise (fun a b => a < b) <-> xs.Pairwise (fun a b => a ≤ b) := by
  constructor
  · intro h
    cases xs with
    | nil => exact List.Pairwise.nil
    | cons a rest => exact pairwise_of_dedupAfter h
  · exact pairwise_dedupByKey

end

end Foundation
end JavaVsixLite
