import Mathlib.Data.List.Basic
import Mathlib.Data.List.Lex
import Mathlib.Data.List.TakeWhile
import Mathlib.Order.Lattice

/-!
# Searching a sorted list

A test holds on a first part of a list when no element that fails it stands
before one that passes.  The binary search finds the end of that part.  In a list
of words in dictionary order, the words with a given beginning are next to each
other, and the first of them is the first word that is not below it.
-/

namespace JavaVsixLite
namespace Foundation

variable {α β : Type}

/-!
# The partition point
-/

/-- The bisection of `size` elements from `base` on; the last one is tested alone. -/
def bisect (p : α -> Bool) (xs : List α) (base size : Nat) : Nat :=
  if size ≤ 1 then
    if size = 1 ∧ xs[base]?.any p then base + 1 else base
  else
    let half := size / 2
    bisect p xs (if xs[base + half]?.any p then base + half else base) (size - half)
termination_by size

/-- `slice::partition_point` -/
def partitionPoint (p : α -> Bool) (xs : List α) : Nat :=
  bisect p xs 0 xs.length

def Partitioned (p : α -> Bool) (xs : List α) : Prop :=
  xs.Pairwise (fun a b => p b = true -> p a = true)

variable {p : α -> Bool} {xs : List α}

theorem filter_eq_nil_of_head {a : α} (h : Partitioned p (a :: xs)) (ha : p a = false) :
    xs.filter p = [] := by
  rw [List.filter_eq_nil_iff]
  intro b hb hpb
  have hpa := (List.pairwise_cons.mp h).1 b hb hpb
  rw [ha] at hpa
  cases hpa

theorem takeWhile_eq_filter (h : Partitioned p xs) : xs.takeWhile p = xs.filter p := by
  induction xs with
  | nil => rfl
  | cons a xs ih =>
    cases ha : p a with
    | true =>
      rw [List.takeWhile_cons_of_pos ha, List.filter_cons_of_pos ha,
        ih (List.pairwise_cons.mp h).2]
    | false =>
      have hneg : ¬ p a = true := by simp [ha]
      rw [List.takeWhile_cons_of_neg hneg, List.filter_cons_of_neg hneg,
        filter_eq_nil_of_head h ha]

theorem any_getElem?_iff (h : Partitioned p xs) (i : Nat) :
    xs[i]?.any p = true <-> i < (xs.takeWhile p).length := by
  induction xs generalizing i with
  | nil => simp
  | cons a xs ih =>
    have htail := (List.pairwise_cons.mp h).2
    cases ha : p a with
    | true =>
      rw [List.takeWhile_cons_of_pos ha]
      cases i with
      | zero => simp [ha]
      | succ i => simpa using ih htail i
    | false =>
      have hneg : ¬ p a = true := by simp [ha]
      rw [List.takeWhile_cons_of_neg hneg]
      cases i with
      | zero => simp [ha]
      | succ i =>
        have hnone := filter_eq_nil_of_head h ha
        rw [← takeWhile_eq_filter htail] at hnone
        have hi := ih htail i
        rw [hnone] at hi
        simpa using hi

theorem bisect_eq (h : Partitioned p xs) (base size : Nat) (hlow : base ≤ (xs.takeWhile p).length)
    (hhigh : (xs.takeWhile p).length ≤ base + size) :
    bisect p xs base size = (xs.takeWhile p).length := by
  induction size using Nat.strong_induction_on generalizing base with
  | _ size ih =>
    have hhere := any_getElem?_iff h
    unfold bisect
    by_cases hsmall : size ≤ 1
    · rw [if_pos hsmall]
      by_cases hbase : base < (xs.takeWhile p).length
      · rw [if_pos ⟨by omega, (hhere base).mpr hbase⟩]
        omega
      · rw [if_neg (fun h => hbase ((hhere base).mp h.2))]
        omega
    · rw [if_neg hsmall]
      have hless : size - size / 2 < size := by omega
      by_cases hmid : base + size / 2 < (xs.takeWhile p).length
      · simp only [if_pos ((hhere (base + size / 2)).mpr hmid)]
        exact ih _ hless _ (by omega) (by omega)
      · simp only [if_neg (fun h => hmid ((hhere (base + size / 2)).mp h))]
        exact ih _ hless _ hlow (by omega)

theorem partitionPoint_eq (h : Partitioned p xs) :
    partitionPoint p xs = (xs.takeWhile p).length := by
  apply bisect_eq h
  · exact Nat.zero_le _
  · rw [Nat.zero_add]
    exact (List.takeWhile_prefix p).length_le

theorem filter_dropWhile (h : Partitioned p xs) : (xs.dropWhile p).filter p = [] := by
  have hsplit := List.takeWhile_append_dropWhile (p := p) (l := xs)
  have hfilter := takeWhile_eq_filter h
  nth_rewrite 2 [← hsplit] at hfilter
  rw [List.filter_append, List.filter_eq_self.mpr (fun _ hx => List.mem_takeWhile_imp hx)]
    at hfilter
  exact List.append_right_eq_self.mp hfilter.symm

/-- What is looked up in a table of keys is dropped from the list the keys are of. -/
theorem drop_partitionPoint {key : β -> α} {xs : List β} (h : Partitioned p (xs.map key)) :
    xs.drop (partitionPoint p (xs.map key)) = xs.dropWhile (fun x => p (key x)) := by
  rw [partitionPoint_eq h, List.takeWhile_map, List.length_map]
  have hsplit := List.takeWhile_append_dropWhile (p := p ∘ key) (l := xs)
  nth_rewrite 2 [← hsplit]
  exact List.drop_left

theorem mapM_getElem?_range {start n : Nat} (h : n ≤ (xs.drop start).length) :
    (List.range n).mapM (fun i => xs[start + i]?) = some ((xs.drop start).take n) := by
  induction n with
  | zero => rfl
  | succ n ih =>
    have hget : xs[start + n]? = some (xs.drop start)[n] := by
      rw [← List.getElem?_drop]
      exact List.getElem?_eq_getElem h
    rw [List.range_succ, List.mapM_append, ih (by omega), List.mapM_cons, hget,
      List.take_add_one, List.getElem?_eq_getElem h]
    rfl

theorem mapM_getElem?_of_sublist_zipIdx {places : List (α × Nat)} (h : places.Sublist xs.zipIdx) :
    (places.map Prod.snd).mapM (fun i => xs[i]?) = some (places.map Prod.fst) := by
  have hread : forall place, place ∈ places -> xs[place.2]? = some place.1 := by
    intro place hplace
    exact List.mem_zipIdx_iff_getElem?.mp (h.subset hplace)
  clear h
  induction places with
  | nil => rfl
  | cons place places ih =>
    have hrest := ih (fun other hother => hread other (List.mem_cons_of_mem place hother))
    rw [List.map_cons, List.mapM_cons, hread place List.mem_cons_self, hrest]
    rfl

/-!
# The words with a given beginning
-/

section Words

variable [LinearOrder α]

theorem cons_le_cons_iff {a b : α} {xs ys : List α} :
    a :: xs ≤ b :: ys <-> a < b ∨ a = b ∧ xs ≤ ys := by
  have hlt : b :: ys < a :: xs <-> b < a ∨ b = a ∧ ys < xs := List.cons_lt_cons_iff
  have hle : xs ≤ ys <-> ¬ ys < xs := not_lt.symm
  rw [← not_lt, hlt, hle]
  constructor
  · intro h
    rcases lt_trichotomy a b with hab | hab | hba
    · exact .inl hab
    · exact .inr ⟨hab, fun hys => h (.inr ⟨hab.symm, hys⟩)⟩
    · exact absurd (.inl hba) h
  · intro h hba
    rcases hba with hba | ⟨rfl, hys⟩
    · rcases h with hab | ⟨rfl, _⟩
      · exact absurd hba (lt_asymm hab)
      · exact absurd hba (lt_irrefl a)
    · rcases h with hab | ⟨_, hnot⟩
      · exact absurd hab (lt_irrefl b)
      · exact hnot hys

theorem le_of_isPrefixOf {needle word : List α} (h : needle <+: word) : needle ≤ word := by
  rcases h with ⟨rest, rfl⟩
  induction needle with
  | nil => exact not_lt.mp (List.not_lt_nil _)
  | cons a needle ih => exact List.cons_le_cons a ih

theorem isPrefix_of_between {needle word later : List α} (hlow : needle ≤ word)
    (hhigh : word ≤ later) (hlater : needle <+: later) : needle <+: word := by
  induction needle generalizing word later with
  | nil => exact List.nil_prefix
  | cons a needle ih =>
    rcases hlater with ⟨rest, rfl⟩
    cases word with
    | nil => exact absurd (List.nil_lt_cons a needle) (not_lt.mpr hlow)
    | cons b word =>
      rw [List.cons_append, cons_le_cons_iff] at hhigh
      rw [cons_le_cons_iff] at hlow
      rcases hlow with hab | ⟨rfl, hlow⟩
      · rcases hhigh with hba | ⟨hba, _⟩
        · exact absurd hab (lt_asymm hba)
        · exact absurd hab (by rw [hba]; exact lt_irrefl a)
      · rcases hhigh with hba | ⟨_, hhigh⟩
        · exact absurd hba (lt_irrefl a)
        · exact List.cons_prefix_cons.mpr ⟨rfl, ih hlow hhigh (List.prefix_append _ _)⟩

variable {key : β -> List α} {xs : List β}

theorem partitioned_below (h : xs.Pairwise (fun a b => key a ≤ key b)) (needle : List α) :
    Partitioned (fun x => decide (key x < needle)) xs := by
  apply h.imp
  intro a b hab hb
  exact decide_eq_true (lt_of_le_of_lt hab (of_decide_eq_true hb))

/-- From the first word that is not below the beginning, one run of words has it. -/
theorem takeWhile_dropWhile_eq_filter (h : xs.Pairwise (fun a b => key a ≤ key b))
    (needle : List α) :
    (xs.dropWhile (fun x => decide (key x < needle))).takeWhile
        (fun x => needle.isPrefixOf (key x)) =
      xs.filter (fun x => needle.isPrefixOf (key x)) := by
  have hbelow : forall x, x ∈ xs.takeWhile (fun x => decide (key x < needle)) ->
      ¬ needle.isPrefixOf (key x) = true := by
    intro x hx hprefix
    have hlt := List.mem_takeWhile_imp (p := fun x => decide (key x < needle)) hx
    have hlt := of_decide_eq_true hlt
    exact absurd (le_of_isPrefixOf (List.isPrefixOf_iff_prefix.mp hprefix)) (not_le.mpr hlt)
  have habove : forall x, x ∈ xs.dropWhile (fun x => decide (key x < needle)) ->
      needle ≤ key x := by
    have hfails := filter_dropWhile (partitioned_below h needle)
    intro x hx
    have hnot := List.filter_eq_nil_iff.mp hfails x hx
    simpa using hnot
  have hrun : Partitioned (fun x => needle.isPrefixOf (key x))
      (xs.dropWhile (fun x => decide (key x < needle))) := by
    have hsorted := h.sublist (List.dropWhile_sublist (fun x => decide (key x < needle)))
    apply hsorted.imp_of_mem
    intro a b ha _ hab hb
    have hb := List.isPrefixOf_iff_prefix.mp hb
    exact List.isPrefixOf_iff_prefix.mpr (isPrefix_of_between (habove a ha) hab hb)
  rw [takeWhile_eq_filter hrun]
  have hsplit := List.takeWhile_append_dropWhile (p := fun x => decide (key x < needle)) (l := xs)
  conv_rhs => rw [← hsplit, List.filter_append, List.filter_eq_nil_iff.mpr hbelow]
  rfl

/-- The run that the search finds among the keys gives the elements with these keys. -/
theorem read_prefix_run (h : xs.Pairwise (fun a b => key a ≤ key b)) (needle : List α) :
    let keys := xs.map key
    let start := partitionPoint (fun s => decide (s < needle)) keys
    let run := (keys.drop start).takeWhile (fun s => needle.isPrefixOf s)
    (List.range run.length).mapM (fun i => xs[start + i]?) =
      some (xs.filter (fun x => needle.isPrefixOf (key x))) := by
  intro keys start run
  have hbelow : Partitioned (fun s => decide (s < needle)) (xs.map key) :=
    List.pairwise_map.mpr (partitioned_below h needle)
  have hdrop : xs.drop start = xs.dropWhile (fun x => decide (key x < needle)) :=
    drop_partitionPoint hbelow
  have hrun : run = (xs.filter (fun x => needle.isPrefixOf (key x))).map key := by
    rw [← takeWhile_dropWhile_eq_filter h needle, ← hdrop]
    show (List.drop start (xs.map key)).takeWhile _ = _
    rw [← List.map_drop, List.takeWhile_map]
    rfl
  have hprefix : xs.filter (fun x => needle.isPrefixOf (key x)) <+: xs.drop start := by
    rw [hdrop, ← takeWhile_dropWhile_eq_filter h needle]
    exact List.takeWhile_prefix _
  rw [hrun, List.length_map, mapM_getElem?_range hprefix.length_le,
    ← List.prefix_iff_eq_take.mp hprefix]

end Words

end Foundation
end JavaVsixLite
