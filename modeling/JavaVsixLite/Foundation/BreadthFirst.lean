import Mathlib.Data.List.Basic
import Mathlib.Data.List.Nodup

/-!
# Breadth-first search with a queue

An entry of the queue has a key, and only the first entry of a key is visited.  The children
of a visited entry go to the end of the queue.  The search stops when the queue is empty, or
before it would visit more entries than its budget allows.
-/

namespace JavaVsixLite
namespace Foundation
namespace BreadthFirst

variable {α κ : Type} [DecidableEq κ]

section Definitions

variable (key : α -> κ) (children : α -> List α)

/-- The entries visited, in order, and the queue when the search stops. -/
@[grind =] def search (budget : Nat) (seen : List κ) (queue : List α) : List α × List α :=
  match budget, queue with
  | _, [] => ([], [])
  | budget, x :: rest =>
    if key x ∈ seen then search budget seen rest
    else
      match budget with
      | 0 => ([], x :: rest)
      | budget + 1 =>
        let found := search budget (seen ++ [key x]) (rest ++ children x)
        (x :: found.1, found.2)
  termination_by (budget, queue.length)

@[grind =] def firsts (seen : List κ) : List α -> List α
  | [] => []
  | x :: rest => if key x ∈ seen then firsts seen rest else x :: firsts (seen ++ [key x]) rest

def occurrences (queue visited : List α) : List α :=
  queue ++ visited.flatMap children

end Definitions

variable {key : α -> κ} {children : α -> List α}

theorem search_nil (budget : Nat) (seen : List κ) :
    search key children budget seen [] = ([], []) := by
  unfold search
  rfl

theorem search_seen (budget : Nat) {seen : List κ} {x : α} (h : key x ∈ seen) (rest : List α) :
    search key children budget seen (x :: rest) = search key children budget seen rest := by
  rw [search.eq_def]
  exact if_pos h

theorem search_zero {seen : List κ} {x : α} (h : key x ∉ seen) (rest : List α) :
    search key children 0 seen (x :: rest) = ([], x :: rest) := by
  rw [search]
  exact if_neg h

theorem search_succ (budget : Nat) {seen : List κ} {x : α} (h : key x ∉ seen) (rest : List α) :
    search key children (budget + 1) seen (x :: rest) =
      (x :: (search key children budget (seen ++ [key x]) (rest ++ children x)).1,
        (search key children budget (seen ++ [key x]) (rest ++ children x)).2) := by
  rw [search]
  exact if_neg h

/-- The rounds of the search: nothing is left, a key has been seen, the budget is used up, or
an entry is visited. -/
theorem search_induction (key : α -> κ) (children : α -> List α)
    {motive : Nat -> List κ -> List α -> Prop}
    (nil : forall budget seen, motive budget seen [])
    (skip : forall budget seen x rest, key x ∈ seen -> motive budget seen rest ->
      motive budget seen (x :: rest))
    (stop : forall seen x rest, key x ∉ seen -> motive 0 seen (x :: rest))
    (visit : forall budget seen x rest, key x ∉ seen ->
      motive budget (seen ++ [key x]) (rest ++ children x) -> motive (budget + 1) seen (x :: rest))
    (budget : Nat) (seen : List κ) (queue : List α) : motive budget seen queue := by
  induction budget generalizing seen queue with
  | zero =>
    induction queue with
    | nil => exact nil 0 seen
    | cons x rest ih =>
      rcases Decidable.em (key x ∈ seen) with hseen | hseen
      · exact skip 0 seen x rest hseen ih
      · exact stop seen x rest hseen
  | succ budget ihbudget =>
    induction queue with
    | nil => exact nil _ seen
    | cons x rest ih =>
      rcases Decidable.em (key x ∈ seen) with hseen | hseen
      · exact skip _ seen x rest hseen ih
      · exact visit budget seen x rest hseen (ihbudget _ _)

/-!
# What is visited
-/

theorem length_visited_le (key : α -> κ) (children : α -> List α) (budget : Nat) (seen : List κ)
    (queue : List α) :
    (search key children budget seen queue).1.length ≤ budget := by
  induction budget, seen, queue using search_induction key children with
  | nil budget seen =>
    rw [search_nil]
    exact Nat.zero_le _
  | skip budget seen x rest hseen ih =>
    rw [search_seen budget hseen]
    exact ih
  | stop seen x rest hseen =>
    rw [search_zero hseen]
    exact Nat.zero_le _
  | visit budget seen x rest hseen ih =>
    rw [search_succ budget hseen]
    exact Nat.succ_le_succ ih

theorem left_cases (key : α -> κ) (children : α -> List α) (budget : Nat) (seen : List κ)
    (queue : List α) :
    (search key children budget seen queue).2 = [] ∨
      (search key children budget seen queue).1.length = budget := by
  induction budget, seen, queue using search_induction key children with
  | nil budget seen =>
    rw [search_nil]
    exact .inl rfl
  | skip budget seen x rest hseen ih =>
    rw [search_seen budget hseen]
    exact ih
  | stop seen x rest hseen =>
    rw [search_zero hseen]
    exact .inr rfl
  | visit budget seen x rest hseen ih =>
    rw [search_succ budget hseen]
    rcases ih with hleft | hlen
    · exact .inl hleft
    · exact .inr (congrArg Nat.succ hlen)

/-- What is visited are the first entries of all that was taken from the queue. -/
theorem visited_eq_firsts (key : α -> κ) (children : α -> List α) (budget : Nat) (seen : List κ)
    (queue : List α) :
    exists taken,
      occurrences children queue (search key children budget seen queue).1 =
        taken ++ (search key children budget seen queue).2 ∧
      (search key children budget seen queue).1 = firsts key seen taken := by
  induction budget, seen, queue using search_induction key children with
  | nil budget seen =>
    rw [search_nil]
    exact ⟨[], rfl, rfl⟩
  | skip budget seen x rest hseen ih =>
    rw [search_seen budget hseen]
    rcases ih with ⟨taken, hall, hfirsts⟩
    refine ⟨x :: taken, congrArg (List.cons x) hall, ?_⟩
    rw [firsts, if_pos hseen]
    exact hfirsts
  | stop seen x rest hseen =>
    rw [search_zero hseen]
    exact ⟨[], by simp [occurrences], rfl⟩
  | visit budget seen x rest hseen ih =>
    rw [search_succ budget hseen]
    rcases ih with ⟨taken, hall, hfirsts⟩
    refine ⟨x :: taken, ?_, ?_⟩
    · unfold occurrences at hall ⊢
      rw [List.flatMap_cons, List.cons_append, List.cons_append, ← List.append_assoc]
      exact congrArg (List.cons x) hall
    · rw [firsts, if_neg hseen]
      exact congrArg (List.cons x) hfirsts

theorem mem_firsts_split {seen : List κ} {taken : List α} {v : α} (h : v ∈ firsts key seen taken) :
    key v ∉ seen ∧ exists before after, taken = before ++ v :: after ∧
      forall y, y ∈ before -> key y ≠ key v := by
  induction taken generalizing seen with
  | nil => cases h
  | cons x rest ih =>
    rw [firsts] at h
    split at h
    · rename_i hseen
      rcases ih h with ⟨hnew, before, after, hrest, hbefore⟩
      refine ⟨hnew, x :: before, after, by rw [hrest, List.cons_append], ?_⟩
      intro y hy
      rcases List.mem_cons.mp hy with rfl | hy
      · exact fun heq => hnew (heq ▸ hseen)
      · exact hbefore y hy
    · rename_i hseen
      rcases List.mem_cons.mp h with rfl | h
      · exact ⟨hseen, [], rest, rfl, fun y hy => absurd hy List.not_mem_nil⟩
      · rcases ih h with ⟨hnew, before, after, hrest, hbefore⟩
        rw [List.mem_append, List.mem_singleton, not_or] at hnew
        refine ⟨hnew.1, x :: before, after, by rw [hrest, List.cons_append], ?_⟩
        intro y hy
        rcases List.mem_cons.mp hy with rfl | hy
        · exact fun heq => hnew.2 heq.symm
        · exact hbefore y hy

theorem nodup_firsts (seen : List κ) (taken : List α) :
    ((firsts key seen taken).map key).Nodup := by
  induction taken generalizing seen with
  | nil => exact List.nodup_nil
  | cons x rest ih =>
    rw [firsts]
    split
    · exact ih seen
    · rw [List.map_cons, List.nodup_cons]
      refine ⟨?_, ih _⟩
      intro hmem
      rcases List.mem_map.mp hmem with ⟨v, hv, hkey⟩
      exact (mem_firsts_split hv).1 (hkey ▸ List.mem_append_right _ List.mem_cons_self)

theorem firsts_sublist (key : α -> κ) (seen : List κ) (taken : List α) :
    (firsts key seen taken).Sublist taken := by
  induction taken generalizing seen with
  | nil => exact .slnil
  | cons x rest ih =>
    rw [firsts]
    split
    · exact (ih seen).cons x
    · exact (ih _).cons_cons x

theorem covered_firsts (key : α -> κ) (seen : List κ) {taken : List α} {y : α} (h : y ∈ taken) :
    key y ∈ seen ∨ exists v, v ∈ firsts key seen taken ∧ key v = key y := by
  induction taken generalizing seen with
  | nil => cases h
  | cons x rest ih =>
    rw [firsts]
    split
    · rename_i hseen
      rcases List.mem_cons.mp h with rfl | h
      · exact .inl hseen
      · exact ih seen h
    · rcases List.mem_cons.mp h with rfl | h
      · exact .inr ⟨y, List.mem_cons_self, rfl⟩
      · rcases ih (seen ++ [key x]) h with hseen | ⟨v, hv, hkey⟩
        · rw [List.mem_append, List.mem_singleton] at hseen
          rcases hseen with hseen | hseen
          · exact .inl hseen
          · exact .inr ⟨x, List.mem_cons_self, hseen.symm⟩
        · exact .inr ⟨v, List.mem_cons_of_mem _ hv, hkey⟩

section Visited

variable (budget : Nat) (seen : List κ) (queue : List α)

theorem nodup_visited : ((search key children budget seen queue).1.map key).Nodup := by
  rcases visited_eq_firsts key children budget seen queue with
    ⟨taken, _, hfirsts⟩
  rw [hfirsts]
  exact nodup_firsts seen taken

theorem visited_first {v : α} (h : v ∈ (search key children budget seen queue).1) :
    (occurrences children queue (search key children budget seen queue).1).find?
      (fun y => key y = key v) = some v := by
  rcases visited_eq_firsts key children budget seen queue with
    ⟨taken, hall, hfirsts⟩
  rw [hfirsts] at h
  rcases (mem_firsts_split h).2 with ⟨before, after, htaken, hbefore⟩
  rw [hall, htaken, List.append_assoc, List.find?_append, List.cons_append,
    List.find?_cons_of_pos (by simp)]
  have hnone : before.find? (fun y => decide (key y = key v)) = none := by
    rw [List.find?_eq_none]
    intro y hy
    simpa using hbefore y hy
  rw [hnone]
  rfl

theorem visited_sublist :
    (search key children budget seen queue).1.Sublist
      (occurrences children queue (search key children budget seen queue).1) := by
  rcases visited_eq_firsts key children budget seen queue with
    ⟨taken, hall, hfirsts⟩
  rw [hall]
  have hsub := firsts_sublist key seen taken
  rw [← hfirsts] at hsub
  exact hsub.trans (List.sublist_append_left taken _)

/-- Every entry put in the queue is visited, has lost to a visited one, or is left. -/
theorem covered {y : α}
    (h : y ∈ occurrences children queue (search key children budget seen queue).1) :
    key y ∈ seen ∨ (exists v, v ∈ (search key children budget seen queue).1 ∧ key v = key y) ∨
      y ∈ (search key children budget seen queue).2 := by
  rcases visited_eq_firsts key children budget seen queue with
    ⟨taken, hall, hfirsts⟩
  rw [hall] at h
  rcases List.mem_append.mp h with htaken | hleft
  · rcases covered_firsts key seen htaken with hseen | hv
    · exact .inl hseen
    · rw [hfirsts]
      exact .inr (.inl hv)
  · exact .inr (.inr hleft)

end Visited

/-!
# The order of depths
-/

section Depth

variable {depth : α -> Nat}

structure Layered (depth : α -> Nat) (queue : List α) : Prop where
  ordered : queue.Pairwise (fun x y => depth x ≤ depth y)
  narrow : forall x, x ∈ queue -> forall y, y ∈ queue -> depth y ≤ depth x + 1

theorem layered_of_const {queue : List α} {d : Nat} (h : forall x, x ∈ queue -> depth x = d) :
    Layered depth queue where
  ordered := by
    apply List.pairwise_of_forall_mem_list
    intro x hx y hy
    exact Nat.le_of_eq ((h x hx).trans (h y hy).symm)
  narrow := by
    intro x hx y hy
    rw [h x hx, h y hy]
    exact Nat.le_succ d

theorem Layered.tail {x : α} {rest : List α} (h : Layered depth (x :: rest)) :
    Layered depth rest where
  ordered := (List.pairwise_cons.mp h.ordered).2
  narrow := fun y hy z hz =>
    h.narrow y (List.mem_cons_of_mem _ hy) z (List.mem_cons_of_mem _ hz)

theorem Layered.visit (hchildren : forall x y, y ∈ children x -> depth y = depth x + 1)
    {x : α} {rest : List α} (h : Layered depth (x :: rest)) :
    Layered depth (rest ++ children x) where
  ordered := by
    rw [List.pairwise_append]
    refine ⟨h.tail.ordered, (layered_of_const (hchildren x)).ordered, ?_⟩
    intro y hy z hz
    rw [hchildren x z hz]
    exact h.narrow x List.mem_cons_self y (List.mem_cons_of_mem _ hy)
  narrow := by
    have hle : forall y, y ∈ rest -> depth x ≤ depth y := (List.pairwise_cons.mp h.ordered).1
    intro y hy z hz
    rcases List.mem_append.mp hy with hy | hy
    · rcases List.mem_append.mp hz with hz | hz
      · exact h.tail.narrow y hy z hz
      · rw [hchildren x z hz]
        exact Nat.succ_le_succ (hle y hy)
    · rw [hchildren x y hy]
      rcases List.mem_append.mp hz with hz | hz
      · have hz' := h.narrow x List.mem_cons_self z (List.mem_cons_of_mem _ hz)
        omega
      · rw [hchildren x z hz]
        omega

theorem occurrences_of_nil (budget : Nat) (seen : List κ) :
    occurrences children [] (search key children budget seen []).1 = [] := by
  rw [search_nil]
  rfl

theorem occurrences_ordered (hchildren : forall x y, y ∈ children x -> depth y = depth x + 1)
    (budget : Nat) (seen : List κ) {queue : List α} (h : Layered depth queue) :
    (occurrences children queue (search key children budget seen queue).1).Pairwise
      (fun x y => depth x ≤ depth y) ∧
    forall d, (forall x, x ∈ queue -> d ≤ depth x) ->
      forall y, y ∈ occurrences children queue (search key children budget seen queue).1 ->
        d ≤ depth y := by
  induction budget, seen, queue using search_induction key children with
  | nil budget seen =>
    rw [occurrences_of_nil]
    exact ⟨.nil, fun _ _ y hy => absurd hy List.not_mem_nil⟩
  | skip budget seen x rest hseen ih =>
    rw [search_seen budget hseen]
    rcases ih h.tail with ⟨hordered, hbound⟩
    have hle := hbound (depth x) (List.pairwise_cons.mp h.ordered).1
    refine ⟨List.pairwise_cons.mpr ⟨hle, hordered⟩, ?_⟩
    intro d hd y hy
    rcases List.mem_cons.mp hy with rfl | hy
    · exact hd y List.mem_cons_self
    · exact hbound d (fun z hz => hd z (List.mem_cons_of_mem _ hz)) y hy
  | stop seen x rest hseen =>
    rw [search_zero hseen]
    have hall : occurrences children (x :: rest) [] = x :: rest := by simp [occurrences]
    rw [hall]
    exact ⟨h.ordered, fun d hd => hd⟩
  | visit budget seen x rest hseen ih =>
    rw [search_succ budget hseen]
    rcases ih (h.visit hchildren) with ⟨hordered, hbound⟩
    have hall : occurrences children (x :: rest)
        (x :: (search key children budget (seen ++ [key x]) (rest ++ children x)).1) =
        x :: occurrences children (rest ++ children x)
          (search key children budget (seen ++ [key x]) (rest ++ children x)).1 := by
      unfold occurrences
      rw [List.flatMap_cons, List.cons_append, List.append_assoc]
    have hnext : forall y, y ∈ rest ++ children x -> depth x ≤ depth y := by
      intro y hy
      rcases List.mem_append.mp hy with hy | hy
      · exact (List.pairwise_cons.mp h.ordered).1 y hy
      · rw [hchildren x y hy]
        exact Nat.le_succ _
    rw [hall]
    refine ⟨List.pairwise_cons.mpr ⟨hbound _ hnext, hordered⟩, ?_⟩
    intro d hd y hy
    have hx := hd x List.mem_cons_self
    rcases List.mem_cons.mp hy with rfl | hy
    · exact hx
    · exact hbound d (fun z hz => Nat.le_trans hx (hnext z hz)) y hy

end Depth

theorem search_childless (seen : List κ) (last : α) {xs : List α}
    (hchildren : forall x, x ∈ xs -> children x = [])
    (hkeys : ((xs ++ [last]).map key).Nodup)
    (hseen : forall x, x ∈ xs ++ [last] -> key x ∉ seen) :
    search key children xs.length seen (xs ++ [last]) = (xs, [last]) := by
  induction xs generalizing seen with
  | nil => exact search_zero (hseen last List.mem_cons_self) []
  | cons x xs ih =>
    rw [List.cons_append, List.map_cons, List.nodup_cons] at hkeys
    have hrest := ih (seen ++ [key x])
      (fun y hy => hchildren y (List.mem_cons_of_mem _ hy)) hkeys.2 ?_
    · rw [List.cons_append, List.length_cons, search_succ _ (hseen x List.mem_cons_self),
        hchildren x List.mem_cons_self, List.append_nil, hrest]
    · intro y hy hmem
      rcases List.mem_append.mp hmem with hmem | hmem
      · exact hseen y (List.mem_cons_of_mem _ hy) hmem
      · rw [List.mem_singleton] at hmem
        exact hkeys.1 (hmem ▸ List.mem_map_of_mem hy)

end BreadthFirst
end Foundation
end JavaVsixLite
