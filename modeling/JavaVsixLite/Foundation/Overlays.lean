import JavaVsixLite.Foundation.Tables

/-!
# Tables filled in an order

The documents of a list are entered in a table one after the other, each under its names,
and a later document takes the place of an earlier one.  The table answers with the last
document that has the name, so that each of them can be the answer in some order.
-/

namespace JavaVsixLite
namespace Foundation

namespace Overlay

variable {D K : Type} [DecidableEq K] (names : D -> List K)

def insertAll (table : Table K D) (doc : D) : Table K D :=
  (names doc).foldl (fun table key => table.insert key doc) table

def fill (docs : List D) : Table K D :=
  docs.foldl (insertAll names) ∅

theorem lookup_foldl_insert (keys : List K) (doc : D) (table : Table K D) (key : K) :
    (keys.foldl (fun table key => table.insert key doc) table).lookup key =
      if key ∈ keys then some doc else table.lookup key := by
  induction keys generalizing table with
  | nil => rfl
  | cons first rest ih =>
    rw [List.foldl_cons, ih]
    by_cases hrest : key ∈ rest
    · rw [if_pos hrest, if_pos (List.mem_cons_of_mem first hrest)]
    · by_cases hfirst : key = first
      · subst hfirst
        rw [if_neg hrest, if_pos List.mem_cons_self, AList.lookup_insert]
      · have hnone : key ∉ first :: rest := by
          rw [List.mem_cons, not_or]
          exact ⟨hfirst, hrest⟩
        rw [if_neg hrest, if_neg hnone, AList.lookup_insert_ne hfirst]

theorem lookup_foldl (docs : List D) (table : Table K D) (key : K) :
    (docs.foldl (insertAll names) table).lookup key =
      (docs.reverse.find? (fun doc => key ∈ names doc)).or (table.lookup key) := by
  induction docs generalizing table with
  | nil => rfl
  | cons doc rest ih =>
    rw [List.foldl_cons, ih, insertAll, lookup_foldl_insert, List.reverse_cons, List.find?_append,
      Option.or_assoc]
    by_cases hkey : key ∈ names doc
    · simp [hkey]
    · simp [hkey]

theorem lookup_fill (docs : List D) (key : K) :
    (fill names docs).lookup key = docs.reverse.find? (fun doc => key ∈ names doc) := by
  rw [fill, lookup_foldl, AList.lookup_empty, Option.or_none]

variable {names} {docs docs' : List D} {key : K}

theorem mem_of_lookup {doc : D} (h : (fill names docs).lookup key = some doc) :
    doc ∈ docs ∧ key ∈ names doc := by
  rw [lookup_fill] at h
  have hmem := List.mem_of_find?_eq_some h
  have hkey := List.find?_some h
  exact ⟨List.mem_reverse.mp hmem, of_decide_eq_true hkey⟩

theorem lookup_eq_none_iff :
    (fill names docs).lookup key = none <-> forall doc, doc ∈ docs -> key ∉ names doc := by
  rw [lookup_fill, List.find?_eq_none]
  simp only [List.mem_reverse, decide_eq_true_eq]

theorem isSome_lookup_perm (h : docs.Perm docs') (key : K) :
    ((fill names docs).lookup key).isSome = ((fill names docs').lookup key).isSome := by
  rw [Bool.eq_iff_iff, Option.isSome_iff_ne_none, Option.isSome_iff_ne_none, Ne, Ne,
    lookup_eq_none_iff, lookup_eq_none_iff]
  simp only [h.mem_iff]

theorem exists_order {doc : D} (hdoc : doc ∈ docs) (hkey : key ∈ names doc) :
    exists order, docs.Perm order ∧ (fill names order).lookup key = some doc := by
  rcases List.append_of_mem hdoc with ⟨before, after, rfl⟩
  refine ⟨before ++ after ++ [doc], ?_, ?_⟩
  · rw [List.append_assoc]
    exact (List.perm_append_left_iff before).mpr (List.perm_append_singleton doc after).symm
  · rw [lookup_fill, List.reverse_append, List.reverse_singleton, List.singleton_append,
      List.find?_cons_of_pos]
    exact decide_eq_true hkey

end Overlay

/-!
# Answers that are kept
-/

namespace Memoized

variable {K V : Type} [DecidableEq K] (compute : K -> V)

def ask (memo : Table K V) (key : K) : V × Table K V :=
  match memo.lookup key with
  | some hit => (hit, memo)
  | none => (compute key, memo.insert key (compute key))

def Sound (memo : Table K V) : Prop :=
  forall key answer, memo.lookup key = some answer -> answer = compute key

variable {compute}

theorem Sound.empty : Sound compute ∅ := by
  intro key answer h
  rw [AList.lookup_empty] at h
  cases h

theorem Sound.answer {memo : Table K V} (h : Sound compute memo) (key : K) :
    (ask compute memo key).1 = compute key := by
  unfold ask
  cases hhit : memo.lookup key with
  | none => rfl
  | some hit => exact h key hit hhit

theorem Sound.ask {memo : Table K V} (h : Sound compute memo) (key : K) :
    Sound compute (ask compute memo key).2 := by
  unfold Memoized.ask
  cases hhit : memo.lookup key with
  | some hit => exact h
  | none =>
    intro other answer hanswer
    by_cases hother : other = key
    · subst hother
      rw [AList.lookup_insert, Option.some.injEq] at hanswer
      exact hanswer.symm
    · rw [AList.lookup_insert_ne hother] at hanswer
      exact h other answer hanswer

theorem Sound.foldl {memo : Table K V} (h : Sound compute memo) (keys : List K) :
    Sound compute (keys.foldl (fun memo key => (Memoized.ask compute memo key).2) memo) := by
  induction keys generalizing memo with
  | nil => exact h
  | cons key rest ih => exact ih (h.ask key)

end Memoized

end Foundation
end JavaVsixLite
