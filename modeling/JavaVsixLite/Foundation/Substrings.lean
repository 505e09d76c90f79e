import Mathlib.Data.List.Infix
import JavaVsixLite.Foundation.ByteText

/-!
# The first occurrence of a needle

A text is split at the first place where a needle starts.  Where the needle cannot
start is said for the two parts of a text: nowhere in the front part, read on into
the rest.  In a text the place of an occurrence is told by its byte offset.
-/

namespace JavaVsixLite
namespace Foundation

universe u

variable {α : Type u}

@[grind =] def splitOnce [DecidableEq α] (needle : List α) : List α -> Option (List α × List α)
  | [] => if needle = [] then some ([], []) else none
  | c :: rest =>
    if needle <+: c :: rest then some ([], (c :: rest).drop needle.length)
    else (splitOnce needle rest).map (fun halves => (c :: halves.1, halves.2))

def StartsNotIn (needle front rest : List α) : Prop :=
  forall t, t ≠ [] -> t <:+ front -> ¬ needle <+: t ++ rest

section

variable {needle front middle rest : List α}

theorem startsNotIn_nil : StartsNotIn needle [] rest := by
  intro t hne ht
  exact absurd (List.suffix_nil.mp ht) hne

theorem startsNotIn_cons {c : α} : StartsNotIn needle (c :: front) rest <->
    ¬ needle <+: c :: (front ++ rest) ∧ StartsNotIn needle front rest := by
  constructor
  · intro h
    constructor
    · exact h (c :: front) (List.cons_ne_nil c front) (List.suffix_refl _)
    · intro t hne ht
      exact h t hne (ht.trans (List.suffix_cons c front))
  · intro h t hne ht
    cases List.suffix_cons_iff.mp ht with
    | inl heq =>
      rw [heq]
      exact h.1
    | inr htail => exact h.2 t hne htail

theorem startsNotIn_append : StartsNotIn needle (front ++ middle) rest <->
    StartsNotIn needle front (middle ++ rest) ∧ StartsNotIn needle middle rest := by
  induction front with
  | nil => simp [startsNotIn_nil]
  | cons c tail ih =>
    rw [List.cons_append, startsNotIn_cons, startsNotIn_cons, ih, List.append_assoc]
    exact and_assoc.symm

theorem splitOnce_of_startsNotIn [DecidableEq α] (hneedle : needle ≠ [])
    (h : StartsNotIn needle front (needle ++ rest)) :
    splitOnce needle (front ++ (needle ++ rest)) = some (front, rest) := by
  induction front with
  | nil =>
    cases needle with
    | nil => exact absurd rfl hneedle
    | cons c tail =>
      have hstart : c :: tail <+: c :: (tail ++ rest) := List.prefix_append (c :: tail) rest
      rw [List.nil_append, List.cons_append, splitOnce, if_pos hstart,
        ← List.cons_append, List.drop_left]
  | cons c tail ih =>
    have hparts := startsNotIn_cons.mp h
    rw [List.cons_append, splitOnce, if_neg hparts.1, ih hparts.2]
    rfl

theorem eq_of_splitOnce [DecidableEq α] {text : List α} {halves : List α × List α}
    (h : splitOnce needle text = some halves) :
    text = halves.1 ++ (needle ++ halves.2) := by
  induction text generalizing halves with
  | nil =>
    rw [splitOnce] at h
    split at h
    · rename_i hneedle
      cases h
      rw [hneedle]
      rfl
    · cases h
  | cons c tail ih =>
    rw [splitOnce] at h
    split at h
    · rename_i hstart
      cases h
      cases hstart with
      | intro after hafter =>
        rw [← hafter, List.drop_left]
        rfl
    · cases hrest : splitOnce needle tail with
      | none =>
        rw [hrest] at h
        cases h
      | some inner =>
        rw [hrest] at h
        cases h
        show c :: tail = c :: (inner.1 ++ (needle ++ inner.2))
        rw [← ih hrest]

theorem startsNotIn_of_splitOnce [DecidableEq α] {text : List α} {halves : List α × List α}
    (h : splitOnce needle text = some halves) :
    StartsNotIn needle halves.1 (needle ++ halves.2) := by
  induction text generalizing halves with
  | nil =>
    rw [splitOnce] at h
    split at h
    · cases h
      exact startsNotIn_nil
    · cases h
  | cons c tail ih =>
    rw [splitOnce] at h
    split at h
    · cases h
      exact startsNotIn_nil
    · rename_i hstart
      rcases Option.map_eq_some_iff.mp h with ⟨inner, hinner, rfl⟩
      refine startsNotIn_cons.mpr ⟨?_, ih hinner⟩
      rw [← eq_of_splitOnce hinner]
      exact hstart

theorem splitOnce_eq_none_iff [DecidableEq α] {text : List α} :
    splitOnce needle text = none <-> ¬ needle <:+: text := by
  induction text with
  | nil => simp [splitOnce]
  | cons c tail ih =>
    rw [splitOnce, List.infix_cons_iff]
    by_cases hstart : needle <+: c :: tail
    · simp [hstart]
    · simp [hstart, ih]

/-- Where the needle cannot start in the front part, it occurs in the rest or not at all. -/
theorem infix_append_iff (h : StartsNotIn needle front rest) :
    needle <:+: front ++ rest <-> needle <:+: rest := by
  induction front with
  | nil => rfl
  | cons c tail ih =>
    have hparts := startsNotIn_cons.mp h
    rw [List.cons_append, List.infix_cons_iff, ih hparts.2]
    simp [hparts.1]

theorem startsNotIn_of_head {first : α} {tail : List α} (h : first ∉ front) :
    StartsNotIn (first :: tail) front rest := by
  intro t hne ht hstart
  cases t with
  | nil => exact hne rfl
  | cons c t =>
    have hc : first = c := (List.cons_prefix_cons.mp hstart).1
    apply h
    rw [hc]
    exact ht.subset List.mem_cons_self

theorem dropWhile_ends_eq_self {p : α -> Bool} {text : List α} {first last : α}
    (hfirst : text.head? = some first) (hlast : text.getLast? = some last)
    (hfirst' : p first = false) (hlast' : p last = false) :
    ((text.dropWhile p).reverse.dropWhile p).reverse = text := by
  have hstays : forall (xs : List α) (a : α), xs.head? = some a -> p a = false ->
      xs.dropWhile p = xs := by
    intro xs a ha hpa
    cases xs with
    | nil => rfl
    | cons b rest =>
      cases ha
      rw [List.dropWhile_cons_of_neg (by simp [hpa])]
  have hback : text.reverse.head? = some last := by rw [List.head?_reverse, hlast]
  rw [hstays text first hfirst hfirst', hstays text.reverse last hback hlast',
    List.reverse_reverse]

end

/-!
# The offset of an occurrence
-/

/-- `str::find` -/
def Text.find? (needle text : Text) : Option Nat :=
  (splitOnce needle text).map (fun halves => Text.byteLen halves.1)

theorem Text.find?_of_startsNotIn {needle front rest : Text} (hneedle : needle ≠ [])
    (h : StartsNotIn needle front (needle ++ rest)) :
    Text.find? needle (front ++ (needle ++ rest)) = some (Text.byteLen front) := by
  rw [Text.find?, splitOnce_of_startsNotIn hneedle h]
  rfl

end Foundation
end JavaVsixLite
