import Mathlib.Data.List.AList

/-!
# Finite tables

A table has one entry for each of its keys.  `keep` drops the entries that fail
a test.
-/

namespace JavaVsixLite
namespace Foundation

abbrev Table (κ β : Type) := AList (fun _ : κ => β)

namespace Table

variable {κ β : Type} [DecidableEq κ]

def keep (p : κ -> β -> Bool) (table : Table κ β) : Table κ β where
  entries := table.entries.filter (fun entry => p entry.1 entry.2)
  nodupKeys := List.NodupKeys.sublist List.filter_sublist table.nodupKeys

variable {table : Table κ β} {k : κ}

theorem lookup_eq_some_iff {b : β} :
    table.lookup k = some b <-> Sigma.mk k b ∈ table.entries := by
  rw [← AList.mem_lookup_iff]
  exact Iff.rfl

theorem lookup_keep_eq_some_iff {p : κ -> β -> Bool} {b : β} :
    (keep p table).lookup k = some b <-> table.lookup k = some b ∧ p k b = true := by
  rw [lookup_eq_some_iff, lookup_eq_some_iff]
  unfold keep
  simp only [List.mem_filter]

theorem lookup_keep_of_true {p : κ -> β -> Bool} (h : forall b, p k b = true) :
    (keep p table).lookup k = table.lookup k := by
  cases hlookup : table.lookup k with
  | none =>
    cases hkeep : (keep p table).lookup k with
    | none => rfl
    | some b =>
      have hb := (lookup_keep_eq_some_iff.mp hkeep).1
      rw [hlookup] at hb
      cases hb
  | some b => exact lookup_keep_eq_some_iff.mpr ⟨hlookup, h b⟩

theorem mem_keys_iff : k ∈ table.keys <-> exists b, table.lookup k = some b := by
  rw [← AList.mem_keys, ← AList.lookup_isSome, Option.isSome_iff_exists]

end Table
end Foundation
end JavaVsixLite
