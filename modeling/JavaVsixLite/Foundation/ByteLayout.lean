import JavaVsixLite.Foundation.Endian

/-!
# Parts of a byte string

Where a part of a byte string starts, and what is read there.  Numbers are
little-endian; reading past the end gives `none`.
-/

namespace JavaVsixLite
namespace Foundation

namespace ByteLayout

/-- The bytes from `pos` on, `none` when they run past the end. -/
def readAt (bytes : List UInt8) (pos len : Nat) : Option (List UInt8) :=
  if pos + len > bytes.length then none else some ((bytes.drop pos).take len)

def u16le (bytes : List UInt8) (i : Nat) : Option Nat :=
  (readAt bytes i 2).map Endian.leNat

def u32le (bytes : List UInt8) (i : Nat) : Option Nat :=
  (readAt bytes i 4).map Endian.leNat

def HoldsAt (bytes : List UInt8) (pos : Nat) (part : List UInt8) : Prop :=
  exists before after, bytes = before ++ (part ++ after) ∧ before.length = pos

namespace HoldsAt

variable {bytes part more : List UInt8} {pos i : Nat}

theorem refl (bytes : List UInt8) : HoldsAt bytes 0 bytes :=
  ⟨[], [], by rw [List.append_nil, List.nil_append], rfl⟩

theorem left (h : HoldsAt bytes pos (part ++ more)) : HoldsAt bytes pos part := by
  rcases h with ⟨before, after, rfl, hbefore⟩
  exact ⟨before, more ++ after, by rw [List.append_assoc part], hbefore⟩

theorem right (h : HoldsAt bytes pos (part ++ more)) :
    HoldsAt bytes (pos + part.length) more := by
  rcases h with ⟨before, after, rfl, hbefore⟩
  refine ⟨before ++ part, after, by simp only [List.append_assoc], ?_⟩
  rw [List.length_append, hbefore]

theorem behind {n : Nat} (h : HoldsAt bytes pos (part ++ more)) (hn : part.length = n) :
    HoldsAt bytes (pos + n) more := by
  rw [← hn]
  exact h.right

theorem trans (h : HoldsAt bytes pos part) (hpart : HoldsAt part i more) :
    HoldsAt bytes (pos + i) more := by
  rcases h with ⟨before, after, rfl, hbefore⟩
  rcases hpart with ⟨first, last, rfl, hfirst⟩
  refine ⟨before ++ first, last ++ after, by simp only [List.append_assoc], ?_⟩
  rw [List.length_append, hbefore, hfirst]

theorem bound (h : HoldsAt bytes pos part) : pos + part.length ≤ bytes.length := by
  rcases h with ⟨before, after, rfl, hbefore⟩
  simp only [List.length_append]
  omega

theorem readAt (h : HoldsAt bytes pos part) {len : Nat} (hlen : part.length = len) :
    readAt bytes pos len = some part := by
  have hbound := h.bound
  unfold ByteLayout.readAt
  rw [if_neg (by omega)]
  rcases h with ⟨before, after, rfl, hbefore⟩
  rw [← hbefore, List.drop_left, ← hlen, List.take_left]

theorem u16le {v : Nat} (h : HoldsAt bytes pos (Endian.leBytes 2 v)) (hv : v < 65536) :
    u16le bytes pos = some v := by
  unfold ByteLayout.u16le
  rw [h.readAt (Endian.length_leBytes 2 v), Option.map_some, Endian.leNat_leBytes hv]

theorem u32le {v : Nat} (h : HoldsAt bytes pos (Endian.leBytes 4 v)) (hv : v < 4294967296) :
    u32le bytes pos = some v := by
  unfold ByteLayout.u32le
  rw [h.readAt (Endian.length_leBytes 4 v), Option.map_some, Endian.leNat_leBytes hv]

end HoldsAt

theorem readAt_drop {bytes : List UInt8} {n : Nat} (hn : n ≤ bytes.length) (pos len : Nat) :
    readAt (bytes.drop n) pos len = readAt bytes (n + pos) len := by
  unfold readAt
  rw [List.length_drop, List.drop_drop]
  by_cases h : pos + len > bytes.length - n
  · rw [if_pos h, if_pos (by omega)]
  · rw [if_neg h, if_neg (by omega)]

theorem u32le_drop {bytes : List UInt8} {n : Nat} (hn : n ≤ bytes.length) (i : Nat) :
    u32le (bytes.drop n) i = u32le bytes (n + i) := by
  unfold u32le
  rw [readAt_drop hn]

end ByteLayout

theorem find?_reverse_range {p : Nat -> Bool} {n last : Nat} (hlast : last ≤ n)
    (hp : p last = true) (hlater : forall i, last < i -> i ≤ n -> p i = false) :
    (List.range (n + 1)).reverse.find? p = some last := by
  induction n with
  | zero =>
    have hzero : last = 0 := by omega
    subst hzero
    simp [hp]
  | succ n ih =>
    rw [List.range_succ, List.reverse_append, List.reverse_singleton, List.singleton_append]
    rcases Nat.lt_or_ge n last with hgt | hle
    · have heq : last = n + 1 := by omega
      subst heq
      rw [List.find?_cons_of_pos hp]
    · rw [List.find?_cons_of_neg (by rw [hlater (n + 1) (by omega) (Nat.le_refl _)]; decide)]
      exact ih hle (fun i hi hin => hlater i hi (by omega))

end Foundation
end JavaVsixLite
