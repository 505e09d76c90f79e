import Mathlib.Data.List.Induction
import Mathlib.Tactic.Ring

/-!
# Numbers as bytes

The low-order bytes of a number, in both orders, and the number that a list of
bytes stands for.
-/

namespace JavaVsixLite
namespace Foundation

namespace Endian

/-- The `size` low-order bytes of a number, the least significant first. -/
@[grind =] def leBytes : Nat -> Nat -> List UInt8
  | 0, _ => []
  | size + 1, v => UInt8.ofNat v :: leBytes size (v / 256)

@[grind =] def leNat : List UInt8 -> Nat
  | [] => 0
  | b :: rest => b.toNat + 256 * leNat rest

/-- The `size` low-order bytes of a number, the most significant first. -/
def beBytes (size v : Nat) : List UInt8 :=
  (leBytes size v).reverse

def beNat (bytes : List UInt8) : Nat :=
  bytes.foldl (fun v b => v * 256 + b.toNat) 0

@[simp] theorem length_leBytes (size v : Nat) : (leBytes size v).length = size := by
  induction size generalizing v with
  | zero => rfl
  | succ size ih => rw [leBytes, List.length_cons, ih]

@[simp] theorem length_beBytes (size v : Nat) : (beBytes size v).length = size := by
  rw [beBytes, List.length_reverse, length_leBytes]

theorem leNat_leBytes {size v : Nat} (h : v < 256 ^ size) : leNat (leBytes size v) = v := by
  induction size generalizing v with
  | zero =>
    have hzero : v = 0 := by simpa using h
    rw [hzero, leBytes, leNat]
  | succ size ih =>
    have hrest : v / 256 < 256 ^ size := by
      rw [Nat.div_lt_iff_lt_mul (by decide), ← pow_succ]
      exact h
    have hbyte : (UInt8.ofNat v).toNat = v % 256 := UInt8.toNat_ofNat'
    rw [leBytes, leNat, ih hrest, hbyte, Nat.mod_add_div]

theorem foldl_beNat (bytes : List UInt8) (start : Nat) :
    bytes.foldl (fun v b => v * 256 + b.toNat) start =
      start * 256 ^ bytes.length + leNat bytes.reverse := by
  induction bytes using List.reverseRecOn with
  | nil => simp [leNat]
  | append_singleton rest b ih =>
    rw [List.foldl_append, ih, List.reverse_append, List.length_append]
    show (start * 256 ^ rest.length + leNat rest.reverse) * 256 + b.toNat =
      start * 256 ^ (rest.length + 1) + (b.toNat + 256 * leNat rest.reverse)
    ring

theorem beNat_eq (bytes : List UInt8) : beNat bytes = leNat bytes.reverse := by
  rw [beNat, foldl_beNat, Nat.zero_mul, Nat.zero_add]

theorem beNat_beBytes {size v : Nat} (h : v < 256 ^ size) : beNat (beBytes size v) = v := by
  rw [beNat_eq, beBytes, List.reverse_reverse, leNat_leBytes h]

theorem leNat_lt (bytes : List UInt8) : leNat bytes < 256 ^ bytes.length := by
  induction bytes with
  | nil => exact Nat.one_pos
  | cons b rest ih =>
    have hb : b.toNat < 256 := b.toNat_lt
    rw [leNat, List.length_cons, pow_succ]
    omega

theorem beNat_lt (bytes : List UInt8) : beNat bytes < 256 ^ bytes.length := by
  have h := leNat_lt bytes.reverse
  rw [List.length_reverse, ← beNat_eq] at h
  exact h

theorem beBytes_succ (size v : Nat) :
    beBytes (size + 1) v = UInt8.ofNat (v / 256 ^ size) :: beBytes size v := by
  have hle : forall size v : Nat,
      leBytes (size + 1) v = leBytes size v ++ [UInt8.ofNat (v / 256 ^ size)] := by
    intro size
    induction size with
    | zero =>
      intro v
      simp [leBytes]
    | succ size ih =>
      intro v
      rw [leBytes, ih, leBytes, List.cons_append, Nat.div_div_eq_div_mul, ← pow_succ']
  rw [beBytes, hle, List.reverse_append]
  rfl

end Endian

end Foundation
end JavaVsixLite
