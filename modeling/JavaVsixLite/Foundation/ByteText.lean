import Mathlib.Data.List.Basic

/-!
# Texts measured in bytes

A text is a list of characters; offsets into it count the bytes of its UTF-8
encoding.  An offset is on a character boundary when it is the length of a
prefix.  Slicing at any other offset fails.

A point is a row and a byte column, advanced character by character.
-/

namespace JavaVsixLite
namespace Foundation

abbrev Text := List Char

/-- What is tested of each element of a list; characters are not run through one by one. -/
theorem forall_mem_of_all {α : Type} {p : α -> Prop} [DecidablePred p] {xs : List α}
    (h : xs.all (fun x => decide (p x)) = true) : forall x, x ∈ xs -> p x :=
  fun x hx => of_decide_eq_true (List.all_eq_true.mp h x hx)

namespace Text

def byteLen : Text -> Nat
  | [] => 0
  | c :: rest => c.utf8Size + byteLen rest

@[simp] theorem byteLen_nil : byteLen [] = 0 := rfl

@[simp] theorem byteLen_cons (c : Char) (rest : Text) :
    byteLen (c :: rest) = c.utf8Size + byteLen rest := rfl

@[simp] theorem byteLen_append (xs ys : Text) :
    byteLen (xs ++ ys) = byteLen xs + byteLen ys := by
  induction xs with
  | nil => simp
  | cons c rest ih =>
    simp only [List.cons_append, byteLen_cons, ih]
    omega

theorem length_le_byteLen (text : Text) : text.length ≤ byteLen text := by
  induction text with
  | nil => exact Nat.le_refl 0
  | cons c rest ih =>
    have hpos := c.utf8Size_pos
    rw [List.length_cons, byteLen_cons]
    omega

/-!
# Slices
-/

def dropBytes? : Nat -> Text -> Option Text
  | 0, text => some text
  | _ + 1, [] => none
  | n + 1, c :: rest =>
    if c.utf8Size ≤ n + 1 then dropBytes? (n + 1 - c.utf8Size) rest else none

def takeBytes? : Nat -> Text -> Option Text
  | 0, _ => some []
  | _ + 1, [] => none
  | n + 1, c :: rest =>
    if c.utf8Size ≤ n + 1 then
      (takeBytes? (n + 1 - c.utf8Size) rest).map (fun taken => c :: taken)
    else none

def slice? (text : Text) (start stop : Nat) : Option Text :=
  (dropBytes? start text).bind (takeBytes? (stop - start))

theorem byteLen_cons_succ (c : Char) (rest : Text) :
    exists n, byteLen (c :: rest) = n + 1 ∧ c.utf8Size ≤ n + 1 ∧
      n + 1 - c.utf8Size = byteLen rest := by
  have hpos := c.utf8Size_pos
  have hlen : byteLen (c :: rest) = c.utf8Size + byteLen rest := byteLen_cons c rest
  exists c.utf8Size + byteLen rest - 1
  omega

theorem dropBytes?_append (xs ys : Text) : dropBytes? (byteLen xs) (xs ++ ys) = some ys := by
  induction xs with
  | nil => cases ys <;> rfl
  | cons c rest ih =>
    rcases byteLen_cons_succ c rest with ⟨n, hlen, hle, hrest⟩
    rw [hlen]
    show (if c.utf8Size ≤ n + 1 then dropBytes? (n + 1 - c.utf8Size) (rest ++ ys)
      else none) = some ys
    rw [if_pos hle, hrest, ih]

theorem takeBytes?_append (xs ys : Text) : takeBytes? (byteLen xs) (xs ++ ys) = some xs := by
  induction xs with
  | nil => cases ys <;> rfl
  | cons c rest ih =>
    rcases byteLen_cons_succ c rest with ⟨n, hlen, hle, hrest⟩
    rw [hlen]
    show (if c.utf8Size ≤ n + 1 then
      (takeBytes? (n + 1 - c.utf8Size) (rest ++ ys)).map (fun taken => c :: taken)
      else none) = some (c :: rest)
    rw [if_pos hle, hrest, ih]
    rfl

theorem slice?_append (xs ys zs : Text) :
    slice? (xs ++ ys ++ zs) (byteLen xs) (byteLen xs + byteLen ys) = some ys := by
  unfold slice?
  have hlen : byteLen xs + byteLen ys - byteLen xs = byteLen ys := by omega
  rw [List.append_assoc, dropBytes?_append, hlen]
  exact takeBytes?_append ys zs

theorem append_split_of_byteLen_le {xs ys us vs : Text} (h : xs ++ ys = us ++ vs)
    (hle : byteLen xs ≤ byteLen us) :
    exists ms, us = xs ++ ms ∧ ys = ms ++ vs := by
  induction xs generalizing us with
  | nil => exact ⟨us, rfl, h⟩
  | cons c rest ih =>
    cases us with
    | nil =>
      have hpos := c.utf8Size_pos
      simp only [byteLen_cons, byteLen_nil] at hle
      omega
    | cons d others =>
      injection h with hhead htail
      subst hhead
      simp only [byteLen_cons] at hle
      rcases ih htail (by omega) with ⟨ms, hus, hys⟩
      exact ⟨ms, by rw [hus]; rfl, hys⟩

theorem takeBytes?_eq_some_iff {n : Nat} {text taken : Text} :
    takeBytes? n text = some taken <-> byteLen taken = n ∧ taken <+: text := by
  constructor
  · intro h
    induction text generalizing n taken with
    | nil =>
      cases n with
      | zero =>
        cases h
        exact ⟨rfl, List.nil_prefix⟩
      | succ n => cases h
    | cons c rest ih =>
      cases n with
      | zero =>
        cases h
        exact ⟨rfl, List.nil_prefix⟩
      | succ n =>
        simp only [takeBytes?] at h
        split at h
        · rename_i hle
          rcases Option.map_eq_some_iff.mp h with ⟨inner, hinner, rfl⟩
          rcases ih hinner with ⟨hlen, hprefix⟩
          refine ⟨?_, (List.prefix_cons_inj c).mpr hprefix⟩
          rw [byteLen_cons, hlen]
          omega
        · cases h
  · rintro ⟨rfl, others, rfl⟩
    exact takeBytes?_append taken others

theorem eq_of_prefix_of_byteLen {xs ys text : Text} (hxs : xs <+: text) (hys : ys <+: text)
    (h : byteLen xs = byteLen ys) : xs = ys := by
  have hfirst := takeBytes?_eq_some_iff.mpr ⟨rfl, hxs⟩
  have hsecond := takeBytes?_eq_some_iff.mpr ⟨rfl, hys⟩
  rw [h, hsecond] at hfirst
  exact (Option.some.inj hfirst).symm

/-!
# Points
-/

structure Point where
  row : Nat
  column : Nat
deriving DecidableEq

def Point.advance (p : Point) (c : Char) : Point :=
  if c = '\n' then { row := p.row + 1, column := 0 }
  else { row := p.row, column := p.column + c.utf8Size }

def endPoint (text : Text) : Point :=
  text.foldl Point.advance { row := 0, column := 0 }

theorem endPoint_append (xs ys : Text) :
    endPoint (xs ++ ys) = ys.foldl Point.advance (endPoint xs) := by
  unfold endPoint
  exact List.foldl_append

def rfindNewline? : Text -> Option Nat
  | [] => none
  | c :: rest =>
    match rfindNewline? rest with
    | some found => some (c.utf8Size + found)
    | none => if c = '\n' then some 0 else none

theorem rfindNewline?_cons (c : Char) (rest : Text) :
    rfindNewline? (c :: rest) =
      match rfindNewline? rest with
      | some found => some (c.utf8Size + found)
      | none => if c = '\n' then some 0 else none := rfl

theorem rfindNewline?_eq_none_iff {text : Text} :
    rfindNewline? text = none <-> text.count '\n' = 0 := by
  induction text with
  | nil => simp [rfindNewline?]
  | cons c rest ih =>
    rw [rfindNewline?_cons, List.count_cons]
    cases hrest : rfindNewline? rest with
    | some inner =>
      have hcount : rest.count '\n' ≠ 0 := by
        intro hzero
        rw [ih.mpr hzero] at hrest
        cases hrest
      simp [hcount]
    | none =>
      have hcount := ih.mp hrest
      by_cases hc : c = '\n'
      · simp [hc]
      · simp [hc, hcount]

theorem foldl_advance (text : Text) (p : Point) :
    text.foldl Point.advance p =
      { row := p.row + text.count '\n'
        column := match rfindNewline? text with
          | none => p.column + byteLen text
          | some found => byteLen text - found - 1 } := by
  induction text generalizing p with
  | nil => simp [rfindNewline?]
  | cons c rest ih =>
    rw [List.foldl_cons, ih, rfindNewline?_cons]
    unfold Point.advance
    by_cases hc : c = '\n'
    · subst hc
      have hsize : Char.utf8Size '\n' = 1 := rfl
      cases hrest : rfindNewline? rest with
      | none =>
        simp [hsize]
        omega
      | some found =>
        simp [hsize]
        omega
    · cases hrest : rfindNewline? rest with
      | none =>
        simp [hc]
        omega
      | some found =>
        simp [hc]
        omega

theorem endPoint_eq (text : Text) :
    endPoint text =
      { row := text.count '\n'
        column := byteLen text - (rfindNewline? text).elim 0 (fun found => found + 1) } := by
  unfold endPoint
  rw [foldl_advance]
  cases h : rfindNewline? text with
  | none => simp
  | some found =>
    simp
    omega

end Text

end Foundation
end JavaVsixLite
