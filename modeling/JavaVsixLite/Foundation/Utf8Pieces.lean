import Mathlib.Data.List.Infix
import JavaVsixLite.Foundation.Utf8

/-!
# Decoding an encoding in pieces

An encoding is cut into pieces and each is decoded by itself, with replacement characters
for what cannot be read.  Each character has one byte that does not continue another, and
no such byte is lost; where a piece starts inside a character there is a replacement
character too many.
-/

namespace JavaVsixLite
namespace Foundation

namespace Utf8

/-- The bytes are those of a text. -/
def IsText (bytes : List UInt8) : Prop :=
  exists text, encode text = bytes

theorem isText_iff {bytes : List UInt8} : IsText bytes <-> (fromUtf8? bytes).isSome := by
  constructor
  · rintro ⟨text, rfl⟩
    rw [fromUtf8?_encode]
    rfl
  · intro h
    rcases Option.isSome_iff_exists.mp h with ⟨text, htext⟩
    exact ⟨text, encode_of_fromUtf8? htext⟩

instance (bytes : List UInt8) : Decidable (IsText bytes) :=
  decidable_of_iff _ isText_iff.symm

variable {text : Text} {b first : UInt8} {pieces : List (List UInt8)}

theorem encode_injective {text' : Text} (h : encode text = encode text') : text = text' := by
  have hdecode := fromUtf8?_encode text
  rw [h, fromUtf8?_encode] at hdecode
  exact (Option.some.inj hdecode).symm

theorem fromUtf8?_encode_append (text : Text) (bytes : List UInt8) :
    fromUtf8? (encode text ++ bytes) = (fromUtf8? bytes).map (fun rest => text ++ rest) := by
  induction text with
  | nil => simp [encode]
  | cons c rest ih =>
    have hdecode := decodeChar?_encode c (encode rest ++ bytes)
    have hdrop : (String.utf8EncodeChar c ++ (encode rest ++ bytes)).drop c.utf8Size =
        encode rest ++ bytes := by
      rw [← String.length_utf8EncodeChar c, List.drop_left]
    rw [encode, List.append_assoc]
    cases hbytes : String.utf8EncodeChar c ++ (encode rest ++ bytes) with
    | nil => exact absurd (List.append_eq_nil_iff.mp hbytes).1 (encodeChar_ne_nil c)
    | cons b others =>
      rw [hbytes] at hdecode hdrop
      rw [fromUtf8?, hdecode]
      simp only [hdrop, ih, Option.map_map]
      rfl

theorem IsText.append_iff {xs ys : List UInt8} (hxs : IsText xs) :
    IsText (xs ++ ys) <-> IsText ys := by
  rcases hxs with ⟨text, rfl⟩
  rw [isText_iff, isText_iff, fromUtf8?_encode_append, Option.isSome_map]

theorem fromUtf8Lossy_encode_append (text : Text) (bytes : List UInt8) :
    fromUtf8Lossy (encode text ++ bytes) = text ++ fromUtf8Lossy bytes := by
  induction text with
  | nil => rfl
  | cons c rest ih =>
    have hdecode := decodeChar?_encode c (encode rest ++ bytes)
    have hdrop : (String.utf8EncodeChar c ++ (encode rest ++ bytes)).drop c.utf8Size =
        encode rest ++ bytes := by
      rw [← String.length_utf8EncodeChar c, List.drop_left]
    rw [encode, List.append_assoc, List.cons_append, ← ih]
    cases hbytes : String.utf8EncodeChar c ++ (encode rest ++ bytes) with
    | nil => exact absurd (List.append_eq_nil_iff.mp hbytes).1 (encodeChar_ne_nil c)
    | cons b others =>
      rw [hbytes] at hdecode hdrop
      rw [fromUtf8Lossy, hdecode]
      simp only [hdrop]

/-!
# First bytes
-/

def leads (bytes : List UInt8) : Nat :=
  bytes.countP (fun b => !isContinuation b)

theorem leads_append (xs ys : List UInt8) : leads (xs ++ ys) = leads xs + leads ys :=
  List.countP_append

theorem isContinuation_iff : isContinuation b = true <-> 128 ≤ b.toNat ∧ b.toNat ≤ 191 := by
  unfold isContinuation
  rw [Bool.and_eq_true, decide_eq_true_eq, decide_eq_true_eq, UInt8.le_iff_toNat_le,
    UInt8.le_iff_toNat_le]
  rfl

theorem isContinuation_low (n : Nat) : isContinuation (UInt8.ofNat (n % 64 + 128)) = true := by
  rw [isContinuation_iff, UInt8.toNat_ofNat']
  omega

theorem isContinuation_first {n : Nat} (h : n < 128 ∨ 192 ≤ n ∧ n < 256) :
    isContinuation (UInt8.ofNat n) = false := by
  rw [Bool.eq_false_iff, Ne, isContinuation_iff, UInt8.toNat_ofNat']
  omega

theorem encodeChar_parts (c : Char) :
    exists first others, String.utf8EncodeChar c = first :: others ∧
      isContinuation first = false ∧ forall b, b ∈ others -> isContinuation b = true := by
  unfold String.utf8EncodeChar
  dsimp only
  split
  · rename_i hone
    exact ⟨_, [], rfl, isContinuation_first (Or.inl (Nat.lt_succ_of_le hone)),
      fun b hb => by cases hb⟩
  · split
    · refine ⟨_, _, rfl, isContinuation_first (by omega), ?_⟩
      intro b hb
      rw [List.mem_singleton.mp hb]
      exact isContinuation_low _
    · split
      · refine ⟨_, _, rfl, isContinuation_first (by omega), ?_⟩
        intro b hb
        simp only [List.mem_cons, List.not_mem_nil, or_false] at hb
        rcases hb with rfl | rfl <;> exact isContinuation_low _
      · refine ⟨_, _, rfl, isContinuation_first (by omega), ?_⟩
        intro b hb
        simp only [List.mem_cons, List.not_mem_nil, or_false] at hb
        rcases hb with rfl | rfl | rfl <;> exact isContinuation_low _

theorem leads_eq_zero {bytes : List UInt8} (h : forall b, b ∈ bytes -> isContinuation b = true) :
    leads bytes = 0 := by
  unfold leads
  rw [List.countP_eq_zero]
  intro b hb
  rw [h b hb]
  decide

theorem leads_encodeChar (c : Char) : leads (String.utf8EncodeChar c) = 1 := by
  rcases encodeChar_parts c with ⟨first, others, hbytes, hfirst, hothers⟩
  have hzero := leads_eq_zero hothers
  unfold leads at hzero ⊢
  rw [hbytes, List.countP_cons, hzero, hfirst]
  rfl

theorem leads_encode (text : Text) : leads (encode text) = text.length := by
  induction text with
  | nil => rfl
  | cons c rest ih =>
    rw [encode, leads_append, leads_encodeChar, ih, List.length_cons, Nat.add_comm]

theorem toNat_bounds {low high : UInt8} (h : (low ≤ b && b ≤ high) = true) :
    low.toNat ≤ b.toNat ∧ b.toNat ≤ high.toNat := by
  rw [Bool.and_eq_true, decide_eq_true_eq, decide_eq_true_eq] at h
  exact ⟨UInt8.le_iff_toNat_le.mp h.1, UInt8.le_iff_toNat_le.mp h.2⟩

theorem isContinuation_of_bounds {low high : UInt8} (hlow : 128 ≤ low.toNat)
    (hhigh : high.toNat ≤ 191) (h : (low ≤ b && b ≤ high) = true) : isContinuation b = true := by
  have hbounds := toNat_bounds h
  rw [isContinuation_iff]
  exact ⟨Nat.le_trans hlow hbounds.1, Nat.le_trans hbounds.2 hhigh⟩

theorem isContinuation_of_secondFits {second : UInt8} (h : secondFits first second = true) :
    isContinuation second = true := by
  unfold secondFits at h
  split at h
  · exact isContinuation_of_bounds (by decide) (by decide) h
  · split at h
    · exact isContinuation_of_bounds (by decide) (by decide) h
    · split at h
      · exact h
      · split at h
        · exact isContinuation_of_bounds (by decide) (by decide) h
        · split at h
          · exact isContinuation_of_bounds (by decide) (by decide) h
          · split at h
            · exact h
            · cases h

theorem leads_cons_le (first : UInt8) {others : List UInt8}
    (h : forall b, b ∈ others -> isContinuation b = true) : leads (first :: others) ≤ 1 := by
  have hothers := leads_eq_zero h
  unfold leads at hothers ⊢
  rw [List.countP_cons, hothers]
  split <;> decide

theorem leads_take_invalidLength (bytes : List UInt8) :
    leads (bytes.take (invalidLength bytes)) ≤ 1 := by
  unfold invalidLength
  split
  · rename_i first second third rest
    split
    · rename_i hsecond
      have hcontinues := isContinuation_of_secondFits hsecond
      split
      · rename_i hthird
        have hcontinues' := (Bool.and_eq_true_iff.mp hthird).2
        apply leads_cons_le
        simp [hcontinues, hcontinues']
      · apply leads_cons_le
        simp [hcontinues]
    · exact leads_cons_le first (fun b hb => by cases hb)
  · rename_i first second
    split
    · rename_i hsecond
      apply leads_cons_le
      simp [isContinuation_of_secondFits hsecond]
    · exact leads_cons_le first (fun b hb => by cases hb)
  · cases bytes with
    | nil => decide
    | cons first rest => exact leads_cons_le first (fun b hb => by cases hb)

theorem secondFits_of_isContinuation (h : isContinuation first = true) (second : UInt8) :
    secondFits first second = false := by
  have hbounds := isContinuation_iff.mp h
  have hne : forall high : UInt8, 191 < high.toNat -> first ≠ high := by
    rintro high hhigh rfl
    exact absurd hhigh (Nat.not_lt.mpr hbounds.2)
  have hnotLe : forall low : UInt8, 191 < low.toNat -> ¬ low ≤ first := by
    intro low hlow hle
    have hnat := UInt8.le_iff_toNat_le.mp hle
    exact absurd (Nat.lt_of_lt_of_le hlow hnat) (Nat.not_lt.mpr hbounds.2)
  unfold secondFits
  rw [if_neg (hne _ (by decide)), if_neg (hne _ (by decide)), if_neg, if_neg (hne _ (by decide)),
    if_neg (hne _ (by decide)), if_neg]
  · intro hrange
    exact hnotLe 0xF1 (by decide) (of_decide_eq_true (Bool.and_eq_true_iff.mp hrange).1)
  · intro hrange
    exact hnotLe 0xE1 (by decide) (of_decide_eq_true (Bool.and_eq_true_iff.mp hrange).1)

theorem invalidLength_of_isContinuation (h : isContinuation first = true) (rest : List UInt8) :
    invalidLength (first :: rest) = 1 := by
  have hnever : forall second, ¬ secondFits first second = true := by
    intro second
    rw [secondFits_of_isContinuation h second]
    decide
  unfold invalidLength
  split
  · rename_i heq
    cases heq
    exact if_neg (hnever _)
  · rename_i heq
    cases heq
    exact if_neg (hnever _)
  · rfl

theorem decodeChar?_of_isContinuation (h : isContinuation first = true) (rest : List UInt8) :
    decodeChar? (first :: rest) = none := by
  cases hdecode : decodeChar? (first :: rest) with
  | none => rfl
  | some c =>
    have hbytes := encodeChar_append_of_decodeChar? hdecode
    rcases encodeChar_parts c with ⟨lead, others, hchar, hlead, _⟩
    rw [hchar, List.cons_append, List.cons.injEq] at hbytes
    rw [← hbytes.1, hlead] at h
    cases h

theorem leads_le_length_fromUtf8Lossy (bytes : List UInt8) :
    leads bytes ≤ (fromUtf8Lossy bytes).length := by
  fun_induction fromUtf8Lossy bytes with
  | case1 => exact Nat.le_refl 0
  | case2 b rest c hdecode ih =>
    have hbytes := encodeChar_append_of_decodeChar? hdecode
    rw [← hbytes, leads_append, leads_encodeChar, hbytes, List.length_cons]
    omega
  | case3 b rest hdecode ih =>
    have hone := leads_take_invalidLength (b :: rest)
    have hparts := List.take_append_drop (invalidLength (b :: rest)) (b :: rest)
    have hsum := leads_append ((b :: rest).take (invalidLength (b :: rest)))
      ((b :: rest).drop (invalidLength (b :: rest)))
    rw [hparts] at hsum
    rw [List.length_cons]
    omega

theorem leads_lt_length_fromUtf8Lossy (h : isContinuation first = true) (rest : List UInt8) :
    leads (first :: rest) < (fromUtf8Lossy (first :: rest)).length := by
  have hleads : leads (first :: rest) = leads rest := by
    unfold leads
    rw [List.countP_cons, h]
    rfl
  have hrest := leads_le_length_fromUtf8Lossy rest
  rw [fromUtf8Lossy, decodeChar?_of_isContinuation h rest]
  simp only [invalidLength_of_isContinuation h rest, List.drop_succ_cons, List.drop_zero,
    List.length_cons]
  omega

/-!
# Pieces
-/

theorem leads_flatten_le (pieces : List (List UInt8)) :
    leads pieces.flatten ≤ (pieces.flatMap fromUtf8Lossy).length := by
  induction pieces with
  | nil => exact Nat.le_refl 0
  | cons piece rest ih =>
    have hpiece := leads_le_length_fromUtf8Lossy piece
    rw [List.flatten_cons, leads_append, List.flatMap_cons, List.length_append]
    omega

theorem leads_flatten_lt {rest : List UInt8} (h : isContinuation first = true)
    (hpieces : pieces.flatten = first :: rest) :
    leads pieces.flatten < (pieces.flatMap fromUtf8Lossy).length := by
  induction pieces with
  | nil => cases hpieces
  | cons piece others ih =>
    cases piece with
    | nil =>
      rw [List.flatten_cons, List.nil_append, List.flatMap_cons, fromUtf8Lossy,
        List.nil_append]
      exact ih hpieces
    | cons b piece =>
      rw [List.flatten_cons, List.cons_append, List.cons.injEq] at hpieces
      rcases hpieces with ⟨rfl, _⟩
      have hpiece := leads_lt_length_fromUtf8Lossy h piece
      have hothers := leads_flatten_le others
      rw [List.flatten_cons, leads_append, List.flatMap_cons, List.length_append]
      omega

theorem append_eq_encode {front back : List UInt8} (h : front ++ back = encode text) :
    exists before after, text = before ++ after ∧
      (front = encode before ∧ back = encode after ∨
        exists c others inside outside, after = c :: others ∧ inside ≠ [] ∧ outside ≠ [] ∧
          String.utf8EncodeChar c = inside ++ outside ∧ front = encode before ++ inside ∧
          back = outside ++ encode others) := by
  induction text generalizing front with
  | nil =>
    have hnil := List.append_eq_nil_iff.mp h
    exact ⟨[], [], rfl, Or.inl hnil⟩
  | cons c rest ih =>
    rw [encode] at h
    rcases List.append_eq_append_iff.mp h with ⟨outside, hchar, hback⟩ | ⟨more, hfront, hrest⟩
    · by_cases hfront : front = []
      · subst hfront
        exact ⟨[], c :: rest, rfl, Or.inl ⟨rfl, h⟩⟩
      · by_cases houtside : outside = []
        · subst houtside
          rw [List.append_nil] at hchar
          refine ⟨[c], rest, rfl, Or.inl ⟨?_, hback⟩⟩
          rw [encode, encode, List.append_nil, hchar]
        · exact ⟨[], c :: rest, rfl, Or.inr ⟨c, rest, front, outside, rfl, hfront, houtside,
            hchar, rfl, hback⟩⟩
    · rcases ih hrest.symm with ⟨before, after, rfl, hcut⟩
      refine ⟨c :: before, after, rfl, ?_⟩
      rcases hcut with ⟨rfl, hafter⟩ | ⟨d, others, inside, outside, hd, hin, hout, hchar, rfl, hb⟩
      · exact Or.inl ⟨by rw [hfront, encode], hafter⟩
      · exact Or.inr ⟨d, others, inside, outside, hd, hin, hout, hchar,
          by rw [hfront, encode, List.append_assoc], hb⟩

theorem isText_of_append_eq_encode {front back : List UInt8} (hb : b.toNat < 128)
    (h : front ++ [b] ++ back = encode text) : IsText (front ++ [b]) := by
  rcases append_eq_encode h with ⟨before, after, _, ⟨hfront, _⟩ | hcut⟩
  · exact ⟨before, hfront.symm⟩
  · rcases hcut with ⟨c, others, inside, outside, _, hinside, houtside, hchar, hfront, _⟩
    have hlast := congrArg List.getLast? hfront
    rw [List.getLast?_concat, List.getLast?_append_of_ne_nil _ hinside] at hlast
    have hmem : b ∈ String.utf8EncodeChar c := by
      rw [hchar]
      exact List.mem_append_left _ (List.mem_of_getLast? hlast.symm)
    have hlen := congrArg List.length hchar
    rcases mem_encodeChar hmem with hsame | hhigh
    · have hpos := List.length_pos_of_ne_nil hinside
      have hpos' := List.length_pos_of_ne_nil houtside
      rw [encodeChar_ascii (hsame ▸ hb), List.length_append, List.length_singleton] at hlen
      omega
    · omega

theorem flatten_eq_encode (h : forall piece, piece ∈ pieces -> IsText piece) :
    pieces.flatten = encode (pieces.flatMap fromUtf8Lossy) := by
  induction pieces with
  | nil => rfl
  | cons piece rest ih =>
    rcases h piece List.mem_cons_self with ⟨text, rfl⟩
    rw [List.flatten_cons, List.flatMap_cons, fromUtf8Lossy_encode, encode_append,
      ih (fun other hother => h other (List.mem_cons_of_mem _ hother))]

/-- Pieces that are decoded one by one give the text if and only if each of them starts and
ends between two characters. -/
theorem flatMap_fromUtf8Lossy_eq_iff (h : pieces.flatten = encode text) :
    pieces.flatMap fromUtf8Lossy = text <-> forall piece, piece ∈ pieces -> IsText piece := by
  constructor
  · intro heq
    induction pieces generalizing text with
    | nil =>
      intro piece hpiece
      cases hpiece
    | cons piece rest ih =>
      rw [List.flatten_cons] at h
      rw [List.flatMap_cons] at heq
      rcases append_eq_encode h with ⟨before, after, rfl, ⟨rfl, hafter⟩ | hcut⟩
      · rw [fromUtf8Lossy_encode, List.append_cancel_left_eq] at heq
        intro other hother
        rcases List.mem_cons.mp hother with rfl | hrest
        · exact ⟨before, rfl⟩
        · exact ih hafter heq other hrest
      · rcases hcut with ⟨c, others, inside, outside, rfl, hinside, houtside, hchar, rfl, hback⟩
        rw [fromUtf8Lossy_encode_append, List.append_assoc, List.append_cancel_left_eq] at heq
        -- The rest starts inside the character, so that one character too many is read.
        rcases encodeChar_parts c with ⟨lead, continues, hparts, _, hcontinues⟩
        have hcount := leads_encodeChar c
        rw [hchar, leads_append] at hcount
        cases outside with
        | nil => exact absurd rfl houtside
        | cons b outside =>
          have hb : isContinuation b = true := by
            cases inside with
            | nil => exact absurd rfl hinside
            | cons first inside =>
              rw [hchar, List.cons_append, List.cons.injEq] at hparts
              apply hcontinues b
              rw [← hparts.2]
              exact List.mem_append_right _ List.mem_cons_self
          have hmore := leads_flatten_lt hb hback
          have hfirst := leads_le_length_fromUtf8Lossy inside
          have hlen := congrArg List.length heq
          rw [hback, leads_append, leads_encode] at hmore
          rw [List.length_append, List.length_cons] at hlen
          omega
  · intro hall
    rw [flatten_eq_encode hall] at h
    exact encode_injective h

end Utf8

end Foundation
end JavaVsixLite
