import JavaVsixLite.Foundation.ByteText

/-!
# UTF-8

The bytes of a text, the strict decoder, and the decoder that puts the replacement
character in place of what it cannot read.  The character codec is that of the
standard library; the two decoders walk over a list of bytes with it.
-/

namespace JavaVsixLite
namespace Foundation

namespace Utf8

@[grind =] def encode : Text -> List UInt8
  | [] => []
  | c :: rest => String.utf8EncodeChar c ++ encode rest

def decodeChar? (bytes : List UInt8) : Option Char :=
  bytes.toByteArray.utf8DecodeChar? 0

theorem decodeChar?_encode (c : Char) (rest : List UInt8) :
    decodeChar? (String.utf8EncodeChar c ++ rest) = some c := by
  unfold decodeChar?
  rw [List.toByteArray_append]
  exact ByteArray.utf8DecodeChar?_utf8EncodeChar_append

variable {bytes : List UInt8} {c : Char} {text : Text}

theorem encodeChar_append_of_decodeChar? (h : decodeChar? bytes = some c) :
    String.utf8EncodeChar c ++ bytes.drop c.utf8Size = bytes := by
  rcases ByteArray.exists_of_utf8DecodeChar?_eq_some h with ⟨tail, htail⟩
  have hbytes : bytes = String.utf8EncodeChar c ++ tail.data.toList := by
    have hdata := congrArg (fun b : ByteArray => b.data.toList) htail
    simpa using hdata
  have hsize := String.length_utf8EncodeChar c
  rw [hbytes, ← hsize, List.drop_left]

/-!
# Strict decoding
-/

/-- The whole list as a text, `none` when it is not the encoding of one. -/
def fromUtf8? (bytes : List UInt8) : Option Text :=
  match bytes with
  | [] => some []
  | b :: rest =>
    match decodeChar? (b :: rest) with
    | none => none
    | some c => (fromUtf8? ((b :: rest).drop c.utf8Size)).map (fun text => c :: text)
termination_by bytes.length
decreasing_by
  have hpos := c.utf8Size_pos
  simp only [List.length_drop, List.length_cons]
  omega

theorem fromUtf8?_encode (text : Text) : fromUtf8? (encode text) = some text := by
  induction text with
  | nil =>
    rw [encode, fromUtf8?]
  | cons c rest ih =>
    have hdecode := decodeChar?_encode c (encode rest)
    have hdrop : (encode (c :: rest)).drop c.utf8Size = encode rest := by
      rw [encode, ← String.length_utf8EncodeChar c, List.drop_left]
    cases hbytes : encode (c :: rest) with
    | nil =>
      have hlen := congrArg List.length hbytes
      have hpos := c.utf8Size_pos
      simp only [encode, List.length_append, String.length_utf8EncodeChar,
        List.length_nil] at hlen
      omega
    | cons b others =>
      rw [← encode, hbytes] at hdecode
      rw [hbytes] at hdrop
      rw [fromUtf8?, hdecode]
      simp only [hdrop, ih, Option.map_some]

theorem fromUtf8?_eq_some_nil (h : fromUtf8? bytes = some []) : bytes = [] := by
  cases bytes with
  | nil => rfl
  | cons b rest =>
    rw [fromUtf8?] at h
    cases hdecode : decodeChar? (b :: rest) with
    | none =>
      rw [hdecode] at h
      cases h
    | some c =>
      rw [hdecode] at h
      simp at h

theorem fromUtf8?_eq_some_cons {others : Text} (h : fromUtf8? bytes = some (c :: others)) :
    exists b rest, bytes = b :: rest ∧ decodeChar? (b :: rest) = some c ∧
      fromUtf8? ((b :: rest).drop c.utf8Size) = some others := by
  cases bytes with
  | nil =>
    rw [fromUtf8?] at h
    cases h
  | cons b rest =>
    rw [fromUtf8?] at h
    cases hdecode : decodeChar? (b :: rest) with
    | none =>
      rw [hdecode] at h
      cases h
    | some d =>
      rw [hdecode] at h
      simp only [Option.map_eq_some_iff, List.cons.injEq] at h
      rcases h with ⟨found, hfound, rfl, rfl⟩
      exact ⟨b, rest, rfl, hdecode, hfound⟩

theorem encode_of_fromUtf8? (h : fromUtf8? bytes = some text) : encode text = bytes := by
  induction text generalizing bytes with
  | nil =>
    rw [fromUtf8?_eq_some_nil h]
    rfl
  | cons c others ih =>
    rcases fromUtf8?_eq_some_cons h with ⟨b, rest, rfl, hdecode, hrest⟩
    rw [encode, ih hrest]
    exact encodeChar_append_of_decodeChar? hdecode

/-!
# Lossy decoding

A sequence that cannot be read is replaced as a whole: the longest prefix of it
that starts a character, or a single byte.
-/

def isContinuation (b : UInt8) : Bool :=
  0x80 ≤ b && b ≤ 0xBF

/-- The second bytes that may follow the first byte of a longer sequence. -/
def secondFits (first second : UInt8) : Bool :=
  if first = 0xE0 then 0xA0 ≤ second && second ≤ 0xBF
  else if first = 0xED then 0x80 ≤ second && second ≤ 0x9F
  else if 0xE1 ≤ first && first ≤ 0xEF then isContinuation second
  else if first = 0xF0 then 0x90 ≤ second && second ≤ 0xBF
  else if first = 0xF4 then 0x80 ≤ second && second ≤ 0x8F
  else if 0xF1 ≤ first && first ≤ 0xF3 then isContinuation second
  else false

def invalidLength : List UInt8 -> Nat
  | first :: second :: third :: _ =>
    if secondFits first second then
      if 0xF0 ≤ first && isContinuation third then 3 else 2
    else 1
  | [first, second] => if secondFits first second then 2 else 1
  | _ => 1

theorem invalidLength_pos (bytes : List UInt8) : 0 < invalidLength bytes := by
  unfold invalidLength
  split
  · split
    · split <;> decide
    · decide
  · split <;> decide
  · decide

def replacement : Char := Char.ofNat 0xFFFD

def fromUtf8Lossy (bytes : List UInt8) : Text :=
  match bytes with
  | [] => []
  | b :: rest =>
    match decodeChar? (b :: rest) with
    | some c => c :: fromUtf8Lossy ((b :: rest).drop c.utf8Size)
    | none => replacement :: fromUtf8Lossy ((b :: rest).drop (invalidLength (b :: rest)))
termination_by bytes.length
decreasing_by
  · have hpos := c.utf8Size_pos
    simp only [List.length_drop, List.length_cons]
    omega
  · have hpos := invalidLength_pos (b :: rest)
    simp only [List.length_drop, List.length_cons]
    omega

theorem fromUtf8Lossy_of_fromUtf8? (h : fromUtf8? bytes = some text) :
    fromUtf8Lossy bytes = text := by
  induction text generalizing bytes with
  | nil =>
    rw [fromUtf8?_eq_some_nil h, fromUtf8Lossy]
  | cons c others ih =>
    rcases fromUtf8?_eq_some_cons h with ⟨b, rest, rfl, hdecode, hrest⟩
    rw [fromUtf8Lossy, hdecode]
    simp only [ih hrest]

theorem fromUtf8Lossy_encode (text : Text) : fromUtf8Lossy (encode text) = text :=
  fromUtf8Lossy_of_fromUtf8? (fromUtf8?_encode text)

/-!
# Bytes of an encoding
-/

theorem encode_append (xs ys : Text) :
    encode (xs ++ ys) = encode xs ++ encode ys := by
  induction xs with
  | nil => rfl
  | cons c rest ih => rw [List.cons_append, encode, encode, ih, List.append_assoc]

theorem length_encode (text : Text) : (encode text).length = text.byteLen := by
  induction text with
  | nil => rfl
  | cons c rest ih =>
    rw [encode, List.length_append, String.length_utf8EncodeChar, ih, Text.byteLen_cons]

theorem encodeChar_ne_nil (c : Char) : String.utf8EncodeChar c ≠ [] := by
  intro h
  have hlen := String.length_utf8EncodeChar c
  have hpos := c.utf8Size_pos
  rw [h, List.length_nil] at hlen
  omega

theorem encodeChar_ascii (h : c.toNat < 128) :
    String.utf8EncodeChar c = [UInt8.ofNat c.toNat] := by
  have hval : c.val.toNat = c.toNat := rfl
  unfold String.utf8EncodeChar
  simp only [hval]
  rw [if_pos (by omega)]

/-- A byte stands for an ASCII character itself, or is a high byte of another one. -/
theorem mem_encodeChar {b : UInt8} (h : b ∈ String.utf8EncodeChar c) :
    b.toNat = c.toNat ∨ 128 ≤ b.toNat := by
  have hval : c.val.toNat = c.toNat := rfl
  unfold String.utf8EncodeChar at h
  simp only [hval] at h
  split at h
  · rename_i hsmall
    rw [List.mem_singleton.mp h, UInt8.toNat_ofNat']
    omega
  · apply Or.inr
    split at h
    · simp only [List.mem_cons, List.not_mem_nil, or_false] at h
      rcases h with rfl | rfl <;> rw [UInt8.toNat_ofNat'] <;> omega
    · split at h
      · simp only [List.mem_cons, List.not_mem_nil, or_false] at h
        rcases h with rfl | rfl | rfl <;> rw [UInt8.toNat_ofNat'] <;> omega
      · simp only [List.mem_cons, List.not_mem_nil, or_false] at h
        rcases h with rfl | rfl | rfl | rfl <;> rw [UInt8.toNat_ofNat'] <;> omega

theorem mem_of_ascii_mem_encode (hc : c.toNat < 128) (h : UInt8.ofNat c.toNat ∈ encode text) :
    c ∈ text := by
  have hbyte : (UInt8.ofNat c.toNat).toNat = c.toNat := by
    rw [UInt8.toNat_ofNat']
    omega
  induction text with
  | nil => cases h
  | cons d rest ih =>
    rw [encode] at h
    rcases List.mem_append.mp h with hhead | hrest
    · rcases mem_encodeChar hhead with hsame | hhigh
      · have hd : c = d := Char.toNat_inj.mp (hbyte.symm.trans hsame)
        rw [hd]
        exact List.mem_cons_self
      · omega
    · exact List.mem_cons_of_mem d (ih hrest)

theorem mem_of_mem_fromUtf8Lossy (hc : c.toNat < 128) (h : c ∈ fromUtf8Lossy bytes) :
    UInt8.ofNat c.toNat ∈ bytes := by
  fun_induction fromUtf8Lossy bytes with
  | case1 => cases h
  | case2 b rest d hdecode ih =>
    have hbytes := encodeChar_append_of_decodeChar? hdecode
    rcases List.mem_cons.mp h with rfl | hrest
    · rw [← hbytes, encodeChar_ascii hc]
      exact List.mem_append_left _ (List.mem_singleton.mpr rfl)
    · exact (List.drop_suffix _ _).subset (ih hrest)
  | case3 b rest hdecode ih =>
    rcases List.mem_cons.mp h with rfl | hrest
    · exact absurd hc (by decide)
    · exact (List.drop_suffix _ _).subset (ih hrest)

end Utf8

end Foundation
end JavaVsixLite
