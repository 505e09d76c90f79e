import Mathlib.Data.Prod.Lex
import JavaVsixLite.Foundation.SortedDedup

/-!
# The encoding of the semantic tokens

The classified tokens are collected in no fixed order.  They are sorted by
position, of the tokens at one position the first stays, and each is sent
relative to its predecessor.  The client adds the distances up again.
-/

namespace JavaVsixLite
namespace Documents

open Foundation

structure RawToken where
  line : UInt32
  start : UInt32
  len : UInt32
  tokenType : UInt32

structure SemanticToken where
  deltaLine : UInt32
  deltaStart : UInt32
  length : UInt32
  tokenType : UInt32
  tokenModifiersBitset : UInt32

namespace RawToken

def position (t : RawToken) : Lex (Nat × Nat) :=
  toLex (t.line.toNat, t.start.toNat)

end RawToken

/-- The end of `semantic_tokens`: the tokens that are encoded. -/
def sortedTokens (raw : List RawToken) : List RawToken :=
  dedupByKey RawToken.position (sortByKey RawToken.position raw)

/-- `a - b`, where `none` stands for the panic of an underflow. -/
def checkedSub (a b : UInt32) : Option UInt32 :=
  if b ≤ a then some (a - b) else none

/-- The loop of `delta_encode`. -/
def deltaEncodeFrom (prevLine prevStart : UInt32) :
    List RawToken -> Option (List SemanticToken)
  | [] => some []
  | token :: rest => do
      let deltaLine <- checkedSub token.line prevLine
      let deltaStart <-
        (if deltaLine = 0 then checkedSub token.start prevStart else some token.start)
      let data <- deltaEncodeFrom token.line token.start rest
      some
        ({ deltaLine := deltaLine
           deltaStart := deltaStart
           length := token.len
           tokenType := token.tokenType
           tokenModifiersBitset := 0 } :: data)

def deltaEncode (tokens : List RawToken) : Option (List SemanticToken) :=
  deltaEncodeFrom 0 0 tokens

/-!
# Decoding

The protocol counts a line from the line of the token before, and a start from
the start of the token before if both are on one line.  `none` stands for a sum
that is not an unsigned 32-bit integer.
-/

def checkedAdd (a b : UInt32) : Option UInt32 :=
  if a.toNat + b.toNat < UInt32.size then some (a + b) else none

def decodeFrom (prevLine prevStart : UInt32) :
    List SemanticToken -> Option (List RawToken)
  | [] => some []
  | token :: rest => do
      let line <- checkedAdd prevLine token.deltaLine
      let start <-
        (if token.deltaLine = 0 then checkedAdd prevStart token.deltaStart
         else some token.deltaStart)
      let tokens <- decodeFrom line start rest
      some
        ({ line := line
           start := start
           len := token.length
           tokenType := token.tokenType } :: tokens)

def decode (data : List SemanticToken) : Option (List RawToken) :=
  decodeFrom 0 0 data

theorem checkedSub_of_le {a b : UInt32} (h : b ≤ a) : checkedSub a b = some (a - b) :=
  if_pos h

theorem checkedAdd_sub {a b : UInt32} (h : b ≤ a) : checkedAdd b (a - b) = some a := by
  have hsum : b.toNat + (a - b).toNat = a.toNat := by
    rw [UInt32.toNat_sub_of_le _ _ h]
    exact Nat.add_sub_cancel' (UInt32.le_iff_toNat_le.mp h)
  unfold checkedAdd
  rw [hsum, if_pos a.toNat_lt, UInt32.add_comm, UInt32.sub_add_cancel]

theorem sub_eq_zero_iff {a b : UInt32} : a - b = 0 <-> a = b := by
  constructor
  · intro hzero
    rw [← UInt32.sub_add_cancel a b, hzero, UInt32.zero_add]
  · intro heq
    rw [heq, UInt32.sub_self]

/-!
# The round trip
-/

def RawToken.From (line start : UInt32) (t : RawToken) : Prop :=
  line ≤ t.line ∧ (t.line = line -> start ≤ t.start)

theorem RawToken.from_of_position_lt {t u : RawToken} (h : t.position < u.position) :
    RawToken.From t.line t.start u := by
  unfold RawToken.position at h
  rw [Prod.Lex.toLex_lt_toLex] at h
  cases h with
  | inl hline =>
    constructor
    · exact UInt32.le_iff_toNat_le.mpr (Nat.le_of_lt hline)
    · intro heq
      rw [heq] at hline
      exact absurd hline (Nat.lt_irrefl _)
  | inr hstart =>
    constructor
    · exact UInt32.le_iff_toNat_le.mpr (Nat.le_of_eq hstart.1)
    · intro _
      exact UInt32.le_iff_toNat_le.mpr (Nat.le_of_lt hstart.2)

/-- Both distances of one token, as one round of the encoder and one of the decoder see them. -/
theorem RawToken.From.distances {line start : UInt32} {token : RawToken}
    (h : RawToken.From line start token) :
    exists deltaLine deltaStart,
      checkedSub token.line line = some deltaLine ∧
      (if deltaLine = 0 then checkedSub token.start start else some token.start) =
        some deltaStart ∧
      checkedAdd line deltaLine = some token.line ∧
      (if deltaLine = 0 then checkedAdd start deltaStart else some deltaStart) =
        some token.start := by
  by_cases hline : token.line = line
  · have hzero : token.line - line = 0 := sub_eq_zero_iff.mpr hline
    have hstart := h.2 hline
    refine ⟨token.line - line, token.start - start, checkedSub_of_le h.1, ?_,
      checkedAdd_sub h.1, ?_⟩
    · rw [if_pos hzero, checkedSub_of_le hstart]
    · rw [if_pos hzero, checkedAdd_sub hstart]
  · have hzero : token.line - line ≠ 0 := mt sub_eq_zero_iff.mp hline
    refine ⟨token.line - line, token.start, checkedSub_of_le h.1, ?_, checkedAdd_sub h.1, ?_⟩
    · rw [if_neg hzero]
    · rw [if_neg hzero]

theorem decodeFrom_deltaEncodeFrom {line start : UInt32} {tokens : List RawToken}
    (hfirst : forall t, tokens.head? = some t -> RawToken.From line start t)
    (hsorted : tokens.Pairwise (fun t u => t.position < u.position)) :
    exists data, deltaEncodeFrom line start tokens = some data ∧
      decodeFrom line start data = some tokens := by
  induction tokens generalizing line start with
  | nil => exact ⟨[], rfl, rfl⟩
  | cons token rest ih =>
    have hnext : forall t, rest.head? = some t -> RawToken.From token.line token.start t := by
      intro t ht
      apply RawToken.from_of_position_lt
      exact List.rel_of_pairwise_cons hsorted (List.mem_of_head? ht)
    cases ih hnext hsorted.of_cons with
    | intro data hdata =>
      cases (hfirst token rfl).distances with
      | intro deltaLine hline =>
        cases hline with
        | intro deltaStart h =>
          exists
            { deltaLine := deltaLine
              deltaStart := deltaStart
              length := token.len
              tokenType := token.tokenType
              tokenModifiersBitset := 0 } :: data
          constructor
          · simp only [deltaEncodeFrom, h.1, h.2.1, hdata.1, Option.bind_eq_bind,
              Option.bind_some]
          · simp only [decodeFrom, h.2.2.1, h.2.2.2, hdata.2, Option.bind_eq_bind,
              Option.bind_some]

theorem from_zero (t : RawToken) : RawToken.From 0 0 t := by
  constructor
  · exact UInt32.zero_le
  · intro _
    exact UInt32.zero_le

theorem pairwise_sortedTokens (raw : List RawToken) :
    (sortedTokens raw).Pairwise (fun t u => t.position < u.position) :=
  pairwise_dedupByKey (pairwise_sortByKey raw)

/--
The encoded tokens lie in order at positions of their own, at each the first token collected
there; no subtraction underflows, and the client reads back the tokens that were encoded.
-/
theorem deltaEncode_sortedTokens (raw : List RawToken) :
    (sortedTokens raw).Pairwise (fun t u => t.position < u.position) ∧
      (forall t, t ∈ sortedTokens raw <->
        raw.find? (fun u => decide (u.position = t.position)) = some t) ∧
      exists data, deltaEncode (sortedTokens raw) = some data ∧
        decode data = some (sortedTokens raw) := by
  refine ⟨pairwise_sortedTokens raw, fun t => mem_dedup_sortByKey, ?_⟩
  apply decodeFrom_deltaEncodeFrom
  · intro t _
    exact from_zero t
  · exact pairwise_sortedTokens raw

end Documents
end JavaVsixLite
