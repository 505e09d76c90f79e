import JavaVsixLite.Foundation.Substrings
import JavaVsixLite.Foundation.Utf8
import JavaVsixLite.Refactor.Words

/-!
# The search for a word

The search looks for the next occurrence, reads the bytes around it, and goes on one byte
behind it when it is rejected.  The slice there panics inside of a character, so what the
first character of the word looks like decides whether every occurrence is tried.
-/

namespace JavaVsixLite
namespace Refactor

open Foundation

/-- `is_ident`, on the bytes of the text. -/
def isIdentByte (b : UInt8) : Bool :=
  (48 ≤ b && b ≤ 57) || (65 ≤ b && b ≤ 90) || (97 ≤ b && b ≤ 122) || b == 95 || b == 36

theorem le_byteLen_of_dropBytes? {n : Nat} {text rest : Text}
    (h : Text.dropBytes? n text = some rest) : n ≤ Text.byteLen text := by
  induction text generalizing n with
  | nil =>
    cases n with
    | zero => exact Nat.le_refl 0
    | succ n => cases h
  | cons c others ih =>
    cases n with
    | zero => exact Nat.zero_le _
    | succ n =>
      simp only [Text.dropBytes?] at h
      split at h
      · have hrest := ih h
        rw [Text.byteLen_cons]
        omega
      · cases h

/-- The loop of `contains_word`; `none` where the slice panics. -/
def searchFrom (hay word : Text) (start : Nat) : Option Bool :=
  match _hrest : Text.dropBytes? start hay with
  | none => none
  | some rest =>
    match Text.find? word rest with
    | none => some false
    | some rel =>
      let found := start + rel
      let behind := found + Text.byteLen word
      let bytes := Utf8.encode hay
      if (found = 0 ∨ bytes[found - 1]?.any isIdentByte = false) ∧
          (bytes.length ≤ behind ∨ bytes[behind]?.any isIdentByte = false) then some true
      else searchFrom hay word (found + 1)
termination_by Text.byteLen hay + 1 - start
decreasing_by
  have hle := le_byteLen_of_dropBytes? _hrest
  omega

/-- `contains_word` as it searches; `none` where it panics. -/
def searchWord (hay word : Text) : Option Bool :=
  if word = [] then some false else searchFrom hay word 0

/-!
# Characters and their bytes
-/

variable {c : Char} {word tail : Text}

theorem isIdent_iff : isIdent c = true <->
    (48 ≤ c.toNat ∧ c.toNat ≤ 57) ∨ (65 ≤ c.toNat ∧ c.toNat ≤ 90) ∨
      (97 ≤ c.toNat ∧ c.toNat ≤ 122) ∨ c.toNat = 95 ∨ c.toNat = 36 := by
  have hval : c.val.toNat = c.toNat := rfl
  have halpha : c.isAlpha = (c.isUpper || c.isLower) := rfl
  have hupper : c.isUpper = decide (c.val ≥ 'A'.val ∧ c.val ≤ 'Z'.val) := rfl
  have hlower : c.isLower = (decide (c.val ≥ 'a'.val) && decide (c.val ≤ 'z'.val)) := rfl
  simp only [isIdent, Char.isAlphanum, halpha, hupper, hlower, Char.isDigit, Bool.or_eq_true,
    Bool.and_eq_true, decide_eq_true_eq, beq_iff_eq, ge_iff_le, UInt32.le_iff_toNat_le,
    ← Char.toNat_inj, Char.reduceVal, Char.reduceToNat, UInt32.reduceToNat, hval]
  omega

theorem isIdentByte_iff {b : UInt8} : isIdentByte b = true <->
    (48 ≤ b.toNat ∧ b.toNat ≤ 57) ∨ (65 ≤ b.toNat ∧ b.toNat ≤ 90) ∨
      (97 ≤ b.toNat ∧ b.toNat ≤ 122) ∨ b.toNat = 95 ∨ b.toNat = 36 := by
  simp only [isIdentByte, Bool.or_eq_true, Bool.and_eq_true, decide_eq_true_eq, beq_iff_eq,
    UInt8.le_iff_toNat_le, ← UInt8.toNat_inj, UInt8.reduceToNat]
  omega

/-- Every byte of a character is one of an identifier exactly when the character is. -/
theorem isIdentByte_of_mem {b : UInt8} (h : b ∈ String.utf8EncodeChar c) :
    isIdentByte b = isIdent c := by
  rw [Bool.eq_iff_iff, isIdentByte_iff, isIdent_iff]
  by_cases hc : c.toNat < 128
  · rw [Utf8.encodeChar_ascii hc, List.mem_singleton] at h
    have hbyte : b.toNat = c.toNat := by
      rw [h, UInt8.toNat_ofNat']
      omega
    rw [hbyte]
  · have hbyte := Utf8.mem_encodeChar h
    omega

theorem head?_encode_any (text : Text) :
    (Utf8.encode text).head?.any isIdentByte = text.head?.any isIdent := by
  cases text with
  | nil => rfl
  | cons c rest =>
    cases hbytes : String.utf8EncodeChar c with
    | nil => exact absurd hbytes (Utf8.encodeChar_ne_nil c)
    | cons b others =>
      have hb : b ∈ String.utf8EncodeChar c := by
        rw [hbytes]
        exact List.mem_cons_self
      rw [Utf8.encode, hbytes]
      exact isIdentByte_of_mem hb

theorem getLast?_encode_any (text : Text) :
    (Utf8.encode text).getLast?.any isIdentByte = text.getLast?.any isIdent := by
  rcases List.eq_nil_or_concat text with rfl | ⟨front, c, rfl⟩
  · rfl
  · have hsingle : Utf8.encode [c] = String.utf8EncodeChar c := by
      rw [Utf8.encode, Utf8.encode, List.append_nil]
    rw [List.concat_eq_append, Utf8.encode_append, hsingle,
      List.getLast?_append_of_ne_nil _ (Utf8.encodeChar_ne_nil c),
      List.getLast?_append_of_ne_nil _ (List.cons_ne_nil c []),
      List.getLast?_eq_some_getLast (Utf8.encodeChar_ne_nil c)]
    exact isIdentByte_of_mem (List.getLast_mem (Utf8.encodeChar_ne_nil c))

/-!
# The search over characters
-/

theorem dropBytes?_inside (hc : c.utf8Size ≠ 1) (xs ys : Text) :
    Text.dropBytes? (Text.byteLen xs + 1) (xs ++ c :: ys) = none := by
  induction xs with
  | nil =>
    have hpos := c.utf8Size_pos
    show (if c.utf8Size ≤ 1 then _ else none) = none
    rw [if_neg (by omega)]
  | cons d rest ih =>
    rcases Text.byteLen_cons_succ d rest with ⟨n, hlen, hle, hrest⟩
    have hleft : n + 1 + 1 - d.utf8Size = Text.byteLen rest + 1 := by omega
    rw [hlen]
    show (if d.utf8Size ≤ n + 1 + 1 then
      Text.dropBytes? (n + 1 + 1 - d.utf8Size) (rest ++ c :: ys) else none) = none
    rw [if_pos (by omega), hleft, ih]

theorem containsWordFrom_of_absent {rest : Text} (h : ¬ word <:+: rest) (last : Option Char) :
    containsWordFrom word last rest = some false := by
  induction rest generalizing last with
  | nil => rfl
  | cons c others ih =>
    have hhead : ¬ word <+: c :: others := fun hprefix => h hprefix.isInfix
    have htail : ¬ word <:+: others :=
      fun hoccurs => h (hoccurs.trans (List.suffix_cons c others).isInfix)
    rw [containsWordFrom, if_neg hhead, ih htail]

theorem containsWordFrom_skip :
    forall {gap : Text} (last : Option Char), StartsNotIn word gap tail ->
      containsWordFrom word last (gap ++ tail) =
        containsWordFrom word (gap.getLast?.or last) tail := by
  intro gap
  induction gap with
  | nil => exact fun _ _ => rfl
  | cons c rest ih =>
    intro last h
    have hparts := startsNotIn_cons.mp h
    rw [List.cons_append, containsWordFrom, if_neg hparts.left, ih (some c) hparts.right]
    cases rest with
    | nil => rfl
    | cons d others =>
      rw [List.getLast?_cons_cons, List.getLast?_eq_some_getLast (List.cons_ne_nil d others)]
      rfl

/-- At an occurrence the characters around it decide, and behind a rejected one the search
goes on inside of it. -/
theorem containsWordFrom_at (c : Char) (tail after : Text) (last : Option Char) :
    containsWordFrom (c :: tail) last ((c :: tail) ++ after) =
      if Boundary last ∧ Boundary after.head? then some true
      else if c.utf8Size = 1 then containsWordFrom (c :: tail) (some c) (tail ++ after)
      else none := by
  have hprefix : c :: tail <+: c :: (tail ++ after) := List.prefix_append (c :: tail) after
  have hbehind : (c :: (tail ++ after)).drop (c :: tail).length = after :=
    List.drop_left
  rw [List.cons_append, containsWordFrom, if_pos hprefix, hbehind]

/-- The byte in front of an occurrence is the last one of the text in front of it. -/
theorem byteBefore_iff (before after : Text) :
    (Text.byteLen before = 0 ∨
        (Utf8.encode (before ++ after))[Text.byteLen before - 1]?.any isIdentByte = false) <->
      Boundary before.getLast? := by
  rw [Boundary, ← getLast?_encode_any, Utf8.encode_append, ← Utf8.length_encode]
  cases hbytes : Utf8.encode before with
  | nil => simp
  | cons b rest =>
    rw [List.getLast?_eq_getElem?, List.getElem?_append_left (by simp)]
    simp

theorem byteBehind_iff (front after : Text) :
    ((Utf8.encode (front ++ after)).length ≤ Text.byteLen front ∨
        (Utf8.encode (front ++ after))[Text.byteLen front]?.any isIdentByte = false) <->
      Boundary after.head? := by
  rw [Boundary, ← head?_encode_any, Utf8.encode_append, ← Utf8.length_encode,
    List.getElem?_append_right (Nat.le_refl _), Nat.sub_self, List.length_append]
  cases hbytes : Utf8.encode after with
  | nil => simp
  | cons b rest =>
    have hlonger : ¬ (Utf8.encode front).length + (b :: rest).length ≤
      (Utf8.encode front).length := by
      rw [List.length_cons]
      omega
    rw [or_iff_right hlonger]
    rfl

theorem searchFrom_eq (before rest : Text) :
    searchFrom (before ++ rest) (c :: tail) (Text.byteLen before) =
      containsWordFrom (c :: tail) before.getLast? rest := by
  induction hlen : rest.length using Nat.strongRecOn generalizing before rest with
  | ind n ih =>
    rw [searchFrom]
    split
    · rename_i hslice
      rw [Text.dropBytes?_append] at hslice
      cases hslice
    · rename_i found hslice
      rw [Text.dropBytes?_append] at hslice
      cases hslice
      cases hsplit : splitOnce (c :: tail) rest with
      | none =>
        have habsent := splitOnce_eq_none_iff.mp hsplit
        simp only [Text.find?, hsplit, Option.map_none, containsWordFrom_of_absent habsent]
      | some halves =>
        rcases halves with ⟨gap, after⟩
        have hrest : rest = gap ++ ((c :: tail) ++ after) := eq_of_splitOnce hsplit
        have hskip := containsWordFrom_skip before.getLast? (startsNotIn_of_splitOnce hsplit)
        have hfront : Text.byteLen before + Text.byteLen gap = Text.byteLen (before ++ gap) :=
          (Text.byteLen_append before gap).symm
        have hlast : gap.getLast?.or before.getLast? = (before ++ gap).getLast? :=
          List.getLast?_append.symm
        have hbefore := byteBefore_iff (before ++ gap) ((c :: tail) ++ after)
        have hbehind := byteBehind_iff (before ++ gap ++ (c :: tail)) after
        rw [Text.byteLen_append (before ++ gap), List.append_assoc (before ++ gap)] at hbehind
        rw [hrest, hskip, hlast]
        simp only [Text.find?, ← hrest, hsplit, Option.map_some, hfront]
        rw [hrest, ← List.append_assoc before]
        simp only [hbefore, hbehind]
        rw [containsWordFrom_at]
        split
        · rfl
        · split
          · rename_i hsize
            have hnext : Text.byteLen (before ++ gap) + 1 =
                Text.byteLen (before ++ gap ++ [c]) := by
              rw [Text.byteLen_append (before ++ gap), Text.byteLen_cons, hsize]
              rfl
            have hhay : before ++ gap ++ ((c :: tail) ++ after) =
                before ++ gap ++ [c] ++ (tail ++ after) := by simp
            have hshorter : (tail ++ after).length < n := by
              rw [← hlen, hrest]
              simp
              omega
            rw [hnext, hhay, ih _ hshorter _ _ rfl, List.getLast?_append]
            rfl
          · rename_i hsize
            rw [List.cons_append, searchFrom]
            split
            · rfl
            · rename_i hinside
              rw [dropBytes?_inside hsize] at hinside
              cases hinside

theorem searchWord_eq_containsWord (hay word : Text) :
    searchWord hay word = containsWord hay word := by
  cases word with
  | nil => rfl
  | cons c tail =>
    rw [searchWord, containsWord, if_neg (List.cons_ne_nil c tail),
      if_neg (List.cons_ne_nil c tail)]
    exact searchFrom_eq [] hay

/-!
# Exact answers
-/

/-- The word stands in the text with no byte of an identifier next to it. -/
def OccursAlone (hay word : Text) : Prop :=
  word ≠ [] ∧ exists before after, hay = before ++ (word ++ after) ∧
    (Utf8.encode before).getLast?.any isIdentByte = false ∧
    (Utf8.encode after).head?.any isIdentByte = false

/-- The word starts with an ASCII character, or its first occurrence is not rejected. -/
def Searchable (hay word : Text) : Prop :=
  word.head?.all (fun c => c.utf8Size == 1) = true ∨
    forall before after, splitOnce word hay = some (before, after) ->
      Boundary before.getLast? ∧ Boundary after.head?

theorem occursAlone_iff {hay : Text} :
    OccursAlone hay word <-> word ≠ [] ∧ StandsIn word hay := by
  unfold OccursAlone StandsIn Boundary
  simp only [getLast?_encode_any, head?_encode_any]

theorem standsIn_of_containsWordFrom (before rest : Text)
    (h : containsWordFrom word before.getLast? rest = some true) :
    StandsIn word (before ++ rest) := by
  induction rest generalizing before with
  | nil => cases h
  | cons c others ih =>
    have hsplit : before ++ c :: others = before ++ [c] ++ others := by simp
    have hlast : (before ++ [c]).getLast? = some c := List.getLast?_concat
    rw [containsWordFrom] at h
    split at h
    · rename_i hprefix
      split at h
      · rename_i hboundary
        refine ⟨before, (c :: others).drop word.length, ?_, hboundary.left, hboundary.right⟩
        rw [List.prefix_iff_eq_append.mp hprefix]
      · split at h
        · rw [hsplit]
          exact ih (before ++ [c]) (by rw [hlast]; exact h)
        · cases h
    · rw [hsplit]
      exact ih (before ++ [c]) (by rw [hlast]; exact h)

theorem containsWordFrom_answers (hc : c.utf8Size = 1) (last : Option Char) (rest : Text) :
    containsWordFrom (c :: tail) last rest ≠ none := by
  induction rest generalizing last with
  | nil => simp [containsWordFrom]
  | cons d others ih =>
    rw [containsWordFrom]
    split
    · rename_i hprefix
      have hd : c = d := (List.cons_prefix_cons.mp hprefix).left
      split
      · simp
      · rw [← hd, if_pos hc]
        exact ih (some c)
    · exact ih (some d)

theorem containsWord_exact {hay : Text} {answer : Bool} (h : containsWord hay word = some answer) :
    answer = true <-> OccursAlone hay word := by
  rw [occursAlone_iff]
  cases word with
  | nil =>
    cases h
    simp
  | cons c tail =>
    constructor
    · rintro rfl
      rw [containsWord, if_neg (List.cons_ne_nil c tail)] at h
      exact ⟨List.cons_ne_nil c tail, standsIn_of_containsWordFrom [] hay h⟩
    · rintro ⟨hword, hstands⟩
      have hfound := containsWord_ne_of_standsIn hword hstands
      rw [h] at hfound
      simpa using hfound

theorem containsWord_answers_iff (hay word : Text) :
    containsWord hay word ≠ none <-> Searchable hay word := by
  cases word with
  | nil => simp [containsWord, Searchable]
  | cons c tail =>
    rw [containsWord, if_neg (List.cons_ne_nil c tail)]
    by_cases hc : c.utf8Size = 1
    · have hascii : Searchable hay (c :: tail) := .inl (by simp [hc])
      exact ⟨fun _ => hascii, fun _ => containsWordFrom_answers hc none hay⟩
    · have hhead : ¬ (c :: tail).head?.all (fun c => c.utf8Size == 1) = true := by
        simp [hc]
      rw [Searchable, or_iff_right hhead]
      cases hsplit : splitOnce (c :: tail) hay with
      | none =>
        have habsent := splitOnce_eq_none_iff.mp hsplit
        simp [containsWordFrom_of_absent habsent]
      | some halves =>
        rcases halves with ⟨before, after⟩
        have hhay : hay = before ++ ((c :: tail) ++ after) := eq_of_splitOnce hsplit
        have hskip := containsWordFrom_skip none (startsNotIn_of_splitOnce hsplit)
        rw [Option.or_none] at hskip
        rw [hhay, hskip, containsWordFrom_at, if_neg hc]
        by_cases hboundary : Boundary before.getLast? ∧ Boundary after.head?
        · rw [if_pos hboundary]
          simp [hboundary]
        · rw [if_neg hboundary]
          constructor
          · intro hne
            exact absurd rfl hne
          · intro hall
            exact absurd (hall before after rfl) hboundary

/--
The search ends and tells whether the word stands in the text by itself, unless the word
starts with a character of several bytes and its first occurrence is next to an identifier
character: there the slice panics.
-/
theorem word_search_exact_iff (hay word : Text) :
    (exists answer, searchWord hay word = some answer ∧
        (answer = true <-> OccursAlone hay word)) <->
      Searchable hay word := by
  rw [searchWord_eq_containsWord, ← containsWord_answers_iff]
  constructor
  · rintro ⟨answer, hanswer, _⟩
    rw [hanswer]
    simp
  · intro hanswers
    cases hanswer : containsWord hay word with
    | none => exact absurd hanswer hanswers
    | some answer => exact ⟨answer, rfl, containsWord_exact hanswer⟩

/-- The word `é` behind the letter `a`. -/
theorem wide_word_panics :
    ¬ exists answer, searchWord ['a', 'é'] ['é'] = some answer ∧
      (answer = true <-> OccursAlone ['a', 'é'] ['é']) := by
  rintro ⟨answer, hanswer, _⟩
  rw [searchWord_eq_containsWord] at hanswer
  have hpanic : containsWord ['a', 'é'] ['é'] = none := by decide
  rw [hpanic] at hanswer
  cases hanswer

end Refactor
end JavaVsixLite
