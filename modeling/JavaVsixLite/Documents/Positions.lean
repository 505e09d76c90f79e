import Mathlib.Algebra.GroupWithZero.Nat
import JavaVsixLite.Foundation.ByteText

/-!
# Positions of a document

The client names places by line and character, in the units of the negotiated
encoding; the server works with byte offsets.  This module has the line index
and the conversion from positions to offsets, and says which prefix of the text
a position ends.
-/

namespace JavaVsixLite
namespace Documents

open Foundation

inductive PositionEncoding where
  | utf8
  | utf16

/-- `char::len_utf16` -/
def lenUtf16 (c : Char) : Nat :=
  if c.val.toNat < 0x10000 then 1 else 2

def PositionEncoding.units : PositionEncoding -> Char -> Nat
  | .utf8, c => c.utf8Size
  | .utf16, c => lenUtf16 c

/-- The length of a line in the units of the encoding. -/
def PositionEncoding.width (encoding : PositionEncoding) (line : Text) : Nat :=
  (line.map encoding.units).sum

structure Position where
  line : Nat
  character : Nat
deriving DecidableEq

/-!
# The line index
-/

structure LineIndex where
  text : Text
  lineStarts : List Nat
  encoding : PositionEncoding

/-- One past every line break of a text that starts at the byte `at_`. -/
def lineStartsFrom : Nat -> Text -> List Nat
  | _, [] => []
  | at_, c :: rest =>
    if c = '\n' then (at_ + 1) :: lineStartsFrom (at_ + c.utf8Size) rest
    else lineStartsFrom (at_ + c.utf8Size) rest

def LineIndex.new (text : Text) (encoding : PositionEncoding) : LineIndex :=
  { text := text, lineStarts := 0 :: lineStartsFrom 0 text, encoding := encoding }

/-- The loop of `offset` over the characters of one line. -/
def walkUnits (encoding : PositionEncoding) (target : Nat) : Nat -> Nat -> Text -> Nat
  | _, byte, [] => byte
  | units, byte, c :: rest =>
    if target ≤ units then byte
    else walkUnits encoding target (units + encoding.units c) (byte + c.utf8Size) rest

/-- `none` stands for a panic of the slice. -/
def LineIndex.offset (index : LineIndex) (position : Position) : Option Nat :=
  match index.lineStarts[position.line]? with
  | none => some (Text.byteLen index.text)
  | some lineStart =>
    let lineEnd := (index.lineStarts[position.line + 1]?).getD (Text.byteLen index.text)
    (Text.slice? index.text lineStart lineEnd).map
      (walkUnits index.encoding position.character 0 lineStart)

/-!
# The prefix a position ends

`prefixTo` copies the text up to the line of the position and then takes
characters of that line, its line break included, until the units are spent.
-/

@[grind =] def firstLine : Text -> Text
  | [] => []
  | c :: rest => if c = '\n' then [c] else c :: firstLine rest

def otherLines : Text -> Text
  | [] => []
  | c :: rest => if c = '\n' then rest else otherLines rest

@[grind =] def takeUnits (encoding : PositionEncoding) (target : Nat) : Nat -> Text -> Text
  | _, [] => []
  | units, c :: rest =>
    if target ≤ units then []
    else c :: takeUnits encoding target (units + encoding.units c) rest

@[grind =] def prefixTo (encoding : PositionEncoding) (character : Nat) : Nat -> Text -> Text
  | 0, text => takeUnits encoding character 0 (firstLine text)
  | _ + 1, [] => []
  | n + 1, c :: rest =>
    if c = '\n' then c :: prefixTo encoding character n rest
    else c :: prefixTo encoding character (n + 1) rest

theorem firstLine_append_otherLines (text : Text) : firstLine text ++ otherLines text = text := by
  induction text with
  | nil => rfl
  | cons c rest ih =>
    unfold firstLine otherLines
    by_cases hc : c = '\n'
    · simp [hc]
    · simp [hc, ih]

theorem firstLine_cons_of_ne {c : Char} (hc : c ≠ '\n') (rest : Text) :
    firstLine (c :: rest) = c :: firstLine rest := by
  conv_lhs => unfold firstLine
  rw [if_neg hc]

theorem firstLine_of_not_mem {text : Text} (h : '\n' ∉ text) : firstLine text = text := by
  induction text with
  | nil => rfl
  | cons c rest ih =>
    simp only [List.mem_cons, not_or] at h
    have hc : c ≠ '\n' := fun heq => h.1 heq.symm
    rw [firstLine_cons_of_ne hc, ih h.2]

theorem takeUnits_prefix_of (encoding : PositionEncoding) (target units : Nat) (text : Text) :
    takeUnits encoding target units text <+: text := by
  induction text generalizing units with
  | nil => exact List.prefix_refl []
  | cons c rest ih =>
    unfold takeUnits
    split
    · exact List.nil_prefix
    · exact (List.prefix_cons_inj c).mpr (ih _)

theorem prefixTo_prefix_of (encoding : PositionEncoding) (character n : Nat) (text : Text) :
    prefixTo encoding character n text <+: text := by
  induction text generalizing n with
  | nil =>
    cases n with
    | zero => exact List.prefix_refl []
    | succ n => exact List.prefix_refl []
  | cons c rest ih =>
    cases n with
    | zero =>
      have htake := takeUnits_prefix_of encoding character 0 (firstLine (c :: rest))
      have hline : firstLine (c :: rest) <+: c :: rest :=
        ⟨otherLines (c :: rest), firstLine_append_otherLines (c :: rest)⟩
      exact htake.trans hline
    | succ n =>
      unfold prefixTo
      split
      · exact (List.prefix_cons_inj c).mpr (ih n)
      · exact (List.prefix_cons_inj c).mpr (ih (n + 1))

theorem walkUnits_eq (encoding : PositionEncoding) (target units byte : Nat) (text : Text) :
    walkUnits encoding target units byte text =
      byte + Text.byteLen (takeUnits encoding target units text) := by
  induction text generalizing units byte with
  | nil => rfl
  | cons c rest ih =>
    unfold walkUnits takeUnits
    split
    · simp
    · rw [ih, Text.byteLen_cons]
      omega

/-!
# Offsets are ends of prefixes
-/

/-- The line starts of a text that starts at the byte `at_`. -/
def startsFrom (at_ : Nat) (text : Text) : List Nat :=
  at_ :: lineStartsFrom at_ text

theorem startsFrom_newline (at_ : Nat) (rest : Text) :
    startsFrom at_ ('\n' :: rest) = at_ :: startsFrom (at_ + 1) rest := rfl

theorem startsFrom_getElem?_succ (at_ n : Nat) {c : Char} (hc : c ≠ '\n') (rest : Text) :
    (startsFrom at_ (c :: rest))[n + 1]? = (startsFrom (at_ + c.utf8Size) rest)[n + 1]? := by
  unfold startsFrom
  rw [List.getElem?_cons_succ, List.getElem?_cons_succ]
  conv_lhs => unfold lineStartsFrom
  rw [if_neg hc]

theorem startsFrom_one (at_ : Nat) (text : Text) :
    (startsFrom at_ text)[1]? =
      if '\n' ∈ text then some (at_ + Text.byteLen (firstLine text)) else none := by
  induction text generalizing at_ with
  | nil => rfl
  | cons c rest ih =>
    by_cases hc : c = '\n'
    · subst hc
      rw [startsFrom_newline]
      have hsize : Char.utf8Size '\n' = 1 := rfl
      simp [startsFrom, firstLine, hsize]
    · have hmem : ('\n' ∈ c :: rest) <-> '\n' ∈ rest := by
        simp only [List.mem_cons]
        constructor
        · rintro (heq | hrest)
          · exact absurd heq.symm hc
          · exact hrest
        · exact Or.inr
      rw [startsFrom_getElem?_succ at_ 0 hc, ih]
      simp only [hmem]
      rw [firstLine_cons_of_ne hc, Text.byteLen_cons, Nat.add_assoc]

theorem startsFrom_cases (encoding : PositionEncoding) (character n : Nat) (text : Text) :
    ((forall at_, (startsFrom at_ text)[n]? = none) ∧
      prefixTo encoding character n text = text) ∨
    (exists before rest, text = before ++ rest ∧
      (forall at_, (startsFrom at_ text)[n]? = some (at_ + Text.byteLen before)) ∧
      (forall at_, (startsFrom at_ text)[n + 1]? =
        (startsFrom (at_ + Text.byteLen before) rest)[1]?) ∧
      prefixTo encoding character n text =
        before ++ takeUnits encoding character 0 (firstLine rest)) := by
  induction text generalizing n with
  | nil =>
    cases n with
    | zero =>
      right
      exact ⟨[], [], rfl, fun at_ => rfl, fun at_ => rfl, rfl⟩
    | succ n =>
      left
      exact ⟨fun at_ => rfl, rfl⟩
  | cons c rest ih =>
    cases n with
    | zero =>
      right
      exact ⟨[], c :: rest, rfl, fun at_ => rfl, fun at_ => rfl, rfl⟩
    | succ n =>
      by_cases hc : c = '\n'
      · subst hc
        have hsize : Char.utf8Size '\n' = 1 := rfl
        rcases ih n with ⟨hnone, hpre⟩ | ⟨before, tail, hrest, hstart, hnext, hpre⟩
        · left
          constructor
          · intro at_
            rw [startsFrom_newline, List.getElem?_cons_succ]
            exact hnone (at_ + 1)
          · simp only [prefixTo, if_true, hpre]
        · right
          refine ⟨'\n' :: before, tail, by rw [hrest]; rfl, ?_, ?_, ?_⟩
          · intro at_
            rw [startsFrom_newline, List.getElem?_cons_succ, hstart, Text.byteLen_cons, hsize,
              Nat.add_assoc]
          · intro at_
            rw [startsFrom_newline, List.getElem?_cons_succ, hnext, Text.byteLen_cons, hsize,
              Nat.add_assoc]
          · simp only [prefixTo, if_true, hpre, List.cons_append]
      · rcases ih (n + 1) with ⟨hnone, hpre⟩ | ⟨before, tail, hrest, hstart, hnext, hpre⟩
        · left
          constructor
          · intro at_
            rw [startsFrom_getElem?_succ at_ n hc]
            exact hnone _
          · simp only [prefixTo, if_neg hc, hpre]
        · right
          refine ⟨c :: before, tail, by rw [hrest]; rfl, ?_, ?_, ?_⟩
          · intro at_
            rw [startsFrom_getElem?_succ at_ n hc, hstart, Text.byteLen_cons, Nat.add_assoc]
          · intro at_
            rw [startsFrom_getElem?_succ at_ (n + 1) hc, hnext, Text.byteLen_cons,
              Nat.add_assoc]
          · simp only [prefixTo, if_neg hc, hpre, List.cons_append]

theorem offset_eq (text : Text) (encoding : PositionEncoding) (position : Position) :
    (LineIndex.new text encoding).offset position =
      some (Text.byteLen (prefixTo encoding position.character position.line text)) := by
  have hstarts : (LineIndex.new text encoding).lineStarts = startsFrom 0 text := rfl
  unfold LineIndex.offset
  rw [hstarts]
  rcases startsFrom_cases encoding position.character position.line text with
    ⟨hnone, hpre⟩ | ⟨before, rest, htext, hstart, hnext, hpre⟩
  · rw [hnone 0, hpre]
    rfl
  · rw [hstart 0, hnext 0, startsFrom_one, hpre, Nat.zero_add]
    -- without a line break the line runs to the end of the text
    have hend : (if '\n' ∈ rest then some (Text.byteLen before + Text.byteLen (firstLine rest))
        else none).getD (Text.byteLen text) =
        Text.byteLen before + Text.byteLen (firstLine rest) := by
      by_cases hmem : '\n' ∈ rest
      · rw [if_pos hmem, Option.getD_some]
      · rw [if_neg hmem, Option.getD_none, firstLine_of_not_mem hmem, htext, Text.byteLen_append]
    have hslice : Text.slice? text (Text.byteLen before)
        (Text.byteLen before + Text.byteLen (firstLine rest)) = some (firstLine rest) := by
      have happ : text = before ++ firstLine rest ++ otherLines rest := by
        rw [List.append_assoc, firstLine_append_otherLines]
        exact htext
      rw [happ]
      exact Text.slice?_append before (firstLine rest) (otherLines rest)
    show (Text.slice? text (Text.byteLen before) (Option.getD _ (Text.byteLen text))).map
      (walkUnits encoding position.character 0 (Text.byteLen before)) = _
    rw [hend, hslice, Option.map_some, walkUnits_eq, Text.byteLen_append]

/-!
# Positions within their line
-/

def lines (text : Text) : List Text :=
  text.splitOn '\n'

/-- The line exists, and the character is in it; only the last line takes
characters past its end. -/
def Position.Within (encoding : PositionEncoding) (text : Text) (position : Position) : Prop :=
  exists line, (lines text)[position.line]? = some line ∧
    (position.line + 1 = (lines text).length ∨ position.character ≤ encoding.width line)

theorem lines_newline (rest : Text) : lines ('\n' :: rest) = [] :: lines rest := by
  unfold lines
  rw [List.splitOn_cons_eq_if_modifyHead]
  rfl

theorem lines_cons_of_ne {c : Char} (hc : c ≠ '\n') (rest : Text) :
    exists line others, lines rest = line :: others ∧
      lines (c :: rest) = (c :: line) :: others := by
  unfold lines
  cases hrest : rest.splitOn '\n' with
  | nil => exact absurd hrest (List.splitOn_ne_nil '\n' rest)
  | cons line others =>
    refine ⟨line, others, rfl, ?_⟩
    rw [List.splitOn_cons_eq_if_modifyHead, hrest]
    simp [hc]

theorem length_lines (text : Text) : (lines text).length = text.count '\n' + 1 := by
  induction text with
  | nil => rfl
  | cons c rest ih =>
    by_cases hc : c = '\n'
    · subst hc
      rw [lines_newline, List.length_cons, ih, List.count_cons_self]
    · rcases lines_cons_of_ne hc rest with ⟨line, others, hrest, hcons⟩
      rw [hcons, List.count_cons_of_ne hc, ← ih, hrest]
      rfl

/-- Taking units of the first line stops before its line break exactly when the
units are spent by then. -/
theorem takeUnits_firstLine_count (encoding : PositionEncoding) (target units : Nat)
    (text : Text) :
    (takeUnits encoding target units (firstLine text)).count '\n' = 0 <->
      (lines text).length = 1 ∨
        exists line, (lines text)[0]? = some line ∧ target ≤ units + encoding.width line := by
  induction text generalizing units with
  | nil =>
    constructor
    · intro _
      exact Or.inl rfl
    · intro _
      rfl
  | cons c rest ih =>
    by_cases hc : c = '\n'
    · subst hc
      have hfirst : firstLine ('\n' :: rest) = ['\n'] := rfl
      have hlength := length_lines rest
      rw [hfirst, lines_newline]
      by_cases ht : target ≤ units
      · simp [takeUnits, ht, PositionEncoding.width]
      · simp [takeUnits, ht, PositionEncoding.width, hlength]
    · rcases lines_cons_of_ne hc rest with ⟨line, others, hrest, hcons⟩
      rw [firstLine_cons_of_ne hc, hcons]
      have hwidth : encoding.width (c :: line) = encoding.units c + encoding.width line := by
        simp [PositionEncoding.width]
      by_cases ht : target ≤ units
      · have hle : target ≤ units + encoding.width (c :: line) := by omega
        simp [takeUnits, ht, hle]
      · have hrec := ih (units + encoding.units c)
        rw [hrest] at hrec
        simp only [takeUnits, if_neg ht, List.count_cons_of_ne hc]
        rw [hrec]
        simp only [List.length_cons, List.getElem?_cons_zero, Option.some.injEq,
          exists_eq_left', hwidth, Nat.add_assoc]

/-- The prefix has as many line breaks as the position says exactly when the
position is within its line. -/
theorem prefixTo_count_iff (encoding : PositionEncoding) (text : Text) (position : Position) :
    (prefixTo encoding position.character position.line text).count '\n' = position.line <->
      position.Within encoding text := by
  obtain ⟨n, character⟩ := position
  unfold Position.Within
  simp only
  induction text generalizing n with
  | nil =>
    cases n with
    | zero => simp [prefixTo, firstLine, takeUnits, lines]
    | succ n => simp [prefixTo, lines]
  | cons c rest ih =>
    cases n with
    | zero =>
      unfold prefixTo
      rw [takeUnits_firstLine_count]
      cases hlines : lines (c :: rest) with
      | nil =>
        have hlength := length_lines (c :: rest)
        rw [hlines] at hlength
        simp at hlength
      | cons line others =>
        simp
    | succ n =>
      by_cases hc : c = '\n'
      · subst hc
        have hrec := ih n
        rw [lines_newline]
        simp only [prefixTo, if_true, List.count_cons_self, List.getElem?_cons_succ,
          List.length_cons, Nat.add_right_cancel_iff]
        exact hrec
      · have hrec := ih (n + 1)
        rcases lines_cons_of_ne hc rest with ⟨line, others, hrest, hcons⟩
        rw [hrest] at hrec
        rw [hcons]
        simp only [prefixTo, if_neg hc, List.count_cons_of_ne hc, List.getElem?_cons_succ,
          List.length_cons]
        simp only [List.getElem?_cons_succ, List.length_cons] at hrec
        exact hrec

theorem le_prefixTo_count (encoding : PositionEncoding) (character : Nat) {n : Nat} {text : Text}
    (h : n ≤ text.count '\n') :
    n ≤ (prefixTo encoding character n text).count '\n' := by
  induction text generalizing n with
  | nil =>
    simp only [List.count_nil, Nat.le_zero] at h
    omega
  | cons c rest ih =>
    cases n with
    | zero => exact Nat.zero_le _
    | succ n =>
      by_cases hc : c = '\n'
      · subst hc
        rw [List.count_cons_self] at h
        have hrec := ih (Nat.le_of_succ_le_succ h)
        simp only [prefixTo, if_true, List.count_cons_self]
        omega
      · rw [List.count_cons_of_ne hc] at h
        simp only [prefixTo, if_neg hc, List.count_cons_of_ne hc]
        exact ih h

end Documents
end JavaVsixLite
