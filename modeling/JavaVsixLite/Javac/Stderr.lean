import JavaVsixLite.Classpath.Pom
import JavaVsixLite.Documents.RoundTrip
import JavaVsixLite.Foundation.TextLines
import JavaVsixLite.Javac.Header

/-!
# Reading the compiler's output

The output is read line by line.  A header starts a diagnostic; the echoed source
line with a caret under it gives the column, and the lines behind it belong to the
message as long as they do not look like something else.
-/

namespace JavaVsixLite
namespace Javac

open Foundation
open Classpath (isWhitespace trim mem_trim)
open Documents (PositionEncoding asU32)

structure RawDiagnostic where
  path : Text
  line : Nat
  severity : Severity
  message : Text
  column : Option Nat
  endCharacter : Option Nat
deriving DecidableEq

/-!
# What a line looks like
-/

def trimEnd (text : Text) : Text :=
  (text.reverse.dropWhile isWhitespace).reverse

def isCaretLine (line : Text) : Bool :=
  !(trim line).isEmpty && (trim line).all (· == '^')

def caretColumn (line : Text) : Nat :=
  asU32 (line.takeWhile isWhitespace).length

def utf16Len (line : Text) : Nat :=
  asU32 (PositionEncoding.utf16.width line)

def isNoteLine (line : Text) : Bool :=
  "Note:".toList.isPrefixOf (line.dropWhile isWhitespace)

def summaryWords : List Text :=
  ["error", "errors", "warning", "warnings"].map String.toList

def isSummaryLine (line : Text) : Bool :=
  match splitOnce [' '] (trim line) with
  | none => false
  | some (count, rest) =>
    (parseUnsigned UInt64.size count).isSome && summaryWords.contains rest

def isMaxerrsNotice (line : Text) : Bool :=
  decide ("Xmaxerrs".toList <:+: line)

def isDetail (line : Text) : Bool :=
  !(trim line).isEmpty && (parseHeader line).isNone && !isNoteLine line &&
    !isSummaryLine line && !isMaxerrsNotice line

/-!
# The loop over the lines
-/

structure Excerpt where
  column : Option Nat
  endCharacter : Option Nat
  taken : Nat

def excerpt : List Text -> Excerpt
  | [] => { column := none, endCharacter := none, taken := 0 }
  | line :: rest =>
    if isCaretLine line then
      { column := some (caretColumn line), endCharacter := none, taken := 1 }
    else
      match rest with
      | [] => { column := none, endCharacter := none, taken := 0 }
      | next :: _ =>
        if isCaretLine next && (parseHeader line).isNone then
          { column := some (caretColumn next)
            endCharacter := some (utf16Len line)
            taken := 2 }
        else { column := none, endCharacter := none, taken := 0 }

variable {line lead : Text}

theorem excerpt_single (h : isCaretLine line = false) :
    excerpt [line] = { column := none, endCharacter := none, taken := 0 } := by
  simp [excerpt, h]

theorem excerpt_pair (h : isCaretLine line = false) (next : Text) (rest : List Text) :
    excerpt (line :: next :: rest) =
      if isCaretLine next && (parseHeader line).isNone then
        { column := some (caretColumn next)
          endCharacter := some (utf16Len line)
          taken := 2 }
      else { column := none, endCharacter := none, taken := 0 } := by
  simp [excerpt, h]

/-- The lines that are folded into the message of the header in front of `rest`. -/
def detailsOf (rest : List Text) : List Text :=
  (rest.drop (excerpt rest).taken).takeWhile isDetail

def diagnosticOf (h : Header) (rest : List Text) : RawDiagnostic where
  path := h.path
  line := h.line
  severity := h.severity
  message := joinLines h.message ((detailsOf rest).map trimEnd)
  column := (excerpt rest).column
  endCharacter := (excerpt rest).endCharacter

/-- The number says how many lines belong to the diagnostic in front of them. -/
def parseFrom : Nat -> List Text -> List RawDiagnostic
  | _, [] => []
  | skip + 1, _ :: rest => parseFrom skip rest
  | 0, line :: rest =>
    match parseHeader line with
    | none => parseFrom 0 rest
    | some h =>
      diagnosticOf h rest ::
        parseFrom ((excerpt rest).taken + (detailsOf rest).length) rest

def parseStderr (stderr : Text) : List RawDiagnostic :=
  parseFrom 0 (strLines stderr)

/-!
# Kinds of lines
-/

theorem not_isCaretLine_of_mem {c : Char} (h : c ∈ line) (hspace : isWhitespace c = false)
    (hcaret : c ≠ '^') : isCaretLine line = false := by
  have hmem := mem_trim h hspace
  unfold isCaretLine
  rw [Bool.and_eq_false_iff]
  apply Or.inr
  rw [List.all_eq_false]
  exact ⟨c, hmem, by simpa using hcaret⟩

theorem isWhitespace_of_blanks (h : lead.all (fun c => c == ' ' || c == '\t') = true) :
    forall c, c ∈ lead -> isWhitespace c = true := by
  intro c hc
  have hblank := List.all_eq_true.mp h c hc
  cases Bool.or_eq_true_iff.mp hblank with
  | inl hspace =>
    rw [eq_of_beq hspace]
    rfl
  | inr htab =>
    rw [eq_of_beq htab]
    rfl

theorem isCaretLine_caret (h : forall c, c ∈ lead -> isWhitespace c = true) :
    isCaretLine (lead ++ ['^']) = true := by
  have htrim : trim (lead ++ ['^']) = ['^'] := by
    unfold trim
    rw [List.dropWhile_append_of_pos h]
    rfl
  unfold isCaretLine
  rw [htrim]
  rfl

theorem caretColumn_caret (h : forall c, c ∈ lead -> isWhitespace c = true) :
    caretColumn (lead ++ ['^']) = asU32 lead.length := by
  unfold caretColumn
  rw [List.takeWhile_append_of_pos h]
  have hstop : ['^'].takeWhile isWhitespace = [] := rfl
  rw [hstop, List.append_nil]

theorem colon_mem_print (h : Header) : ':' ∈ h.print := by
  unfold Header.print Header.place
  simp

theorem parseHeader_eq_none_of_notMem (h : ':' ∉ line) : parseHeader line = none := by
  have hnone : forall severity : Severity, splitOnce severity.marker line = none := by
    intro severity
    apply splitOnce_eq_none_iff.mpr
    intro hinside
    cases marker_head severity with
    | intro tail htail =>
      rw [htail] at hinside
      exact h (hinside.subset List.mem_cons_self)
  unfold parseHeader
  rw [hnone, hnone]

theorem isWhitespace_of_isDigit {c : Char} (h : c.isDigit = true) : isWhitespace c = false := by
  unfold Char.isDigit at h
  unfold isWhitespace
  simp [UInt32.le_iff_toNat_le, ← UInt32.toNat_inj] at *
  omega

theorem trim_eq_self {text : Text} {first last : Char} (hfirst : text.head? = some first)
    (hlast : text.getLast? = some last) (hfirst' : isWhitespace first = false)
    (hlast' : isWhitespace last = false) : trim text = text :=
  dropWhile_ends_eq_self hfirst hlast hfirst' hlast'

/-!
# The loop
-/

theorem parseFrom_eq_drop (skip : Nat) (lines : List Text) :
    parseFrom skip lines = parseFrom 0 (lines.drop skip) := by
  induction lines generalizing skip with
  | nil => simp [parseFrom]
  | cons line rest ih =>
    cases skip with
    | zero => rfl
    | succ skip =>
      rw [parseFrom, ih skip]
      rfl

theorem takeWhile_append_stop {p : Text -> Bool} (body : List Text) {rest : List Text}
    (hrest : forall line, rest.head? = some line -> p line = false) :
    (body ++ rest).takeWhile p = body.takeWhile p := by
  induction body with
  | nil =>
    cases rest with
    | nil => rfl
    | cons line rest =>
      rw [List.nil_append, List.takeWhile_cons_of_neg (by simp [hrest line rfl])]
      rfl
  | cons line body ih => simp [List.takeWhile_cons, ih]

theorem mem_parseFrom {skip : Nat} {lines : List Text} {o : RawDiagnostic}
    (ho : o ∈ parseFrom skip lines) :
    exists line h rest, line ∈ lines ∧ parseHeader line = some h ∧ o = diagnosticOf h rest := by
  induction lines generalizing skip with
  | nil => simp [parseFrom] at ho
  | cons line rest ih =>
    have hlater : forall n, o ∈ parseFrom n rest ->
        exists other h rest', other ∈ line :: rest ∧ parseHeader other = some h ∧
          o = diagnosticOf h rest' := by
      intro n hn
      cases ih hn with
      | intro other hother =>
        cases hother with
        | intro h hh =>
          cases hh with
          | intro rest' hrest' =>
            exact ⟨other, h, rest', List.mem_cons_of_mem line hrest'.1, hrest'.2⟩
    cases skip with
    | succ skip =>
      rw [parseFrom] at ho
      exact hlater skip ho
    | zero =>
      cases hparse : parseHeader line with
      | none =>
        simp only [parseFrom, hparse] at ho
        exact hlater 0 ho
      | some h =>
        simp only [parseFrom, hparse] at ho
        cases ho with
        | head => exact ⟨line, h, rest, List.mem_cons_self, hparse, rfl⟩
        | tail _ htail => exact hlater _ htail

end Javac
end JavaVsixLite
