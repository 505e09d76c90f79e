import JavaVsixLite.Classpath.TypeIndex
import JavaVsixLite.Foundation.Decimals
import JavaVsixLite.Foundation.Substrings

/-!
# The headers of the compiler's diagnostics

A header names the file, the line and the severity in front of the message.  It is
split at a marker.  A file name may hold colons: the line number is what stands
between the last of them and the marker.
-/

namespace JavaVsixLite
namespace Javac

open Foundation
open Classpath (rsplitOnce rsplitOnce_append)

inductive Severity where
  | error
  | warning
deriving DecidableEq

structure Header where
  path : Text
  line : Nat
  severity : Severity
  message : Text

def Severity.marker : Severity -> Text
  | .error => ": error: ".toList
  | .warning => ": warning: ".toList

/-- `parse_header` once the marker is found. -/
def parseHeaderAt (severity : Severity) (before message : Text) : Option Header :=
  match rsplitOnce ':' before with
  | none => none
  | some (path, lineNo) =>
    match parseUnsigned UInt32.size lineNo with
    | none => none
    | some line =>
      if path.isEmpty then none
      else some { path := path, line := line, severity := severity, message := message }

/-- The marker of an error is looked for first. -/
def parseHeader (line : Text) : Option Header :=
  match splitOnce Severity.error.marker line with
  | some (before, message) => parseHeaderAt .error before message
  | none =>
    match splitOnce Severity.warning.marker line with
    | some (before, message) => parseHeaderAt .warning before message
    | none => none

namespace Header

/-- What the compiler prints in front of the marker. -/
def place (h : Header) : Text :=
  h.path ++ ':' :: decimal h.line

def print (h : Header) : Text :=
  h.place ++ (h.severity.marker ++ h.message)

/-- The path is there and holds no marker, and the line number fits. -/
structure Printed (h : Header) : Prop where
  path : h.path ≠ []
  free : forall severity : Severity, ¬ severity.marker <:+: h.path
  fits : h.line < UInt32.size

/-- The marker of an error comes after the one of a warning. -/
def QuotesError (h : Header) : Prop :=
  h.severity = .warning ∧ Severity.error.marker <:+: ": ".toList ++ h.message

end Header

/-!
# Where a marker can start
-/

theorem marker_head (severity : Severity) :
    exists tail, severity.marker = ':' :: tail := by
  cases severity with
  | error => exact ⟨_, rfl⟩
  | warning => exact ⟨_, rfl⟩

theorem marker_ne_nil (severity : Severity) : severity.marker ≠ [] := by
  cases marker_head severity with
  | intro tail htail => simp [htail]

theorem space_after_colon (severity : Severity) {i : Nat}
    (h : severity.marker[i]? = some ':') : severity.marker[i + 1]? = some ' ' := by
  have hbound : i < severity.marker.length := (List.getElem?_eq_some_iff.mp h).1
  have hall : forall j, j < severity.marker.length ->
      severity.marker[j]? = some ':' -> severity.marker[j + 1]? = some ' ' := by
    cases severity <;> decide
  exact hall i hbound h

variable {severity : Severity} {h : Header}

theorem not_prefix_colon_decimal {t y : Text} (hmarker : severity.marker = t ++ y) (hy : y ≠ [])
    (line : Nat) (rest : Text) :
    ¬ y <+: ':' :: (decimal line ++ rest) := by
  intro hstart
  cases y with
  | nil => exact hy rfl
  | cons c y =>
    have hparts := List.cons_prefix_cons.mp hstart
    have hcolon : severity.marker[t.length]? = some ':' := by
      simp [hmarker, hparts.1]
    have hspace := space_after_colon severity hcolon
    have hnext : (t ++ c :: y)[t.length + 1]? = y[0]? := by
      rw [List.getElem?_append_right (Nat.le_succ _)]
      simp
    rw [hmarker, hnext] at hspace
    cases y with
    | nil => cases hspace
    | cons d y =>
      cases hdigits : decimal line with
      | nil => exact decimal_ne_nil line hdigits
      | cons e digits =>
        have hsame := hparts.2
        rw [hdigits] at hsame
        have hde : d = e := (List.cons_prefix_cons.mp hsame).1
        have hd : d = ' ' := Option.some.inj hspace
        have hdigit : e.isDigit = true := by
          apply isDigit_of_mem_decimal (n := line)
          rw [hdigits]
          exact List.mem_cons_self
        rw [← hde, hd] at hdigit
        cases hdigit

theorem startsNotIn_place {path : Text} (hpath : ¬ severity.marker <:+: path) (line : Nat)
    (rest : Text) :
    StartsNotIn severity.marker (path ++ ':' :: decimal line) rest := by
  apply startsNotIn_append.mpr
  constructor
  · intro t _ ht hstart
    cases List.prefix_or_prefix_of_prefix hstart (List.prefix_append t _) with
    | inl hinside => exact hpath (hinside.isInfix.trans ht.isInfix)
    | inr houtside =>
      cases houtside with
      | intro y hy =>
        rw [← hy] at hstart
        have hrest := (List.prefix_append_right_inj t).mp hstart
        by_cases hempty : y = []
        · rw [hempty, List.append_nil] at hy
          apply hpath
          rw [← hy]
          exact ht.isInfix
        · exact not_prefix_colon_decimal hy.symm hempty line rest hrest
  · apply startsNotIn_cons.mpr
    constructor
    · exact not_prefix_colon_decimal (t := []) rfl (marker_ne_nil severity) line rest
    · cases marker_head severity with
      | intro tail htail =>
        rw [htail]
        apply startsNotIn_of_head
        intro hcolon
        exact absurd (isDigit_of_mem_decimal hcolon) (by decide)

/-!
# Reading a header back
-/

theorem parseHeaderAt_place (hprinted : h.Printed) :
    parseHeaderAt h.severity h.place h.message = some h := by
  have hcolon : ':' ∉ decimal h.line := by
    intro hmem
    exact absurd (isDigit_of_mem_decimal hmem) (by decide)
  have hpath : h.path.isEmpty = false := by
    simp [hprinted.path]
  unfold parseHeaderAt Header.place
  simp only [rsplitOnce_append h.path hcolon, parseUnsigned_decimal hprinted.fits, hpath,
    Bool.false_eq_true, if_false]

theorem parts_of_parseHeaderAt {before message : Text}
    (hparse : parseHeaderAt severity before message = some h) :
    h.severity = severity ∧ h.message = message := by
  unfold parseHeaderAt at hparse
  split at hparse
  · cases hparse
  · split at hparse
    · cases hparse
    · split at hparse
      · cases hparse
      · cases hparse
        exact ⟨rfl, rfl⟩

theorem splitOnce_print (hprinted : h.Printed) :
    splitOnce h.severity.marker h.print = some (h.place, h.message) :=
  splitOnce_of_startsNotIn (marker_ne_nil h.severity)
    (startsNotIn_place (hprinted.free h.severity) h.line _)

/--
Behind the place of a warning an error's marker starts in the last two
characters at the earliest.
-/
theorem error_marker_infix_iff (hprinted : h.Printed) :
    Severity.error.marker <:+: h.place ++ (Severity.warning.marker ++ h.message) <->
      Severity.error.marker <:+: ": ".toList ++ h.message := by
  have hplace := startsNotIn_place (hprinted.free .error) h.line
    (Severity.warning.marker ++ h.message)
  have hword : StartsNotIn Severity.error.marker ": warning".toList
      (": ".toList ++ h.message) := by
    apply startsNotIn_cons.mpr
    constructor
    · intro hstart
      have hsecond := (List.cons_prefix_cons.mp hstart).2
      have hthird := (List.cons_prefix_cons.mp hsecond).2
      exact absurd (List.cons_prefix_cons.mp hthird).1 (by decide)
    · exact startsNotIn_of_head (by decide)
  have hmarker : Severity.warning.marker ++ h.message =
      ": warning".toList ++ (": ".toList ++ h.message) := rfl
  unfold Header.place
  rw [infix_append_iff hplace, hmarker, infix_append_iff hword]

theorem not_quotesError_of_parseHeader {line : Text} (hparse : parseHeader line = some h) :
    ¬ h.QuotesError := by
  intro hquotes
  unfold parseHeader at hparse
  cases herror : splitOnce Severity.error.marker line with
  | some halves =>
    simp only [herror] at hparse
    have hseverity := (parts_of_parseHeaderAt hparse).1
    rw [hquotes.1] at hseverity
    cases hseverity
  | none =>
    simp only [herror] at hparse
    cases hwarning : splitOnce Severity.warning.marker line with
    | none =>
      simp only [hwarning] at hparse
      cases hparse
    | some halves =>
      simp only [hwarning] at hparse
      apply splitOnce_eq_none_iff.mp herror
      have hmessage := (parts_of_parseHeaderAt hparse).2
      have hline : line =
          (halves.1 ++ ": warning".toList) ++ (": ".toList ++ h.message) := by
        rw [eq_of_splitOnce hwarning, hmessage, List.append_assoc]
        rfl
      rw [hline]
      exact hquotes.2.trans (List.suffix_append _ _).isInfix

theorem message_of_parseHeader {line : Text} (hparse : parseHeader line = some h) :
    h.message <:+ line := by
  have hpart {severity : Severity} {halves : Text × Text}
      (hsplit : splitOnce severity.marker line = some halves)
      (hread : parseHeaderAt severity halves.1 halves.2 = some h) : h.message <:+ line := by
    rw [eq_of_splitOnce hsplit, (parts_of_parseHeaderAt hread).2]
    exact (List.suffix_append _ _).trans (List.suffix_append _ _)
  unfold parseHeader at hparse
  cases herror : splitOnce Severity.error.marker line with
  | some halves =>
    simp only [herror] at hparse
    exact hpart herror hparse
  | none =>
    simp only [herror] at hparse
    cases hwarning : splitOnce Severity.warning.marker line with
    | none =>
      simp only [hwarning] at hparse
      cases hparse
    | some halves =>
      simp only [hwarning] at hparse
      exact hpart hwarning hparse

theorem parseHeader_print (hprinted : h.Printed) (hquotes : ¬ h.QuotesError) :
    parseHeader h.print = some h := by
  have hsplit := splitOnce_print hprinted
  have hread := parseHeaderAt_place hprinted
  cases hseverity : h.severity with
  | error =>
    rw [hseverity] at hsplit hread
    unfold parseHeader
    simp only [hsplit, hread]
  | warning =>
    have hnone : splitOnce Severity.error.marker h.print = none := by
      apply splitOnce_eq_none_iff.mpr
      intro hinside
      unfold Header.print at hinside
      rw [hseverity] at hinside
      exact hquotes ⟨hseverity, (error_marker_infix_iff hprinted).mp hinside⟩
    rw [hseverity] at hsplit hread
    unfold parseHeader
    simp only [hnone, hsplit, hread]

/-- A header is read back exactly if it is no warning that quotes the marker of an error. -/
theorem parseHeader_print_iff {h : Header} (hprinted : h.Printed) :
    parseHeader h.print = some h <-> ¬ h.QuotesError := by
  constructor
  · exact not_quotesError_of_parseHeader
  · exact parseHeader_print hprinted

theorem parseHeader_windowsError :
    parseHeader "C:\\src\\A.java:12: error: bad: error: twice".toList =
      some
        { path := "C:\\src\\A.java".toList
          line := 12
          severity := .error
          message := "bad: error: twice".toList } := by
  have hprinted : Header.Printed
      { path := "C:\\src\\A.java".toList
        line := 12
        severity := .error
        message := "bad: error: twice".toList } := by
    constructor
    · decide
    · intro severity
      cases severity <;> decide
    · decide
  apply (parseHeader_print_iff hprinted).mpr
  intro hquotes
  cases hquotes.1

def quotingWarning : Header where
  path := "A.java".toList
  line := 12
  severity := .warning
  message := "text: error: quoted".toList

theorem parseHeader_quotingWarning :
    quotingWarning.Printed ∧
      quotingWarning.print = "A.java:12: warning: text: error: quoted".toList ∧
      parseHeader quotingWarning.print = none := by
  refine ⟨?_, by decide, by decide⟩
  constructor
  · decide
  · intro severity
    cases severity <;> decide
  · decide

end Javac
end JavaVsixLite
