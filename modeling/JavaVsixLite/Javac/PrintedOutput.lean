import JavaVsixLite.Javac.Stderr

/-!
# The compiler's output read back

The compiler prints a diagnostic as a header, the source line, a caret under it and
lines with details, and notes and summaries in between.  The reader finds the
diagnostics again as long as none of these lines looks like another kind of line.
-/

namespace JavaVsixLite
namespace Javac

open Foundation
open Classpath (isWhitespace trim)
open Documents (PositionEncoding asU32)

/-!
# What the compiler prints
-/

structure DetailLine (line : Text) : Prop where
  oneLine : OneLine line
  shown : (trim line).isEmpty = false
  header : parseHeader line = none
  note : isNoteLine line = false
  summary : isSummaryLine line = false
  caret : isCaretLine line = false

/-- A diagnostic with its source line and the blanks in front of the caret. -/
structure PrintedDiagnostic where
  header : Header
  source : Text
  lead : Text
  details : List Text
  printed : header.Printed
  path : OneLine header.path
  message : OneLine header.message
  sourceLine : OneLine source
  blanks : lead.all (fun c => c == ' ' || c == '\t') = true
  detailLines : forall line, line ∈ details -> DetailLine line

inductive PrintedItem where
  | diagnostic (d : PrintedDiagnostic)
  | note (text : Text) (oneLine : OneLine text)
  | summary (count : UInt32) (word : Text) (known : word ∈ summaryWords)

namespace PrintedDiagnostic

def lines (d : PrintedDiagnostic) : List Text :=
  d.header.print :: d.source :: (d.lead ++ ['^']) :: d.details

/-- The diagnostic that was printed. -/
def value (d : PrintedDiagnostic) : RawDiagnostic where
  path := d.header.path
  line := d.header.line
  severity := d.header.severity
  message := joinLines d.header.message d.details
  column := some d.lead.length
  endCharacter := some (PositionEncoding.utf16.width d.source)

/--
No warning quotes the marker of an error; the source line does not look like a
header or a caret line; the widths fit; no detail looks like the notice about the
limit or ends in white space.
-/
structure Recognized (d : PrintedDiagnostic) : Prop where
  unquoted : ¬ d.header.QuotesError
  sourceHeader : parseHeader d.source = none
  sourceCaret : isCaretLine d.source = false
  columnFits : d.lead.length < UInt32.size
  widthFits : PositionEncoding.utf16.width d.source < UInt32.size
  noNotice : forall line, line ∈ d.details -> isMaxerrsNotice line = false
  trimmed : forall line, line ∈ d.details -> trimEnd line = line

end PrintedDiagnostic

namespace PrintedItem

def noteWord : Text :=
  "Note: ".toList

def noteLine (text : Text) : Text :=
  noteWord ++ text

def summaryLine (count : UInt32) (word : Text) : Text :=
  decimal count.toNat ++ ' ' :: word

def lines : PrintedItem -> List Text
  | .diagnostic d => d.lines
  | .note text _ => [noteLine text]
  | .summary count word _ => [summaryLine count word]

def value : PrintedItem -> Option RawDiagnostic
  | .diagnostic d => some d.value
  | _ => none

/-- Of the other lines only a note can look like a header. -/
def Recognized : PrintedItem -> Prop
  | .diagnostic d => d.Recognized
  | .note text _ => parseHeader (noteLine text) = none
  | .summary _ _ _ => True

end PrintedItem

def outputLines (items : List PrintedItem) : List Text :=
  (items.map PrintedItem.lines).flatten

/-!
# The lines of the items
-/

namespace PrintedItem

theorem isNoteLine_noteLine (text : Text) : isNoteLine (noteLine text) = true := by
  have hfront : (noteLine text).dropWhile isWhitespace = noteLine text := rfl
  unfold isNoteLine
  rw [hfront, List.isPrefixOf_iff_prefix]
  exact ⟨' ' :: text, rfl⟩

theorem isSummaryLine_summaryLine (count : UInt32) {word : Text} (h : word ∈ summaryWords) :
    isSummaryLine (summaryLine count word) = true := by
  have hlast : exists last, word.getLast? = some last ∧ isWhitespace last = false := by
    unfold summaryWords at h
    simp only [List.map_cons, List.map_nil, List.mem_cons, List.not_mem_nil, or_false] at h
    rcases h with rfl | rfl | rfl | rfl
    · exact ⟨'r', rfl, rfl⟩
    · exact ⟨'s', rfl, rfl⟩
    · exact ⟨'g', rfl, rfl⟩
    · exact ⟨'s', rfl, rfl⟩
  have htrim : trim (summaryLine count word) = summaryLine count word := by
    cases hdigits : decimal count.toNat with
    | nil => exact absurd hdigits (decimal_ne_nil _)
    | cons c digits =>
      cases hlast with
      | intro last hlast =>
        have hc : c.isDigit = true := by
          apply isDigit_of_mem_decimal (n := count.toNat)
          rw [hdigits]
          exact List.mem_cons_self
        have hhead : (summaryLine count word).head? = some c := by
          simp [summaryLine, hdigits]
        have hend : (summaryLine count word).getLast? = some last := by
          simp [summaryLine, List.getLast?_append, List.getLast?_cons, hlast.1]
        exact trim_eq_self hhead hend (isWhitespace_of_isDigit hc) hlast.2
  have hblank : ' ' ∉ decimal count.toNat := by
    intro hmem
    exact absurd (isDigit_of_mem_decimal hmem) (by decide)
  have hsplit : splitOnce [' '] (summaryLine count word) = some (decimal count.toNat, word) :=
    splitOnce_of_startsNotIn (by simp) (startsNotIn_of_head hblank)
  have hfits : count.toNat < UInt64.size :=
    Nat.lt_trans count.toNat_lt (by decide)
  unfold isSummaryLine
  simp [htrim, hsplit, parseUnsigned_decimal hfits, h]

def first : PrintedItem -> Text
  | .diagnostic d => d.header.print
  | .note text _ => noteLine text
  | .summary count word _ => summaryLine count word

def others : PrintedItem -> List Text
  | .diagnostic d => d.source :: (d.lead ++ ['^']) :: d.details
  | _ => []

theorem lines_eq (item : PrintedItem) : item.lines = item.first :: item.others := by
  cases item <;> rfl

def Unquoted : PrintedItem -> Prop
  | .diagnostic d => ¬ d.header.QuotesError
  | _ => True

theorem not_isCaretLine_first (item : PrintedItem) : isCaretLine item.first = false := by
  cases item with
  | diagnostic d =>
    exact not_isCaretLine_of_mem (colon_mem_print d.header) (by decide) (by decide)
  | note text _ =>
    have hcolon : ':' ∈ noteLine text := List.mem_append_left text (by decide)
    exact not_isCaretLine_of_mem hcolon (by decide) (by decide)
  | summary count word _ =>
    cases hdigits : decimal count.toNat with
    | nil => exact absurd hdigits (decimal_ne_nil _)
    | cons c digits =>
      have hc : c.isDigit = true := by
        apply isDigit_of_mem_decimal (n := count.toNat)
        rw [hdigits]
        exact List.mem_cons_self
      apply not_isCaretLine_of_mem (c := c) _ (isWhitespace_of_isDigit hc)
      · intro heq
        rw [heq] at hc
        cases hc
      · simp [first, summaryLine, hdigits]

theorem parseHeader_first {d : PrintedDiagnostic} (h : ¬ d.header.QuotesError) :
    parseHeader d.header.print = some d.header :=
  parseHeader_print d.printed h

theorem not_isDetail_first {item : PrintedItem} (h : item.Unquoted) :
    isDetail item.first = false := by
  cases item with
  | diagnostic d =>
    unfold isDetail first
    simp [parseHeader_first h]
  | note text _ =>
    unfold isDetail first
    simp [isNoteLine_noteLine]
  | summary count word known =>
    unfold isDetail first
    simp [isSummaryLine_summaryLine count known]

theorem colon_notMem_summaryLine (count : UInt32) {word : Text} (h : word ∈ summaryWords) :
    ':' ∉ summaryLine count word := by
  have hword : ':' ∉ word := by
    unfold summaryWords at h
    simp only [List.map_cons, List.map_nil, List.mem_cons, List.not_mem_nil, or_false] at h
    rcases h with rfl | rfl | rfl | rfl <;> decide
  have hdigits : ':' ∉ decimal count.toNat := by
    intro hmem
    exact absurd (isDigit_of_mem_decimal hmem) (by decide)
  unfold summaryLine
  simp [hword, hdigits]

end PrintedItem

theorem outputLines_cons (item : PrintedItem) (rest : List PrintedItem) :
    outputLines (item :: rest) = item.first :: (item.others ++ outputLines rest) := by
  unfold outputLines
  rw [List.map_cons, List.flatten_cons, item.lines_eq]
  rfl

variable {items : List PrintedItem} {line : Text}

theorem not_caret_second {later : List Text} (h : [] ++ outputLines items = line :: later) :
    isCaretLine line ≠ true := by
  cases items with
  | nil => cases h
  | cons item rest =>
    rw [outputLines_cons] at h
    cases h
    simp [item.not_isCaretLine_first]

/-- Behind an item the next one cannot be taken for the source line of a header. -/
theorem excerpt_outputLines (h : forall item, item ∈ items -> item.Unquoted) :
    excerpt (outputLines items) = { column := none, endCharacter := none, taken := 0 } := by
  cases items with
  | nil => rfl
  | cons item rest =>
    have hitem := h item List.mem_cons_self
    have hfirst := item.not_isCaretLine_first
    rw [outputLines_cons]
    cases hlater : item.others ++ outputLines rest with
    | nil => exact excerpt_single hfirst
    | cons next later =>
      rw [excerpt_pair hfirst, if_neg]
      intro hboth
      have hparts := Bool.and_eq_true_iff.mp hboth
      cases item with
      | diagnostic d =>
        rw [PrintedItem.first, PrintedItem.parseHeader_first hitem] at hparts
        cases hparts.2
      | note text _ => exact not_caret_second hlater hparts.1
      | summary count word _ => exact not_caret_second hlater hparts.1

theorem head_outputLines (h : forall item, item ∈ items -> item.Unquoted) :
    forall line, (outputLines items).head? = some line -> isDetail line = false := by
  intro line hline
  cases items with
  | nil => cases hline
  | cons item rest =>
    rw [outputLines_cons] at hline
    cases hline
    exact PrintedItem.not_isDetail_first (h item List.mem_cons_self)

/-!
# One diagnostic
-/

theorem isDetail_eq (h : DetailLine line) : isDetail line = !isMaxerrsNotice line := by
  unfold isDetail
  simp [h.shown, h.header, h.note, h.summary]

theorem newline_notMem_trimEnd (h : OneLine line) : '\n' ∉ trimEnd line := by
  intro hmem
  unfold trimEnd at hmem
  rw [List.mem_reverse] at hmem
  exact h.1 (List.mem_reverse.mp ((List.dropWhile_sublist _).subset hmem))

namespace PrintedDiagnostic

variable {d : PrintedDiagnostic} {rest : List Text}

/-- The lines behind the header, where `rest` comes after the diagnostic. -/
def behind (d : PrintedDiagnostic) (rest : List Text) : List Text :=
  d.source :: (d.lead ++ ['^']) :: (d.details ++ rest)

theorem excerpt_behind (hcaret : isCaretLine d.source = false)
    (hheader : parseHeader d.source = none) :
    excerpt (d.behind rest) =
      { column := some (asU32 d.lead.length)
        endCharacter := some (utf16Len d.source)
        taken := 2 } := by
  have hblanks := isWhitespace_of_blanks d.blanks
  unfold behind
  rw [excerpt_pair hcaret, caretColumn_caret hblanks]
  simp [hheader, isCaretLine_caret hblanks]

theorem detailsOf_behind (hcaret : isCaretLine d.source = false)
    (hheader : parseHeader d.source = none)
    (hrest : forall line, rest.head? = some line -> isDetail line = false) :
    detailsOf (d.behind rest) = d.details.takeWhile isDetail := by
  unfold detailsOf
  rw [excerpt_behind hcaret hheader]
  exact takeWhile_append_stop d.details hrest

theorem Recognized.diagnosticOf (h : d.Recognized)
    (hrest : forall line, rest.head? = some line -> isDetail line = false) :
    diagnosticOf d.header (d.behind rest) = d.value ∧
      detailsOf (d.behind rest) = d.details := by
  have hdetails : detailsOf (d.behind rest) = d.details := by
    rw [detailsOf_behind h.sourceCaret h.sourceHeader hrest, List.takeWhile_eq_self_iff]
    intro line hline
    rw [isDetail_eq (d.detailLines line hline), h.noNotice line hline]
    rfl
  have htrim : d.details.map trimEnd = d.details := by
    conv_rhs => rw [← List.map_id d.details]
    apply List.map_congr_left
    intro line hline
    exact h.trimmed line hline
  have hcolumn : asU32 d.lead.length = d.lead.length := Nat.mod_eq_of_lt h.columnFits
  have hwidth : utf16Len d.source = PositionEncoding.utf16.width d.source :=
    Nat.mod_eq_of_lt h.widthFits
  constructor
  · unfold Javac.diagnosticOf value
    rw [hdetails, htrim, excerpt_behind h.sourceCaret h.sourceHeader, hcolumn, hwidth]
  · exact hdetails

theorem Recognized.parseFrom_behind (h : d.Recognized)
    (hrest : forall line, rest.head? = some line -> isDetail line = false) :
    parseFrom ((excerpt (d.behind rest)).taken + (detailsOf (d.behind rest)).length)
        (d.behind rest) =
      parseFrom 0 rest := by
  rw [(h.diagnosticOf hrest).2, excerpt_behind h.sourceCaret h.sourceHeader,
    parseFrom_eq_drop, Nat.add_comm]
  congr 1
  show (d.details ++ rest).drop d.details.length = rest
  exact List.drop_left

theorem recognized_of_diagnosticOf (hunquoted : ¬ d.header.QuotesError)
    (hrest : forall line, rest.head? = some line -> isDetail line = false)
    (h : diagnosticOf d.header (d.behind rest) = d.value) : d.Recognized := by
  have hcolumn : (excerpt (d.behind rest)).column = some d.lead.length :=
    congrArg RawDiagnostic.column h
  have hend : (excerpt (d.behind rest)).endCharacter =
      some (PositionEncoding.utf16.width d.source) :=
    congrArg RawDiagnostic.endCharacter h
  have hmessage : joinLines d.header.message ((detailsOf (d.behind rest)).map trimEnd) =
      joinLines d.header.message d.details :=
    congrArg RawDiagnostic.message h
  have hcaret : isCaretLine d.source = false := by
    cases hsource : isCaretLine d.source with
    | false => rfl
    | true =>
      unfold behind at hend
      rw [excerpt, if_pos hsource] at hend
      cases hend
  have hheader : parseHeader d.source = none := by
    cases hsource : parseHeader d.source with
    | none => rfl
    | some other =>
      unfold behind at hcolumn
      rw [excerpt_pair hcaret, if_neg (by simp [hsource])] at hcolumn
      cases hcolumn
  rw [excerpt_behind hcaret hheader] at hcolumn hend
  rw [detailsOf_behind hcaret hheader hrest] at hmessage
  have hkept : (d.details.takeWhile isDetail).map trimEnd = d.details := by
    have hsub := (List.takeWhile_sublist (l := d.details) isDetail).subset
    apply joinLines_injective _ _ hmessage
    · intro line hline
      cases List.mem_map.mp hline with
      | intro other hother =>
        rw [← hother.2]
        exact newline_notMem_trimEnd (d.detailLines other (hsub hother.1)).oneLine
    · intro line hline
      exact (d.detailLines line hline).oneLine.1
  have hall : d.details.takeWhile isDetail = d.details := by
    apply (List.takeWhile_sublist isDetail).eq_of_length
    calc
      (d.details.takeWhile isDetail).length
          = ((d.details.takeWhile isDetail).map trimEnd).length := (List.length_map _).symm
      _ = d.details.length := by rw [hkept]
  rw [hall] at hkept
  constructor
  · exact hunquoted
  · exact hheader
  · exact hcaret
  · rw [← Option.some.inj hcolumn]
    exact Nat.mod_lt _ (by decide)
  · rw [← Option.some.inj hend]
    exact Nat.mod_lt _ (by decide)
  · intro line hline
    have hdetail := List.takeWhile_eq_self_iff.mp hall line hline
    rw [isDetail_eq (d.detailLines line hline)] at hdetail
    simpa using hdetail
  · intro line hline
    have hsame : d.details.map trimEnd = d.details.map id := by
      rw [hkept, List.map_id]
    exact List.map_inj_left.mp hsame line hline

end PrintedDiagnostic

/-!
# The whole output
-/

theorem unquoted_of_value_mem {d : PrintedDiagnostic} {skip : Nat} {lines : List Text}
    (hlines : forall line, line ∈ lines -> OneLine line)
    (h : d.value ∈ parseFrom skip lines) : ¬ d.header.QuotesError := by
  rcases mem_parseFrom h with ⟨line, read, rest, hline, hparse, heq⟩
  have hseverity : d.header.severity = read.severity := congrArg RawDiagnostic.severity heq
  have hmessage : joinLines d.header.message d.details =
      joinLines read.message ((detailsOf rest).map trimEnd) :=
    congrArg RawDiagnostic.message heq
  have hread : '\n' ∉ read.message := by
    intro hmem
    exact (hlines line hline).1 ((message_of_parseHeader hparse).subset hmem)
  have hsame := joinLines_first d.message.1 hread hmessage
  intro hquotes
  apply not_quotesError_of_parseHeader hparse
  constructor
  · rw [← hseverity]
    exact hquotes.1
  · rw [← hsame]
    exact hquotes.2

theorem oneLine_decimal (n : Nat) : OneLine (decimal n) := by
  constructor
  · intro hmem
    exact absurd (isDigit_of_mem_decimal hmem) (by decide)
  · intro hmem
    exact absurd (isDigit_of_mem_decimal hmem) (by decide)

theorem PrintedDiagnostic.oneLine_print (d : PrintedDiagnostic) : OneLine d.header.print := by
  have hmarker : OneLine d.header.severity.marker := by
    cases d.header.severity <;> decide
  have hcolon : OneLine [':'] := by decide
  have hplace : OneLine (d.header.path ++ ([':'] ++ decimal d.header.line)) :=
    d.path.append (hcolon.append (oneLine_decimal _))
  exact hplace.append (hmarker.append d.message)

theorem PrintedItem.oneLine_lines (item : PrintedItem) :
    forall line, line ∈ item.lines -> OneLine line := by
  intro line hline
  cases item with
  | diagnostic d =>
    simp only [PrintedItem.lines, PrintedDiagnostic.lines, List.mem_cons] at hline
    rcases hline with rfl | rfl | rfl | hline
    · exact d.oneLine_print
    · exact d.sourceLine
    · have hlead : OneLine d.lead := by
        have hblanks := List.all_eq_true.mp d.blanks
        constructor
        · intro hmem
          exact absurd (hblanks _ hmem) (by decide)
        · intro hmem
          exact absurd (hblanks _ hmem) (by decide)
      exact hlead.append (by decide)
    · exact (d.detailLines line hline).oneLine
  | note text oneLine =>
    cases List.mem_singleton.mp hline
    have hword : OneLine PrintedItem.noteWord := by decide
    exact hword.append oneLine
  | summary count word known =>
    cases List.mem_singleton.mp hline
    have hword : OneLine (' ' :: word) := by
      unfold summaryWords at known
      simp only [List.map_cons, List.map_nil, List.mem_cons, List.not_mem_nil,
        or_false] at known
      rcases known with rfl | rfl | rfl | rfl <;> decide
    exact (oneLine_decimal _).append hword

theorem oneLine_outputLines (items : List PrintedItem) :
    forall line, line ∈ outputLines items -> OneLine line := by
  intro line hline
  cases List.mem_flatten.mp hline with
  | intro lines hlines =>
    cases List.mem_map.mp hlines.1 with
    | intro item hitem =>
      rw [← hitem.2] at hlines
      exact item.oneLine_lines line hlines.2

theorem parseFrom_outputLines_iff {items : List PrintedItem}
    (h : forall item, item ∈ items -> item.Unquoted) :
    parseFrom 0 (outputLines items) = items.filterMap PrintedItem.value <->
      forall item, item ∈ items -> item.Recognized := by
  induction items with
  | nil => simp [outputLines, parseFrom]
  | cons item rest ih =>
    have hrest : forall other, other ∈ rest -> other.Unquoted := by
      intro other hother
      exact h other (List.mem_cons_of_mem item hother)
    have hread := ih hrest
    rw [List.forall_mem_cons, ← hread, outputLines_cons]
    cases item with
    | diagnostic d =>
      have hunquoted : ¬ d.header.QuotesError :=
        h (.diagnostic d) List.mem_cons_self
      have hnext := head_outputLines hrest
      have hparse : parseFrom 0 (d.header.print :: d.behind (outputLines rest)) =
          diagnosticOf d.header (d.behind (outputLines rest)) ::
            parseFrom ((excerpt (d.behind (outputLines rest))).taken +
              (detailsOf (d.behind (outputLines rest))).length)
              (d.behind (outputLines rest)) := by
        simp only [parseFrom, parseHeader_print d.printed hunquoted]
      have hvalue : (PrintedItem.diagnostic d :: rest).filterMap PrintedItem.value =
          d.value :: rest.filterMap PrintedItem.value := rfl
      show parseFrom 0 (d.header.print :: d.behind (outputLines rest)) = _ <->
        d.Recognized ∧ _
      rw [hparse, hvalue, List.cons.injEq]
      constructor
      · intro hsame
        have hrecognized :=
          PrintedDiagnostic.recognized_of_diagnosticOf hunquoted hnext hsame.1
        rw [hrecognized.parseFrom_behind hnext] at hsame
        exact ⟨hrecognized, hsame.2⟩
      · intro hboth
        rw [hboth.1.parseFrom_behind hnext]
        exact ⟨(hboth.1.diagnosticOf hnext).1, hboth.2⟩
    | note text oneLine =>
      show parseFrom 0 (PrintedItem.noteLine text :: outputLines rest) =
        rest.filterMap PrintedItem.value <-> parseHeader (PrintedItem.noteLine text) = none ∧ _
      cases hparse : parseHeader (PrintedItem.noteLine text) with
      | none => simp [parseFrom, hparse]
      | some read =>
        simp only [parseFrom, hparse, reduceCtorEq, false_and, iff_false]
        intro hsame
        have hmem : diagnosticOf read (outputLines rest) ∈
            rest.filterMap PrintedItem.value := by
          rw [← hsame]
          exact List.mem_cons_self
        cases List.mem_filterMap.mp hmem with
        | intro other hother =>
          cases other with
          | diagnostic d =>
            have hcolumn := congrArg RawDiagnostic.column (Option.some.inj hother.2)
            unfold diagnosticOf at hcolumn
            rw [excerpt_outputLines hrest] at hcolumn
            cases hcolumn
          | note text _ => cases hother.2
          | summary count word _ => cases hother.2
    | summary count word known =>
      have hparse : parseHeader (PrintedItem.summaryLine count word) = none :=
        parseHeader_eq_none_of_notMem (PrintedItem.colon_notMem_summaryLine count known)
      show parseFrom 0 (PrintedItem.summaryLine count word :: outputLines rest) =
        rest.filterMap PrintedItem.value <-> True ∧ _
      simp [parseFrom, hparse]

/-- The diagnostics are read as they were printed exactly if each item is recognized. -/
theorem parseStderr_printLines_iff (linebreak : LineBreak) (items : List PrintedItem) :
    parseStderr (printLines linebreak (outputLines items)) =
        items.filterMap PrintedItem.value <->
      forall item, item ∈ items -> item.Recognized := by
  unfold parseStderr
  rw [strLines_printLines (oneLine_outputLines items)]
  constructor
  · intro hsame
    have hunquoted : forall item, item ∈ items -> item.Unquoted := by
      intro item hitem
      cases item with
      | diagnostic d =>
        apply unquoted_of_value_mem (oneLine_outputLines items)
        rw [hsame]
        exact List.mem_filterMap.mpr ⟨.diagnostic d, hitem, rfl⟩
      | note text _ => exact True.intro
      | summary count word _ => exact True.intro
    exact (parseFrom_outputLines_iff hunquoted).mp hsame
  · intro hrecognized
    have hunquoted : forall item, item ∈ items -> item.Unquoted := by
      intro item hitem
      cases item with
      | diagnostic d =>
        have hd : d.Recognized := hrecognized _ hitem
        exact hd.unquoted
      | note text _ => exact True.intro
      | summary count word _ => exact True.intro
    exact (parseFrom_outputLines_iff hunquoted).mpr hrecognized

def echoedHeader : PrintedDiagnostic where
  header :=
    { path := "A.java".toList
      line := 8
      severity := .error
      message := "not a statement".toList }
  source := "  say(\"b:1: error: c\");".toList
  lead := "  ".toList
  details := []
  printed := by
    constructor
    · decide
    · intro severity
      cases severity <;> decide
    · decide
  path := by decide
  message := by decide
  sourceLine := by decide
  blanks := rfl
  detailLines := by simp

/-- The caret is lost, and a second diagnostic turns up in a file that nobody compiled. -/
theorem parseStderr_echoedHeader :
    parseStderr (printLines .lf (outputLines [.diagnostic echoedHeader])) =
      [ { path := "A.java".toList
          line := 8
          severity := .error
          message := "not a statement".toList
          column := none
          endCharacter := none },
        { path := "  say(\"b".toList
          line := 1
          severity := .error
          message := "c\");".toList
          column := some 2
          endCharacter := none } ] ∧
      parseStderr (printLines .lf (outputLines [.diagnostic echoedHeader])) ≠
        [PrintedItem.diagnostic echoedHeader].filterMap PrintedItem.value := by
  decide +kernel

end Javac
end JavaVsixLite
