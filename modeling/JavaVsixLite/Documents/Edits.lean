import JavaVsixLite.Documents.Positions

/-!
# Ranged content changes

`applyContentChange` replaces the text of a range and reports the edit to the
incremental parser, in bytes and in points.  The bytes are those of the clamped
range; the rows of the points come from the range as the client sent it.
-/

namespace JavaVsixLite
namespace Documents

open Foundation
open Foundation.Text (Point)

structure Range where
  start : Position
  stop : Position

structure InputEdit where
  startByte : Nat
  oldEndByte : Nat
  newEndByte : Nat
  startPosition : Point
  oldEndPosition : Point
  newEndPosition : Point

structure AppliedEdit where
  newText : Text
  inputEdit : InputEdit

def lineStart (text : Text) (byte : Nat) : Option Nat :=
  (Text.takeBytes? byte text).map
    (fun before => (Text.rfindNewline? before).elim 0 (fun nl => nl + 1))

def newEndPosition (startPosition : Point) (replacement : Text) : Point :=
  match Text.rfindNewline? replacement with
  | none =>
    { row := startPosition.row
      column := startPosition.column + Text.byteLen replacement }
  | some lastNl =>
    { row := startPosition.row + replacement.count '\n'
      column := Text.byteLen replacement - lastNl - 1 }

/-- `none` stands for a panic of one of the slices. -/
def applyContentChange (text : Text) (encoding : PositionEncoding) (range : Range)
    (replacement : Text) : Option AppliedEdit := do
  let index := LineIndex.new text encoding
  let startByte <- index.offset range.start
  let endByte <- index.offset range.stop
  let oldEndByte := max endByte startByte
  let startLine <- lineStart text startByte
  let startPosition : Point := { row := range.start.line, column := startByte - startLine }
  let oldEndLine <- lineStart text oldEndByte
  let oldEndPosition : Point := { row := range.stop.line, column := oldEndByte - oldEndLine }
  let before <- Text.takeBytes? startByte text
  let after <- Text.dropBytes? oldEndByte text
  pure
    { newText := before ++ replacement ++ after
      inputEdit :=
        { startByte := startByte
          oldEndByte := oldEndByte
          newEndByte := startByte + Text.byteLen replacement
          startPosition := startPosition
          oldEndPosition := oldEndPosition
          newEndPosition := newEndPosition startPosition replacement } }

/-!
# What an edit promises
-/

/-- The new text is the old one with the bytes of the edit replaced. -/
structure Splices (text replacement : Text) (edit : AppliedEdit) : Prop where
  ordered : edit.inputEdit.startByte ≤ edit.inputEdit.oldEndByte
  bounded : edit.inputEdit.oldEndByte ≤ Text.byteLen text
  newEnd : edit.inputEdit.newEndByte = edit.inputEdit.startByte + Text.byteLen replacement
  spliced : exists before after,
    Text.takeBytes? edit.inputEdit.startByte text = some before ∧
      Text.dropBytes? edit.inputEdit.oldEndByte text = some after ∧
      edit.newText = before ++ replacement ++ after

def pointAt? (text : Text) (byte : Nat) : Option Point :=
  (Text.takeBytes? byte text).map Text.endPoint

structure PointsExact (text : Text) (edit : AppliedEdit) : Prop where
  start : pointAt? text edit.inputEdit.startByte = some edit.inputEdit.startPosition
  oldEnd : pointAt? text edit.inputEdit.oldEndByte = some edit.inputEdit.oldEndPosition
  newEnd : pointAt? edit.newText edit.inputEdit.newEndByte = some edit.inputEdit.newEndPosition

/-!
# The edit in terms of prefixes
-/

theorem lineStart_append (before after : Text) :
    lineStart (before ++ after) (Text.byteLen before) =
      some ((Text.rfindNewline? before).elim 0 (fun nl => nl + 1)) := by
  unfold lineStart
  rw [Text.takeBytes?_append]
  rfl

theorem pointAt?_append (before after : Text) :
    pointAt? (before ++ after) (Text.byteLen before) = some (Text.endPoint before) := by
  unfold pointAt?
  rw [Text.takeBytes?_append]
  rfl

/-- The column that the code computes for the end of a prefix is the right one. -/
theorem column_eq (before : Text) :
    Text.byteLen before - (Text.rfindNewline? before).elim 0 (fun nl => nl + 1) =
      (Text.endPoint before).column := by
  rw [Text.endPoint_eq]

theorem row_eq (before : Text) : (Text.endPoint before).row = before.count '\n' := by
  rw [Text.endPoint_eq]

theorem newEndPosition_eq (startPosition : Point) (replacement : Text) :
    newEndPosition startPosition replacement =
      replacement.foldl Point.advance startPosition := by
  rw [Text.foldl_advance]
  unfold newEndPosition
  cases h : Text.rfindNewline? replacement with
  | none =>
    have hcount := Text.rfindNewline?_eq_none_iff.mp h
    simp [hcount]
  | some lastNl => rfl

/-- The edit that replaces `middle`, with the rows of the range. -/
def spliceEdit (before middle after replacement : Text) (range : Range) : AppliedEdit :=
  let startPosition : Point :=
    { row := range.start.line, column := (Text.endPoint before).column }
  { newText := before ++ replacement ++ after
    inputEdit :=
      { startByte := Text.byteLen before
        oldEndByte := Text.byteLen (before ++ middle)
        newEndByte := Text.byteLen (before ++ replacement)
        startPosition := startPosition
        oldEndPosition :=
          { row := range.stop.line, column := (Text.endPoint (before ++ middle)).column }
        newEndPosition := replacement.foldl Point.advance startPosition } }

theorem applyContentChange_eq {text before middle after : Text} (encoding : PositionEncoding)
    (range : Range) (replacement : Text) {endByte : Nat}
    (htext : text = before ++ middle ++ after)
    (hstart : (LineIndex.new text encoding).offset range.start = some (Text.byteLen before))
    (hend : (LineIndex.new text encoding).offset range.stop = some endByte)
    (hmax : max endByte (Text.byteLen before) = Text.byteLen (before ++ middle)) :
    applyContentChange text encoding range replacement =
      some (spliceEdit before middle after replacement range) := by
  have htext' : text = before ++ (middle ++ after) := by
    rw [htext, List.append_assoc]
  have hstartLine : lineStart text (Text.byteLen before) =
      some ((Text.rfindNewline? before).elim 0 (fun nl => nl + 1)) := by
    rw [htext']
    exact lineStart_append before (middle ++ after)
  have hendLine : lineStart text (Text.byteLen (before ++ middle)) =
      some ((Text.rfindNewline? (before ++ middle)).elim 0 (fun nl => nl + 1)) := by
    rw [htext]
    exact lineStart_append (before ++ middle) after
  have htake : Text.takeBytes? (Text.byteLen before) text = some before := by
    rw [htext']
    exact Text.takeBytes?_append before (middle ++ after)
  have hdrop : Text.dropBytes? (Text.byteLen (before ++ middle)) text = some after := by
    rw [htext]
    exact Text.dropBytes?_append (before ++ middle) after
  unfold applyContentChange spliceEdit
  simp only [hstart, hend, hmax, hstartLine, hendLine, htake, hdrop, Option.bind_eq_bind,
    Option.bind_some, column_eq, newEndPosition_eq, Text.byteLen_append before replacement]
  rfl

theorem spliceEdit_splices (before middle after replacement : Text) (range : Range) :
    Splices (before ++ middle ++ after) replacement
      (spliceEdit before middle after replacement range) where
  ordered := by
    simp only [spliceEdit, Text.byteLen_append]
    omega
  bounded := by
    simp only [spliceEdit, Text.byteLen_append]
    omega
  newEnd := Text.byteLen_append before replacement
  spliced := by
    refine ⟨before, after, ?_, ?_, rfl⟩
    · rw [List.append_assoc]
      exact Text.takeBytes?_append before (middle ++ after)
    · exact Text.dropBytes?_append (before ++ middle) after

theorem spliceEdit_pointsExact_iff (before middle after replacement : Text) (range : Range) :
    PointsExact (before ++ middle ++ after) (spliceEdit before middle after replacement range) <->
      before.count '\n' = range.start.line ∧ (before ++ middle).count '\n' = range.stop.line := by
  have hstart : pointAt? (before ++ middle ++ after) (Text.byteLen before) =
      some (Text.endPoint before) := by
    rw [List.append_assoc]
    exact pointAt?_append before (middle ++ after)
  have hend := pointAt?_append (before ++ middle) after
  have hnew := pointAt?_append (before ++ replacement) after
  constructor
  · intro h
    have hs := h.start
    have he := h.oldEnd
    simp only [spliceEdit] at hs he
    rw [hstart] at hs
    rw [hend] at he
    constructor
    · rw [← row_eq, Option.some.inj hs]
    · rw [← row_eq, Option.some.inj he]
  · rintro ⟨hrow, hrow'⟩
    rw [← row_eq] at hrow hrow'
    have hpoint : ({ row := range.start.line, column := (Text.endPoint before).column } : Point) =
        Text.endPoint before := by
      rw [← hrow]
    constructor
    · simp only [spliceEdit]
      rw [hstart, hpoint]
    · simp only [spliceEdit]
      rw [hend, ← hrow']
    · simp only [spliceEdit]
      rw [hnew, hpoint, Text.endPoint_append]

/-!
# Edits of a range
-/

/-- `oldEnd` is the later of the two prefixes that the range ends. -/
def LaterPrefix (encoding : PositionEncoding) (text : Text) (range : Range)
    (oldEnd : Text) : Prop :=
  let start := prefixTo encoding range.start.character range.start.line text
  let stop := prefixTo encoding range.stop.character range.stop.line text
  (oldEnd = stop ∧ start <+: oldEnd) ∨ (oldEnd = start ∧ stop <+: oldEnd)

theorem rows_iff {encoding : PositionEncoding} {text : Text} {range : Range} {oldEnd : Text}
    (hold : LaterPrefix encoding text range oldEnd) :
    (prefixTo encoding range.start.character range.start.line text).count '\n' =
        range.start.line ∧ oldEnd.count '\n' = range.stop.line <->
      range.start.Within encoding text ∧ range.stop.Within encoding text ∧
        range.start.line ≤ range.stop.line := by
  rw [← prefixTo_count_iff encoding text range.start, ← prefixTo_count_iff encoding text range.stop]
  rcases hold with ⟨heq, hpre⟩ | ⟨heq, hpre⟩
  · subst heq
    have hle := hpre.sublist.count_le '\n'
    constructor
    · rintro ⟨hs, he⟩
      exact ⟨hs, he, by omega⟩
    · rintro ⟨hs, he, _⟩
      exact ⟨hs, he⟩
  · subst heq
    have hle := hpre.sublist.count_le '\n'
    constructor
    · rintro ⟨hs, he⟩
      have hbound := (prefixTo_prefix_of encoding range.start.character range.start.line
        text).sublist.count_le '\n'
      -- the start is on the line of the end, so that line is in the text
      have hline : range.stop.line ≤ text.count '\n' := by omega
      have hge := le_prefixTo_count encoding range.stop.character hline
      exact ⟨hs, by omega, by omega⟩
    · rintro ⟨hs, he, hlines⟩
      exact ⟨hs, by omega⟩

theorem range_split (encoding : PositionEncoding) (text : Text) (range : Range) :
    exists middle after,
      text = prefixTo encoding range.start.character range.start.line text ++ middle ++ after ∧
      max (Text.byteLen (prefixTo encoding range.stop.character range.stop.line text))
          (Text.byteLen (prefixTo encoding range.start.character range.start.line text)) =
        Text.byteLen
          (prefixTo encoding range.start.character range.start.line text ++ middle) ∧
      LaterPrefix encoding text range
        (prefixTo encoding range.start.character range.start.line text ++ middle) := by
  obtain ⟨rest, hrest⟩ := prefixTo_prefix_of encoding range.start.character range.start.line text
  obtain ⟨after, hafter⟩ := prefixTo_prefix_of encoding range.stop.character range.stop.line text
  have happ := hrest.trans hafter.symm
  by_cases hle : Text.byteLen (prefixTo encoding range.start.character range.start.line text) ≤
      Text.byteLen (prefixTo encoding range.stop.character range.stop.line text)
  · rcases Text.append_split_of_byteLen_le happ hle with ⟨middle, hmiddle, -⟩
    refine ⟨middle, after, ?_, ?_, Or.inl ⟨hmiddle.symm, ?_⟩⟩
    · rw [← hmiddle, hafter]
    · rw [← hmiddle]
      exact Nat.max_eq_left hle
    · exact List.prefix_append _ _
  · have hge : Text.byteLen (prefixTo encoding range.stop.character range.stop.line text) ≤
        Text.byteLen (prefixTo encoding range.start.character range.start.line text) := by
      omega
    rcases Text.append_split_of_byteLen_le happ.symm hge with ⟨middle, hmiddle, -⟩
    refine ⟨[], rest, ?_, ?_, Or.inr ⟨List.append_nil _, ?_⟩⟩
    · rw [List.append_nil, hrest]
    · rw [List.append_nil]
      exact Nat.max_eq_right hge
    · rw [List.append_nil, hmiddle]
      exact List.prefix_append _ _

/-- Every change is applied, and replaces the bytes it reports.  Its points are
those of the text exactly when the range is within its lines and in order. -/
theorem applyContentChange_points_iff (text : Text) (encoding : PositionEncoding) (range : Range)
    (replacement : Text) :
    exists edit, applyContentChange text encoding range replacement = some edit ∧
      Splices text replacement edit ∧
      (PointsExact text edit <->
        range.start.Within encoding text ∧ range.stop.Within encoding text ∧
          range.start.line ≤ range.stop.line) := by
  rcases range_split encoding text range with ⟨middle, after, htext, hmax, hlater⟩
  have happly := applyContentChange_eq encoding range replacement htext
    (offset_eq text encoding range.start) (offset_eq text encoding range.stop) hmax
  refine ⟨_, happly, ?_, ?_⟩
  · have hsplices := spliceEdit_splices
      (prefixTo encoding range.start.character range.start.line text) middle after replacement range
    rw [← htext] at hsplices
    exact hsplices
  · have hpoints := spliceEdit_pointsExact_iff
      (prefixTo encoding range.start.character range.start.line text) middle after replacement range
    rw [← htext] at hpoints
    exact hpoints.trans (rows_iff hlater)

/-- The character 5 of the first line of `"a\nb"` is clamped to the start of the
second line, and the row stays the first. -/
theorem applyContentChange_past_line_end :
    exists edit,
      applyContentChange ['a', '\n', 'b'] .utf16
        { start := { line := 0, character := 5 }, stop := { line := 0, character := 5 } } ['c'] =
          some edit ∧
      edit.inputEdit.startByte = 2 ∧
      edit.inputEdit.startPosition = { row := 0, column := 0 } ∧
      pointAt? ['a', '\n', 'b'] edit.inputEdit.startByte = some { row := 1, column := 0 } ∧
      ¬ PointsExact ['a', '\n', 'b'] edit := by
  refine ⟨_, rfl, rfl, rfl, rfl, ?_⟩
  intro h
  have hstart := h.start
  revert hstart
  decide

end Documents
end JavaVsixLite
