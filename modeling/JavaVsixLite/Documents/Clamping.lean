import JavaVsixLite.Documents.RoundTrip

/-!
# Characters past the end of a line

A character beyond the length of its line stands for the end of the line.  The
walk of `offset` stops at the start of the next line instead, so it passes over
the terminator whenever there is one and the units are not spent before it.
-/

namespace JavaVsixLite
namespace Documents

open Foundation

/-!
# Lines and their terminators
-/

inductive Terminates (content : Text) : Text -> Text -> Prop where
  | lineFeed (later : Text) : content.getLast? ≠ some '\r' -> Terminates content ['\n'] later
  | carriageReturn (later : Text) : Terminates content ['\r', '\n'] later
  | endOfText : Terminates content [] []

/-- The line `n` of a text, between the lines before it and its terminator. -/
structure LineAt (text : Text) (n : Nat) (earlier content terminator later : Text) : Prop where
  split : text = earlier ++ (content ++ (terminator ++ later))
  wholeLines : currentLine earlier = []
  number : earlier.count '\n' = n
  unbroken : '\n' ∉ content
  terminated : Terminates content terminator later

theorem exists_earlier {text : Text} {n : Nat} (h : n ≤ text.count '\n') :
    exists earlier rest, text = earlier ++ rest ∧ currentLine earlier = [] ∧
      earlier.count '\n' = n := by
  induction text generalizing n with
  | nil =>
    rw [List.count_nil, Nat.le_zero] at h
    exact ⟨[], [], rfl, rfl, h.symm⟩
  | cons c rest ih =>
    cases n with
    | zero => exact ⟨[], c :: rest, rfl, rfl, rfl⟩
    | succ n =>
      by_cases hc : c = '\n'
      · subst hc
        rw [List.count_cons_self] at h
        rcases ih (Nat.le_of_succ_le_succ h) with ⟨earlier, others, hsplit, hended, hcount⟩
        exists '\n' :: earlier, others
        rw [hsplit, currentLine_newline, List.count_cons_self, hcount]
        exact ⟨rfl, hended, rfl⟩
      · rw [List.count_cons_of_ne hc] at h
        rcases ih h with ⟨earlier, others, hsplit, hended, hcount⟩
        have hmem : '\n' ∈ earlier := List.count_pos_iff.mp (by omega)
        exists c :: earlier, others
        rw [hsplit, currentLine_cons_of_mem c hmem, List.count_cons_of_ne hc]
        exact ⟨rfl, hended, hcount⟩

theorem firstLine_cases (text : Text) :
    ('\n' ∉ text) ∨ exists body rest, text = body ++ '\n' :: rest ∧ '\n' ∉ body := by
  by_cases h : '\n' ∈ text
  · exact Or.inr (List.eq_append_cons_of_mem h)
  · exact Or.inl h

theorem exists_lineAt {text : Text} {n : Nat} (h : n < (lines text).length) :
    exists earlier content terminator later, LineAt text n earlier content terminator later := by
  rw [length_lines] at h
  rcases exists_earlier (Nat.le_of_lt_succ h) with ⟨earlier, rest, hsplit, hended, hcount⟩
  cases firstLine_cases rest with
  | inl hopen =>
    exists earlier, rest, [], []
    constructor
    · rw [List.append_nil, List.append_nil]
      exact hsplit
    · exact hended
    · exact hcount
    · exact hopen
    · exact Terminates.endOfText
  | inr hbreak =>
    rcases hbreak with ⟨body, later, hrest, hopen⟩
    by_cases hreturn : body.getLast? = some '\r'
    · rcases List.getLast?_eq_some_iff.mp hreturn with ⟨content, hbody⟩
      exists earlier, content, ['\r', '\n'], later
      constructor
      · rw [hsplit, hrest, hbody]
        simp
      · exact hended
      · exact hcount
      · intro hmem
        apply hopen
        rw [hbody]
        exact List.mem_append_left _ hmem
      · exact Terminates.carriageReturn later
    · exists earlier, body, ['\n'], later
      constructor
      · rw [hsplit, hrest]
        rfl
      · exact hended
      · exact hcount
      · exact hopen
      · exact Terminates.lineFeed later hreturn

theorem Terminates.firstLine {content terminator later : Text}
    (h : Terminates content terminator later) :
    firstLine (terminator ++ later) = terminator := by
  cases h with
  | lineFeed hreturn => rfl
  | carriageReturn =>
    have hne : '\r' ≠ '\n' := by decide
    rw [List.cons_append, firstLine_cons_of_ne hne]
    rfl
  | endOfText => rfl

/-!
# Where the walk stops
-/

theorem byteLen_le_of_prefix {xs ys : Text} (h : xs <+: ys) :
    Text.byteLen xs ≤ Text.byteLen ys := by
  rcases h with ⟨rest, hsplit⟩
  rw [← hsplit, Text.byteLen_append]
  omega

theorem prefixTo_lineAt {text earlier content terminator later : Text} {n : Nat}
    (h : LineAt text n earlier content terminator later) (encoding : PositionEncoding)
    (character : Nat) :
    prefixTo encoding character n text =
      earlier ++ (takeUnits encoding character 0 content ++
        takeUnits encoding character (encoding.width content) terminator) := by
  rw [h.split, ← h.number, prefixTo_earlier encoding character h.wholeLines,
    firstLine_append h.unbroken, h.terminated.firstLine, takeUnits_append, Nat.zero_add]

theorem prefixTo_in_content_iff {text earlier content terminator later : Text} {n : Nat}
    (h : LineAt text n earlier content terminator later) (encoding : PositionEncoding)
    (character : Nat) :
    Text.byteLen (prefixTo encoding character n text) ≤
        Text.byteLen earlier + Text.byteLen content <->
      terminator = [] ∨ character ≤ encoding.width content := by
  have hinside := byteLen_le_of_prefix (takeUnits_prefix_of encoding character 0 content)
  rw [prefixTo_lineAt h, Text.byteLen_append, Text.byteLen_append]
  constructor
  · intro hle
    by_cases hspent : character ≤ encoding.width content
    · exact Or.inr hspent
    · left
      rw [takeUnits_all encoding (by omega)] at hle
      cases terminator with
      | nil => rfl
      | cons c rest =>
        have hpos := c.utf8Size_pos
        simp only [takeUnits, if_neg hspent, Text.byteLen_cons] at hle
        omega
  · intro hcase
    have hnone : takeUnits encoding character (encoding.width content) terminator = [] := by
      cases hcase with
      | inl hlast =>
        rw [hlast]
        rfl
      | inr hspent => exact takeUnits_of_le encoding hspent terminator
    rw [hnone, Text.byteLen_nil]
    omega

/-!
# Later positions have later offsets
-/

theorem takeUnits_mono (encoding : PositionEncoding) {target target' : Nat}
    (h : target ≤ target') (units : Nat) (text : Text) :
    takeUnits encoding target units text <+: takeUnits encoding target' units text := by
  induction text generalizing units with
  | nil => exact List.prefix_refl []
  | cons c rest ih =>
    by_cases ht : target ≤ units
    · rw [takeUnits_of_le encoding ht]
      exact List.nil_prefix
    · simp only [takeUnits, if_neg ht, if_neg (show ¬ target' ≤ units by omega)]
      exact (List.prefix_cons_inj c).mpr (ih _)

theorem firstLine_prefix_of (encoding : PositionEncoding) (character n : Nat) (text : Text) :
    firstLine text <+: prefixTo encoding character (n + 1) text := by
  induction text with
  | nil => exact List.prefix_refl []
  | cons c rest ih =>
    by_cases hc : c = '\n'
    · simp only [firstLine, prefixTo, if_pos hc]
      exact (List.prefix_cons_inj c).mpr List.nil_prefix
    · simp only [firstLine, prefixTo, if_neg hc]
      exact (List.prefix_cons_inj c).mpr ih

/-- The order of positions, with equality. -/
def Position.NotAfter (p q : Position) : Prop :=
  p.line < q.line ∨ p.line = q.line ∧ p.character ≤ q.character

theorem prefixTo_mono (encoding : PositionEncoding) {p q : Position} (h : p.NotAfter q)
    (text : Text) :
    prefixTo encoding p.character p.line text <+: prefixTo encoding q.character q.line text := by
  rcases p with ⟨n, character⟩
  rcases q with ⟨m, character'⟩
  unfold Position.NotAfter at h
  simp only at h ⊢
  induction text generalizing n m with
  | nil =>
    have hnil : forall k, prefixTo encoding character k [] = [] := by
      intro k
      cases k <;> rfl
    rw [hnil]
    exact List.nil_prefix
  | cons c rest ih =>
    cases n with
    | zero =>
      cases m with
      | zero => exact takeUnits_mono encoding (by omega) 0 _
      | succ m =>
        exact (takeUnits_prefix_of encoding character 0 _).trans
          (firstLine_prefix_of encoding character' m (c :: rest))
    | succ n =>
      cases m with
      | zero => omega
      | succ m =>
        by_cases hc : c = '\n'
        · simp only [prefixTo, if_pos hc]
          exact (List.prefix_cons_inj c).mpr (ih n m (by omega))
        · simp only [prefixTo, if_neg hc]
          exact (List.prefix_cons_inj c).mpr (ih (n + 1) (m + 1) h)

/-!
# Over-long positions
-/

/-- A character boundary of the line, at or before its terminator. -/
def OnLine (text earlier content : Text) (byte : Nat) : Prop :=
  isCharBoundary text byte = true ∧ Text.byteLen earlier ≤ byte ∧
    byte ≤ Text.byteLen earlier + Text.byteLen content

/--
The offset of a position whose line exists is on that line exactly when the line
has no terminator or the character is not beyond its content.  Offsets are
monotone for all positions.
-/
theorem offset_onLine_iff (text : Text) (encoding : PositionEncoding) :
    (forall position, position.line < (lines text).length ->
      exists earlier content terminator later,
        LineAt text position.line earlier content terminator later ∧
          ((exists byte, (LineIndex.new text encoding).offset position = some byte ∧
              OnLine text earlier content byte) <->
            terminator = [] ∨ position.character ≤ encoding.width content)) ∧
    (forall p q : Position, p.NotAfter q ->
      exists byte byte', (LineIndex.new text encoding).offset p = some byte ∧
        (LineIndex.new text encoding).offset q = some byte' ∧ byte ≤ byte') := by
  constructor
  · intro position hexists
    rcases exists_lineAt hexists with ⟨earlier, content, terminator, later, hline⟩
    refine ⟨earlier, content, terminator, later, hline, ?_⟩
    rw [offset_eq, ← prefixTo_in_content_iff hline encoding position.character]
    constructor
    · rintro ⟨byte, hbyte, _, _, hle⟩
      rw [Option.some.inj hbyte]
      exact hle
    · intro hle
      refine ⟨_, rfl, ?_, ?_, hle⟩
      · exact isCharBoundary_iff.mpr ⟨_, prefixTo_prefix_of _ _ _ _, rfl⟩
      · rw [prefixTo_lineAt hline, Text.byteLen_append]
        omega
  · intro p q hle
    rw [offset_eq, offset_eq]
    exact ⟨_, _, rfl, rfl, byteLen_le_of_prefix (prefixTo_mono encoding hle text)⟩

/-- The character 5 of the first line of `"a\nb"` is put on the second line. -/
theorem offset_past_line_end :
    LineAt ['a', '\n', 'b'] 0 [] ['a'] ['\n'] ['b'] ∧
      (LineIndex.new ['a', '\n', 'b'] .utf16).offset { line := 0, character := 5 } = some 2 ∧
      ¬ OnLine ['a', '\n', 'b'] [] ['a'] 2 := by
  refine ⟨⟨rfl, rfl, rfl, by decide, .lineFeed _ (by decide)⟩, rfl, ?_⟩
  rintro ⟨_, _, hle⟩
  exact absurd hle (by decide)

/-- The character 5 of the last line of `"a\nb"` is its end. -/
theorem offset_past_text_end :
    exists earlier content terminator later,
      LineAt ['a', '\n', 'b'] 1 earlier content terminator later ∧
        ((exists byte,
            (LineIndex.new ['a', '\n', 'b'] .utf16).offset { line := 1, character := 5 } =
              some byte ∧ OnLine ['a', '\n', 'b'] earlier content byte) <->
          terminator = [] ∨ 5 ≤ PositionEncoding.utf16.width content) :=
  (offset_onLine_iff ['a', '\n', 'b'] .utf16).left { line := 1, character := 5 } (by decide)

end Documents
end JavaVsixLite
