import JavaVsixLite.Foundation.ByteText

/-!
# The lines of a text

A line ends in a line feed, with or without a carriage return in front of it.
What was printed line by line is read line by line.
-/

namespace JavaVsixLite
namespace Foundation

def withoutReturn (line : Text) : Text :=
  if line.getLast? = some '\r' then line.dropLast else line

/-- `str::lines`, where `line` is what was read of the line so far. -/
def strLinesFrom (line : Text) : Text -> List Text
  | [] => if line.isEmpty then [] else [line]
  | c :: rest =>
    if c = '\n' then withoutReturn line :: strLinesFrom [] rest
    else strLinesFrom (line ++ [c]) rest

def strLines (text : Text) : List Text :=
  strLinesFrom [] text

def OneLine (text : Text) : Prop :=
  '\n' ∉ text ∧ '\r' ∉ text

instance (text : Text) : Decidable (OneLine text) :=
  inferInstanceAs (Decidable (_ ∧ _))

inductive LineBreak where
  | lf
  | crlf

def LineBreak.text : LineBreak -> Text
  | .lf => ['\n']
  | .crlf => ['\r', '\n']

def printLines (linebreak : LineBreak) (lines : List Text) : Text :=
  (lines.map (fun line => line ++ linebreak.text)).flatten

theorem OneLine.append {xs ys : Text} (hxs : OneLine xs) (hys : OneLine ys) :
    OneLine (xs ++ ys) := by
  constructor
  · simp [hxs.1, hys.1]
  · simp [hxs.2, hys.2]

theorem withoutReturn_of_notMem {line : Text} (h : '\r' ∉ line) : withoutReturn line = line := by
  unfold withoutReturn
  rw [if_neg]
  intro hlast
  exact h (List.mem_of_getLast? hlast)

theorem withoutReturn_return (line : Text) : withoutReturn (line ++ ['\r']) = line := by
  unfold withoutReturn
  simp

theorem strLinesFrom_append {xs : Text} (h : '\n' ∉ xs) (line rest : Text) :
    strLinesFrom line (xs ++ rest) = strLinesFrom (line ++ xs) rest := by
  induction xs generalizing line with
  | nil => simp
  | cons c xs ih =>
    have hc : c ≠ '\n' := by
      intro heq
      rw [heq] at h
      exact h List.mem_cons_self
    rw [List.cons_append, strLinesFrom, if_neg hc,
      ih (fun hmem => h (List.mem_cons_of_mem c hmem)), List.append_assoc,
      List.singleton_append]

theorem strLines_line {line : Text} (h : OneLine line) (linebreak : LineBreak) (rest : Text) :
    strLines (line ++ linebreak.text ++ rest) = line :: strLines rest := by
  unfold strLines
  rw [List.append_assoc, strLinesFrom_append h.1, List.nil_append]
  cases linebreak with
  | lf =>
    show withoutReturn line :: strLinesFrom [] rest = _
    rw [withoutReturn_of_notMem h.2]
  | crlf =>
    show withoutReturn (line ++ ['\r']) :: strLinesFrom [] rest = _
    rw [withoutReturn_return]

theorem strLines_printLines {lines : List Text} (h : forall line, line ∈ lines -> OneLine line)
    (linebreak : LineBreak) : strLines (printLines linebreak lines) = lines := by
  induction lines with
  | nil => rfl
  | cons line rest ih =>
    have hline := h line List.mem_cons_self
    have hrest := ih (fun other hother => h other (List.mem_cons_of_mem line hother))
    have hsplit : printLines linebreak (line :: rest) =
        line ++ linebreak.text ++ printLines linebreak rest := rfl
    rw [hsplit, strLines_line hline, hrest]

/-!
# Lines behind a first one
-/

def joinLines (first : Text) (lines : List Text) : Text :=
  first ++ (lines.map (fun line => '\n' :: line)).flatten

theorem joinLines_nil (first : Text) : joinLines first [] = first :=
  List.append_nil first

theorem joinLines_cons (first line : Text) (rest : List Text) :
    joinLines first (line :: rest) = first ++ '\n' :: joinLines line rest := by
  unfold joinLines
  simp

theorem append_newline_inj {xs ys us vs : Text} (hxs : '\n' ∉ xs) (hys : '\n' ∉ ys)
    (h : xs ++ '\n' :: us = ys ++ '\n' :: vs) : xs = ys ∧ us = vs := by
  induction xs generalizing ys with
  | nil =>
    cases ys with
    | nil =>
      cases h
      exact ⟨rfl, rfl⟩
    | cons c ys =>
      cases h
      exact absurd List.mem_cons_self hys
  | cons c xs ih =>
    cases ys with
    | nil =>
      cases h
      exact absurd List.mem_cons_self hxs
    | cons d ys =>
      cases (List.cons.inj h).1
      have hrest := ih (fun hmem => hxs (List.mem_cons_of_mem c hmem))
        (fun hmem => hys (List.mem_cons_of_mem c hmem)) (List.cons.inj h).2
      rw [hrest.1]
      exact ⟨rfl, hrest.2⟩

theorem joinLines_first {first first' : Text} {lines lines' : List Text}
    (hfirst : '\n' ∉ first) (hfirst' : '\n' ∉ first')
    (h : joinLines first lines = joinLines first' lines') : first = first' := by
  cases lines with
  | nil =>
    rw [joinLines_nil] at h
    cases lines' with
    | nil => rw [h, joinLines_nil]
    | cons line' rest' =>
      rw [joinLines_cons] at h
      rw [h] at hfirst
      exact absurd (List.mem_append_right first' List.mem_cons_self) hfirst
  | cons line rest =>
    rw [joinLines_cons] at h
    cases lines' with
    | nil =>
      rw [joinLines_nil] at h
      rw [← h] at hfirst'
      exact absurd (List.mem_append_right first List.mem_cons_self) hfirst'
    | cons line' rest' =>
      rw [joinLines_cons] at h
      exact (append_newline_inj hfirst hfirst' h).1

theorem joinLines_injective {first : Text} {lines lines' : List Text}
    (hlines : forall line, line ∈ lines -> '\n' ∉ line)
    (hlines' : forall line, line ∈ lines' -> '\n' ∉ line)
    (h : joinLines first lines = joinLines first lines') : lines = lines' := by
  induction lines generalizing first lines' with
  | nil =>
    cases lines' with
    | nil => rfl
    | cons line' rest' => simp [joinLines] at h
  | cons line rest ih =>
    cases lines' with
    | nil => simp [joinLines] at h
    | cons line' rest' =>
      rw [joinLines_cons, joinLines_cons, List.append_cancel_left_eq] at h
      have htail := (List.cons.inj h).2
      have hline : line = line' :=
        joinLines_first (hlines line List.mem_cons_self)
          (hlines' line' List.mem_cons_self) htail
      rw [← hline] at htail
      rw [← hline, ih (fun other hother => hlines other (List.mem_cons_of_mem line hother))
        (fun other hother => hlines' other (List.mem_cons_of_mem line' hother)) htail]

end Foundation
end JavaVsixLite
