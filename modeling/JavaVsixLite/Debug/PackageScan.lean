import Mathlib.Data.List.TakeWhile
import JavaVsixLite.Foundation.ByteText
import JavaVsixLite.Foundation.Substrings

/-!
# The scanner for the package declaration

The package of a source file is found without a parser: the first word outside of comments
and literals is looked at, and if it is the keyword, the characters of a name are collected
up to the next semicolon.

The scanner goes over the bytes of the text.  All that it tells apart are ASCII bytes, so it
does the same here over characters.
-/

namespace JavaVsixLite
namespace Debug

open Foundation

/-!
# The scanner
-/

def isAsciiAlphabetic (c : Char) : Bool :=
  c.isAlpha

def isAsciiAlphanumeric (c : Char) : Bool :=
  c.isAlphanum

def isWordStart (c : Char) : Bool :=
  isAsciiAlphabetic c || c == '_'

def isWordChar (c : Char) : Bool :=
  isAsciiAlphanumeric c || c == '_' || c == '$'

def isAnnotationChar (c : Char) : Bool :=
  isAsciiAlphanumeric c || c == '.'

def isNameChar (c : Char) : Bool :=
  isAsciiAlphanumeric c || c == '.' || c == '_' || c == '$'

def fromLineFeed (text : Text) : Text :=
  text.dropWhile (fun c => c != '\n')

def afterBlockComment : Text -> Text
  | [] => []
  | '*' :: '/' :: rest => rest
  | _ :: rest => afterBlockComment rest

def afterQuoted (quote : Char) : Text -> Text
  | [] => []
  | ['\\'] => []
  | '\\' :: _ :: rest => afterQuoted quote rest
  | c :: rest => if c = quote then rest else afterQuoted quote rest

theorem fromLineFeed_suffix (text : Text) : fromLineFeed text <:+ text :=
  List.dropWhile_suffix _

theorem afterBlockComment_suffix (text : Text) : afterBlockComment text <:+ text := by
  fun_induction afterBlockComment text with
  | case1 => exact List.suffix_refl []
  | case2 rest => exact List.suffix_append ['*', '/'] rest
  | case3 c rest _ ih => exact ih.trans (List.suffix_cons c rest)

theorem afterQuoted_suffix (quote : Char) (text : Text) : afterQuoted quote text <:+ text := by
  fun_induction afterQuoted quote text with
  | case1 => exact List.suffix_refl []
  | case2 => exact List.nil_suffix
  | case3 c rest ih => exact ih.trans (List.suffix_append ['\\', c] rest)
  | case4 => exact List.suffix_cons _ _
  | case5 c rest _ _ _ ih => exact ih.trans (List.suffix_cons c rest)

@[grind =] def firstWord (text : Text) : Option (Text × Text) :=
  match text with
  | [] => none
  | '/' :: '/' :: rest => firstWord (fromLineFeed rest)
  | '/' :: '*' :: rest => firstWord (afterBlockComment rest)
  | '"' :: rest => firstWord (afterQuoted '"' rest)
  | '\'' :: rest => firstWord (afterQuoted '\'' rest)
  | '@' :: rest => firstWord (rest.dropWhile isAnnotationChar)
  | c :: rest =>
    if isWordStart c then
      some ((c :: rest).takeWhile isWordChar, (c :: rest).dropWhile isWordChar)
    else firstWord rest
termination_by text.length
decreasing_by
  · exact Nat.lt_succ_of_le (Nat.le_succ_of_le (fromLineFeed_suffix rest).length_le)
  · exact Nat.lt_succ_of_le (Nat.le_succ_of_le (afterBlockComment_suffix rest).length_le)
  · exact Nat.lt_succ_of_le (afterQuoted_suffix _ rest).length_le
  · exact Nat.lt_succ_of_le (afterQuoted_suffix _ rest).length_le
  · exact Nat.lt_succ_of_le (List.dropWhile_suffix _).length_le
  · exact Nat.lt_succ_self _

section Arms

variable (rest : Text)

theorem firstWord_nil : firstWord [] = none := by
  rw [firstWord]

theorem firstWord_lineComment : firstWord ('/' :: '/' :: rest) = firstWord (fromLineFeed rest) := by
  rw [firstWord]

theorem firstWord_blockComment :
    firstWord ('/' :: '*' :: rest) = firstWord (afterBlockComment rest) := by
  rw [firstWord]

theorem firstWord_string : firstWord ('"' :: rest) = firstWord (afterQuoted '"' rest) := by
  rw [firstWord]

theorem firstWord_character : firstWord ('\'' :: rest) = firstWord (afterQuoted '\'' rest) := by
  rw [firstWord]

theorem firstWord_annotation :
    firstWord ('@' :: rest) = firstWord (rest.dropWhile isAnnotationChar) := by
  rw [firstWord]

variable {rest}

/-- A character that starts neither a comment nor a literal nor an annotation. -/
structure Plain (c : Char) (rest : Text) : Prop where
  slash : c = '/' -> forall d tail, rest = d :: tail -> d ≠ '/' ∧ d ≠ '*'
  string : c ≠ '"'
  character : c ≠ '\''
  annotation : c ≠ '@'

theorem Plain.firstWord {c : Char} (h : Plain c rest) :
    Debug.firstWord (c :: rest) =
      if isWordStart c then
        some ((c :: rest).takeWhile isWordChar, (c :: rest).dropWhile isWordChar)
      else Debug.firstWord rest := by
  rw [Debug.firstWord]
  · intro tail hc hrest
    exact (h.slash hc '/' tail hrest).1 rfl
  · intro tail hc hrest
    exact (h.slash hc '*' tail hrest).2 rfl
  · exact h.string
  · exact h.character
  · exact h.annotation

theorem Plain.skip {c : Char} (h : Plain c rest) (hword : isWordStart c = false) :
    Debug.firstWord (c :: rest) = Debug.firstWord rest := by
  rw [h.firstWord, hword]
  rfl

theorem Plain.word {c : Char} (h : Plain c rest) (hword : isWordStart c = true) :
    Debug.firstWord (c :: rest) =
      some ((c :: rest).takeWhile isWordChar, (c :: rest).dropWhile isWordChar) := by
  rw [h.firstWord, if_pos hword]

theorem plain_of_isWordChar {c : Char} (h : isWordChar c = true) (rest : Text) : Plain c rest where
  slash := by
    rintro rfl
    exact absurd h (by decide)
  string := by
    rintro rfl
    exact absurd h (by decide)
  character := by
    rintro rfl
    exact absurd h (by decide)
  annotation := by
    rintro rfl
    exact absurd h (by decide)

theorem firstWord_suffix {text word behind : Text} (h : firstWord text = some (word, behind)) :
    word ++ behind <:+ text := by
  fun_induction firstWord text with
  | case1 => cases h
  | case2 rest ih =>
    exact ((ih h).trans (fromLineFeed_suffix rest)).trans (List.suffix_append ['/', '/'] rest)
  | case3 rest ih =>
    exact ((ih h).trans (afterBlockComment_suffix rest)).trans
      (List.suffix_append ['/', '*'] rest)
  | case4 rest ih =>
    exact ((ih h).trans (afterQuoted_suffix _ rest)).trans (List.suffix_cons _ rest)
  | case5 rest ih =>
    exact ((ih h).trans (afterQuoted_suffix _ rest)).trans (List.suffix_cons _ rest)
  | case6 rest ih =>
    exact ((ih h).trans (List.dropWhile_suffix _)).trans (List.suffix_cons _ rest)
  | case7 c rest _ _ _ _ _ hstart =>
    cases h
    rw [List.takeWhile_append_dropWhile]
  | case8 c rest _ _ _ _ _ hstart ih => exact (ih h).trans (List.suffix_cons c rest)

end Arms

def readName (text : Text) : Option Text :=
  match splitOnce [';'] text with
  | none => none
  | some (before, _) =>
    if before.filter isNameChar = [] then none else some (before.filter isNameChar)

theorem splitOnce_semicolon {text : Text} (h : ';' ∈ text) :
    exists behind, splitOnce [';'] text = some (text.takeWhile (fun c => c != ';'), behind) := by
  have hparts := List.takeWhile_append_dropWhile (p := fun c => c != ';') (l := text)
  have hfront : ';' ∉ text.takeWhile (fun c => c != ';') := by
    intro hmem
    have hne := List.mem_takeWhile_imp hmem
    simp at hne
  cases hdrop : text.dropWhile (fun c => c != ';') with
  | nil =>
    rw [hdrop, List.append_nil] at hparts
    rw [hparts] at hfront
    exact absurd h hfront
  | cons c rest =>
    have hc : c = ';' := by
      have hhead := List.head?_dropWhile_not (fun c => c != ';') text
      rw [hdrop] at hhead
      simpa using hhead
    subst hc
    refine ⟨rest, ?_⟩
    have hstarts : StartsNotIn [';'] (text.takeWhile (fun c => c != ';')) ([';'] ++ rest) :=
      startsNotIn_of_head hfront
    have hsplit := splitOnce_of_startsNotIn (List.cons_ne_nil _ _) hstarts
    rw [hdrop] at hparts
    rwa [List.singleton_append, hparts] at hsplit

theorem readName_eq_some_iff {text name : Text} (h : ';' ∈ text) (hname : name ≠ []) :
    readName text = some name <->
      (text.takeWhile (fun c => c != ';')).filter isNameChar = name := by
  rcases splitOnce_semicolon h with ⟨behind, hsplit⟩
  unfold readName
  rw [hsplit]
  dsimp only
  split
  · rename_i hnil
    rw [hnil]
    exact iff_of_false (fun heq => by cases heq) (fun heq => hname heq.symm)
  · exact Option.some_inj

def keyword : Text :=
  "package".toList

def scanPackage (text : Text) : Option Text :=
  match firstWord text with
  | none => none
  | some (word, behind) => if word = keyword then readName behind else none

/-- The name of the top-level class of a file, known by the stem of the file. -/
def fqcnForSource (stem text : Text) : Text :=
  match scanPackage text with
  | some pkg => if pkg = [] then stem else pkg ++ '.' :: stem
  | none => stem

end Debug
end JavaVsixLite
