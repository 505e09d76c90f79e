import JavaVsixLite.Foundation.ByteText

/-!
# Words of a text

Whether a name stands in a text as a word: with no character of an identifier on either side.
-/

namespace JavaVsixLite
namespace Refactor

open Foundation

def isIdent (c : Char) : Bool :=
  c.isAlphanum || c == '_' || c == '$'

def Boundary (c : Option Char) : Prop :=
  c.any isIdent = false

instance (c : Option Char) : Decidable (Boundary c) :=
  inferInstanceAs (Decidable (c.any isIdent = false))

/-- The search goes on one byte behind a match; there it fails inside of a character. -/
def containsWordFrom (word : Text) : Option Char -> Text -> Option Bool
  | _, [] => some false
  | before, c :: rest =>
    if word <+: c :: rest then
      if Boundary before ∧ Boundary ((c :: rest).drop word.length).head? then some true
      else if c.utf8Size = 1 then containsWordFrom word (some c) rest
      else none
    else containsWordFrom word (some c) rest

/-- `none` where the search panics. -/
def containsWord (hay word : Text) : Option Bool :=
  if word = [] then some false else containsWordFrom word none hay

def StandsIn (word text : Text) : Prop :=
  exists before after, text = before ++ (word ++ after) ∧ Boundary before.getLast? ∧
    Boundary after.head?

theorem containsWordFrom_of_standsIn {word : Text} (hword : word ≠ []) (after : Text)
    (hafter : Boundary after.head?) :
    forall (before : Text) (last : Option Char), Boundary (before.getLast?.or last) ->
      containsWordFrom word last (before ++ (word ++ after)) ≠ some false := by
  intro before
  induction before with
  | nil =>
    intro last hlast
    cases word with
    | nil => exact absurd rfl hword
    | cons c tail =>
      have hprefix : c :: tail <+: c :: (tail ++ after) := List.prefix_append (c :: tail) after
      have hbehind : ((c :: (tail ++ after)).drop (c :: tail).length).head? = after.head? := by
        rw [← List.cons_append, List.drop_left]
      have hbefore : Boundary last := hlast
      rw [List.nil_append, List.cons_append, containsWordFrom, if_pos hprefix, hbehind,
        if_pos ⟨hbefore, hafter⟩]
      simp
  | cons c rest ih =>
    intro last hlast
    have hrest : Boundary (rest.getLast?.or (some c)) := by
      cases rest with
      | nil => exact hlast
      | cons d tail =>
        rw [List.getLast?_cons_cons] at hlast
        rw [List.getLast?_eq_some_getLast (List.cons_ne_nil d tail)] at hlast ⊢
        exact hlast
    rw [List.cons_append, containsWordFrom]
    split
    · split
      · simp
      · split
        · exact ih (some c) hrest
        · simp
    · exact ih (some c) hrest

theorem containsWord_ne_of_standsIn {word text : Text} (hword : word ≠ [])
    (h : StandsIn word text) : containsWord text word ≠ some false := by
  rcases h with ⟨before, after, rfl, hbefore, hafter⟩
  rw [containsWord, if_neg hword]
  apply containsWordFrom_of_standsIn hword after hafter
  simpa using hbefore

end Refactor
end JavaVsixLite
