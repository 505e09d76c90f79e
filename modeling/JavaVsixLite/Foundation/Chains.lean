import Mathlib.Data.List.Sort
import Mathlib.Data.Finset.Card
import JavaVsixLite.Foundation.Rounds

/-!
# Chains of placeholders

The value of a name may hold placeholders of other names, and so on along a chain.  A text is
expanded recursively, value by value; so many rounds expand it when no chain is longer.
-/

namespace JavaVsixLite
namespace Foundation
namespace Placeholders

/-- Each value is expanded before it is filled in, so many values deep. -/
def expand (value : Name -> Option Text) : Nat -> Text -> Text
  | 0, text => text
  | n + 1, text => fill (fun name => (value name).map (expand value n)) text

/-- Names that are reached from a text, each from the value of the one before. -/
def ChainIn (value : Name -> Option Text) : Text -> List Name -> Prop
  | _, [] => True
  | text, name :: rest =>
    placeholder name.val <:+: text ∧ exists val, value name = some val ∧ ChainIn value val rest

/-- No chain from the text is longer. -/
def ChainsWithin (value : Name -> Option Text) (n : Nat) (text : Text) : Prop :=
  forall chain, ChainIn value text chain -> chain.length ≤ n

def References (value : Name -> Option Text) (name other : Name) : Prop :=
  exists val, value name = some val ∧ placeholder other.val <:+: val

def Acyclic (value : Name -> Option Text) : Prop :=
  forall name, ¬ Relation.TransGen (References value) name name

section Chains

variable {value : Name -> Option Text} {text next : Text} {n : Nat}

theorem chainsWithin_zero_iff : ChainsWithin value 0 text <-> Complete value text := by
  constructor
  · intro h name val hvalue hinside
    have hlength := h [name] ⟨hinside, val, hvalue, trivial⟩
    exact absurd hlength (by simp)
  · intro h chain hchain
    cases chain with
    | nil => exact Nat.le_refl 0
    | cons name rest =>
      rcases hchain with ⟨hinside, val, hvalue, _⟩
      exact absurd hinside (h name val hvalue)

theorem ChainsWithin.of_value (h : ChainsWithin value (n + 1) text) {name : Name} {val : Text}
    (hinside : placeholder name.val <:+: text) (hvalue : value name = some val) :
    ChainsWithin value n val := by
  intro chain hchain
  have hlength := h (name :: chain) ⟨hinside, val, hvalue, hchain⟩
  rw [List.length_cons] at hlength
  exact Nat.le_of_succ_le_succ hlength

theorem chainsWithin_of_rank (rank : Name -> Nat)
    (hbound : forall name val, value name = some val -> rank name < n)
    (hfall : forall name other, References value name other -> rank other < rank name)
    (text : Text) : ChainsWithin value n text := by
  have hchains : forall (chain : List Name) (text : Text) (k : Nat), ChainIn value text chain ->
      (forall name, name ∈ chain.head? -> rank name < k) -> chain.length ≤ k := by
    intro chain
    induction chain with
    | nil => exact fun _ _ _ _ => Nat.zero_le _
    | cons name rest ih =>
      intro text k hchain hhead
      rcases hchain with ⟨_, val, hvalue, hrest⟩
      have hless : rank name < k := hhead name rfl
      have hmore : rest.length ≤ rank name := by
        apply ih val (rank name) hrest
        intro other hother
        cases rest with
        | nil => cases hother
        | cons first more =>
          cases hother
          exact hfall name other ⟨val, hvalue, hrest.1⟩
      exact Nat.succ_le_of_lt (Nat.lt_of_le_of_lt hmore hless)
  intro chain hchain
  apply hchains chain text n hchain
  intro name hname
  cases chain with
  | nil => cases hname
  | cons first rest =>
    cases hname
    rcases hchain with ⟨_, val, hvalue, _⟩
    exact hbound name val hvalue

theorem expand_add (h : ChainsWithin value n text) (k : Nat) :
    expand value (n + k) text = expand value n text := by
  induction n generalizing text with
  | zero =>
    have hcomplete := chainsWithin_zero_iff.mp h
    rw [Nat.zero_add, expand]
    cases k with
    | zero => rfl
    | succ k =>
      have hnone : Complete (fun name => (value name).map (expand value k)) text := by
        intro name val hvalue
        rcases Option.map_eq_some_iff.mp hvalue with ⟨inner, hinner, _⟩
        exact hcomplete name inner hinner
      exact hnone.fill_eq
  | succ n ih =>
    rw [Nat.succ_add, expand, expand]
    apply fill_congr
    intro name hinside
    cases hvalue : value name with
    | none => rfl
    | some val => rw [Option.map_some, Option.map_some, ih (h.of_value hinside hvalue)]

/-!
# Rounds and the recursive expansion
-/

/-- The second text is the first one with some placeholders expanded, so many values deep. -/
def Nested (value : Name -> Option Text) : Nat -> Text -> Text -> Prop
  | 0 => Eq
  | n + 1 => FillsBy value (Nested value n)

theorem Nested.append {before out : Text} (hbefore : Nested value n before out)
    (h : Nested value n text next) : Nested value n (before ++ text) (out ++ next) := by
  cases n with
  | zero => exact congrArg₂ _ hbefore h
  | succ n => exact FillsBy.append hbefore h

theorem Nested.refl (n : Nat) (text : Text) : Nested value n text text := by
  cases n with
  | zero => rfl
  | succ n => exact FillsBy.refl value _ text

theorem nested_expand (n : Nat) (text : Text) : Nested value n text (expand value n text) := by
  induction n generalizing text with
  | zero => rfl
  | succ n ih =>
    rw [expand]
    induction text using scan (fun name => (value name).map (expand value n)) with
    | nil => exact .nil
    | char c rest hstart ihText =>
      rw [fill_char hstart]
      exact FillsBy.char c ihText
    | ref name val after hvalue ihText =>
      rcases Option.map_eq_some_iff.mp hvalue with ⟨inner, hinner, rfl⟩
      have hstep : fill (fun name => (value name).map (expand value n))
          (placeholder name.val ++ after) = expand value n inner ++ _ :=
        fill_placeholder hvalue after
      rw [hstep]
      exact FillsBy.ref hinner (ih inner) ihText

theorem nested_fill (hcomplete : Complete value next) (h : Nested value (n + 1) text next) :
    Nested value n (fill value text) next := by
  induction text using scan value generalizing next with
  | nil =>
    cases h
    exact Nested.refl n []
  | char c rest hstart ih =>
    rw [fill_char hstart]
    rcases FillsBy.of_char hstart h with ⟨more, rfl, hmore⟩
    have hrest := ih (hcomplete.of_infix (List.suffix_cons c more).isInfix) hmore
    exact Nested.append (Nested.refl n [c]) hrest
  | ref name val after hvalue ih =>
    rw [fill_placeholder hvalue]
    rcases FillsBy.of_placeholder h with
      ⟨rest, hrest, hleft | ⟨val', out, hvalue', hout, hfilled⟩⟩
    · rw [hleft] at hcomplete
      exact absurd (List.prefix_append _ rest).isInfix (hcomplete name val hvalue)
    · rw [Option.some.inj (hvalue'.symm.trans hvalue)] at hout
      rw [hfilled] at hcomplete ⊢
      have hmore := ih (hcomplete.of_infix (List.suffix_append out rest).isInfix) hrest
      exact Nested.append hout hmore

theorem rounds_eq_of_nested (hcomplete : Complete value next) (h : Nested value n text next) :
    rounds value n text = next := by
  induction n generalizing text with
  | zero => exact h
  | succ n ih => exact ih (nested_fill hcomplete h)

/-- So many rounds make the recursive expansion, when it leaves no placeholder. -/
theorem rounds_eq_expand (h : Complete value (expand value n text)) :
    rounds value n text = expand value n text :=
  rounds_eq_of_nested h (nested_expand n text)

end Chains

/-!
# Texts whose marks all belong to placeholders
-/

inductive Tidy : Text -> Prop where
  | nil : Tidy []
  | char {c : Char} {rest : Text} (hc : mark c = false) (h : Tidy rest) : Tidy (c :: rest)
  | ref (name : Name) {rest : Text} (h : Tidy rest) : Tidy (placeholder name.val ++ rest)

/-- All values are tidy. -/
def TidyValues (value : Name -> Option Text) : Prop :=
  forall name val, value name = some val -> Tidy val

section Tidiness

variable {value : Name -> Option Text} {text next : Text} {n : Nat}

theorem Tidy.append (h : Tidy text) (hnext : Tidy next) : Tidy (text ++ next) := by
  induction h with
  | nil => exact hnext
  | char hc _ ih => exact .char hc ih
  | ref name _ ih =>
    rw [List.append_assoc]
    exact .ref name ih

theorem unstarted_of_not_mark {c : Char} (hc : mark c = false) (rest : Text) :
    Unstarted value (c :: rest) := by
  intro name val _ hprefix
  have hdollar : '$' = c := (List.cons_prefix_cons.mp hprefix).1
  rw [← hdollar] at hc
  exact absurd hc (by decide)

theorem Tidy.infix_append (h : Tidy text) {name : Name}
    (hinside : placeholder name.val <:+: text ++ next) :
    placeholder name.val <:+: text ∨ placeholder name.val <:+: next := by
  induction h with
  | nil => exact .inr hinside
  | @char c rest hc _ ih =>
    rw [List.cons_append] at hinside
    cases List.infix_cons_iff.mp hinside with
    | inl hprefix =>
      have hdollar : '$' = c := (List.cons_prefix_cons.mp hprefix).1
      rw [← hdollar] at hc
      exact absurd hc (by decide)
    | inr hrest =>
      cases ih hrest with
      | inl hin => exact .inl (List.infix_cons hin)
      | inr hout => exact .inr hout
  | @ref other rest _ ih =>
    rcases hinside with ⟨gap, after, heq⟩
    rw [List.append_assoc, List.append_assoc] at heq
    rcases same_or_after heq.symm with ⟨_, hname, _⟩ | ⟨mid, _, hmid⟩
    · rw [← hname]
      exact .inl (List.prefix_append _ _).isInfix
    · cases ih ⟨mid, after, by rw [hmid, List.append_assoc]⟩ with
      | inl hin => exact .inl (hin.trans (List.suffix_append _ _).isInfix)
      | inr hout => exact .inr hout

theorem Tidy.fill (h : Tidy text) (hvalues : TidyValues value) : Tidy (fill value text) := by
  induction h with
  | nil => exact .nil
  | @char c rest hc _ ih =>
    rw [fill_char (unstarted_of_not_mark hc rest)]
    exact .char hc ih
  | @ref name rest _ ih =>
    cases hvalue : value name with
    | none =>
      rw [fill_other hvalue]
      exact .ref name ih
    | some val =>
      rw [fill_placeholder hvalue]
      exact (hvalues name val hvalue).append ih

theorem Tidy.infix_fill (h : Tidy text) (hvalues : TidyValues value) {name : Name}
    (hinside : placeholder name.val <:+: Placeholders.fill value text) :
    (value name = none ∧ placeholder name.val <:+: text) ∨
      exists other val, value other = some val ∧ placeholder other.val <:+: text ∧
        placeholder name.val <:+: val := by
  induction h with
  | nil => exact .inr (absurd (List.infix_nil.mp hinside) (List.cons_ne_nil _ _))
  | @char c rest hc _ ih =>
    rw [fill_char (unstarted_of_not_mark hc rest)] at hinside
    have hrest : placeholder name.val <:+: Placeholders.fill value rest := by
      cases Tidy.infix_append (Tidy.char hc .nil) hinside with
      | inl hin =>
        cases List.infix_cons_iff.mp hin with
        | inl hprefix => exact absurd hprefix.length_le (by simp [placeholder])
        | inr hnil => exact absurd (List.infix_nil.mp hnil) (List.cons_ne_nil _ _)
      | inr hout => exact hout
    rcases ih hrest with ⟨hnone, hin⟩ | ⟨other, val, hvalue, hin, hval⟩
    · exact .inl ⟨hnone, List.infix_cons hin⟩
    · exact .inr ⟨other, val, hvalue, List.infix_cons hin, hval⟩
  | @ref other rest _ ih =>
    have hmore : placeholder name.val <:+: Placeholders.fill value rest ->
        (value name = none ∧ placeholder name.val <:+: placeholder other.val ++ rest) ∨
          exists found val, value found = some val ∧
            placeholder found.val <:+: placeholder other.val ++ rest ∧
            placeholder name.val <:+: val := by
      intro hout
      have hlift := (List.suffix_append (placeholder other.val) rest).isInfix
      rcases ih hout with ⟨hnone, hin⟩ | ⟨found, val, hvalue, hin, hval⟩
      · exact .inl ⟨hnone, hin.trans hlift⟩
      · exact .inr ⟨found, val, hvalue, hin.trans hlift, hval⟩
    cases hvalue : value other with
    | none =>
      rw [fill_other hvalue] at hinside
      rcases hinside with ⟨gap, after, heq⟩
      rw [List.append_assoc] at heq
      rcases same_or_after heq.symm with ⟨_, hname, _⟩ | ⟨mid, _, hmid⟩
      · rw [← hname]
        exact .inl ⟨hvalue, (List.prefix_append _ _).isInfix⟩
      · exact hmore ⟨mid, after, by rw [hmid, List.append_assoc]⟩
    | some val =>
      rw [fill_placeholder hvalue] at hinside
      cases (hvalues other val hvalue).infix_append hinside with
      | inl hin => exact .inr ⟨other, val, hvalue, (List.prefix_append _ _).isInfix, hin⟩
      | inr hout => exact hmore hout

theorem Tidy.value_infix_fill (h : Tidy text) {name : Name} {val : Text}
    (hvalue : value name = some val) (hinside : placeholder name.val <:+: text) :
    val <:+: Placeholders.fill value text := by
  induction h with
  | nil => exact absurd (List.infix_nil.mp hinside) (List.cons_ne_nil _ _)
  | @char c rest hc _ ih =>
    rw [fill_char (unstarted_of_not_mark hc rest)]
    cases List.infix_cons_iff.mp hinside with
    | inl hprefix => exact absurd hprefix (unstarted_of_not_mark hc rest name val hvalue)
    | inr hrest => exact List.infix_cons (ih hrest)
  | @ref other rest _ ih =>
    rcases hinside with ⟨gap, after, heq⟩
    rw [List.append_assoc] at heq
    rcases same_or_after heq.symm with ⟨_, hname, _⟩ | ⟨mid, _, hmid⟩
    · rw [hname, fill_placeholder hvalue]
      exact (List.prefix_append _ _).isInfix
    · have hrest := ih ⟨mid, after, by rw [hmid, List.append_assoc]⟩
      cases hother : value other with
      | none =>
        rw [fill_other hother]
        exact hrest.trans (List.suffix_append _ _).isInfix
      | some val' =>
        rw [fill_placeholder hother]
        exact hrest.trans (List.suffix_append _ _).isInfix

theorem Tidy.chainsWithin_fill_iff (h : Tidy text) (hvalues : TidyValues value) :
    ChainsWithin value n (Placeholders.fill value text) <-> ChainsWithin value (n + 1) text := by
  constructor
  · intro hfill chain hchain
    cases chain with
    | nil => exact Nat.zero_le _
    | cons name rest =>
      rcases hchain with ⟨hinside, val, hvalue, hrest⟩
      rw [List.length_cons]
      apply Nat.succ_le_succ
      cases rest with
      | nil => exact Nat.zero_le _
      | cons other more =>
        rcases hrest with ⟨hother, hmore⟩
        exact hfill (other :: more) ⟨hother.trans (h.value_infix_fill hvalue hinside), hmore⟩
  · intro htext chain hchain
    cases chain with
    | nil => exact Nat.zero_le _
    | cons name rest =>
      rcases hchain with ⟨hinside, val, hvalue, hrest⟩
      rcases h.infix_fill hvalues hinside with ⟨hnone, _⟩ | ⟨other, val', hother, hin, hval⟩
      · rw [hnone] at hvalue
        cases hvalue
      · exact (htext.of_value hin hother) (name :: rest) ⟨hval, val, hvalue, hrest⟩

/-- So many rounds complete a tidy text exactly when no chain from it is longer. -/
theorem Tidy.complete_rounds_iff (h : Tidy text) (hvalues : TidyValues value) :
    Complete value (rounds value n text) <-> ChainsWithin value n text := by
  induction n generalizing text with
  | zero => exact chainsWithin_zero_iff.symm
  | succ n ih => rw [rounds, ih (h.fill hvalues), h.chainsWithin_fill_iff hvalues]

theorem Tidy.expand (h : Tidy text) (hvalues : TidyValues value) :
    Tidy (expand value n text) := by
  induction n generalizing text with
  | zero => exact h
  | succ n ih =>
    apply h.fill
    intro name val hvalue
    rcases Option.map_eq_some_iff.mp hvalue with ⟨inner, hinner, rfl⟩
    exact ih (hvalues name inner hinner)

theorem Tidy.complete_expand (h : Tidy text) (hvalues : TidyValues value)
    (hchains : ChainsWithin value n text) : Complete value (Placeholders.expand value n text) := by
  induction n generalizing text with
  | zero => exact chainsWithin_zero_iff.mp hchains
  | succ n ih =>
    intro name val hvalue hinside
    have hexpanded : TidyValues (fun name => (value name).map (Placeholders.expand value n)) := by
      intro other out hother
      rcases Option.map_eq_some_iff.mp hother with ⟨inner, hinner, rfl⟩
      exact (hvalues other inner hinner).expand hvalues
    rcases h.infix_fill hexpanded hinside with ⟨hnone, _⟩ | ⟨other, out, hother, hin, hout⟩
    · rw [hvalue] at hnone
      cases hnone
    · rcases Option.map_eq_some_iff.mp hother with ⟨inner, hinner, rfl⟩
      have hcomplete := ih (hvalues other inner hinner) (hchains.of_value hin hinner)
      exact hcomplete name val hvalue hout

end Tidiness

end Placeholders
end Foundation
end JavaVsixLite
