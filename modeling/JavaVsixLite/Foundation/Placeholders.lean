import Mathlib.Logic.Relation
import JavaVsixLite.Foundation.ByteText

/-!
# Placeholders

A text may hold placeholders `${name}`.  A name has none of the three marks in it, so two
placeholders of a text are the same or lie apart, and the order in which they are filled in
does not matter: expansion is confluent, and a text that is filled in completely has one
expansion.
-/

namespace JavaVsixLite
namespace Foundation
namespace Placeholders

def Plain (name : Text) : Prop :=
  '$' ∉ name ∧ '{' ∉ name ∧ '}' ∉ name

instance (name : Text) : Decidable (Plain name) :=
  inferInstanceAs (Decidable (_ ∧ _ ∧ _))

abbrev Name := { name : Text // Plain name }

def opening : Text := ['$', '{']

def placeholder (name : Text) : Text :=
  '$' :: '{' :: (name ++ ['}'])

/-- One placeholder is filled in. -/
inductive Step (value : Name -> Option Text) : Text -> Text -> Prop where
  | fill (before after : Text) {name : Name} {text : Text} (h : value name = some text) :
      Step value (before ++ (placeholder name.val ++ after)) (before ++ (text ++ after))

abbrev Expands (value : Name -> Option Text) : Text -> Text -> Prop :=
  Relation.ReflTransGen (Step value)

def Settled (text : Text) : Prop :=
  ¬ opening <:+: text

instance (text : Text) : Decidable (Settled text) :=
  inferInstanceAs (Decidable (¬ _))

/-- The names whose placeholders come up when a text is expanded. -/
def Reaches (value : Name -> Option Text) (text : Text) (name : Name) : Prop :=
  exists stage, Expands value text stage ∧ placeholder name.val <:+: stage

/-!
# Placeholders lie apart
-/

theorem not_mem_tail_placeholder {name : Text} (h : Plain name) :
    '$' ∉ (placeholder name).tail := by
  unfold placeholder
  rw [List.tail_cons, List.mem_cons, List.mem_append, List.mem_singleton]
  rintro (hbrace | hname | hbrace)
  · cases hbrace
  · exact h.1 hname
  · cases hbrace

theorem append_close_inj {name name' after after' : Text} (h : '}' ∉ name) (h' : '}' ∉ name')
    (heq : name ++ '}' :: after = name' ++ '}' :: after') : name = name' ∧ after = after' := by
  induction name generalizing name' with
  | nil =>
    cases name' with
    | nil => exact ⟨rfl, (List.cons.inj heq).2⟩
    | cons c rest =>
      have hc := (List.cons.inj heq).1
      rw [← hc] at h'
      exact absurd List.mem_cons_self h'
  | cons c rest ih =>
    cases name' with
    | nil =>
      have hc := (List.cons.inj heq).1
      rw [hc] at h
      exact absurd List.mem_cons_self h
    | cons c' rest' =>
      rcases List.cons.inj heq with ⟨rfl, hrest⟩
      have hname := ih (fun hc => h (List.mem_cons_of_mem _ hc))
        (fun hc => h' (List.mem_cons_of_mem _ hc)) hrest
      exact ⟨by rw [hname.1], hname.2⟩

variable {name name' : Name} {after after' : Text}

theorem placeholder_append_inj
    (heq : placeholder name.val ++ after = placeholder name'.val ++ after') :
    name = name' ∧ after = after' := by
  unfold placeholder at heq
  simp only [List.cons_append, List.append_assoc, List.nil_append, List.cons.injEq,
    true_and] at heq
  rcases append_close_inj name.property.2.2 name'.property.2.2 heq with ⟨hname, hafter⟩
  exact ⟨Subtype.ext hname, hafter⟩

/-- A second placeholder that does not start before the first one is the same or comes
after it. -/
theorem same_or_after {gap : Text}
    (heq : placeholder name.val ++ after = gap ++ (placeholder name'.val ++ after')) :
    (gap = [] ∧ name = name' ∧ after = after') ∨
      exists mid, gap = placeholder name.val ++ mid ∧
        after = mid ++ (placeholder name'.val ++ after') := by
  rcases List.append_eq_append_iff.mp heq with ⟨mid, hgap, hafter⟩ | ⟨mid, hname, hrest⟩
  · exact .inr ⟨mid, hgap, hafter⟩
  · cases gap with
    | nil =>
      rw [List.nil_append] at heq
      exact .inl ⟨rfl, placeholder_append_inj heq⟩
    | cons c gap =>
      cases mid with
      | nil =>
        rw [List.append_nil] at hname
        rw [List.nil_append] at hrest
        exact .inr ⟨[], by rw [List.append_nil, hname], hrest.symm⟩
      | cons m mid =>
        have hm : m = '$' := (List.cons.inj hrest).1.symm
        have hmem : '$' ∈ (placeholder name.val).tail := by
          rw [hname, List.cons_append, List.tail_cons, hm]
          exact List.mem_append_right _ List.mem_cons_self
        exact absurd hmem (not_mem_tail_placeholder name.property)

theorem apart {before before' : Text}
    (heq : before ++ (placeholder name.val ++ after) = before' ++
      (placeholder name'.val ++ after')) :
    (before = before' ∧ name = name' ∧ after = after') ∨
      (exists mid, before' = before ++ (placeholder name.val ++ mid) ∧
        after = mid ++ (placeholder name'.val ++ after')) ∨
      (exists mid, before = before' ++ (placeholder name'.val ++ mid) ∧
        after' = mid ++ (placeholder name.val ++ after)) := by
  rcases List.append_eq_append_iff.mp heq with ⟨gap, hbefore, hrest⟩ | ⟨gap, hbefore, hrest⟩
  · rcases same_or_after hrest with ⟨hgap, hname, hafter⟩ | ⟨mid, hgap, hafter⟩
    · rw [hgap, List.append_nil] at hbefore
      exact .inl ⟨hbefore.symm, hname, hafter⟩
    · exact .inr (.inl ⟨mid, by rw [hbefore, hgap], hafter⟩)
  · rcases same_or_after hrest with ⟨hgap, hname, hafter⟩ | ⟨mid, hgap, hafter⟩
    · rw [hgap, List.append_nil] at hbefore
      exact .inl ⟨hbefore, hname.symm, hafter.symm⟩
    · exact .inr (.inr ⟨mid, by rw [hbefore, hgap], hafter⟩)

/-!
# Confluence
-/

section Expansion

variable {value : Name -> Option Text} {text left right : Text}

theorem Step.diamond (hleft : Step value text left) (hright : Step value text right) :
    left = right ∨ exists both, Step value left both ∧ Step value right both := by
  cases hleft with
  | @fill before after name filling hvalue =>
    generalize htext : before ++ (placeholder name.val ++ after) = text at hright
    cases hright with
    | @fill before' after' name' filling' hvalue' =>
      rcases apart htext with ⟨hbefore, hname, hafter⟩ | ⟨mid, hbefore, hafter⟩ |
        ⟨mid, hbefore, hafter⟩
      · rw [hname, hvalue'] at hvalue
        rw [hbefore, hafter, Option.some.inj hvalue]
        exact .inl rfl
      · refine .inr ⟨before ++ (filling ++ (mid ++ (filling' ++ after'))), ?_, ?_⟩
        · have hstep := Step.fill (before ++ (filling ++ mid)) after' hvalue'
          rw [hafter]
          simpa only [List.append_assoc] using hstep
        · have hstep := Step.fill before (mid ++ (filling' ++ after')) hvalue
          rw [hbefore]
          simpa only [List.append_assoc] using hstep
      · refine .inr ⟨before' ++ (filling' ++ (mid ++ (filling ++ after))), ?_, ?_⟩
        · have hstep := Step.fill before' (mid ++ (filling ++ after)) hvalue'
          rw [hbefore]
          simpa only [List.append_assoc] using hstep
        · have hstep := Step.fill (before' ++ (filling' ++ mid)) after hvalue
          rw [hafter]
          simpa only [List.append_assoc] using hstep

theorem Expands.join (hleft : Expands value text left) (hright : Expands value text right) :
    Relation.Join (Expands value) left right := by
  refine Relation.church_rosser ?_ hleft hright
  intro a b c hb hc
  rcases hb.diamond hc with rfl | ⟨d, hbd, hcd⟩
  · exact ⟨b, .refl, .refl⟩
  · exact ⟨d, .single hbd, .single hcd⟩

theorem Settled.no_step (h : Settled text) : ¬ Step value text right := by
  intro hstep
  cases hstep with
  | @fill before after name filling hvalue =>
    exact h ⟨before, name.val ++ '}' :: after, by simp [opening, placeholder]⟩

theorem Settled.expands_eq (h : Settled text) (hexpands : Expands value text right) :
    right = text := by
  rcases Relation.ReflTransGen.cases_head hexpands with heq | ⟨next, hstep, _⟩
  · exact heq.symm
  · exact absurd hstep h.no_step

theorem Expands.settled_unique (hleft : Expands value text left)
    (hright : Expands value text right) (hl : Settled left) (hr : Settled right) :
    left = right := by
  rcases hleft.join hright with ⟨both, hlb, hrb⟩
  rw [← hl.expands_eq hlb, hr.expands_eq hrb]

theorem Expands.congr {value' : Name -> Option Text} (h : Expands value text right)
    (hsame : forall name, Reaches value text name -> value' name = value name) :
    Expands value' text right := by
  induction h with
  | refl => exact .refl
  | tail hprev hstep ih =>
    cases hstep with
    | @fill before after name filling hvalue =>
      have hreach : Reaches value text name :=
        ⟨_, hprev, ⟨before, after, by rw [List.append_assoc]⟩⟩
      refine ih.tail (.fill before after ?_)
      rw [hsame name hreach]
      exact hvalue

theorem Expands.append_left (h : Expands value left right) (before : Text) :
    Expands value (before ++ left) (before ++ right) := by
  induction h with
  | refl => exact .refl
  | tail _ hstep ih =>
    refine ih.tail ?_
    cases hstep with
    | @fill before' after name filling hvalue =>
      have hstep := Step.fill (before ++ before') after hvalue
      simpa only [List.append_assoc] using hstep

end Expansion

/-!
# Replacing every occurrence
-/

/-- Occurrences are replaced from left to right; `skip` characters are still of the last one. -/
def replaceFrom (needle val : Text) : Nat -> Text -> Text
  | _, [] => []
  | skip + 1, _ :: rest => replaceFrom needle val skip rest
  | 0, c :: rest =>
    if needle <+: c :: rest then val ++ replaceFrom needle val (needle.length - 1) rest
    else c :: replaceFrom needle val 0 rest

def replace (needle val text : Text) : Text :=
  replaceFrom needle val 0 text

example : replace "${a}".toList "1".toList "x${a}-${a}".toList = "x1-1".toList := by
  decide

theorem replaceFrom_eq_drop (needle val : Text) (skip : Nat) (text : Text) :
    replaceFrom needle val skip text = replaceFrom needle val 0 (text.drop skip) := by
  induction skip generalizing text with
  | zero => rw [List.drop_zero]
  | succ skip ih =>
    cases text with
    | nil => rfl
    | cons c rest => exact ih rest

theorem replace_needle_append {needle : Text} (h : needle ≠ []) (val after : Text) :
    replace needle val (needle ++ after) = val ++ replace needle val after := by
  cases needle with
  | nil => exact absurd rfl h
  | cons c tail =>
    have hstart : c :: tail <+: c :: (tail ++ after) := List.prefix_append (c :: tail) after
    have hlen : (c :: tail).length - 1 = tail.length := rfl
    show replaceFrom _ _ 0 (c :: (tail ++ after)) = _
    unfold replaceFrom
    rw [if_pos hstart, replaceFrom_eq_drop, hlen, List.drop_left]
    rfl

theorem replace_cons_of_not_start {needle : Text} (val : Text) {c : Char} {rest : Text}
    (h : ¬ needle <+: c :: rest) : replace needle val (c :: rest) =
    c :: replace needle val rest := by
  show replaceFrom _ _ 0 (c :: rest) = _
  unfold replaceFrom
  rw [if_neg h]
  rfl

theorem replace_placeholder_append (name val after : Text) :
    replace (placeholder name) val (placeholder name ++ after) =
      val ++ replace (placeholder name) val after :=
  replace_needle_append (List.cons_ne_nil _ _) val after

theorem expands_replace {value : Name -> Option Text} {name : Name} {val : Text}
    (h : value name = some val) (text : Text) :
    Expands value text (replace (placeholder name.val) val text) := by
  induction hlen : text.length using Nat.strongRecOn generalizing text with
  | ind n ih =>
    cases text with
    | nil => exact .refl
    | cons c rest =>
      by_cases hstart : placeholder name.val <+: c :: rest
      · rcases hstart with ⟨after, hafter⟩
        have hshorter : after.length < n := by
          rw [← hlen, ← hafter, List.length_append]
          simp [placeholder]
        rw [← hafter, replace_placeholder_append]
        refine .head (Step.fill [] after h) ?_
        exact (ih after.length hshorter after rfl).append_left val
      · rw [replace_cons_of_not_start val hstart]
        have hshorter : rest.length < n := by
          rw [← hlen, List.length_cons]
          omega
        exact (ih rest.length hshorter rest rfl).append_left [c]

/-!
# Replacing part by part
-/

section Parts

variable {needle : Text}

theorem replace_induction (h : needle ≠ []) {motive : Text -> Prop} (nil : motive [])
    (found : forall after, motive after -> motive (needle ++ after))
    (other : forall c rest, ¬ needle <+: c :: rest -> motive rest -> motive (c :: rest))
    (text : Text) : motive text := by
  induction hlen : text.length using Nat.strongRecOn generalizing text with
  | ind n ih =>
    cases text with
    | nil => exact nil
    | cons c rest =>
      by_cases hstart : needle <+: c :: rest
      · rcases hstart with ⟨after, hafter⟩
        have hpos := List.length_pos_iff.mpr h
        have hshorter : after.length < n := by
          rw [← hlen, ← hafter, List.length_append]
          omega
        rw [← hafter]
        exact found after (ih after.length hshorter after rfl)
      · have hshorter : rest.length < n := by
          rw [← hlen, List.length_cons]
          omega
        exact other c rest hstart (ih rest.length hshorter rest rfl)

theorem replace_nil (needle val : Text) : replace needle val [] = [] := rfl

theorem replace_of_not_infix {val text : Text} (h : ¬ needle <:+: text) :
    replace needle val text = text := by
  induction text with
  | nil => rfl
  | cons c rest ih =>
    have hhead : ¬ needle <+: c :: rest := fun hstart => h hstart.isInfix
    have htail : ¬ needle <:+: rest :=
      fun hoccurs => h (hoccurs.trans (List.suffix_cons c rest).isInfix)
    rw [replace_cons_of_not_start val hhead, ih htail]

theorem prefix_of_prefix_append_cons {c : Char} (hc : c ∉ needle) {before after : Text}
    (h : needle <+: before ++ c :: after) : needle <+: before := by
  rcases List.prefix_or_prefix_of_prefix h (List.prefix_append before (c :: after)) with
    hshort | ⟨tail, rfl⟩
  · exact hshort
  · have htail : tail <+: c :: after := (List.prefix_append_right_inj before).mp h
    cases tail with
    | nil => simp
    | cons d rest =>
      have hd := (List.cons_prefix_cons.mp htail).left
      rw [hd] at hc
      exact absurd (List.mem_append_right _ List.mem_cons_self) hc

theorem replace_append_cons (h : needle ≠ []) (val : Text) {c : Char} (hc : c ∉ needle)
    (before after : Text) :
    replace needle val (before ++ c :: after) =
      replace needle val before ++ c :: replace needle val after := by
  induction before using replace_induction h with
  | nil =>
    have hhead : ¬ needle <+: c :: after := by
      intro hstart
      cases needle with
      | nil => exact h rfl
      | cons d tail =>
        rw [(List.cons_prefix_cons.mp hstart).left] at hc
        exact hc List.mem_cons_self
    exact replace_cons_of_not_start val hhead
  | found rest ih =>
    rw [List.append_assoc, replace_needle_append h, ih, replace_needle_append h,
      List.append_assoc]
  | other d rest hnot ih =>
    have hhead : ¬ needle <+: d :: (rest ++ c :: after) := by
      intro hstart
      apply hnot
      exact prefix_of_prefix_append_cons hc hstart
    rw [List.cons_append, replace_cons_of_not_start val hhead, ih,
      replace_cons_of_not_start val hnot]
    rfl

theorem replace_sep_append (h : needle ≠ []) (val : Text) {sep : Text}
    (hsep : forall c, c ∈ sep -> c ∉ needle) (after : Text) :
    replace needle val (sep ++ after) = sep ++ replace needle val after := by
  induction sep with
  | nil => rfl
  | cons c rest ih =>
    have hc := hsep c List.mem_cons_self
    have hrest := ih (fun d hd => hsep d (List.mem_cons_of_mem c hd))
    calc
      replace needle val ([] ++ c :: (rest ++ after))
          = [] ++ c :: replace needle val (rest ++ after) :=
            replace_append_cons h val hc [] (rest ++ after)
      _ = c :: rest ++ replace needle val after := by
            rw [hrest]
            rfl

theorem replace_append_sep_append (h : needle ≠ []) (val : Text) {sep : Text} (hne : sep ≠ [])
    (hsep : forall c, c ∈ sep -> c ∉ needle) (before after : Text) :
    replace needle val (before ++ (sep ++ after)) =
      replace needle val before ++ (sep ++ replace needle val after) := by
  cases sep with
  | nil => exact absurd rfl hne
  | cons c rest =>
    have hc := hsep c List.mem_cons_self
    have hrest := replace_sep_append h val (fun d hd => hsep d (List.mem_cons_of_mem c hd)) after
    rw [List.cons_append, replace_append_cons h val hc, hrest]
    rfl

theorem count_replace_le (h : needle ≠ []) {val : Text} {d : Char} (hval : d ∉ val)
    (text : Text) : (replace needle val text).count d ≤ text.count d := by
  induction text using replace_induction h with
  | nil => exact Nat.le_refl _
  | found after ih =>
    rw [replace_needle_append h, List.count_append, List.count_append,
      List.count_eq_zero_of_not_mem hval]
    omega
  | other c rest hnot ih =>
    rw [replace_cons_of_not_start val hnot, List.count_cons, List.count_cons]
    omega

theorem count_replace_lt (h : needle ≠ []) {val : Text} {d : Char} (hval : d ∉ val)
    (hneedle : d ∈ needle) {text : Text} (hoccurs : needle <:+: text) :
    (replace needle val text).count d < text.count d := by
  induction text using replace_induction h with
  | nil => exact absurd (List.infix_nil.mp hoccurs) h
  | found after ih =>
    have hpos := List.count_pos_iff.mpr hneedle
    have hle := count_replace_le h hval after
    rw [replace_needle_append h, List.count_append, List.count_append,
      List.count_eq_zero_of_not_mem hval]
    omega
  | other c rest hnot ih =>
    have hrest : needle <:+: rest := by
      rcases List.infix_cons_iff.mp hoccurs with hstart | hrest
      · exact absurd hstart hnot
      · exact hrest
    have hlt := ih hrest
    rw [replace_cons_of_not_start val hnot, List.count_cons, List.count_cons]
    omega

end Parts

end Placeholders
end Foundation
end JavaVsixLite
