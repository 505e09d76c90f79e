import Mathlib.Data.List.TakeWhile
import JavaVsixLite.Foundation.Placeholders

/-!
# Rounds of substitution

A round fills in every placeholder of a text at once.  Filling in some of them first, in
whatever order, gets at least as far as the round does, so where so many rounds leave no
placeholder, so many passes over the names end in the same text.
-/

namespace JavaVsixLite
namespace Foundation
namespace Placeholders

def mark (c : Char) : Bool :=
  c == '$' || c == '{' || c == '}'

theorem plain_iff {name : Text} : Plain name <-> forall c, c ∈ name -> mark c = false := by
  unfold Plain mark
  constructor
  · intro h c hc
    have hdollar : c ≠ '$' := fun heq => h.1 (heq ▸ hc)
    have hopen : c ≠ '{' := fun heq => h.2.1 (heq ▸ hc)
    have hclose : c ≠ '}' := fun heq => h.2.2 (heq ▸ hc)
    simp [hdollar, hopen, hclose]
  · intro h
    refine ⟨?_, ?_, ?_⟩
    · intro hmem
      exact absurd (h _ hmem) (by decide)
    · intro hmem
      exact absurd (h _ hmem) (by decide)
    · intro hmem
      exact absurd (h _ hmem) (by decide)

theorem plain_takeWhile (text : Text) : Plain (text.takeWhile (fun c => !mark c)) := by
  rw [plain_iff]
  intro c hc
  simpa using List.mem_takeWhile_imp hc

def nameAt : Text -> Option Name
  | '$' :: '{' :: rest =>
    if (rest.dropWhile (fun c => !mark c)).head? = some '}' then
      some ⟨rest.takeWhile (fun c => !mark c), plain_takeWhile rest⟩
    else none
  | _ => none

theorem takeWhile_append_of_plain {name after : Text} (h : Plain name) :
    (name ++ '}' :: after).takeWhile (fun c => !mark c) = name ∧
      (name ++ '}' :: after).dropWhile (fun c => !mark c) = '}' :: after := by
  have hname : forall c, c ∈ name -> (!mark c) = true := by
    intro c hc
    rw [plain_iff.mp h c hc]
    rfl
  constructor
  · rw [List.takeWhile_append_of_pos hname, List.takeWhile_cons_of_neg (by decide),
      List.append_nil]
  · rw [List.dropWhile_append_of_pos hname, List.dropWhile_cons_of_neg (by decide)]

theorem nameAt_eq_some_iff {text : Text} {name : Name} :
    nameAt text = some name <-> placeholder name.val <+: text := by
  constructor
  · intro h
    unfold nameAt at h
    split at h
    · rename_i rest
      split at h
      · rename_i hclose
        injection h with h
        subst h
        rcases List.head?_eq_some_iff.mp hclose with ⟨after, hafter⟩
        refine ⟨after, ?_⟩
        have hwhole := List.takeWhile_append_dropWhile (p := fun c => !mark c) (l := rest)
        rw [hafter] at hwhole
        simp only [placeholder, List.cons_append, List.append_assoc, List.nil_append]
        rw [hwhole]
      · cases h
    · cases h
  · intro h
    rcases h with ⟨after, rfl⟩
    have hread := @takeWhile_append_of_plain name.val after name.property
    simp only [placeholder, List.cons_append, List.append_assoc, List.nil_append,
      nameAt]
    simp only [hread.1, hread.2, List.head?_cons, if_true]

/-- The placeholders of a text, filled in at once; `skip` characters are still of the last. -/
def fillFrom (value : Name -> Option Text) : Nat -> Text -> Text
  | _, [] => []
  | skip + 1, _ :: rest => fillFrom value skip rest
  | 0, c :: rest =>
    match (nameAt (c :: rest)).bind (fun name => (value name).map (fun val => (name, val))) with
    | some (name, val) => val ++ fillFrom value ((placeholder name.val).length - 1) rest
    | none => c :: fillFrom value 0 rest

def fill (value : Name -> Option Text) (text : Text) : Text :=
  fillFrom value 0 text

example : fill (fun name => some name.val) "x${a}-$${b}{c}".toList = "xa-$b{c}".toList := by
  decide

section Scan

variable {value value' : Name -> Option Text}

theorem fillFrom_eq_drop (skip : Nat) (text : Text) :
    fillFrom value skip text = fill value (text.drop skip) := by
  induction skip generalizing text with
  | zero => rw [List.drop_zero, fill]
  | succ skip ih =>
    cases text with
    | nil => rfl
    | cons c rest => exact ih rest

def Unstarted (value : Name -> Option Text) (text : Text) : Prop :=
  forall name val, value name = some val -> ¬ placeholder name.val <+: text

theorem fill_char {c : Char} {rest : Text} (h : Unstarted value (c :: rest)) :
    fill value (c :: rest) = c :: fill value rest := by
  unfold fill
  rw [fillFrom]
  have hnone : (nameAt (c :: rest)).bind
      (fun name => (value name).map (fun val => (name, val))) = none := by
    rw [Option.bind_eq_none_iff]
    intro name hname
    rw [Option.map_eq_none_iff]
    cases hvalue : value name with
    | none => rfl
    | some val => exact absurd (nameAt_eq_some_iff.mp hname) (h name val hvalue)
  rw [hnone]

theorem fill_placeholder {name : Name} {val : Text} (h : value name = some val) (after : Text) :
    fill value (placeholder name.val ++ after) = val ++ fill value after := by
  have hstart : nameAt (placeholder name.val ++ after) = some name :=
    nameAt_eq_some_iff.mpr (List.prefix_append _ _)
  have hlen : (placeholder name.val).length - 1 = ('{' :: (name.val ++ ['}'])).length := rfl
  show fillFrom value 0 ('$' :: ('{' :: (name.val ++ ['}']) ++ after)) = _
  rw [fillFrom]
  have hfound : (nameAt ('$' :: ('{' :: (name.val ++ ['}']) ++ after))).bind
      (fun name => (value name).map (fun val => (name, val))) = some (name, val) := by
    show (nameAt (placeholder name.val ++ after)).bind _ = _
    rw [hstart, Option.bind_some, h]
    rfl
  rw [hfound]
  show val ++ fillFrom value _ _ = _
  rw [fillFrom_eq_drop, hlen, List.drop_left]

theorem scan {motive : Text -> Prop} (value : Name -> Option Text) (nil : motive [])
    (char : forall c rest, Unstarted value (c :: rest) -> motive rest -> motive (c :: rest))
    (ref : forall name val after, value name = some val -> motive after ->
      motive (placeholder name.val ++ after)) (text : Text) : motive text := by
  induction hlen : text.length using Nat.strongRecOn generalizing text with
  | ind n ih =>
    cases text with
    | nil => exact nil
    | cons c rest =>
      by_cases hstart : Unstarted value (c :: rest)
      · apply char c rest hstart
        apply ih rest.length _ rest rfl
        rw [← hlen, List.length_cons]
        exact Nat.lt_succ_self _
      · unfold Unstarted at hstart
        push Not at hstart
        rcases hstart with ⟨name, val, hvalue, after, hafter⟩
        rw [← hafter]
        apply ref name val after hvalue
        apply ih after.length _ after rfl
        rw [← hlen, ← hafter, List.length_append]
        simp [placeholder]

theorem fill_tail {tail : Text} (h : '$' ∉ tail) (after : Text) :
    fill value (tail ++ after) = tail ++ fill value after := by
  induction tail with
  | nil => rfl
  | cons c rest ih =>
    rw [List.cons_append, fill_char, ih (fun hc => h (List.mem_cons_of_mem c hc))]
    · rfl
    · intro name val _ hprefix
      have hc : '$' = c := (List.cons_prefix_cons.mp hprefix).1
      exact h (hc ▸ List.mem_cons_self)

theorem fill_other {name : Name} (h : value name = none) (after : Text) :
    fill value (placeholder name.val ++ after) = placeholder name.val ++ fill value after := by
  have htail := not_mem_tail_placeholder name.property
  have hwhole : placeholder name.val = '$' :: (placeholder name.val).tail := rfl
  rw [hwhole, List.cons_append, fill_char, fill_tail htail]
  · rfl
  · intro other val hother hprefix
    rw [← List.cons_append, ← hwhole] at hprefix
    rcases hprefix with ⟨rest, hrest⟩
    rw [(placeholder_append_inj hrest).1, h] at hother
    cases hother

theorem fill_congr {text : Text}
    (h : forall name, placeholder name.val <:+: text -> value name = value' name) :
    fill value text = fill value' text := by
  induction text using scan value with
  | nil => rfl
  | char c rest hstart ih =>
    have hstart' : Unstarted value' (c :: rest) := by
      intro name val hvalue hprefix
      rw [← h name hprefix.isInfix] at hvalue
      exact hstart name val hvalue hprefix
    rw [fill_char hstart, fill_char hstart',
      ih (fun name hname => h name (List.infix_cons hname))]
  | ref name val after hvalue ih =>
    have hsame := h name (List.prefix_append _ _).isInfix
    rw [fill_placeholder hvalue, fill_placeholder (hsame.symm.trans hvalue),
      ih (fun other hother => h other (hother.trans (List.suffix_append _ _).isInfix))]

end Scan

/-!
# Some placeholders at once
-/

/-- Some placeholders of a text are filled in with what their values are related to. -/
inductive FillsBy (value : Name -> Option Text) (related : Text -> Text -> Prop) :
    Text -> Text -> Prop where
  | nil : FillsBy value related [] []
  | char (c : Char) {text next : Text} (h : FillsBy value related text next) :
      FillsBy value related (c :: text) (c :: next)
  | ref {name : Name} {val out text next : Text} (hvalue : value name = some val)
      (hout : related val out) (h : FillsBy value related text next) :
      FillsBy value related (placeholder name.val ++ text) (out ++ next)

/-- Some placeholders of a text are filled in, none of those that come with the values. -/
abbrev Fills (value : Name -> Option Text) : Text -> Text -> Prop :=
  FillsBy value Eq

namespace FillsBy

variable {value : Name -> Option Text} {related : Text -> Text -> Prop} {text next : Text}

theorem refl (value : Name -> Option Text) (related : Text -> Text -> Prop) (text : Text) :
    FillsBy value related text text := by
  induction text with
  | nil => exact .nil
  | cons c rest ih => exact .char c ih

theorem append {before out : Text} (hbefore : FillsBy value related before out)
    (h : FillsBy value related text next) :
    FillsBy value related (before ++ text) (out ++ next) := by
  induction hbefore with
  | nil => exact h
  | char c _ ih => exact .char c ih
  | ref hvalue hout _ ih =>
    rw [List.append_assoc, List.append_assoc]
    exact .ref hvalue hout ih

theorem append_left (before : Text) (h : FillsBy value related text next) :
    FillsBy value related (before ++ text) (before ++ next) :=
  (refl value related before).append h

theorem of_tail {tail : Text} (htail : '$' ∉ tail) (h : FillsBy value related (tail ++ text) next) :
    exists rest, next = tail ++ rest ∧ FillsBy value related text rest := by
  induction tail generalizing next with
  | nil => exact ⟨next, rfl, h⟩
  | cons c tail ih =>
    generalize hwhole : c :: tail ++ text = whole at h
    cases h with
    | nil => cases hwhole
    | char d hrest =>
      rcases List.cons.inj hwhole with ⟨rfl, rfl⟩
      rcases ih (fun hc => htail (List.mem_cons_of_mem c hc)) hrest with
        ⟨more, rfl, hmore⟩
      exact ⟨more, rfl, hmore⟩
    | ref hvalue hout hrest =>
      have hc : c = '$' := (List.cons.inj hwhole).1
      exact absurd (hc ▸ List.mem_cons_self) htail

theorem of_placeholder {name : Name}
    (h : FillsBy value related (placeholder name.val ++ text) next) :
    exists rest, FillsBy value related text rest ∧
      (next = placeholder name.val ++ rest ∨
        exists val out, value name = some val ∧ related val out ∧ next = out ++ rest) := by
  generalize hwhole : placeholder name.val ++ text = whole at h
  cases h with
  | nil => cases hwhole
  | char c hrest =>
    rcases List.cons.inj hwhole with ⟨rfl, hafter⟩
    rw [← hafter] at hrest
    have htail := not_mem_tail_placeholder name.property
    have hkept : exists more, _ = (placeholder name.val).tail ++ more ∧
        FillsBy value related text more := of_tail htail hrest
    rcases hkept with ⟨more, rfl, hmore⟩
    exact ⟨more, hmore, .inl rfl⟩
  | @ref other val out _ rest hvalue hout hrest =>
    rcases placeholder_append_inj hwhole with ⟨rfl, rfl⟩
    exact ⟨rest, hrest, .inr ⟨val, out, hvalue, hout, rfl⟩⟩

theorem of_char {c : Char} (hstart : Unstarted value (c :: text))
    (h : FillsBy value related (c :: text) next) :
    exists rest, next = c :: rest ∧ FillsBy value related text rest := by
  generalize hwhole : c :: text = whole at h
  cases h with
  | nil => cases hwhole
  | char d hrest =>
    rcases List.cons.inj hwhole with ⟨rfl, rfl⟩
    exact ⟨_, rfl, hrest⟩
  | @ref name val _ after _ hvalue _ hrest =>
    exact absurd ⟨after, hwhole.symm⟩ (hstart name val hvalue)

end FillsBy

namespace Fills

variable {value value' : Name -> Option Text} {text next : Text}

theorem expands (h : Fills value text next) : Expands value text next := by
  induction h with
  | nil => exact .refl
  | char c _ ih => exact ih.append_left [c]
  | @ref name val out text next hvalue hout _ ih =>
    have hstep : Step value (placeholder name.val ++ text) (val ++ text) :=
      Step.fill [] text hvalue
    rw [← hout]
    exact .head hstep (ih.append_left val)

theorem of_step (h : Step value text next) : Fills value text next := by
  cases h with
  | fill before after hvalue =>
    exact (FillsBy.ref hvalue rfl (FillsBy.refl value Eq after)).append_left before

theorem of_le (hle : forall name val, value name = some val -> value' name = some val)
    (h : Fills value text next) : Fills value' text next := by
  induction h with
  | nil => exact .nil
  | char c _ ih => exact .char c ih
  | ref hvalue hout _ ih => exact .ref (hle _ _ hvalue) hout ih

theorem triangle (h : Fills value text next) : Fills value next (fill value text) := by
  induction text using scan value generalizing next with
  | nil =>
    cases h
    exact .nil
  | char c rest hstart ih =>
    rw [fill_char hstart]
    rcases FillsBy.of_char hstart h with ⟨more, rfl, hmore⟩
    exact .char c (ih hmore)
  | ref name val after hvalue ih =>
    rw [fill_placeholder hvalue]
    rcases FillsBy.of_placeholder h with
      ⟨rest, hrest, hleft | ⟨val', out, hvalue', rfl, hfilled⟩⟩
    · rw [hleft]
      exact .ref hvalue rfl (ih hrest)
    · rw [hfilled, Option.some.inj (hvalue.symm.trans hvalue')]
      exact (ih hrest).append_left val'

theorem fill_self (value : Name -> Option Text) (text : Text) :
    Fills value text (fill value text) :=
  triangle (FillsBy.refl value Eq text)

theorem fill_mono (h : Fills value text next) : Fills value (fill value text) (fill value next) :=
  triangle (triangle h)

end Fills

section Rounds

variable {value value' : Name -> Option Text} {text next : Text}

theorem expands_fill_mono (h : Expands value text next) :
    Expands value (fill value text) (fill value next) := by
  induction h with
  | refl => exact .refl
  | tail _ hstep ih => exact ih.trans (Fills.expands (Fills.fill_mono (Fills.of_step hstep)))

def rounds (value : Name -> Option Text) : Nat -> Text -> Text
  | 0, text => text
  | n + 1, text => rounds value n (fill value text)

theorem rounds_mono (n : Nat) (h : Expands value text next) :
    Expands value (rounds value n text) (rounds value n next) := by
  induction n generalizing text next with
  | zero => exact h
  | succ n ih => exact ih (expands_fill_mono h)

/-- No placeholder with a value is left. -/
def Complete (value : Name -> Option Text) (text : Text) : Prop :=
  forall name val, value name = some val -> ¬ placeholder name.val <:+: text

theorem Complete.of_infix (h : Complete value text) (hinside : next <:+: text) :
    Complete value next :=
  fun name val hvalue hname => h name val hvalue (hname.trans hinside)

theorem Complete.no_step (h : Complete value text) : ¬ Step value text next := by
  intro hstep
  cases hstep with
  | fill before after hvalue =>
    exact h _ _ hvalue ⟨before, after, by rw [List.append_assoc]⟩

theorem Complete.expands_eq (h : Complete value text) (hexpands : Expands value text next) :
    next = text := by
  rcases Relation.ReflTransGen.cases_head hexpands with heq | ⟨_, hstep, _⟩
  · exact heq.symm
  · exact absurd hstep h.no_step

theorem Complete.fill_eq (h : Complete value text) : fill value text = text :=
  h.expands_eq (Fills.expands (Fills.fill_self value text))

/-!
# Names one after the other
-/

def valuesOf (entries : List (Name × Text)) (name : Name) : Option Text :=
  (entries.find? (fun entry => entry.1 == name)).map Prod.snd

def only (entry : Name × Text) : Name -> Option Text :=
  valuesOf [entry]

theorem only_eq_some_iff {entry : Name × Text} {name : Name} {val : Text} :
    only entry name = some val <-> entry = (name, val) := by
  unfold only valuesOf
  rw [List.find?_singleton]
  cases entry with
  | mk found text =>
    simp only [beq_iff_eq, Prod.mk.injEq]
    split <;> simp_all

theorem valuesOf_cons (entry : Name × Text) (entries : List (Name × Text)) (name : Name) :
    valuesOf (entry :: entries) name = (only entry name).or (valuesOf entries name) := by
  unfold only valuesOf
  rw [List.find?_cons, List.find?_singleton]
  cases entry.1 == name <;> rfl

theorem replace_eq_fill (entry : Name × Text) (text : Text) :
    replace (placeholder entry.1.val) entry.2 text = fill (only entry) text := by
  have hself : only entry entry.1 = some entry.2 := only_eq_some_iff.mpr rfl
  induction text using scan (only entry) with
  | nil => rfl
  | char c rest hstart ih =>
    rw [fill_char hstart, ← ih]
    show replaceFrom _ _ 0 (c :: rest) = _
    rw [replaceFrom, if_neg (hstart _ _ hself)]
    rfl
  | ref name val after hvalue ih =>
    rw [fill_placeholder hvalue, ← ih]
    cases only_eq_some_iff.mp hvalue
    exact replace_placeholder_append name.val val after

theorem fills_or (first second : Name -> Option Text) (text : Text) :
    Fills second (fill first text) (fill (fun name => (first name).or (second name)) text) := by
  induction text using scan (fun name => (first name).or (second name)) with
  | nil => exact .nil
  | char c rest hstart ih =>
    have hfirst : Unstarted first (c :: rest) := by
      intro name val hvalue
      exact hstart name val (by simp [hvalue])
    rw [fill_char hstart, fill_char hfirst]
    exact .char c ih
  | ref name val after hvalue ih =>
    have hboth : fill (fun name => (first name).or (second name))
        (placeholder name.val ++ after) = val ++ _ := fill_placeholder hvalue after
    rw [hboth]
    cases hfirst : first name with
    | some val' =>
      rw [hfirst] at hvalue
      rw [fill_placeholder hfirst, Option.some.inj hvalue]
      exact ih.append_left val
    | none =>
      rw [hfirst] at hvalue
      rw [fill_other hfirst]
      exact .ref hvalue rfl ih

theorem fill_or_fills (first second : Name -> Option Text) (text : Text) :
    Fills second (fill (fun name => (first name).or (second name)) text)
      (fill second (fill first text)) :=
  Fills.triangle (fills_or first second text)

def fillAll (entries : List (Name × Text)) (text : Text) : Text :=
  entries.foldl (fun text entry => fill (only entry) text) text

theorem fill_expands_fillAll {entries : List (Name × Text)}
    (h : forall entry, entry ∈ entries -> value entry.1 = some entry.2) (text : Text) :
    Expands value (fill (valuesOf entries) text) (fillAll entries text) := by
  induction entries generalizing text with
  | nil =>
    have hnone : Complete (valuesOf []) text := fun _ _ hvalue => absurd hvalue (by simp [valuesOf])
    rw [hnone.fill_eq]
    exact .refl
  | cons entry entries ih =>
    have hrest : forall e, e ∈ entries -> value e.1 = some e.2 :=
      fun e he => h e (List.mem_cons_of_mem _ he)
    have hle : forall name val, valuesOf entries name = some val -> value name = some val := by
      intro name val hvalue
      rcases Option.map_eq_some_iff.mp hvalue with ⟨found, hfound, rfl⟩
      have hsame := List.find?_some hfound
      have hname : found.1 = name := eq_of_beq hsame
      rw [← hname]
      exact hrest found (List.mem_of_find?_eq_some hfound)
    have hfirst : Fills value (fill (valuesOf (entry :: entries)) text)
        (fill (valuesOf entries) (fill (only entry) text)) := by
      rw [funext (valuesOf_cons entry entries)]
      exact Fills.of_le hle (fill_or_fills (only entry) (valuesOf entries) text)
    exact (Fills.expands hfirst).trans (ih hrest (fill (only entry) text))

end Rounds

end Placeholders
end Foundation
end JavaVsixLite
