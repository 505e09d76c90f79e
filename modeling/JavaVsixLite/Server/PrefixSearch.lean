import Mathlib.Data.Char
import Mathlib.Data.List.Lex
import JavaVsixLite.Foundation.ByteText
import JavaVsixLite.Server.WorkspaceIndex

/-!
# Types by the start of their name

Completion asks the workspace index for the types whose simple name starts with
what was typed, and filters the children of a package in the same way.  Both cut
the name at the number of bytes that were typed.  A cut inside a character panics,
here `none`.
-/

namespace JavaVsixLite
namespace Server

open Foundation

/-!
# Letter case
-/

def toAsciiLowercase (text : Text) : Text :=
  text.map Char.toLower

def eqIgnoreAsciiCase (a b : Text) : Bool :=
  toAsciiLowercase a == toAsciiLowercase b

/-!
# The search
-/

/-- `s[..needle.len()].eq_ignore_ascii_case(needle)`, when `s` is long enough. -/
def startsWithCi (s needle : Text) : Option Bool :=
  if s.byteLen ≥ needle.byteLen then
    (Text.takeBytes? needle.byteLen s).map (fun head => eqIgnoreAsciiCase head needle)
  else some false

/-- `filter` with a test that may panic. -/
def filterChecked {Entry : Type} (p : Entry -> Option Bool) : List Entry -> Option (List Entry)
  | [] => some []
  | e :: rest =>
    match p e with
    | none => none
    | some true => (filterChecked p rest).map (fun kept => e :: kept)
    | some false => filterChecked p rest

def shorterFirst (a b : Text) : Bool :=
  a.byteLen < b.byteLen || (a.byteLen == b.byteLen && decide (a ≤ b))

variable {Root Mtime Entry : Type} (simpleName : Entry -> Text)

namespace WorkspaceIndex

def typesWithPrefix (index : WorkspaceIndex Root Mtime Entry) (typed : Text) (limit : Nat) :
    Option (List Entry × Bool) :=
  if typed.isEmpty || limit == 0 then some ([], false)
  else
    let needle := toAsciiLowercase typed
    match filterChecked (fun e => startsWithCi (simpleName e) needle) index.inner.entries with
    | none => none
    | some found =>
      let hits := found.mergeSort (fun a b => shorterFirst (simpleName a) (simpleName b))
      let truncated := decide (hits.length > limit)
      some (hits.take limit, truncated)

end WorkspaceIndex

/-- The filter of import completion over the names of a package or a type. -/
def importMatches (names : List Text) (typed : Text) : Option (List Text) :=
  filterChecked (fun s => if typed.isEmpty then some true else startsWithCi s typed) names

/-!
# What the search is for
-/

/-- A start of the name reads like the typed text, up to the case of ASCII letters. -/
def StartsWith (name typed : Text) : Prop :=
  exists head, head <+: name ∧ toAsciiLowercase head = toAsciiLowercase typed

variable {name typed : Text}

theorem startsWith_iff :
    StartsWith name typed <-> toAsciiLowercase typed <+: toAsciiLowercase name := by
  constructor
  · rintro ⟨head, ⟨tail, rfl⟩, hhead⟩
    unfold toAsciiLowercase at hhead ⊢
    rw [← hhead, List.map_append]
    exact List.prefix_append _ _
  · intro h
    rcases List.prefix_map_iff.mp h with ⟨head, hprefix, hhead⟩
    exact ⟨head, hprefix, hhead.symm⟩

instance (name typed : Text) : Decidable (StartsWith name typed) :=
  decidable_of_iff _ startsWith_iff.symm

/-- The matching entries, by length and then by name, cut to the limit. -/
def Answers (entries : List Entry) (typed : Text) (limit : Nat) (answer : List Entry × Bool) :
    Prop :=
  exists hits : List Entry,
    hits.Perm (entries.filter (fun e => decide (StartsWith (simpleName e) typed))) ∧
      hits.Pairwise (fun a b =>
        (simpleName a).byteLen < (simpleName b).byteLen ∨
          (simpleName a).byteLen = (simpleName b).byteLen ∧ simpleName a ≤ simpleName b) ∧
      answer = (hits.take limit, decide (hits.length > limit))

/-- The name goes on past the typed bytes, and they end inside one of its characters. -/
def Splits (name typed : Text) : Prop :=
  typed.byteLen ≤ name.byteLen ∧
    forall head : Text, head <+: name -> head.byteLen ≠ typed.byteLen

/-!
# Letter case does not move the cut
-/

theorem toLower_eq_self {c : Char} (h : ¬ (c.val ≥ 'A'.val ∧ c.val ≤ 'Z'.val)) :
    c.toLower = c := by
  unfold Char.toLower
  rw [dif_neg h]

theorem toLower_cases (c : Char) :
    c.toLower = c ∨ c.val ≤ 127 ∧ c.toLower.val ≤ 127 ∧ c.toLower.toLower = c.toLower := by
  by_cases h : c.val ≥ 'A'.val ∧ c.val ≤ 'Z'.val
  · have hlow : 65 ≤ c.val.toNat := UInt32.le_iff_toNat_le.mp h.1
    have hhigh : c.val.toNat ≤ 90 := UInt32.le_iff_toNat_le.mp h.2
    have hval : c.toLower.val = c.val + ('a'.val - 'A'.val) := by
      unfold Char.toLower
      rw [dif_pos h]
    have hnat : c.toLower.val.toNat = c.val.toNat + 32 := by
      rw [hval, UInt32.toNat_add]
      show (c.val.toNat + 32) % 2 ^ 32 = c.val.toNat + 32
      omega
    have hnot : ¬ (c.toLower.val ≥ 'A'.val ∧ c.toLower.val ≤ 'Z'.val) := by
      rintro ⟨_, hle⟩
      have hle : c.toLower.val.toNat ≤ 90 := UInt32.le_iff_toNat_le.mp hle
      omega
    refine .inr ⟨UInt32.le_iff_toNat_le.mpr ?_, UInt32.le_iff_toNat_le.mpr ?_, ?_⟩
    · show c.val.toNat ≤ 127
      omega
    · show c.toLower.val.toNat ≤ 127
      omega
    · exact toLower_eq_self hnot
  · exact .inl (toLower_eq_self h)

theorem toAsciiLowercase_idem (text : Text) :
    toAsciiLowercase (toAsciiLowercase text) = toAsciiLowercase text := by
  unfold toAsciiLowercase
  rw [List.map_map]
  apply List.map_congr_left
  intro c _
  rcases toLower_cases c with hsame | ⟨_, _, hidem⟩
  · show c.toLower.toLower = c.toLower
    rw [hsame, hsame]
  · exact hidem

theorem byteLen_toAsciiLowercase (text : Text) :
    (toAsciiLowercase text).byteLen = text.byteLen := by
  induction text with
  | nil => rfl
  | cons c rest ih =>
    have hsize : c.toLower.utf8Size = c.utf8Size := by
      rcases toLower_cases c with hsame | ⟨hsmall, hlower, _⟩
      · rw [hsame]
      · rw [Char.utf8Size_eq_one_iff.mpr hsmall, Char.utf8Size_eq_one_iff.mpr hlower]
    show c.toLower.utf8Size + (toAsciiLowercase rest).byteLen =
      c.utf8Size + Text.byteLen rest
    rw [hsize, ih]

/-!
# One name
-/

theorem not_splits_nil (name : Text) : ¬ Splits name [] :=
  fun h => h.2 [] List.nil_prefix rfl

theorem startsWith_lowercase :
    StartsWith name (toAsciiLowercase typed) <-> StartsWith name typed := by
  unfold StartsWith
  rw [toAsciiLowercase_idem]

theorem splits_lowercase : Splits name (toAsciiLowercase typed) <-> Splits name typed := by
  unfold Splits
  rw [byteLen_toAsciiLowercase]

theorem byteLen_of_lowercase_eq {head : Text} (h : toAsciiLowercase head = toAsciiLowercase typed) :
    head.byteLen = typed.byteLen := by
  rw [← byteLen_toAsciiLowercase head, h, byteLen_toAsciiLowercase]

theorem startsWithCi_of_not_splits (h : ¬ Splits name typed) :
    startsWithCi name typed = some (decide (StartsWith name typed)) := by
  unfold startsWithCi
  by_cases hlong : name.byteLen ≥ typed.byteLen
  · rw [if_pos hlong]
    have hcut : exists head : Text, head <+: name ∧ head.byteLen = typed.byteLen := by
      by_contra hno
      exact h ⟨hlong, fun head hhead hlen => hno ⟨head, hhead, hlen⟩⟩
    rcases hcut with ⟨head, hhead, hlen⟩
    rw [Text.takeBytes?_eq_some_iff.mpr ⟨hlen, hhead⟩, Option.map_some, Option.some.injEq]
    unfold eqIgnoreAsciiCase
    rw [beq_eq_decide, decide_eq_decide]
    constructor
    · intro heq
      exact ⟨head, hhead, heq⟩
    · rintro ⟨other, hother, heq⟩
      have hsame : head = other := by
        apply Text.eq_of_prefix_of_byteLen hhead hother
        rw [hlen, byteLen_of_lowercase_eq heq]
      rw [hsame]
      exact heq
  · rw [if_neg hlong, Option.some.injEq, eq_comm, decide_eq_false_iff_not]
    rintro ⟨head, ⟨tail, rfl⟩, heq⟩
    have hlen := byteLen_of_lowercase_eq heq
    rw [Text.byteLen_append] at hlong
    omega

theorem startsWithCi_of_splits (h : Splits name typed) : startsWithCi name typed = none := by
  unfold startsWithCi
  rw [if_pos h.1, Option.map_eq_none_iff]
  cases hcut : Text.takeBytes? typed.byteLen name with
  | none => rfl
  | some head =>
    rcases Text.takeBytes?_eq_some_iff.mp hcut with ⟨hlen, hhead⟩
    exact absurd hlen (h.2 head hhead)

/-!
# All names
-/

theorem filterChecked_of_forall {p : Entry -> Option Bool} {q : Entry -> Bool}
    {entries : List Entry} (h : forall e, e ∈ entries -> p e = some (q e)) :
    filterChecked p entries = some (entries.filter q) := by
  induction entries with
  | nil => rfl
  | cons e rest ih =>
    have hrest := ih (fun other hother => h other (List.mem_cons_of_mem e hother))
    have hhead := h e List.mem_cons_self
    rw [filterChecked, hhead]
    cases hq : q e with
    | true => simp [hrest, hq]
    | false => simp [hrest, hq]

theorem filterChecked_eq_none {p : Entry -> Option Bool} {entries : List Entry} {e : Entry}
    (he : e ∈ entries) (h : p e = none) : filterChecked p entries = none := by
  induction entries with
  | nil => cases he
  | cons first rest ih =>
    rw [filterChecked]
    rcases List.mem_cons.mp he with rfl | hrest
    · rw [h]
    · rw [ih hrest]
      cases hfirst : p first with
      | none => rfl
      | some keep => cases keep <;> rfl

theorem filterChecked_startsWithCi_isSome_iff (name : Entry -> Text) (typed : Text)
    (entries : List Entry) :
    (filterChecked (fun e => startsWithCi (name e) typed) entries).isSome = true <->
      forall e, e ∈ entries -> ¬ Splits (name e) typed := by
  constructor
  · intro h e he hsplit
    rw [filterChecked_eq_none he (startsWithCi_of_splits hsplit)] at h
    cases h
  · intro h
    rw [filterChecked_of_forall (fun e he => startsWithCi_of_not_splits (h e he))]
    rfl

theorem shorterFirst_iff {a b : Text} :
    shorterFirst a b = true <->
      a.byteLen < b.byteLen ∨ a.byteLen = b.byteLen ∧ a ≤ b := by
  unfold shorterFirst
  simp

theorem shorterFirst_trans {a b c : Text} (hab : shorterFirst a b = true)
    (hbc : shorterFirst b c = true) : shorterFirst a c = true := by
  rw [shorterFirst_iff] at hab hbc ⊢
  rcases hab with hab | ⟨hab, hle⟩
  · rcases hbc with hbc | ⟨hbc, _⟩ <;> exact .inl (by omega)
  · rcases hbc with hbc | ⟨hbc, hle'⟩
    · exact .inl (by omega)
    · exact .inr ⟨by omega, le_trans hle hle'⟩

theorem shorterFirst_total (a b : Text) : (shorterFirst a b || shorterFirst b a) = true := by
  rw [Bool.or_eq_true, shorterFirst_iff, shorterFirst_iff]
  rcases lt_trichotomy a.byteLen b.byteLen with hlt | heq | hgt
  · exact .inl (.inl hlt)
  · rcases le_total a b with hle | hle
    · exact .inl (.inr ⟨heq, hle⟩)
    · exact .inr (.inr ⟨heq.symm, hle⟩)
  · exact .inr (.inl hgt)

theorem pairwise_hits (found : List Entry) :
    (found.mergeSort (fun a b => shorterFirst (simpleName a) (simpleName b))).Pairwise
      (fun a b =>
        (simpleName a).byteLen < (simpleName b).byteLen ∨
          (simpleName a).byteLen = (simpleName b).byteLen ∧ simpleName a ≤ simpleName b) := by
  have hsorted := List.pairwise_mergeSort (fun a b c : Entry => shorterFirst_trans
    (a := simpleName a) (b := simpleName b) (c := simpleName c))
    (fun a b => shorterFirst_total (simpleName a) (simpleName b)) found
  exact hsorted.imp (fun h => shorterFirst_iff.mp h)

/-!
# The search
-/

theorem typesWithPrefix_answers {index : WorkspaceIndex Root Mtime Entry} {limit : Nat}
    (htyped : typed ≠ []) (hlimit : limit ≠ 0)
    (h : forall e, e ∈ index.inner.entries -> ¬ Splits (simpleName e) typed) :
    exists answer, index.typesWithPrefix simpleName typed limit = some answer ∧
      Answers simpleName index.inner.entries typed limit answer := by
  have hgo : ¬ (typed.isEmpty || limit == 0) = true := by
    simp [htyped, hlimit]
  have hfound := filterChecked_of_forall
    (p := fun e => startsWithCi (simpleName e) (toAsciiLowercase typed))
    (q := fun e => decide (StartsWith (simpleName e) typed))
    (fun e he => by
      rw [startsWithCi_of_not_splits (fun hsplit => h e he (splits_lowercase.mp hsplit)),
        Option.some.injEq, decide_eq_decide]
      exact startsWith_lowercase)
  unfold WorkspaceIndex.typesWithPrefix
  simp only [if_neg hgo, hfound]
  exact ⟨_, rfl, _, List.mergeSort_perm _ _, pairwise_hits simpleName _, rfl⟩

theorem typesWithPrefix_isSome {index : WorkspaceIndex Root Mtime Entry} {limit : Nat}
    (htyped : typed ≠ []) (hlimit : limit ≠ 0)
    (h : (index.typesWithPrefix simpleName typed limit).isSome = true) :
    forall e, e ∈ index.inner.entries -> ¬ Splits (simpleName e) typed := by
  have hgo : ¬ (typed.isEmpty || limit == 0) = true := by
    simp [htyped, hlimit]
  intro e he hsplit
  have hnone : filterChecked (fun e => startsWithCi (simpleName e) (toAsciiLowercase typed))
      index.inner.entries = none :=
    filterChecked_eq_none he (startsWithCi_of_splits (splits_lowercase.mpr hsplit))
  unfold WorkspaceIndex.typesWithPrefix at h
  simp only [if_neg hgo, hnone] at h
  cases h

theorem answers_zero_iff (entries : List Entry) (typed : Text) :
    Answers simpleName entries typed 0 ([], false) <->
      forall e, e ∈ entries -> ¬ StartsWith (simpleName e) typed := by
  have hnone : entries.filter (fun e => decide (StartsWith (simpleName e) typed)) = [] <->
      forall e, e ∈ entries -> ¬ StartsWith (simpleName e) typed := by
    simp
  rw [← hnone]
  constructor
  · rintro ⟨hits, hperm, _, hanswer⟩
    have hempty : hits = [] := by
      injection hanswer with _ hcut
      simpa using hcut
    rw [hempty] at hperm
    exact hperm.nil_eq.symm
  · intro hfilter
    refine ⟨[], ?_, List.Pairwise.nil, rfl⟩
    rw [hfilter]

/--
The search gives the matching types, and the import filter comes to an end, exactly
when no name is cut inside a character.  A limit of zero is answered as if there
were no matches.
-/
theorem prefix_search_exact_iff (index : WorkspaceIndex Root Mtime Entry) (names : List Text)
    (typed : Text) (limit : Nat) :
    ((exists answer, index.typesWithPrefix simpleName typed limit = some answer ∧
          (typed ≠ [] -> Answers simpleName index.inner.entries typed limit answer)) <->
        if limit = 0 then
          typed ≠ [] -> forall e, e ∈ index.inner.entries -> ¬ StartsWith (simpleName e) typed
        else forall e, e ∈ index.inner.entries -> ¬ Splits (simpleName e) typed) ∧
      ((importMatches names typed).isSome = true <-> forall s, s ∈ names -> ¬ Splits s typed) := by
  constructor
  · by_cases htyped : typed = []
    · have hrun : index.typesWithPrefix simpleName typed limit = some ([], false) := by
        unfold WorkspaceIndex.typesWithPrefix
        simp [htyped]
      subst htyped
      simp [hrun, not_splits_nil]
    · by_cases hlimit : limit = 0
      · have hrun : index.typesWithPrefix simpleName typed limit = some ([], false) := by
          unfold WorkspaceIndex.typesWithPrefix
          simp [hlimit]
        subst hlimit
        simp [hrun, htyped, answers_zero_iff]
      · rw [if_neg hlimit]
        constructor
        · rintro ⟨answer, hanswer, _⟩
          exact typesWithPrefix_isSome simpleName htyped hlimit (by rw [hanswer]; rfl)
        · intro h
          rcases typesWithPrefix_answers simpleName htyped hlimit h with ⟨answer, hrun, hanswers⟩
          exact ⟨answer, hrun, fun _ => hanswers⟩
  · unfold importMatches
    by_cases htyped : typed = []
    · subst htyped
      have hall : filterChecked
          (fun s => if List.isEmpty ([] : Text) then some true else startsWithCi s []) names =
            some (names.filter (fun _ => true)) :=
        filterChecked_of_forall (fun _ _ => rfl)
      rw [hall]
      simp [not_splits_nil]
    · have hgo : ¬ typed.isEmpty = true := by simp [htyped]
      simp only [if_neg hgo]
      exact filterChecked_startsWithCi_isSome_iff (fun s => s) typed names

namespace AccentedName

def index : WorkspaceIndex Unit Unit Text where
  cap := 10
  inner := { (Inner.default : Inner Unit Unit Text) with entries := [['é', 't', 'a', 't']] }
  walks := fun _ => none

/-- One typed letter ends inside the first letter of a name. -/
theorem typed_letter_splits_name :
    index.typesWithPrefix (fun name => name) ['e'] 10 = none ∧
      importMatches [['é', 't', 'a', 't']] ['e'] = none := by
  constructor <;> rfl

end AccentedName

end Server
end JavaVsixLite
