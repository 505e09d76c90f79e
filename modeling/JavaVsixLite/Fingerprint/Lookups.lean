import Mathlib.Data.List.TakeDrop
import JavaVsixLite.Fingerprint.Symbolic

/-!
# Telling lookups apart

A `pick` is resolving when it answers every lookup that source text can ask for.
The rule of the fingerprint, which takes the first candidate, is resolving; and
for two different lookups there is a resolving `pick` with different answers.
-/

namespace JavaVsixLite
namespace Fingerprint

/-- There are always the name in the package and the name in `java.lang`. -/
def Lookup.Qualified : Lookup -> Prop
  | .fixed _ => True
  | .candidates names => 2 ≤ names.length
  | .dotted name head => (splitHead name).isSome = true ∧ 2 ≤ head.length

def Resolving (pick : Pick) : Prop :=
  forall lookup : Lookup, lookup.Qualified -> (lookup.resolve pick).isSome = true

theorem two_le_candidates (imports : Imports) (simple : String) :
    2 ≤ (imports.candidates simple).length := by
  simp only [Imports.candidates, List.length_append, List.length_cons, List.length_nil]
  omega

/-!
# Paths
-/

theorem splitHead_nonempty {name : String} (h : (splitHead name).isSome = true) :
    name.isEmpty = false := by
  rw [String.isEmpty_eq_false_iff]
  intro hempty
  rw [hempty] at h
  cases h

theorem importPathToBinary_first {name : String} {known : String -> Bool}
    (hname : (splitHead name).isSome = true) (hknown : known name = true) :
    importPathToBinary name known = some name := by
  unfold importPathToBinary
  rw [splitHead_nonempty hname]
  simp only [Bool.false_eq_true, if_false, pathToBinary, hknown, if_true]

theorem replaceLastDot_length {path next : String} (h : replaceLastDot path = some next) :
    next.length = path.length := by
  unfold replaceLastDot at h
  rw [List.span_eq_takeWhile_dropWhile] at h
  have hlength := congrArg List.length
    (List.takeWhile_append_dropWhile (p := fun c : Char => c != '.') (l := path.toList.reverse))
  cases hdrop : path.toList.reverse.dropWhile (fun c => c != '.') with
  | nil =>
    rw [hdrop] at h
    cases h
  | cons dot rest =>
    rw [hdrop] at h hlength
    have hnext := Option.some.inj h
    rw [← hnext]
    simp only [List.length_append, List.length_cons, List.length_reverse,
      String.length_toList] at hlength
    simp only [String.length_ofList, List.length_append, List.length_reverse, List.length_cons]
    omega

theorem pathToBinary_none {known : String -> Bool} {size : Nat}
    (hknown : forall candidate : String, candidate.length = size -> known candidate = false) :
    forall (attempts : Nat) (path : String), path.length = size ->
      pathToBinary known attempts path = none
  | 0, _, _ => rfl
  | attempts + 1, path, hsize => by
    simp only [pathToBinary, hknown path hsize, Bool.false_eq_true, if_false]
    cases hnext : replaceLastDot path with
    | none => rfl
    | some next =>
      apply pathToBinary_none hknown attempts next
      rw [replaceLastDot_length hnext, hsize]

/-!
# The first candidate
-/

theorem pickFirst_resolving : Resolving pickFirst := by
  intro lookup hq
  cases lookup with
  | fixed binary => rfl
  | candidates names =>
    cases names with
    | nil => cases hq
    | cons name rest => rfl
  | dotted name head =>
    simp only [Lookup.resolve]
    rw [importPathToBinary_first hq.1 rfl]
    rfl

/-!
# A pick that marks one list of candidates
-/

/-- A name that is longer than `limit`. -/
def longName (limit : Nat) (marked : Bool) : String :=
  String.ofList (List.replicate (limit + 1 + marked.toNat) 'x')

/-- Single names up to `limit` are only known when `paths` says so. -/
def testPick (limit : Nat) (marked : List String) (paths : Bool) : Pick
  | [name] => if paths || decide (limit < name.length) then some name else none
  | names => some (longName limit (decide (names = marked)))

theorem longName_length (limit : Nat) (marked : Bool) :
    (longName limit marked).length = limit + 1 + marked.toNat := by
  simp only [longName, String.length_ofList, List.length_replicate]

theorem eq_marked {names marked : List String}
    (h : (decide (marked = marked)).toNat = (decide (names = marked)).toNat) :
    names = marked := by
  rw [decide_eq_true rfl] at h
  exact of_decide_eq_true (Bool.toNat_eq_one.mp h.symm)

section TestPick

variable (limit : Nat) (marked : List String)

theorem testPick_many (paths : Bool) {names : List String} (h : 2 ≤ names.length) :
    testPick limit marked paths names = some (longName limit (decide (names = marked))) := by
  match names, h with
  | _ :: _ :: _, _ => rfl

theorem testPick_long (paths : Bool) {name : String} (h : limit < name.length) :
    testPick limit marked paths [name] = some name := by
  simp only [testPick, h, decide_true, Bool.or_true, if_true]

theorem testPick_short {name : String} (h : name.length ≤ limit) :
    testPick limit marked false [name] = none := by
  simp only [testPick, Nat.not_lt.mpr h, decide_false, Bool.or_false, Bool.false_eq_true,
    if_false]

theorem resolve_path {name : String} (head : List String) (hq : (splitHead name).isSome = true) :
    (Lookup.dotted name head).resolve (testPick limit marked true) = some name := by
  simp only [Lookup.resolve]
  rw [importPathToBinary_first hq rfl]

theorem resolve_long_path (paths : Bool) {name : String} (head : List String)
    (hq : (splitHead name).isSome = true) (h : limit < name.length) :
    (Lookup.dotted name head).resolve (testPick limit marked paths) = some name := by
  simp only [Lookup.resolve]
  rw [importPathToBinary_first hq]
  rw [testPick_long limit marked paths h]
  rfl

theorem resolve_through_head {name first rest : String} {head : List String}
    (hsplit : splitHead name = some (first, rest)) (hhead : 2 ≤ head.length)
    (h : name.length ≤ limit) :
    (Lookup.dotted name head).resolve (testPick limit marked false) =
      some (longName limit (decide (head = marked)) ++ "$" ++ nestedPath rest) := by
  have hknown : forall candidate : String, candidate.length = name.length ->
      (testPick limit marked false [candidate]).isSome = false := by
    intro candidate hlength
    rw [testPick_short limit marked (le_of_eq_of_le hlength h)]
    rfl
  have hpath : importPathToBinary name
      (fun candidate => (testPick limit marked false [candidate]).isSome) = none := by
    unfold importPathToBinary
    split
    · rfl
    · exact pathToBinary_none hknown 8 name rfl
  simp only [Lookup.resolve, hpath, hsplit, testPick_many limit marked false hhead]
  apply testPick_long
  simp only [String.length_append, longName_length]
  omega

theorem testPick_resolving (paths : Bool) : Resolving (testPick limit marked paths) := by
  intro lookup hq
  cases lookup with
  | fixed binary => rfl
  | candidates names =>
    simp only [Lookup.resolve, testPick_many limit marked paths hq]
    rfl
  | dotted name head =>
    rcases Nat.lt_or_ge limit name.length with hlong | hshort
    · rw [resolve_long_path limit marked paths head hq.1 hlong]
      rfl
    · cases paths with
      | true =>
        rw [resolve_path limit marked head hq.1]
        rfl
      | false =>
        rcases Option.isSome_iff_exists.mp hq.1 with ⟨⟨first, rest⟩, hsplit⟩
        rw [resolve_through_head limit marked hsplit hq.2 hshort]
        rfl

end TestPick

/-!
# Separation
-/

variable {names : List String} {name : String} {head : List String}

theorem candidates_separate {others : List String} (h : 2 ≤ names.length) (h' : 2 ≤ others.length)
    (hpick : forall pick, Resolving pick -> pick names = pick others) :
    names = others := by
  have heq := hpick (testPick 0 names true) (testPick_resolving 0 names true)
  rw [testPick_many 0 names true h, testPick_many 0 names true h'] at heq
  have hlength := congrArg String.length (Option.some.inj heq)
  rw [longName_length, longName_length] at hlength
  exact (eq_marked (Nat.add_left_cancel hlength)).symm

theorem fixed_ne_candidates {binary : String} (h : 2 ≤ names.length)
    (heq : forall pick, Resolving pick ->
      (Lookup.fixed binary).resolve pick = (Lookup.candidates names).resolve pick) :
    False := by
  have hpick := heq (testPick binary.length names true) (testPick_resolving _ names true)
  simp only [Lookup.resolve, testPick_many binary.length names true h] at hpick
  have hlength := congrArg String.length (Option.some.inj hpick)
  rw [longName_length] at hlength
  omega

theorem fixed_ne_dotted {binary : String} (hq : (Lookup.dotted name head).Qualified)
    (heq : forall pick, Resolving pick ->
      (Lookup.fixed binary).resolve pick = (Lookup.dotted name head).resolve pick) :
    False := by
  rcases Option.isSome_iff_exists.mp hq.1 with ⟨⟨first, rest⟩, hsplit⟩
  have hpick := heq (testPick (binary.length + name.length) head false)
    (testPick_resolving _ head false)
  rw [resolve_through_head _ head hsplit hq.2 (Nat.le_add_left _ _)] at hpick
  have hlength := congrArg String.length (Option.some.inj hpick)
  simp only [String.length_append, longName_length] at hlength
  omega

theorem candidates_ne_dotted (h : 2 ≤ names.length) (hq : (Lookup.dotted name head).Qualified)
    (heq : forall pick, Resolving pick ->
      (Lookup.candidates names).resolve pick = (Lookup.dotted name head).resolve pick) :
    False := by
  have hpick := heq (testPick name.length names true) (testPick_resolving _ names true)
  rw [resolve_path _ names head hq.1] at hpick
  simp only [Lookup.resolve, testPick_many name.length names true h] at hpick
  have hlength := congrArg String.length (Option.some.inj hpick)
  rw [longName_length] at hlength
  omega

theorem dotted_separate {other : String} {head' : List String}
    (hq : (Lookup.dotted name head).Qualified) (hq' : (Lookup.dotted other head').Qualified)
    (heq : forall pick, Resolving pick ->
      (Lookup.dotted name head).resolve pick = (Lookup.dotted other head').resolve pick) :
    Lookup.dotted name head = Lookup.dotted other head' := by
  have hpaths := heq (testPick 0 head true) (testPick_resolving 0 head true)
  rw [resolve_path 0 head head hq.1, resolve_path 0 head head' hq'.1] at hpaths
  have hname := Option.some.inj hpaths
  subst hname
  rcases Option.isSome_iff_exists.mp hq.1 with ⟨⟨first, rest⟩, hsplit⟩
  have hheads := heq (testPick name.length head false) (testPick_resolving _ head false)
  rw [resolve_through_head _ head hsplit hq.2 (Nat.le_refl _),
    resolve_through_head _ head hsplit hq'.2 (Nat.le_refl _)] at hheads
  have hlength := congrArg String.length (Option.some.inj hheads)
  rw [String.length_append, String.length_append, String.length_append, String.length_append,
    longName_length, longName_length] at hlength
  have hmarked : (decide (head = head)).toNat = (decide (head' = head)).toNat := by
    omega
  rw [eq_marked hmarked]

theorem Lookup.separate (l m : Lookup) (hl : l.Qualified) (hm : m.Qualified)
    (heq : forall pick, Resolving pick -> l.resolve pick = m.resolve pick) : l = m := by
  cases l with
  | fixed binary =>
    cases m with
    | fixed other =>
      have hpick := heq pickFirst pickFirst_resolving
      rw [Option.some.inj hpick]
    | candidates names => exact (fixed_ne_candidates hm heq).elim
    | dotted name head => exact (fixed_ne_dotted hm heq).elim
  | candidates names =>
    cases m with
    | fixed other =>
      exact (fixed_ne_candidates hl (fun pick hp => (heq pick hp).symm)).elim
    | candidates others => rw [candidates_separate hl hm heq]
    | dotted name head => exact (candidates_ne_dotted hl hm heq).elim
  | dotted name head =>
    cases m with
    | fixed other => exact (fixed_ne_dotted hl (fun pick hp => (heq pick hp).symm)).elim
    | candidates names =>
      exact (candidates_ne_dotted hm hl (fun pick hp => (heq pick hp).symm)).elim
    | dotted other head' => exact dotted_separate hl hm heq

end Fingerprint
end JavaVsixLite
