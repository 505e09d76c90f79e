import JavaVsixLite.Calls.Selection
import Mathlib.Data.List.Nodup
import Mathlib.Data.List.Perm.Basic

/-!
# The most specific candidate as a property

The search for the most specific candidate walks the applicable ones in their
order.  When it answers, it has found the candidate that beats every other one
and is alone in that, or there is none.  This property knows no order, so two
orders of the same candidates that both answer have the same winner.
-/

namespace JavaVsixLite

open Foundation
open Foundation.Verdict

/-!
# Candidates that beat the others
-/

def Candidate.parameterList (c : Candidate) : List TypeRef :=
  c.parameterTypes.getD []

def SameArity (c d : Candidate) : Prop :=
  c.parameterList.length = d.parameterList.length

/-- The parameters of `c` against those of `d`, one by one. -/
def comparison (ask : Ask) (c d : Candidate) : Option Verdict :=
  allProved ask false (c.parameterList.zip d.parameterList)

def Beats (ask : Ask) (c d : Candidate) : Prop :=
  SameArity c d ∧ comparison ask c d = some (some true)

def Dominates (ask : Ask) (set : List Candidate) (c : Candidate) : Prop :=
  c ∈ set ∧ forall d, d ∈ set -> d ≠ c -> Beats ask c d

def UniqueWinner (ask : Ask) (set : List Candidate) (c : Candidate) : Prop :=
  Dominates ask set c ∧ forall d, Dominates ask set d -> d = c

structure Contenders (set : List Indexed) : Prop where
  positions : (set.map Prod.fst).Nodup
  candidates : (set.map Prod.snd).Nodup

variable {ask ask' : Ask} {set set' : List Indexed}

variable {m : Indexed} {rest others : List Indexed} {result : Option Indexed}

theorem Contenders.position_eq_iff (hset : Contenders set) {other : Indexed} (hm : m ∈ set)
    (hother : other ∈ set) : m.1 = other.1 <-> m.2 = other.2 := by
  constructor
  · intro h
    rw [List.inj_on_of_nodup_map hset.positions hm hother h]
  · intro h
    rw [List.inj_on_of_nodup_map hset.candidates hm hother h]

theorem Contenders.sublist (hset : Contenders set)
    (h : List.Sublist set' set) : Contenders set' where
  positions := hset.positions.sublist (h.map Prod.fst)
  candidates := hset.candidates.sublist (h.map Prod.snd)

theorem Dominates.sameArity {candidates : List Candidate} {c d : Candidate}
    (h : Dominates ask candidates c) (hd : d ∈ candidates) : SameArity c d := by
  by_cases heq : d = c
  · rw [heq]
    rfl
  · exact (h.right d hd heq).left

/-!
# One candidate against all others
-/

theorem dominance_cons {other : Indexed} :
    dominance ask m (other :: rest) =
      if m.1 = other.1 then dominance ask m rest
      else if m.2.parameterList.length ≠ other.2.parameterList.length then
        some .clash
      else
        match comparison ask m.2 other.2 with
        | none => none
        | some (some true) => dominance ask m rest
        | some _ => some .loses := rfl

theorem beats_of_wins (h : dominance ask m others = some .wins) :
    forall other, other ∈ others -> m.1 ≠ other.1 -> Beats ask m.2 other.2 := by
  induction others with
  | nil =>
    intro other hother
    cases hother
  | cons first rest ih =>
    rw [dominance_cons] at h
    intro other hother hne
    split at h
    · rename_i hself
      cases List.mem_cons.mp hother with
      | inl hfirst =>
        rw [hfirst] at hne
        exact absurd hself hne
      | inr hrest => exact ih h other hrest hne
    · split at h
      · cases h
      · rename_i harity
        split at h
        · cases h
        · rename_i hproved
          cases List.mem_cons.mp hother with
          | inl hfirst =>
            rw [hfirst]
            exact ⟨not_not.mp harity, hproved⟩
          | inr hrest => exact ih h other hrest hne
        · cases h

theorem not_beats_of_loses (h : dominance ask m others = some .loses) :
    exists other, other ∈ others ∧ m.1 ≠ other.1 ∧ ¬ Beats ask m.2 other.2 := by
  induction others with
  | nil => cases h
  | cons first rest ih =>
    rw [dominance_cons] at h
    split at h
    · rcases ih h with ⟨other, hother, hloses⟩
      exact ⟨other, List.mem_cons_of_mem first hother, hloses⟩
    · rename_i hne
      split at h
      · cases h
      · split at h
        · cases h
        · rcases ih h with ⟨other, hother, hloses⟩
          exact ⟨other, List.mem_cons_of_mem first hother, hloses⟩
        · rename_i hundecided hcomparison
          refine ⟨first, List.mem_cons_self, hne, ?_⟩
          intro hbeats
          rw [hbeats.right] at hcomparison
          exact hundecided (Option.some.inj hcomparison).symm

theorem arity_of_clash (h : dominance ask m others = some .clash) :
    exists other, other ∈ others ∧ ¬ SameArity m.2 other.2 := by
  induction others with
  | nil => cases h
  | cons first rest ih =>
    rw [dominance_cons] at h
    split at h
    · rcases ih h with ⟨other, hother, harity⟩
      exact ⟨other, List.mem_cons_of_mem first hother, harity⟩
    · split at h
      · rename_i harity
        exact ⟨first, List.mem_cons_self, harity⟩
      · split at h
        · cases h
        · rcases ih h with ⟨other, hother, harity⟩
          exact ⟨other, List.mem_cons_of_mem first hother, harity⟩
        · cases h

/-!
# The search
-/

theorem dominates_of_wins (hset : Contenders set) (hm : m ∈ set)
    (h : dominance ask m set = some .wins) :
    Dominates ask (set.map Prod.snd) m.2 := by
  constructor
  · exact List.mem_map_of_mem hm
  · intro d hd hne
    rcases List.mem_map.mp hd with ⟨other, hother, heq⟩
    subst heq
    apply beats_of_wins h other hother
    intro hposition
    exact hne ((hset.position_eq_iff hm hother).mp hposition).symm

theorem not_dominates_of_loses (hset : Contenders set) (hm : m ∈ set)
    (h : dominance ask m set = some .loses) :
    ¬ Dominates ask (set.map Prod.snd) m.2 := by
  intro hdominates
  rcases not_beats_of_loses h with ⟨other, hother, hne, hnot⟩
  apply hnot
  apply hdominates.right other.2 (List.mem_map_of_mem hother)
  intro heq
  exact hne ((hset.position_eq_iff hm hother).mpr heq.symm)

theorem not_dominates_of_clash (hm : m ∈ set) (h : dominance ask m set = some .clash)
    (c : Candidate) :
    ¬ Dominates ask (set.map Prod.snd) c := by
  intro hdominates
  rcases arity_of_clash h with ⟨other, hother, harity⟩
  apply harity
  exact (hdominates.sameArity (List.mem_map_of_mem hm)).symm.trans
    (hdominates.sameArity (List.mem_map_of_mem hother))

theorem subtypingWinner_cons {best : Option Indexed} :
    subtypingWinner ask set (m :: rest) best =
      match dominance ask m set with
      | none => none
      | some .clash => some none
      | some .loses => subtypingWinner ask set rest best
      | some .wins =>
        match best with
        | some _ => some none
        | none => subtypingWinner ask set rest (some m) := rfl

/--
`best` is the only candidate before `rest` that beats all others; the search
goes on to find whether one of `rest` does as well.
-/
theorem subtypingWinner_from (hset : Contenders set) {best : Option Indexed}
    (hrest : forall m, m ∈ rest -> m ∈ set) (hdistinct : rest.Nodup)
    (hbest : forall b, best = some b -> b ∉ rest ∧ b ∈ set ∧ Dominates ask (set.map Prod.snd) b.2)
    (hdone : forall m, m ∈ set -> Dominates ask (set.map Prod.snd) m.2 -> m ∈ rest ∨ best = some m)
    (h : subtypingWinner ask set rest best = some result) (c : Candidate) :
    result.map Prod.snd = some c <-> UniqueWinner ask (set.map Prod.snd) c := by
  induction rest generalizing best with
  | nil =>
    cases h
    have hknown : forall d, Dominates ask (set.map Prod.snd) d ->
        result.map Prod.snd = some d := by
      intro d hd
      rcases List.mem_map.mp hd.left with ⟨m, hm, heq⟩
      subst heq
      cases hdone m hm hd with
      | inl hnil => cases hnil
      | inr hb => rw [hb, Option.map_some]
    constructor
    · intro hc
      rcases Option.map_eq_some_iff.mp hc with ⟨b, hb, heq⟩
      subst heq
      constructor
      · exact (hbest b hb).right.right
      · intro d hd
        have hsame := hknown d hd
        rw [hc] at hsame
        exact (Option.some.inj hsame).symm
    · intro hwinner
      exact hknown c hwinner.left
  | cons m rest ih =>
    have hm : m ∈ set := hrest m List.mem_cons_self
    have hothers : forall m', m' ∈ rest -> m' ∈ set := by
      intro m' hm'
      exact hrest m' (List.mem_cons_of_mem m hm')
    have hnodup := List.nodup_cons.mp hdistinct
    rw [subtypingWinner_cons] at h
    cases hverdict : dominance ask m set with
    | none =>
      rw [hverdict] at h
      cases h
    | some verdict =>
      rw [hverdict] at h
      cases verdict with
      | clash =>
        cases h
        constructor
        · intro hc
          cases hc
        · intro hwinner
          exact absurd hwinner.left (not_dominates_of_clash hm hverdict c)
      | loses =>
        apply ih hothers hnodup.right _ _ h
        · intro b hb
          rcases hbest b hb with ⟨hnew, hin, hdominates⟩
          exact ⟨fun hmem => hnew (List.mem_cons_of_mem m hmem), hin, hdominates⟩
        · intro m' hm' hdominates
          cases hdone m' hm' hdominates with
          | inl hmem =>
            cases List.mem_cons.mp hmem with
            | inl hfirst =>
              rw [hfirst] at hdominates
              exact absurd hdominates (not_dominates_of_loses hset hm hverdict)
            | inr hlater => exact Or.inl hlater
          | inr hb => exact Or.inr hb
      | wins =>
        have hdominates := dominates_of_wins hset hm hverdict
        cases hold : best with
        | some b =>
          rw [hold] at h
          cases h
          constructor
          · intro hc
            cases hc
          · intro hwinner
            rcases hbest b hold with ⟨hnew, hin, hdominates'⟩
            have hsame : b.2 = m.2 :=
              (hwinner.right _ hdominates').trans
                (hwinner.right _ hdominates).symm
            have heq : b = m :=
              List.inj_on_of_nodup_map hset.candidates hin hm hsame
            rw [heq] at hnew
            exact absurd List.mem_cons_self hnew
        | none =>
          rw [hold] at h
          apply ih hothers hnodup.right _ _ h
          · intro b hb
            cases hb
            exact ⟨hnodup.left, hm, hdominates⟩
          · intro m' hm' hdominates'
            cases hdone m' hm' hdominates' with
            | inl hmem =>
              cases List.mem_cons.mp hmem with
              | inl hfirst => exact Or.inr (by rw [hfirst])
              | inr hlater => exact Or.inl hlater
            | inr hb =>
              rw [hold] at hb
              cases hb

theorem subtypingWinner_iff (hset : Contenders set)
    (h : subtypingWinner ask set set none = some result) (c : Candidate) :
    result.map Prod.snd = some c <-> UniqueWinner ask (set.map Prod.snd) c := by
  apply subtypingWinner_from hset _ _ _ _ h
  · intro m hm
    exact hm
  · exact hset.positions.of_map Prod.fst
  · intro b hb
    cases hb
  · intro m hm _
    exact Or.inl hm

/-!
# The narrowing by inference variables
-/

def narrowAt (kept : List Indexed) (index : Nat) : List Indexed :=
  let generic := kept.filter (takesVariable index)
  if !generic.isEmpty && generic.length < kept.length then generic else kept

def declaredArity (c : Candidate) : Nat :=
  (c.metadata.parameters.getD []).length

theorem narrow_cons {first : Indexed} :
    narrowByInferenceVariables (first :: rest) =
      if (first :: rest).any
          (fun m => declaredArity m.2 != declaredArity first.2) then
        first :: rest
      else
        (List.range (declaredArity first.2)).foldl narrowAt (first :: rest) := rfl

theorem narrowAt_sublist (kept : List Indexed) (index : Nat) :
    List.Sublist (narrowAt kept index) kept := by
  unfold narrowAt
  simp only
  split
  · exact List.filter_sublist
  · exact List.Sublist.refl kept

theorem foldl_narrowAt_sublist (indices : List Nat) (kept : List Indexed) :
    List.Sublist (indices.foldl narrowAt kept) kept := by
  induction indices generalizing kept with
  | nil => exact List.Sublist.refl kept
  | cons index rest ih => exact (ih _).trans (narrowAt_sublist kept index)

theorem narrow_sublist (applicable : List Indexed) :
    List.Sublist (narrowByInferenceVariables applicable) applicable := by
  cases applicable with
  | nil => exact List.Sublist.refl []
  | cons first rest =>
    rw [narrow_cons]
    split
    · exact List.Sublist.refl _
    · exact foldl_narrowAt_sublist _ _

def SameCandidates (set set' : List Indexed) : Prop :=
  List.Perm (set.map Prod.snd) (set'.map Prod.snd)

theorem SameCandidates.length_eq (h : SameCandidates set set') :
    set.length = set'.length := by
  have hlength := List.Perm.length_eq h
  rw [List.length_map, List.length_map] at hlength
  exact hlength

theorem SameCandidates.forall_of (h : SameCandidates set set')
    (p : Candidate -> Prop) (hset : forall m, m ∈ set -> p m.2) :
    forall m, m ∈ set' -> p m.2 := by
  intro m hm
  have hmem : m.2 ∈ set.map Prod.snd :=
    (List.Perm.mem_iff h).mpr (List.mem_map_of_mem hm)
  rcases List.mem_map.mp hmem with ⟨m', hm', heq⟩
  rw [← heq]
  exact hset m' hm'

theorem SameCandidates.filter (h : SameCandidates set set')
    (p : Candidate -> Bool) :
    SameCandidates (set.filter (fun m => p m.2)) (set'.filter (fun m => p m.2)) := by
  have hmap : forall l : List Indexed,
      (l.filter (fun m => p m.2)).map Prod.snd = (l.map Prod.snd).filter p := by
    intro l
    rw [List.filter_map]
    rfl
  unfold SameCandidates
  rw [hmap, hmap]
  exact List.Perm.filter p h

theorem isEmpty_eq_of_length_eq {α : Type} {xs ys : List α}
    (h : xs.length = ys.length) : xs.isEmpty = ys.isEmpty := by
  rw [Bool.eq_iff_iff, List.isEmpty_iff_length_eq_zero,
    List.isEmpty_iff_length_eq_zero, h]

theorem SameCandidates.narrowAt (h : SameCandidates set set') (index : Nat) :
    SameCandidates (narrowAt set index) (narrowAt set' index) := by
  have hgeneric : SameCandidates (set.filter (takesVariable index))
      (set'.filter (takesVariable index)) :=
    h.filter (fun c => takesVariable index (0, c))
  have hlength := hgeneric.length_eq
  unfold JavaVsixLite.narrowAt
  simp only [isEmpty_eq_of_length_eq hlength, hlength, h.length_eq]
  split
  · exact hgeneric
  · exact h

theorem SameCandidates.foldl_narrowAt (h : SameCandidates set set')
    (indices : List Nat) :
    SameCandidates (indices.foldl JavaVsixLite.narrowAt set)
      (indices.foldl JavaVsixLite.narrowAt set') := by
  induction indices generalizing set set' with
  | nil => exact h
  | cons index rest ih => exact ih (h.narrowAt index)

theorem mixedArities_iff {first : Indexed} :
    (first :: rest).any (fun m => declaredArity m.2 != declaredArity first.2) = true <->
      ¬ forall m, m ∈ first :: rest -> declaredArity m.2 = declaredArity first.2 := by
  rw [List.any_eq_true]
  constructor
  · rintro ⟨m, hm, hne⟩ hall
    rw [hall m hm] at hne
    simp at hne
  · intro hnot
    by_contra hnone
    apply hnot
    intro m hm
    by_contra hne
    exact hnone ⟨m, hm, bne_iff_ne.mpr hne⟩

theorem SameCandidates.narrow (h : SameCandidates set set') :
    SameCandidates (narrowByInferenceVariables set)
      (narrowByInferenceVariables set') := by
  cases set with
  | nil =>
    cases set' with
    | nil => exact h
    | cons first' rest' => cases h.length_eq
  | cons first rest =>
    cases set' with
    | nil => cases h.length_eq
    | cons first' rest' =>
      have hback : SameCandidates (first' :: rest') (first :: rest) :=
        List.Perm.symm h
      by_cases hall : forall m, m ∈ first :: rest ->
          declaredArity m.2 = declaredArity first.2
      · have hall' := h.forall_of
          (fun c => declaredArity c = declaredArity first.2) hall
        have hfirst : declaredArity first'.2 = declaredArity first.2 :=
          hall' first' List.mem_cons_self
        have hall'' : forall m, m ∈ first' :: rest' ->
            declaredArity m.2 = declaredArity first'.2 := by
          intro m hm
          rw [hall' m hm, hfirst]
        rw [narrow_cons, narrow_cons,
          if_neg (fun hmixed => mixedArities_iff.mp hmixed hall),
          if_neg (fun hmixed => mixedArities_iff.mp hmixed hall''), hfirst]
        exact h.foldl_narrowAt _
      · have hall' : ¬ forall m, m ∈ first' :: rest' ->
            declaredArity m.2 = declaredArity first'.2 := by
          intro hsame
          apply hall
          have hsame' := hback.forall_of
            (fun c => declaredArity c = declaredArity first'.2) hsame
          intro m hm
          rw [hsame' m hm, hsame' first List.mem_cons_self]
        rw [narrow_cons, narrow_cons, if_pos (mixedArities_iff.mpr hall),
          if_pos (mixedArities_iff.mpr hall')]
        exact h

/-!
# Two orders, one winner
-/

def pick (ask : Ask) (set : List Indexed) : Option (Option Indexed) :=
  match set with
  | [only] => some (some only)
  | _ => subtypingWinner ask set set none

theorem mostSpecific_eq (ask : Ask) (applicable : List Indexed) :
    mostSpecific ask applicable =
      match pick ask applicable with
      | none => none
      | some (some best) => some (some best)
      | some none =>
        if (narrowByInferenceVariables applicable).length < applicable.length then
          pick ask (narrowByInferenceVariables applicable)
        else some none := by
  rcases applicable with _ | ⟨first, _ | ⟨second, rest⟩⟩
  · rfl
  · rfl
  · rfl

theorem pick_iff (hset : Contenders set) (h : pick ask set = some result) (c : Candidate) :
    result.map Prod.snd = some c <-> UniqueWinner ask (set.map Prod.snd) c := by
  rcases set with _ | ⟨first, _ | ⟨second, rest⟩⟩
  · exact subtypingWinner_iff hset h c
  · cases h
    have honly : Dominates ask [first.2] first.2 := by
      constructor
      · exact List.mem_cons_self
      · intro d hd hne
        exact absurd (List.mem_singleton.mp hd) hne
    constructor
    · intro hc
      cases hc
      constructor
      · exact honly
      · intro d hd
        exact List.mem_singleton.mp hd.left
    · intro hwinner
      exact congrArg some (List.mem_singleton.mp hwinner.left.left).symm
  · exact subtypingWinner_iff hset h c

theorem uniqueWinner_congr {candidates candidates' : List Candidate}
    (h : List.Perm candidates candidates') (c : Candidate) :
    UniqueWinner ask candidates c <-> UniqueWinner ask candidates' c := by
  simp only [UniqueWinner, Dominates, h.mem_iff]

theorem pick_sameCandidates (hset : Contenders set) (hset' : Contenders set')
    (hsame : SameCandidates set set') {result' : Option Indexed} (h : pick ask set = some result)
    (h' : pick ask set' = some result') :
    result.map Prod.snd = result'.map Prod.snd := by
  apply Option.ext
  intro c
  rw [pick_iff hset h c, pick_iff hset' h' c]
  exact uniqueWinner_congr hsame c

theorem mostSpecific_sameCandidates (hset : Contenders set) (hset' : Contenders set')
    (hsame : SameCandidates set set') {result' : Option Indexed}
    (h : mostSpecific ask set = some result) (h' : mostSpecific ask set' = some result') :
    result.map Prod.snd = result'.map Prod.snd := by
  rw [mostSpecific_eq] at h h'
  cases hpick : pick ask set with
  | none =>
    rw [hpick] at h
    cases h
  | some best =>
    cases hpick' : pick ask set' with
    | none =>
      rw [hpick'] at h'
      cases h'
    | some best' =>
      have hbest := pick_sameCandidates hset hset' hsame hpick hpick'
      rw [hpick] at h
      rw [hpick'] at h'
      cases best with
      | some b =>
        cases best' with
        | some b' =>
          cases h
          cases h'
          exact hbest
        | none => cases hbest
      | none =>
        cases best' with
        | some b' => cases hbest
        | none =>
          simp only [hsame.length_eq, hsame.narrow.length_eq] at h h'
          split at h
          · rename_i hfewer
            rw [if_pos hfewer] at h'
            exact pick_sameCandidates (hset.sublist (narrow_sublist set))
              (hset'.sublist (narrow_sublist set')) hsame.narrow h h'
          · rename_i hall
            rw [if_neg hall] at h'
            cases h
            cases h'
            rfl

end JavaVsixLite
