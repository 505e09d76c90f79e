import JavaVsixLite.Calls.NoApplicable
import JavaVsixLite.Calls.Tournament
import JavaVsixLite.Subtyping.Termination
import Mathlib.Data.List.ProdSigma

/-!
# Selection and the order of the candidates

Two orders of the same candidates that both answer select the same.  A search
for the most specific candidate does not make all its comparisons, and which
ones it makes depends on the order; a comparison of parameter types need not
end, so one order can answer where another does not.
-/

namespace JavaVsixLite

open Foundation
open Foundation.Verdict

variable {T : ClassTable} {ask ask' : Ask}

/-!
# More knowledge keeps an answer
-/

variable {c d : Candidate} {v : Verdict} {m : Indexed} {set rest : List Indexed}
  {result : Option Indexed} {phase : Phase} {args : List TypeRef} {candidates : List Candidate}
  {phases : List Phase} {s : Selection} {verdicts : List Verdict} {permuted : List Candidate}
  {s' : Selection}

theorem comparison_mono (hask : OpenRecursion.Extends ask ask') (h : comparison ask c d = some v) :
    comparison ask' c d = some v :=
  allProved_mono (fun q _ w hq => hask q w hq) h

theorem dominance_mono (hask : OpenRecursion.Extends ask ask') {others : List Indexed}
    {d : Dominance} (h : dominance ask m others = some d) : dominance ask' m others = some d := by
  induction others with
  | nil => exact h
  | cons first rest ih =>
    rw [dominance_cons] at h ⊢
    split
    · rename_i hself
      rw [if_pos hself] at h
      exact ih h
    · rename_i hother
      rw [if_neg hother] at h
      split
      · rename_i harity
        rw [if_pos harity] at h
        exact h
      · rename_i harity
        rw [if_neg harity] at h
        cases hcomparison : comparison ask m.2 first.2 with
        | none =>
          rw [hcomparison] at h
          cases h
        | some v =>
          rw [hcomparison] at h
          rw [comparison_mono hask hcomparison]
          rcases v with _ | _ | _
          · exact h
          · exact h
          · exact ih h

theorem subtypingWinner_mono (hask : OpenRecursion.Extends ask ask') {best : Option Indexed}
    (h : subtypingWinner ask set rest best = some result) :
    subtypingWinner ask' set rest best = some result := by
  induction rest generalizing best with
  | nil => exact h
  | cons m rest ih =>
    rw [subtypingWinner_cons] at h ⊢
    cases hverdict : dominance ask m set with
    | none =>
      rw [hverdict] at h
      cases h
    | some verdict =>
      rw [hverdict] at h
      rw [dominance_mono hask hverdict]
      cases verdict with
      | clash => exact h
      | loses => exact ih h
      | wins =>
        cases best with
        | some b => exact h
        | none => exact ih h

theorem pick_mono (hask : OpenRecursion.Extends ask ask') (h : pick ask set = some result) :
    pick ask' set = some result := by
  rcases set with _ | ⟨first, _ | ⟨second, rest⟩⟩
  · exact subtypingWinner_mono hask h
  · exact h
  · exact subtypingWinner_mono hask h

theorem mostSpecific_mono (hask : OpenRecursion.Extends ask ask') {applicable : List Indexed}
    (h : mostSpecific ask applicable = some result) :
    mostSpecific ask' applicable = some result := by
  rw [mostSpecific_eq] at h ⊢
  cases hpick : pick ask applicable with
  | none =>
    rw [hpick] at h
    cases h
  | some best =>
    rw [hpick] at h
    rw [pick_mono hask hpick]
    cases best with
    | some b => exact h
    | none =>
      simp only at h ⊢
      split
      · rename_i hfewer
        rw [if_pos hfewer] at h
        exact pick_mono hask h
      · rename_i hall
        rw [if_neg hall] at h
        exact h

theorem mapM_mono {α β : Type} {f g : α -> Option β} {xs : List α} {ys : List β}
    (hfg : forall x y, f x = some y -> g x = some y)
    (h : xs.mapM f = some ys) : xs.mapM g = some ys :=
  mapM_eq_some_iff.mpr ((mapM_eq_some_iff.mp h).imp (fun x y hxy => hfg x y hxy))

theorem applicableVarargs_mono (hask : OpenRecursion.Extends ask ask') {params : List TypeRef}
    (h : applicableVarargs ask params args = some v) :
    applicableVarargs ask' params args = some v := by
  unfold applicableVarargs at h ⊢
  cases hlast : params.getLast? with
  | none =>
    rw [hlast] at h
    cases h
  | some last =>
    rw [hlast] at h
    cases last with
    | array element =>
      simp only at h ⊢
      cases hchecks : (varargsPairs params.dropLast element args).mapM
          (convertible ask .loose) with
      | none =>
        rw [hchecks] at h
        cases h
      | some checks =>
        rw [hchecks] at h
        rw [mapM_mono (fun q w hq => convertible_mono hask hq) hchecks]
        exact h
    | _ => exact h

theorem applicableIn_mono (hask : OpenRecursion.Extends ask ask')
    (h : applicableIn ask c args phase = some v) :
    applicableIn ask' c args phase = some v := by
  unfold applicableIn at h ⊢
  cases hparams : c.parameterTypes with
  | none =>
    rw [hparams] at h
    exact h
  | some params =>
    rw [hparams] at h
    simp only at h ⊢
    by_cases hunknown : params.any TypeRef.containsUnknown = true
    · rw [if_pos hunknown] at h ⊢
      exact h
    · rw [if_neg hunknown] at h ⊢
      cases phase with
      | varargs =>
        simp only at h ⊢
        split
        · rename_i hexcluded
          rw [if_pos hexcluded] at h
          exact h
        · rename_i hfits
          rw [if_neg hfits] at h
          exact applicableVarargs_mono hask h
      | _ =>
        simp only at h ⊢
        split
        · rename_i hlength
          rw [if_pos hlength] at h
          exact h
        · rename_i hlength
          rw [if_neg hlength] at h
          exact allProved_mono (fun q _ w hq => convertible_mono hask hq) h

theorem selectIn_cons (ask : Ask) (candidates : List Candidate)
    (args : List TypeRef) (phase : Phase) (rest : List Phase) :
    selectIn ask candidates args (phase :: rest) =
      match candidates.mapM (fun c => applicableIn ask c args phase) with
      | none => none
      | some verdicts =>
        if none ∈ verdicts then some .unknown
        else if (applicableOnes candidates verdicts).isEmpty then
          selectIn ask candidates args rest
        else
          match mostSpecific ask (applicableOnes candidates verdicts) with
          | none => none
          | some (some best) => some (.selected best.2 phase)
          | some none => some .ambiguous := rfl

theorem selectIn_mono (hask : OpenRecursion.Extends ask ask')
    (h : selectIn ask candidates args phases = some s) :
    selectIn ask' candidates args phases = some s := by
  induction phases with
  | nil => exact h
  | cons phase rest ih =>
    rw [selectIn_cons] at h ⊢
    cases hverdicts : candidates.mapM
        (fun c => applicableIn ask c args phase) with
    | none =>
      rw [hverdicts] at h
      cases h
    | some verdicts =>
      rw [hverdicts] at h
      rw [mapM_mono (fun c v hc => applicableIn_mono hask hc) hverdicts]
      simp only at h ⊢
      split
      · rename_i hunknown
        rw [if_pos hunknown] at h
        exact h
      · rename_i hknown
        rw [if_neg hknown] at h
        split
        · rename_i hempty
          rw [if_pos hempty] at h
          exact ih h
        · rename_i hfound
          rw [if_neg hfound] at h
          cases hbest : mostSpecific ask (applicableOnes candidates verdicts) with
          | none =>
            rw [hbest] at h
            cases h
          | some best =>
            rw [hbest] at h
            rw [mostSpecific_mono hask hbest]
            exact h

theorem selectCandidate_mono (hask : OpenRecursion.Extends ask ask')
    (h : selectCandidate ask candidates args = some s) :
    selectCandidate ask' candidates args = some s := by
  unfold selectCandidate at h ⊢
  split
  · rename_i hempty
    rw [if_pos hempty] at h
    exact h
  · rename_i hsome
    rw [if_neg hsome] at h
    exact selectIn_mono hask h

/-!
# The applicable candidates of a phase
-/

def acceptsIn (ask : Ask) (args : List TypeRef) (phase : Phase) (c : Candidate) :
    Bool :=
  applicableIn ask c args phase == some (some true)

theorem map_snd_applicable {f : Candidate -> Option Verdict} (start : Nat)
    (h : List.Forall₂ (fun c v => f c = some v) candidates verdicts) :
    ((((candidates.zipIdx start).zip verdicts).filter
        (fun entry => entry.2 == some true)).map
        (fun entry => ((entry.1.2, entry.1.1) : Indexed))).map Prod.snd =
      candidates.filter (fun c => f c == some (some true)) := by
  induction h generalizing start with
  | nil => rfl
  | @cons c v rest verdicts hhead _ ih =>
    have hrest := ih (start + 1)
    rw [List.zipIdx_cons, List.zip_cons_cons, List.filter_cons, List.filter_cons, hhead]
    rcases v with _ | _ | _
    · exact hrest
    · exact hrest
    · exact congrArg (fun l => c :: l) hrest

theorem positions_applicable (hlength : candidates.length = verdicts.length) :
    ((applicableOnes candidates verdicts).map Prod.fst).Nodup := by
  have hsublist : List.Sublist ((applicableOnes candidates verdicts).map Prod.fst)
      (((candidates.zipIdx.zip verdicts).map Prod.fst).map Prod.snd) := by
    unfold applicableOnes
    rw [List.map_map, List.map_map]
    exact List.filter_sublist.map _
  have hall : (candidates.zipIdx.zip verdicts).map Prod.fst = candidates.zipIdx := by
    apply List.map_fst_zip
    rw [List.length_zipIdx, hlength]
  rw [hall, List.zipIdx_map_snd] at hsublist
  exact List.Nodup.sublist hsublist List.nodup_range'

theorem applicableOnes_eq
    (h : candidates.mapM (fun c => applicableIn ask c args phase) = some verdicts) :
    (applicableOnes candidates verdicts).map Prod.snd =
      candidates.filter (acceptsIn ask args phase) :=
  map_snd_applicable 0 (mapM_eq_some_iff.mp h)

theorem contenders_applicable (hdistinct : candidates.Nodup)
    (h : candidates.mapM (fun c => applicableIn ask c args phase) = some verdicts) :
    Contenders (applicableOnes candidates verdicts) where
  positions := positions_applicable (mapM_eq_some_iff.mp h).length_eq
  candidates := by
    rw [applicableOnes_eq h]
    exact hdistinct.filter _

theorem mem_verdicts_iff
    (h : candidates.mapM (fun c => applicableIn ask c args phase) = some verdicts) (v : Verdict) :
    v ∈ verdicts <-> exists c, c ∈ candidates ∧ applicableIn ask c args phase = some v := by
  have hforall := mapM_eq_some_iff.mp h
  constructor
  · intro hv
    exact forall₂_mem_right hforall hv
  · rintro ⟨c, hc, hverdict⟩
    rcases forall₂_mem_left hforall hc with ⟨v', hv', hverdict'⟩
    rw [hverdict] at hverdict'
    rw [Option.some.inj hverdict']
    exact hv'

theorem mapM_isSome_iff {α β : Type} {f : α -> Option β} {xs : List α} :
    (xs.mapM f).isSome = true <-> forall x, x ∈ xs -> (f x).isSome = true := by
  induction xs with
  | nil => simp
  | cons x rest ih =>
    cases hx : f x with
    | none => simp [hx]
    | some y =>
      cases hrest : rest.mapM f with
      | none =>
        rw [hrest] at ih
        simpa [hx, hrest] using ih
      | some ys =>
        rw [hrest] at ih
        simpa [hx, hrest] using ih

/-!
# One outcome for all orders that answer
-/

theorem selectIn_perm (hperm : List.Perm permuted candidates) (hdistinct : candidates.Nodup)
    (h : selectIn ask candidates args phases = some s)
    (h' : selectIn ask permuted args phases = some s') : s = s' := by
  induction phases with
  | nil =>
    cases h
    cases h'
    rw [hperm.length_eq]
  | cons phase rest ih =>
    rw [selectIn_cons] at h h'
    cases hverdicts : candidates.mapM (fun c => applicableIn ask c args phase) with
    | none =>
      rw [hverdicts] at h
      cases h
    | some verdicts =>
      cases hverdicts' : permuted.mapM
          (fun c => applicableIn ask c args phase) with
      | none =>
        rw [hverdicts'] at h'
        cases h'
      | some verdicts' =>
        rw [hverdicts] at h
        rw [hverdicts'] at h'
        simp only at h h'
        have hunknown : none ∈ verdicts' <-> none ∈ verdicts := by
          rw [mem_verdicts_iff hverdicts, mem_verdicts_iff hverdicts']
          simp only [hperm.mem_iff]
        have hsame : SameCandidates (applicableOnes candidates verdicts)
            (applicableOnes permuted verdicts') := by
          unfold SameCandidates
          rw [applicableOnes_eq hverdicts, applicableOnes_eq hverdicts']
          exact (hperm.filter _).symm
        by_cases hundecided : none ∈ verdicts
        · rw [if_pos hundecided] at h
          rw [if_pos (hunknown.mpr hundecided)] at h'
          cases h
          cases h'
          rfl
        · rw [if_neg hundecided] at h
          rw [if_neg (fun hmem => hundecided (hunknown.mp hmem))] at h'
          rw [← isEmpty_eq_of_length_eq hsame.length_eq] at h'
          split at h
          · rename_i hnone
            rw [if_pos hnone] at h'
            exact ih h h'
          · rename_i hfound
            rw [if_neg hfound] at h'
            cases hbest : mostSpecific ask (applicableOnes candidates verdicts) with
            | none =>
              rw [hbest] at h
              cases h
            | some best =>
              cases hbest' : mostSpecific ask
                  (applicableOnes permuted verdicts') with
              | none =>
                rw [hbest'] at h'
                cases h'
              | some best' =>
                have hwinner := mostSpecific_sameCandidates
                  (contenders_applicable hdistinct hverdicts)
                  (contenders_applicable (hperm.nodup_iff.mpr hdistinct)
                    hverdicts') hsame hbest hbest'
                rw [hbest] at h
                rw [hbest'] at h'
                cases best with
                | none =>
                  cases best' with
                  | none =>
                    cases h
                    cases h'
                    rfl
                  | some b' => cases hwinner
                | some b =>
                  cases best' with
                  | none => cases hwinner
                  | some b' =>
                    cases h
                    cases h'
                    rw [Option.some.inj hwinner]

theorem selectCandidate_perm (hperm : List.Perm permuted candidates) (hdistinct : candidates.Nodup)
    (h : selectCandidate ask candidates args = some s)
    (h' : selectCandidate ask permuted args = some s') : s = s' := by
  unfold selectCandidate at h h'
  rw [isEmpty_eq_of_length_eq hperm.length_eq] at h'
  split at h
  · rename_i hnone
    rw [if_pos hnone] at h'
    cases h
    cases h'
    rfl
  · rename_i hsome
    rw [if_neg hsome] at h'
    exact selectIn_perm hperm hdistinct h h'

/-!
# Outcomes
-/

/-- Selection ends with `s`, on some amount of fuel. -/
def Outcome (T : ClassTable) (candidates : List Candidate) (args : List TypeRef)
    (s : Selection) : Prop :=
  exists fuel, selectCandidate (OpenRecursion.run (assignableStep T) fuel)
    candidates args = some s

def Judged (T : ClassTable) (c : Candidate) (args : List TypeRef) (phase : Phase)
    (v : Verdict) : Prop :=
  exists fuel, applicableIn (OpenRecursion.run (assignableStep T) fuel) c args
    phase = some v

/-- The comparison of the parameters of `c` with those of `d` ends. -/
def Compared (T : ClassTable) (c d : Candidate) : Prop :=
  exists fuel, (comparison (OpenRecursion.run (assignableStep T) fuel) c d).isSome

/--
Two candidates of one arity, both applicable in the first phase that accepts
some candidate, no candidate being undecided up to that phase.
-/
structure Rivals (T : ClassTable) (candidates : List Candidate)
    (args : List TypeRef) (c d : Candidate) : Prop where
  left : c ∈ candidates
  right : d ∈ candidates
  different : c ≠ d
  arity : SameArity c d
  decided : exists earlier phase later,
    [Phase.strict, .loose, .varargs] = earlier ++ phase :: later ∧
      (forall before, before ∈ earlier -> forall e, e ∈ candidates ->
        Judged T e args before (some false)) ∧
      (forall e, e ∈ candidates -> exists b, Judged T e args phase (some b)) ∧
      Judged T c args phase (some true) ∧ Judged T d args phase (some true)

theorem run_extends {fuel fuel' : Nat} (hle : fuel ≤ fuel') :
    OpenRecursion.Extends (OpenRecursion.run (assignableStep T) fuel)
      (OpenRecursion.run (assignableStep T) fuel') :=
  fun _ _ h => OpenRecursion.run_mono (assignableStep_monotone T) hle h

theorem Judged.unique {w : Verdict} (hv : Judged T c args phase v) (hw : Judged T c args phase w) :
    v = w := by
  rcases hv with ⟨fuel, hv⟩
  rcases hw with ⟨fuel', hw⟩
  have hv' := applicableIn_mono (run_extends (Nat.le_max_left fuel fuel')) hv
  have hw' := applicableIn_mono (run_extends (Nat.le_max_right fuel fuel')) hw
  rw [hv'] at hw'
  exact Option.some.inj hw'

theorem outcome_perm (hperm : List.Perm permuted candidates) (hdistinct : candidates.Nodup)
    (h : Outcome T candidates args s) (h' : Outcome T permuted args s') : s = s' := by
  rcases h with ⟨fuel, h⟩
  rcases h' with ⟨fuel', h'⟩
  exact selectCandidate_perm hperm hdistinct
    (selectCandidate_mono (run_extends (Nat.le_max_left fuel fuel')) h)
    (selectCandidate_mono (run_extends (Nat.le_max_right fuel fuel')) h')

theorem Rivals.perm (hperm : List.Perm permuted candidates) (h : Rivals T candidates args c d) :
    Rivals T permuted args c d where
  left := hperm.mem_iff.mpr h.left
  right := hperm.mem_iff.mpr h.right
  different := h.different
  arity := h.arity
  decided := by
    simpa only [hperm.mem_iff] using h.decided

/-!
# Comparisons that end give every order an answer
-/

theorem dominance_isSome {others : List Indexed}
    (h : forall other, other ∈ others -> m.1 ≠ other.1 -> SameArity m.2 other.2 ->
      (comparison ask m.2 other.2).isSome = true) :
    (dominance ask m others).isSome = true := by
  induction others with
  | nil => rfl
  | cons first rest ih =>
    have hrest := ih (fun other hother => h other (List.mem_cons_of_mem first hother))
    rw [dominance_cons]
    split
    · exact hrest
    · rename_i hne
      split
      · rfl
      · rename_i harity
        have hfirst := h first List.mem_cons_self hne (not_not.mp harity)
        rcases Option.isSome_iff_exists.mp hfirst with ⟨v, hv⟩
        rw [hv]
        rcases v with _ | _ | _
        · rfl
        · rfl
        · exact hrest

theorem subtypingWinner_isSome (h : forall m, m ∈ rest -> (dominance ask m set).isSome = true)
    (best : Option Indexed) :
    (subtypingWinner ask set rest best).isSome = true := by
  induction rest generalizing best with
  | nil => rfl
  | cons m rest ih =>
    have hrest := ih (fun m' hm' => h m' (List.mem_cons_of_mem m hm'))
    rcases Option.isSome_iff_exists.mp (h m List.mem_cons_self) with ⟨verdict, hverdict⟩
    rw [subtypingWinner_cons, hverdict]
    cases verdict with
    | clash => rfl
    | loses => exact hrest best
    | wins =>
      cases best with
      | some b => rfl
      | none => exact hrest (some m)

theorem pick_isSome
    (h : forall m other, m ∈ set -> other ∈ set -> m.1 ≠ other.1 -> SameArity m.2 other.2 ->
      (comparison ask m.2 other.2).isSome = true) :
    (pick ask set).isSome = true := by
  have hsearch : (subtypingWinner ask set set none).isSome = true := by
    apply subtypingWinner_isSome
    intro m hm
    apply dominance_isSome
    intro other hother
    exact h m other hm hother
  rcases set with _ | ⟨first, _ | ⟨second, rest⟩⟩
  · exact hsearch
  · rfl
  · exact hsearch

theorem mostSpecific_isSome {applicable : List Indexed}
    (h : forall m other, m ∈ applicable -> other ∈ applicable -> m.1 ≠ other.1 ->
      SameArity m.2 other.2 -> (comparison ask m.2 other.2).isSome = true) :
    (mostSpecific ask applicable).isSome = true := by
  have hnarrow := (narrow_sublist applicable).subset
  rcases Option.isSome_iff_exists.mp (pick_isSome h) with ⟨best, hbest⟩
  rw [mostSpecific_eq, hbest]
  cases best with
  | some b => rfl
  | none =>
    simp only
    split
    · apply pick_isSome
      intro m other hm hother
      exact h m other (hnarrow hm) (hnarrow hother)
    · rfl

theorem exists_comparing_fuel (h : forall c d, Rivals T candidates args c d -> Compared T c d)
    (pairs : List (Candidate × Candidate)) :
    exists fuel, forall pair, pair ∈ pairs ->
      Rivals T candidates args pair.1 pair.2 ->
        (comparison (OpenRecursion.run (assignableStep T) fuel) pair.1
          pair.2).isSome = true := by
  induction pairs with
  | nil =>
    exists 0
    intro pair hpair
    cases hpair
  | cons first rest ih =>
    rcases ih with ⟨fuel, hfuel⟩
    have hgrow : forall {n n' : Nat} {c d : Candidate}, n ≤ n' ->
        (comparison (OpenRecursion.run (assignableStep T) n) c d).isSome = true ->
        (comparison (OpenRecursion.run (assignableStep T) n') c d).isSome = true := by
      intro n n' c d hle hsome
      rcases Option.isSome_iff_exists.mp hsome with ⟨v, hv⟩
      rw [comparison_mono (run_extends hle) hv]
      rfl
    by_cases hrivals : Rivals T candidates args first.1 first.2
    · rcases h first.1 first.2 hrivals with ⟨fuel', hfuel'⟩
      exists max fuel fuel'
      intro pair hpair hpairRivals
      cases List.mem_cons.mp hpair with
      | inl hfirst =>
        rw [hfirst]
        exact hgrow (Nat.le_max_right fuel fuel') hfuel'
      | inr hrest =>
        exact hgrow (Nat.le_max_left fuel fuel') (hfuel pair hrest hpairRivals)
    · exists fuel
      intro pair hpair hpairRivals
      cases List.mem_cons.mp hpair with
      | inl hfirst =>
        rw [hfirst] at hpairRivals
        exact absurd hpairRivals hrivals
      | inr hrest => exact hfuel pair hrest hpairRivals

/-- One order has answered up to here and the other is given the comparisons. -/
theorem selectIn_answers {fuel : Nat} (hperm : List.Perm permuted candidates)
    (hcompared : forall c d, Rivals T candidates args c d ->
      (comparison (OpenRecursion.run (assignableStep T) fuel) c d).isSome = true)
    (hdistinct : candidates.Nodup) {earlier : List Phase}
    (hphases : [Phase.strict, .loose, .varargs] = earlier ++ phases)
    (hearlier : forall before, before ∈ earlier -> forall e, e ∈ candidates ->
      Judged T e args before (some false))
    (h : selectIn (OpenRecursion.run (assignableStep T) fuel) candidates args phases = some s) :
    (selectIn (OpenRecursion.run (assignableStep T) fuel) permuted args
      phases).isSome = true := by
  induction phases generalizing earlier with
  | nil => rfl
  | cons phase rest ih =>
    rw [selectIn_cons] at h ⊢
    cases hverdicts : candidates.mapM (fun c => applicableIn
        (OpenRecursion.run (assignableStep T) fuel) c args phase) with
    | none =>
      rw [hverdicts] at h
      cases h
    | some verdicts =>
      have hjudged : (permuted.mapM (fun c => applicableIn
          (OpenRecursion.run (assignableStep T) fuel) c args phase)).isSome = true := by
        have hall := mapM_isSome_iff.mp
          (Option.isSome_iff_exists.mpr ⟨verdicts, hverdicts⟩)
        apply mapM_isSome_iff.mpr
        intro c hc
        exact hall c (hperm.mem_iff.mp hc)
      rcases Option.isSome_iff_exists.mp hjudged with ⟨verdicts', hverdicts'⟩
      rw [hverdicts] at h
      rw [hverdicts']
      simp only at h ⊢
      split
      · rfl
      · rename_i hknown
        have hdecided : forall e, e ∈ candidates -> exists b, applicableIn
            (OpenRecursion.run (assignableStep T) fuel) e args phase =
              some (some b) := by
          intro e he
          have hsome := mapM_isSome_iff.mp hjudged e (hperm.mem_iff.mpr he)
          rcases Option.isSome_iff_exists.mp hsome with ⟨v, hv⟩
          cases v with
          | none =>
            exact absurd ((mem_verdicts_iff hverdicts' none).mpr
              ⟨e, hperm.mem_iff.mpr he, hv⟩) hknown
          | some b => exact ⟨b, hv⟩
        split
        · rename_i hempty
          have hrejected : forall e, e ∈ candidates -> applicableIn
              (OpenRecursion.run (assignableStep T) fuel) e args phase =
                some (some false) := by
            intro e he
            rcases hdecided e he with ⟨b, hb⟩
            cases b with
            | false => exact hb
            | true =>
              have hmem : e ∈ permuted.filter (acceptsIn
                  (OpenRecursion.run (assignableStep T) fuel) args phase) :=
                List.mem_filter.mpr ⟨hperm.mem_iff.mpr he, beq_iff_eq.mpr hb⟩
              rw [← applicableOnes_eq hverdicts', List.isEmpty_iff.mp hempty] at hmem
              cases hmem
          have hknown' : none ∉ verdicts := by
            rw [mem_verdicts_iff hverdicts]
            rintro ⟨e, he, hnone⟩
            rw [hrejected e he] at hnone
            cases hnone
          have hempty' : (applicableOnes candidates verdicts).isEmpty = true := by
            rw [List.isEmpty_iff, ← List.map_eq_nil_iff (f := Prod.snd),
              applicableOnes_eq hverdicts, List.filter_eq_nil_iff]
            intro e he haccepts
            rw [acceptsIn, hrejected e he] at haccepts
            cases haccepts
          rw [if_neg hknown', if_pos hempty'] at h
          have hphases' : [Phase.strict, .loose, .varargs] =
              (earlier ++ [phase]) ++ rest := by
            rw [hphases, List.append_assoc]
            rfl
          apply ih hphases' _ h
          intro before hbefore e he
          cases List.mem_append.mp hbefore with
          | inl hold => exact hearlier before hold e he
          | inr hnew =>
            rw [List.mem_singleton.mp hnew]
            exact ⟨fuel, hrejected e he⟩
        · rename_i hfound
          have hbest : (mostSpecific (OpenRecursion.run (assignableStep T) fuel)
              (applicableOnes permuted verdicts')).isSome = true := by
            apply mostSpecific_isSome
            intro m other hm hother hne harity
            have hcontenders := contenders_applicable
              (hperm.nodup_iff.mpr hdistinct) hverdicts'
            have haccepted : forall m', m' ∈ applicableOnes permuted verdicts' ->
                m'.2 ∈ candidates ∧ applicableIn
                  (OpenRecursion.run (assignableStep T) fuel) m'.2 args phase =
                    some (some true) := by
              intro m' hm'
              have hmem : m'.2 ∈ permuted.filter (acceptsIn
                  (OpenRecursion.run (assignableStep T) fuel) args phase) := by
                rw [← applicableOnes_eq hverdicts']
                exact List.mem_map_of_mem hm'
              rcases List.mem_filter.mp hmem with ⟨hin, haccepts⟩
              exact ⟨hperm.mem_iff.mp hin, beq_iff_eq.mp haccepts⟩
            apply hcompared
            constructor
            · exact (haccepted m hm).left
            · exact (haccepted other hother).left
            · intro hsame
              exact hne ((hcontenders.position_eq_iff hm hother).mpr hsame)
            · exact harity
            · refine ⟨earlier, phase, rest, hphases, hearlier, ?_, ?_, ?_⟩
              · intro e he
                rcases hdecided e he with ⟨b, hb⟩
                exact ⟨b, fuel, hb⟩
              · exact ⟨fuel, (haccepted m hm).right⟩
              · exact ⟨fuel, (haccepted other hother).right⟩
          rcases Option.isSome_iff_exists.mp hbest with ⟨best, hbest⟩
          rw [hbest]
          cases best <;> rfl

theorem outcome_of_compared (hperm : List.Perm permuted candidates) (hdistinct : candidates.Nodup)
    (hcompared : forall c d, Rivals T candidates args c d -> Compared T c d)
    (h : Outcome T candidates args s) : Outcome T permuted args s := by
  rcases h with ⟨fuel, h⟩
  rcases exists_comparing_fuel hcompared (candidates.product candidates) with
    ⟨fuel', hfuel'⟩
  have hanswers : (selectCandidate (OpenRecursion.run (assignableStep T)
      (max fuel fuel')) permuted args).isSome = true := by
    have h' := selectCandidate_mono (run_extends (Nat.le_max_left fuel fuel')) h
    unfold selectCandidate at h' ⊢
    have hempty : permuted.isEmpty = candidates.isEmpty := by
      rw [Bool.eq_iff_iff, List.isEmpty_iff_length_eq_zero,
        List.isEmpty_iff_length_eq_zero, hperm.length_eq]
    rw [hempty]
    split
    · rfl
    · rename_i hsome
      rw [if_neg hsome] at h'
      apply selectIn_answers hperm _ hdistinct (List.nil_append _).symm _ h'
      · intro c d hrivals
        have hpair : (c, d) ∈ candidates.product candidates :=
          List.mem_product.mpr ⟨hrivals.left, hrivals.right⟩
        rcases Option.isSome_iff_exists.mp (hfuel' (c, d) hpair hrivals) with ⟨v, hv⟩
        rw [comparison_mono (run_extends (Nat.le_max_right fuel fuel')) hv]
        rfl
      · intro before hbefore
        cases hbefore
  rcases Option.isSome_iff_exists.mp hanswers with ⟨s', hs'⟩
  have houtcome : Outcome T permuted args s' := ⟨_, hs'⟩
  rw [outcome_perm hperm hdistinct ⟨fuel, h⟩ houtcome]
  exact houtcome

/-!
# An order that needs a given comparison
-/

theorem selectIn_passes {earlier later : List Phase}
    (hearlier : forall before, before ∈ earlier -> forall e, e ∈ candidates -> forall v,
      applicableIn ask e args before = some v -> v = some false)
    (h : selectIn ask candidates args (earlier ++ later) = some s) :
    selectIn ask candidates args later = some s := by
  induction earlier with
  | nil => exact h
  | cons phase rest ih =>
    apply ih (fun before hbefore => hearlier before (List.mem_cons_of_mem phase hbefore))
    rw [List.cons_append, selectIn_cons] at h
    cases hverdicts : candidates.mapM (fun c => applicableIn ask c args phase) with
    | none =>
      rw [hverdicts] at h
      cases h
    | some verdicts =>
      rw [hverdicts] at h
      have hrejected := hearlier phase List.mem_cons_self
      have hknown : none ∉ verdicts := by
        rw [mem_verdicts_iff hverdicts]
        rintro ⟨e, he, hnone⟩
        cases hrejected e he none hnone
      have hempty : (applicableOnes candidates verdicts).isEmpty = true := by
        rw [List.isEmpty_iff, ← List.map_eq_nil_iff (f := Prod.snd),
          applicableOnes_eq hverdicts, List.filter_eq_nil_iff]
        intro e he haccepts
        cases hrejected e he _ (beq_iff_eq.mp haccepts)
      simp only at h
      rw [if_neg hknown, if_pos hempty] at h
      exact h

theorem comparison_of_first {other : Indexed} (hne : m.1 ≠ other.1) (harity : SameArity m.2 other.2)
    (h : mostSpecific ask (m :: other :: rest) = some result) :
    (comparison ask m.2 other.2).isSome = true := by
  cases hcomparison : comparison ask m.2 other.2 with
  | some v => rfl
  | none =>
    have hdominance : dominance ask m (m :: other :: rest) = none := by
      rw [dominance_cons, if_pos rfl, dominance_cons, if_neg hne,
        if_neg (fun hclash => hclash harity), hcomparison]
    have hpick : pick ask (m :: other :: rest) = none := by
      show subtypingWinner ask _ (m :: other :: rest) none = none
      rw [subtypingWinner_cons, hdominance]
    rw [mostSpecific_eq, hpick] at h
    cases h

theorem compared_of_first_rivals {rest : List Candidate} (hdistinct : (c :: d :: rest).Nodup)
    (hrivals : Rivals T (c :: d :: rest) args c d) (h : Outcome T (c :: d :: rest) args s) :
    Compared T c d := by
  rcases h with ⟨fuel, h⟩
  rcases hrivals.decided with ⟨earlier, phase, later, hphases, hearlier, hjudged, hc, hd⟩
  have hat : selectIn (OpenRecursion.run (assignableStep T) fuel) (c :: d :: rest)
      args (phase :: later) = some s := by
    have hall : selectIn (OpenRecursion.run (assignableStep T) fuel) (c :: d :: rest)
        args (earlier ++ phase :: later) = some s := by
      rw [← hphases]
      exact h
    apply selectIn_passes _ hall
    intro before hbefore e he v hv
    exact Judged.unique ⟨fuel, hv⟩ (hearlier before hbefore e he)
  exists fuel
  rw [selectIn_cons] at hat
  cases hverdicts : (c :: d :: rest).mapM (fun e => applicableIn
      (OpenRecursion.run (assignableStep T) fuel) e args phase) with
  | none =>
    rw [hverdicts] at hat
    cases hat
  | some verdicts =>
    rw [hverdicts] at hat
    have hanswered : forall e, e ∈ c :: d :: rest -> forall v,
        Judged T e args phase v -> applicableIn
          (OpenRecursion.run (assignableStep T) fuel) e args phase = some v := by
      intro e he v hv
      have hsome := mapM_isSome_iff.mp
        (Option.isSome_iff_exists.mpr ⟨verdicts, hverdicts⟩) e he
      rcases Option.isSome_iff_exists.mp hsome with ⟨w, hw⟩
      rw [hw, Judged.unique ⟨fuel, hw⟩ hv]
    have hknown : none ∉ verdicts := by
      rw [mem_verdicts_iff hverdicts]
      rintro ⟨e, he, hnone⟩
      rcases hjudged e he with ⟨b, hb⟩
      cases Judged.unique ⟨fuel, hnone⟩ hb
    have hc' : acceptsIn (OpenRecursion.run (assignableStep T) fuel) args phase c = true :=
      beq_iff_eq.mpr (hanswered c List.mem_cons_self _ hc)
    have hd' : acceptsIn (OpenRecursion.run (assignableStep T) fuel) args phase d = true :=
      beq_iff_eq.mpr (hanswered d (List.mem_cons_of_mem c List.mem_cons_self) _ hd)
    have hfound := applicableOnes_eq hverdicts
    rw [List.filter_cons_of_pos hc', List.filter_cons_of_pos hd'] at hfound
    have hcontenders := contenders_applicable hdistinct hverdicts
    simp only at hat
    rw [if_neg hknown] at hat
    rcases happlicable : applicableOnes (c :: d :: rest) verdicts with
      _ | ⟨m, _ | ⟨other, more⟩⟩
    · rw [happlicable] at hfound
      cases hfound
    · rw [happlicable] at hfound
      cases hfound
    · rw [happlicable] at hfound hcontenders hat
      have hm : m.2 = c := (List.cons.inj hfound).left
      have hother : other.2 = d := (List.cons.inj (List.cons.inj hfound).right).left
      rw [if_neg (by simp)] at hat
      cases hbest : mostSpecific (OpenRecursion.run (assignableStep T) fuel)
          (m :: other :: more) with
      | none =>
        rw [hbest] at hat
        cases hat
      | some best =>
        rw [← hm, ← hother]
        apply comparison_of_first _ _ hbest
        · intro hposition
          have hsame := (hcontenders.position_eq_iff List.mem_cons_self
            (List.mem_cons_of_mem m List.mem_cons_self)).mp hposition
          rw [hm, hother] at hsame
          exact hrivals.different hsame
        · rw [hm, hother]
          exact hrivals.arity

/-!
# Order independence
-/

def Candidate.erasedSignature (c : Candidate) : Option (List TypeRef) :=
  c.metadata.parameters.map (fun params => params.map TypeRef.erase)

/--
Orders that answer have the same outcome.  The outcome does not depend on the
order at all exactly when, some order having an outcome, the parameters of any
two rival candidates have comparisons that end.
-/
theorem outcome_order_independent_iff (T : ClassTable) (candidates : List Candidate)
    (args : List TypeRef)
    (hsignatures : (candidates.map Candidate.erasedSignature).Nodup) :
    (forall permuted s s', List.Perm permuted candidates ->
      Outcome T candidates args s -> Outcome T permuted args s' -> s = s') ∧
    ((forall permuted s, List.Perm permuted candidates ->
        (Outcome T permuted args s <-> Outcome T candidates args s)) <->
      ((exists permuted s, List.Perm permuted candidates ∧ Outcome T permuted args s) ->
        forall c d, Rivals T candidates args c d -> Compared T c d)) := by
  have hdistinct : candidates.Nodup := hsignatures.of_map _
  constructor
  · intro permuted s s' hperm h h'
    exact outcome_perm hperm hdistinct h h'
  · constructor
    · rintro hindependent ⟨permuted, s, hperm, h⟩ c d hrivals
      have hd : d ∈ candidates.erase c :=
        (List.mem_erase_of_ne (fun heq => hrivals.different heq.symm)).mpr hrivals.right
      have hfront : List.Perm (c :: d :: (candidates.erase c).erase d) candidates :=
        ((List.perm_cons_erase hrivals.left).trans
          ((List.perm_cons_erase hd).cons c)).symm
      have hfirst : Outcome T (c :: d :: (candidates.erase c).erase d) args s :=
        (hindependent _ s hfront).mpr ((hindependent permuted s hperm).mp h)
      exact compared_of_first_rivals (hfront.nodup_iff.mpr hdistinct)
        (hrivals.perm hfront) hfirst
    · intro hcompared permuted s hperm
      constructor
      · intro h
        have hback := hcompared ⟨permuted, s, hperm, h⟩
        apply outcome_of_compared hperm.symm (hperm.nodup_iff.mpr hdistinct) _ h
        intro c d hrivals
        exact hback c d (hrivals.perm hperm.symm)
      · intro h
        exact outcome_of_compared hperm hdistinct
          (hcompared ⟨candidates, s, List.Perm.refl _, h⟩) h

namespace ThreeOverloads

open JavaVsixLite.Contravariant

/-- `m(t)` -/
def takes (t : TypeRef) : Candidate where
  metadata := { parameters := some [t], typeParameters := [], isVarargs := false }
  env := []
  inferred := []

def takesC : Candidate := takes refC

def takesSuperC : Candidate := takes superC

def takesString : Candidate := takes (TypeRef.ofName "java.lang.String")

def takesRawN : Candidate := takes (.named classN [])

theorem judged_null (c : Candidate)
    (hc : c ∈ [takesC, takesSuperC, takesString]) :
    Judged table c [.null] .strict (some true) := by
  exists 1
  simp only [List.mem_cons, List.not_mem_nil, or_false] at hc
  rcases hc with hc | hc | hc
  · rw [hc]
    decide
  · rw [hc]
    decide
  · rw [hc]
    decide

theorem superC_first_rivals :
    Rivals table [takesC, takesSuperC, takesString] [.null] takesC takesSuperC where
  left := by decide
  right := by decide
  different := by decide
  arity := rfl
  decided := by
    refine ⟨[], .strict, [.loose, .varargs], rfl, ?_, ?_, ?_, ?_⟩
    · intro before hbefore
      cases hbefore
    · intro e he
      exact ⟨true, judged_null e he⟩
    · exact judged_null takesC (by decide)
    · exact judged_null takesSuperC (by decide)

theorem not_compared : ¬ Compared table takesC takesSuperC := by
  rintro ⟨fuel, h⟩
  cases hrun : OpenRecursion.run (assignableStep table) fuel (refC, superC) with
  | none =>
    have hnone : comparison (OpenRecursion.run (assignableStep table) fuel) takesC
        takesSuperC = none := by
      show allProved _ false [(refC, superC)] = none
      rw [allProved, hrun]
    rw [hnone] at h
    cases h
  | some v => exact comparison_diverges ⟨v, fuel, hrun⟩

/--
With `m(C)`, `m(String)`, `m(N<? super C>)` in this order `m(null)` is ambiguous:
`String` is enough to see that `C` does not win.  With `N<? super C>` before
`String` the first comparison never ends.
-/
theorem outcome_depends_on_order :
    ([takesC, takesString, takesSuperC].map Candidate.erasedSignature).Nodup ∧
      List.Perm [takesC, takesSuperC, takesString] [takesC, takesString, takesSuperC] ∧
      Outcome table [takesC, takesString, takesSuperC] [.null] .ambiguous ∧
      ¬ exists s, Outcome table [takesC, takesSuperC, takesString] [.null] s := by
  refine ⟨by decide, by decide, ⟨2, by decide⟩, ?_⟩
  rintro ⟨s, h⟩
  exact not_compared (compared_of_first_rivals (by decide) superC_first_rivals h)

/-- `m(C)` is selected over `m(N)` for a `C`, whichever of them comes first. -/
theorem outcome_of_two :
    Outcome table [takesRawN, takesC] [refC] (.selected takesC .strict) := by
  have hcompared : forall c d, Rivals table [takesC, takesRawN] [refC] c d ->
      Compared table c d := by
    intro c d hrivals
    exists 2
    have hc := hrivals.left
    have hd := hrivals.right
    simp only [List.mem_cons, List.not_mem_nil, or_false] at hc hd
    rcases hc with hc | hc
    · rcases hd with hd | hd
      · rw [hc, hd]
        decide
      · rw [hc, hd]
        decide
    · rcases hd with hd | hd
      · rw [hc, hd]
        decide
      · rw [hc, hd]
        decide
  have horders := (outcome_order_independent_iff table [takesC, takesRawN] [refC]
    (by decide)).right.mpr (fun _ => hcompared)
  exact (horders [takesRawN, takesC] _ (List.Perm.swap _ _ _)).mpr ⟨2, by decide⟩

end ThreeOverloads

end JavaVsixLite
