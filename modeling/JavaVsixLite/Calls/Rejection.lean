import JavaVsixLite.Calls.Inference
import JavaVsixLite.Subtyping.Knowledge
import JavaVsixLite.Subtyping.Origins

/-!
# Rejected candidates

A candidate is rejected when some argument does not fit its parameter under the
bindings inferred for the open variables.  It is rejected under every binding as
long as some argument is refused already with the open variables replaced by the
unknown type, by comparisons that no unknown part decides.
-/

namespace JavaVsixLite

open Foundation
open Foundation.Verdict
open TypeRef

/-!
# The pairs a phase checks
-/

inductive ArityForm where
  | fixed
  | variableArity

def Phase.form : Phase -> ArityForm
  | .strict => .fixed
  | .loose => .fixed
  | .varargs => .variableArity

def ArityForm.pairs (params args : List TypeRef) :
    ArityForm -> Option (List Question)
  | .fixed =>
    if params.length = args.length then some (args.zip params) else none
  | .variableArity =>
    match params.getLast? with
    | some (.array element) =>
      some (varargsPairs params.dropLast element args)
    | _ => none

/-- The form does not fit the number of arguments, or is not available. -/
def ArityForm.excluded (c : Candidate) (params : Nat) (args : Nat) :
    ArityForm -> Prop
  | .fixed => params ≠ args
  | .variableArity => c.metadata.isVarargs = false ∨ args + 1 < params

theorem mapM_eq_some_iff {α β : Type} {f : α -> Option β} {xs : List α}
    {ys : List β} :
    xs.mapM f = some ys <-> List.Forall₂ (fun x y => f x = some y) xs ys := by
  induction xs generalizing ys with
  | nil => cases ys <;> simp
  | cons x rest ih =>
    cases hx : f x with
    | none => cases ys <;> simp [hx]
    | some y =>
      cases hrest : rest.mapM f with
      | none =>
        cases ys with
        | nil => simp [hx, hrest]
        | cons y' rest' => simp [hx, hrest, ← ih]
      | some rest' =>
        cases ys with
        | nil => simp [hx, hrest]
        | cons y' rest'' => simp [hx, hrest, ← ih]

variable {T : ClassTable} {ask : Ask}

variable {q : Question} {phase : Phase} {params args : List TypeRef} {c : Candidate} {n : Nat}
  {env : TypeEnv} {fuel : Nat} {candidates : List Candidate}

theorem convertible_loose_of_strict (h : convertible ask .strict q = some (some true)) :
    convertible ask .loose q = some (some true) := by
  rcases q with ⟨a, e⟩
  cases a <;> cases e <;> first | exact h | cases h

theorem convertible_loose_of_phase (h : convertible ask phase q = some (some true)) :
    convertible ask .loose q = some (some true) := by
  cases phase with
  | strict => exact convertible_loose_of_strict h
  | loose => exact h
  | varargs => cases q with | mk a e => cases a <;> cases e <;> exact h

theorem applicableVarargs_eq {v : Bool} (h : applicableVarargs ask params args = some (some v)) :
    exists element, params.getLast? = some (.array element) ∧
      exists checks, List.Forall₂
        (fun q check => convertible ask .loose q = some check)
        (varargsPairs params.dropLast element args) checks ∧
        allProved some false checks = some (some v) := by
  unfold applicableVarargs at h
  cases hlast : params.getLast? with
  | none =>
    rw [hlast] at h
    cases h
  | some last =>
    rw [hlast] at h
    cases last with
    | array element =>
      simp only at h
      cases hchecks : (varargsPairs params.dropLast element args).mapM
          (convertible ask .loose) with
      | none =>
        rw [hchecks] at h
        cases h
      | some checks =>
        rw [hchecks] at h
        exact ⟨element, rfl, checks, mapM_eq_some_iff.mp hchecks, h⟩
    | _ => cases h

theorem forall_pairs_of_varargs (h : applicableVarargs ask params args = some (some true)) :
    exists ps, ArityForm.variableArity.pairs params args = some ps ∧
      forall q, q ∈ ps -> convertible ask .loose q = some (some true) := by
  rcases applicableVarargs_eq h with ⟨element, hlast, checks, hchecks, hall⟩
  refine ⟨varargsPairs params.dropLast element args, ?_, ?_⟩
  · simp [ArityForm.pairs, hlast]
  · intro q hq
    rcases forall₂_mem_left hchecks hq with ⟨check, hcheck, hq'⟩
    rw [hq']
    exact (allProved_true hall).right check hcheck

theorem exists_pair_of_varargs (h : applicableVarargs ask params args = some (some false)) :
    exists ps, ArityForm.variableArity.pairs params args = some ps ∧
      exists q, q ∈ ps ∧ convertible ask .loose q = some (some false) := by
  rcases applicableVarargs_eq h with ⟨element, hlast, checks, hchecks, hall⟩
  refine ⟨varargsPairs params.dropLast element args, ?_, ?_⟩
  · simp [ArityForm.pairs, hlast]
  · rcases allProved_false hall with ⟨check, hcheck, hfalse⟩
    rcases forall₂_mem_right hchecks hcheck with ⟨q, hq, hq'⟩
    exact ⟨q, hq, hq'.trans hfalse⟩

theorem pairs_of_applicable (h : applicableIn ask c args phase = some (some true)) :
    exists params, c.parameterTypes = some params ∧
      ¬ phase.form.excluded c params.length args.length ∧
      exists ps, phase.form.pairs params args = some ps ∧
        forall q, q ∈ ps -> convertible ask .loose q = some (some true) := by
  unfold applicableIn at h
  cases hparams : c.parameterTypes with
  | none =>
    rw [hparams] at h
    cases h
  | some params =>
    rw [hparams] at h
    simp only at h
    refine ⟨params, rfl, ?_⟩
    split at h
    · split at h <;> cases h
    · split at h
      · rename_i phase' _
        split at h
        · cases h
        · rename_i hexcluded
          have hfits : c.metadata.isVarargs = true ∧
              ¬ args.length + 1 < params.length := by
            simpa using hexcluded
          constructor
          · intro hexcl
            rcases hexcl with hnot | hlt
            · rw [hfits.left] at hnot
              cases hnot
            · exact hfits.right hlt
          · exact forall_pairs_of_varargs h
      · rename_i hphase
        split at h
        · cases h
        · rename_i hlength
          have hsame : params.length = args.length := by
            simpa using hlength
          have hform : phase.form = .fixed := by
            cases phase with
            | varargs => exact absurd rfl hphase
            | _ => rfl
          rw [hform]
          constructor
          · intro hne
            exact hne hsame
          · refine ⟨args.zip params, ?_, ?_⟩
            · simp [ArityForm.pairs, hsame]
            · intro q hq
              exact convertible_loose_of_phase
                ((allProved_true h).right q hq)

theorem excluded_of_arityExcluded (hparams : c.parameterTypes = some params)
    (h : arityExcluded c n = true) (form : ArityForm) :
    form.excluded c params.length n := by
  rcases Option.map_eq_some_iff.mp hparams with ⟨declared, hdeclared, hmap⟩
  subst hmap
  unfold arityExcluded at h
  rw [hdeclared] at h
  cases hvarargs : c.metadata.isVarargs with
  | false =>
    have hne : declared.length ≠ n := by
      simpa [hvarargs] using h
    cases form with
    | fixed => simpa [ArityForm.excluded] using hne
    | variableArity => exact Or.inl hvarargs
  | true =>
    have hlt : n + 1 < declared.length := by
      simpa [hvarargs] using h
    cases form with
    | fixed =>
      simp only [ArityForm.excluded, List.length_map]
      omega
    | variableArity =>
      exact Or.inr (by simpa using hlt)

theorem pair_of_rejected (hphase : phase ≠ .strict)
    (h : applicableIn ask c args phase = some (some false)) :
    exists params, c.parameterTypes = some params ∧
      (phase.form.excluded c params.length args.length ∨
        exists ps, phase.form.pairs params args = some ps ∧
          exists q, q ∈ ps ∧ convertible ask .loose q = some (some false)) := by
  unfold applicableIn at h
  cases hparams : c.parameterTypes with
  | none =>
    rw [hparams] at h
    cases h
  | some params =>
    rw [hparams] at h
    simp only at h
    refine ⟨params, rfl, ?_⟩
    split at h
    · split at h
      · rename_i hexcluded
        exact Or.inl (excluded_of_arityExcluded hparams hexcluded phase.form)
      · cases h
    · cases phase with
      | strict => exact absurd rfl hphase
      | loose =>
        simp only at h
        split at h
        · rename_i hlength
          exact Or.inl (by simpa [Phase.form, ArityForm.excluded] using hlength)
        · rename_i hlength
          have hsame : params.length = args.length := by
            simpa using hlength
          rcases allProved_false h with ⟨q, hq, hfalse⟩
          refine Or.inr ⟨args.zip params, ?_, q, hq, hfalse⟩
          simp [Phase.form, ArityForm.pairs, hsame]
      | varargs =>
        simp only at h
        split at h
        · rename_i hexcluded
          exact Or.inl (by
            simpa [Phase.form, ArityForm.excluded] using hexcluded)
        · exact Or.inr (exists_pair_of_varargs h)

/-!
# Open variables
-/

/-- Bindings for the open variables of a candidate. -/
def bindAll (vars : List TypeVariableId) (assignment : TypeVariableId -> TypeRef) :
    TypeEnv :=
  vars.map (fun v => (v, assignment v))

/-- The open variables read as types that are not understood. -/
def blank : TypeVariableId -> TypeRef :=
  fun _ => .unknown

def Candidate.withEnv (c : Candidate) (env : TypeEnv) : Candidate :=
  { c with env := env }

/-- No parameter mentions an open variable. -/
def Candidate.Settled (c : Candidate) (vars : List TypeVariableId) : Prop :=
  forall declared, c.metadata.parameters = some declared ->
    forall t, t ∈ declared -> forall v, v ∈ t.mentioned -> v ∉ vars

/-- Some argument is refused by what was understood alone. -/
def RefusedIn (T : ClassTable) (c : Candidate) (args : List TypeRef) (form : ArityForm) : Prop :=
  exists params, c.parameterTypes = some params ∧
    (form.excluded c params.length args.length ∨
      exists ps, form.pairs params args = some ps ∧
        exists q, q ∈ ps ∧ exists fuel,
          convertible (OpenRecursion.run (confusions.step T) fuel) .loose q = some (some false))

/-- Nothing is open, or both forms refuse already with the open variables unknown. -/
def RefusedAnyway (T : ClassTable) (c : Candidate) (base : TypeEnv)
    (vars : List TypeVariableId) (args : List TypeRef) : Prop :=
  c.Settled vars ∨
    forall form, RefusedIn T (c.withEnv (base ++ bindAll vars blank)) args form

theorem bindAll_refines (base : TypeEnv) (vars : List TypeVariableId)
    (assignment : TypeVariableId -> TypeRef) :
    List.Forall₂ RefinesEntry (base ++ bindAll vars blank)
      (base ++ bindAll vars assignment) := by
  apply List.rel_append
  · exact List.forall₂_same.mpr (fun entry _ => ⟨rfl, refines_refl entry.2⟩)
  · unfold bindAll
    rw [List.forall₂_map_left_iff, List.forall₂_map_right_iff]
    exact List.forall₂_same.mpr (fun v _ => ⟨rfl, refines_unknown _⟩)

def RefinesParameter (q q' : Question) : Prop :=
  q.1 = q'.1 ∧ Refines q.2 q'.2

theorem zip_refinesParameter (args : List TypeRef) {params' : List TypeRef}
    (h : List.Forall₂ Refines params params') :
    List.Forall₂ RefinesParameter (args.zip params) (args.zip params') := by
  induction h generalizing args with
  | nil => simp
  | cons hhead _ ih =>
    cases args with
    | nil => exact .nil
    | cons arg rest => exact .cons ⟨rfl, hhead⟩ (ih rest)

theorem pairs_refine {form : ArityForm} {declared : List TypeRef} {env' : TypeEnv}
    (henv : List.Forall₂ RefinesEntry env env') {ps : List Question}
    (h : form.pairs (declared.map (substitute env)) args = some ps) :
    exists ps', form.pairs (declared.map (substitute env')) args = some ps' ∧
      List.Forall₂ RefinesParameter ps ps' := by
  have hrefines : forall ts : List TypeRef, List.Forall₂ Refines
      (ts.map (substitute env)) (ts.map (substitute env')) := by
    intro ts
    rw [List.forall₂_map_left_iff, List.forall₂_map_right_iff]
    exact List.forall₂_same.mpr (fun t _ => substitute_refines henv t)
  cases form with
  | fixed =>
    simp only [ArityForm.pairs, List.length_map] at h ⊢
    split at h
    · rename_i hlength
      cases h
      refine ⟨_, if_pos hlength, zip_refinesParameter args (hrefines declared)⟩
    · cases h
  | variableArity =>
    simp only [ArityForm.pairs, List.getLast?_map] at h ⊢
    cases hlast : declared.getLast? with
    | none =>
      rw [hlast] at h
      cases h
    | some last =>
      rw [hlast] at h
      simp only [Option.map_some] at h ⊢
      have hrefinesLast := substitute_refines henv last
      cases hblank : last.substitute env with
      | array element =>
        rw [hblank] at h hrefinesLast
        cases h
        rcases refines_cases hrefinesLast with hunknown | hcongruent
        · cases hunknown
        · generalize last.substitute env' = last' at *
          cases hcongruent with
          | array helement =>
            refine ⟨_, rfl, ?_⟩
            simp only [varargsPairs, ← List.map_dropLast, List.length_map]
            apply List.rel_append
            · exact zip_refinesParameter args (hrefines declared.dropLast)
            · rw [List.forall₂_map_left_iff, List.forall₂_map_right_iff]
              exact List.forall₂_same.mpr (fun arg _ => ⟨rfl, helement⟩)
      | _ =>
        rw [hblank] at h
        cases h

theorem convertible_loose_cases (ask : Ask) (q : Question) :
    (exists a p, q = (.primitive a, .primitive p)) ∨
      convertible ask .loose q = ask q := by
  rcases q with ⟨a, e⟩
  cases a with
  | primitive a =>
    cases e with
    | primitive p => exact Or.inl ⟨a, p, rfl⟩
    | _ => exact Or.inr rfl
  | _ => cases e <;> exact Or.inr rfl

theorem convertible_refined {fuel' : Nat} {q' : Question}
    (hfalse : convertible (OpenRecursion.run (confusions.step T) fuel) .loose q =
      some (some false))
    (hrefines : RefinesParameter q q') :
    convertible (OpenRecursion.run (assignableStep T) fuel') .loose q' ≠
      some (some true) := by
  rcases q with ⟨a, e⟩
  rcases q' with ⟨a', e'⟩
  rcases hrefines with ⟨heq, he⟩
  simp only at heq he
  subst heq
  rcases convertible_loose_cases
      (OpenRecursion.run (confusions.step T) fuel) (a, e) with hprim | hask
  · rcases hprim with ⟨x, y, hpair⟩
    cases hpair
    have hsame : e' = .primitive y := eq_of_refines rfl he
    rw [hsame]
    intro htrue
    have hdecided : (some (some false) : Option Verdict) = some (some true) :=
      hfalse.symm.trans htrue
    cases hdecided
  · rw [hask] at hfalse
    rcases convertible_loose_cases
        (OpenRecursion.run (assignableStep T) fuel') (a, e') with hprim | hask'
    · rcases hprim with ⟨x, y, hpair⟩
      cases hpair
      -- the parameter was unknown or this primitive; neither was assigned
      rcases refines_cases he with hunknown | hcongruent
      · subst hunknown
        cases fuel <;> cases hfalse
      · cases hcongruent
        intro htrue
        cases fuel with
        | zero => cases hfalse
        | succ fuel =>
          have hverdict : primitiveAssignable x y = some false :=
            Option.some.inj hfalse
          have haccept : (x == y || x.widensTo y) = true :=
            Option.some.inj (Option.some.inj htrue)
          rw [primitiveAssignable, haccept] at hverdict
          cases hverdict
    · rw [hask']
      exact confusions_run_absorbs (refines_refl a) he hfalse

theorem parameterTypes_withEnv (h : (c.withEnv env).parameterTypes = some params) :
    exists declared, c.metadata.parameters = some declared ∧
      params = declared.map (substitute env) := by
  rcases Option.map_eq_some_iff.mp h with ⟨declared, hdeclared, hmap⟩
  exact ⟨declared, hdeclared, hmap.symm⟩

theorem not_applicable_of_excluded {env' : TypeEnv}
    (hparams : (c.withEnv env).parameterTypes = some params)
    (h : phase.form.excluded (c.withEnv env) params.length args.length) :
    applicableIn ask (c.withEnv env') args phase ≠ some (some true) := by
  intro happlicable
  rcases pairs_of_applicable happlicable with
    ⟨params', hparams', hfits, _ps, _hps, _haccepts⟩
  rcases parameterTypes_withEnv hparams with ⟨declared, hdeclared, hmap⟩
  rcases parameterTypes_withEnv hparams' with ⟨declared', hdeclared', hmap'⟩
  rw [hdeclared] at hdeclared'
  cases hdeclared'
  subst hmap hmap'
  apply hfits
  cases hform : phase.form with
  | fixed => simpa [hform, ArityForm.excluded] using h
  | variableArity =>
    simpa [hform, ArityForm.excluded, Candidate.withEnv] using h

theorem not_applicable_of_refusedIn {base : TypeEnv} {vars : List TypeVariableId}
    (h : RefusedIn T (c.withEnv (base ++ bindAll vars blank)) args phase.form)
    (assignment : TypeVariableId -> TypeRef) (fuel : Nat) :
    applicableIn (OpenRecursion.run (assignableStep T) fuel)
      (c.withEnv (base ++ bindAll vars assignment)) args phase ≠
        some (some true) := by
  rcases h with ⟨params, hparams, hexcluded | ⟨ps, hps, q, hq, fuel', hfalse⟩⟩
  · exact not_applicable_of_excluded hparams hexcluded
  · intro happlicable
    rcases pairs_of_applicable happlicable with
      ⟨params', hparams', _hfits, ps', hps', haccepts⟩
    rcases parameterTypes_withEnv hparams with ⟨declared, hdeclared, hmap⟩
    rcases parameterTypes_withEnv hparams' with ⟨declared', hdeclared', hmap'⟩
    rw [hdeclared] at hdeclared'
    cases hdeclared'
    subst hmap hmap'
    rcases pairs_refine (bindAll_refines base vars assignment) hps with
      ⟨ps'', hps'', hrefine⟩
    rw [hps'] at hps''
    cases hps''
    rcases forall₂_mem_left hrefine hq with ⟨q', hq', hparam⟩
    exact convertible_refined hfalse hparam (haccepts q' hq')

/-- More fuel turns no rejected argument into an accepted one. -/
theorem convertible_deterministic {fuel' : Nat}
    (hfalse : convertible (OpenRecursion.run (assignableStep T) fuel) .loose q =
      some (some false)) :
    convertible (OpenRecursion.run (assignableStep T) fuel') .loose q ≠ some (some true) := by
  intro htrue
  rcases convertible_loose_cases (OpenRecursion.run (assignableStep T) fuel) q with
    ⟨x, y, rfl⟩ | hask
  · exact absurd (hfalse.symm.trans htrue) (by decide)
  · rcases convertible_loose_cases (OpenRecursion.run (assignableStep T) fuel') q with
      ⟨x, y, rfl⟩ | hask'
    · have hsame : convertible (OpenRecursion.run (assignableStep T) fuel) .loose
          (.primitive x, .primitive y) = some (some true) := htrue
      exact absurd (hfalse.symm.trans hsame) (by decide)
    · rw [hask] at hfalse
      rw [hask'] at htrue
      have hverdict := OpenRecursion.run_deterministic (assignableStep_monotone T) hfalse htrue
      cases hverdict

/-!
# Bindings that no parameter reads
-/

theorem boundTo_bindAll_of_not_mem {base : TypeEnv} {vars : List TypeVariableId}
    {assignment : TypeVariableId -> TypeRef} {v : TypeVariableId} (hv : v ∉ vars) :
    boundTo (base ++ bindAll vars assignment) v = boundTo base v := by
  have hnone : (bindAll vars assignment).find? (fun entry => entry.1 == v) = none := by
    rw [List.find?_eq_none]
    intro entry hentry
    rcases List.mem_map.mp hentry with ⟨w, hw, rfl⟩
    intro heq
    exact hv (eq_of_beq heq ▸ hw)
  simp [boundTo, List.find?_append, hnone]

theorem Candidate.Settled.parameterTypes_eq {vars : List TypeVariableId}
    (h : c.Settled vars) {env' : TypeEnv}
    (henv : forall v, v ∉ vars -> boundTo env v = boundTo env' v) :
    (c.withEnv env).parameterTypes = (c.withEnv env').parameterTypes := by
  simp only [Candidate.parameterTypes, Candidate.withEnv]
  cases hdeclared : c.metadata.parameters with
  | none => rfl
  | some declared =>
    simp only [Option.map_some, Option.some.injEq]
    apply List.map_congr_left
    intro t ht
    exact substitute_congr t (fun v hv => henv v (h declared hdeclared t ht v hv))

/-!
# Reports
-/

theorem applicableOnes_eq_nil {verdicts : List Verdict}
    (hlength : candidates.length = verdicts.length) (h : applicableOnes candidates verdicts = []) :
    some true ∉ verdicts := by
  intro hmem
  unfold applicableOnes at h
  rw [List.map_eq_nil_iff, List.filter_eq_nil_iff] at h
  rcases List.mem_iff_getElem.mp hmem with ⟨i, hi, hget⟩
  have hentry : (candidates.zipIdx.zip verdicts)[i]? =
      some ((candidates[i], i), verdicts[i]) := by
    rw [List.getElem?_zip_eq_some]
    constructor
    · rw [List.getElem?_zipIdx, List.getElem?_eq_getElem (by omega)]
      simp
    · exact List.getElem?_eq_getElem hi
  have hrefuted := h _ (List.mem_of_getElem? hentry)
  rw [hget] at hrefuted
  exact hrefuted rfl

theorem rejected_of_selectIn {phases : List Phase}
    (h : selectIn ask candidates args phases = some (.noApplicable n)) :
    forall phase, phase ∈ phases -> forall c, c ∈ candidates ->
      applicableIn ask c args phase = some (some false) := by
  induction phases with
  | nil =>
    intro phase hphase
    cases hphase
  | cons first rest ih =>
    unfold selectIn at h
    cases hverdicts : candidates.mapM
        (fun c => applicableIn ask c args first) with
    | none =>
      rw [hverdicts] at h
      cases h
    | some verdicts =>
      rw [hverdicts] at h
      simp only at h
      split at h
      · cases h
      · rename_i hknown
        split at h
        · rename_i hempty
          have hforall := mapM_eq_some_iff.mp hverdicts
          have hnone := applicableOnes_eq_nil hforall.length_eq
            (List.isEmpty_iff.mp hempty)
          intro phase hphase c hc
          rcases List.mem_cons.mp hphase with hfirst | hrest
          · rw [hfirst]
            rcases forall₂_mem_left hforall hc with ⟨v, hv, hverdict⟩
            rcases v with _ | _ | _
            · exact absurd hv hknown
            · exact hverdict
            · exact absurd hv hnone
          · exact ih h phase hrest c hc
        · split at h <;> cases h

theorem rejected_of_selectCandidate
    (h : selectCandidate ask candidates args = some (.noApplicable n)) (hc : c ∈ candidates)
    (phase : Phase) :
    applicableIn ask c args phase = some (some false) := by
  unfold selectCandidate at h
  split at h
  · cases h
  · exact rejected_of_selectIn h phase (by cases phase <;> decide) c hc

/-- No assignment to the open variables makes the candidate applicable. -/
def NeverApplicable (T : ClassTable) (c : Candidate) (base : TypeEnv)
    (vars : List TypeVariableId) (args : List TypeRef) : Prop :=
  forall phase assignment fuel,
    applicableIn (OpenRecursion.run (assignableStep T) fuel)
      (c.withEnv (base ++ bindAll vars assignment)) args phase ≠
        some (some true)

theorem exists_form_phase (phase : Phase) :
    exists phase', phase' ≠ Phase.strict ∧ phase'.form = phase.form := by
  cases phase with
  | strict => exact ⟨.loose, by decide, rfl⟩
  | loose => exact ⟨.loose, by decide, rfl⟩
  | varargs => exact ⟨.varargs, by decide, rfl⟩

theorem neverApplicable_of_settled {base : TypeEnv} {vars : List TypeVariableId}
    (hsettled : c.Settled vars) (henv : forall v, v ∉ vars -> boundTo env v = boundTo base v)
    (h : forall phase, applicableIn (OpenRecursion.run (assignableStep T) fuel)
      (c.withEnv env) args phase = some (some false)) :
    NeverApplicable T c base vars args := by
  intro phase assignment fuel' happlicable
  have hsame : (c.withEnv env).parameterTypes =
      (c.withEnv (base ++ bindAll vars assignment)).parameterTypes := by
    apply hsettled.parameterTypes_eq
    intro v hv
    rw [henv v hv, boundTo_bindAll_of_not_mem hv]
  rcases exists_form_phase phase with ⟨phase', hphase', hform⟩
  rcases pair_of_rejected hphase' (h phase') with
    ⟨params, hparams, hexcluded | ⟨ps, hps, q, hq, hfalse⟩⟩
  · rw [hform] at hexcluded
    exact not_applicable_of_excluded hparams hexcluded happlicable
  · rcases pairs_of_applicable happlicable with
      ⟨params', hparams', _hfits, ps', hps', haccepts⟩
    rw [← hsame, hparams] at hparams'
    cases hparams'
    rw [hform, hps'] at hps
    cases hps
    exact convertible_deterministic hfalse (haccepts q hq)

theorem neverApplicable_of_refusedAnyway {base : TypeEnv} {vars : List TypeVariableId}
    (hrefused : RefusedAnyway T c base vars args)
    (henv : forall v, v ∉ vars -> boundTo env v = boundTo base v)
    (h : forall phase, applicableIn (OpenRecursion.run (assignableStep T) fuel)
      (c.withEnv env) args phase = some (some false)) :
    NeverApplicable T c base vars args := by
  rcases hrefused with hsettled | hrefused
  · exact neverApplicable_of_settled hsettled henv h
  · intro phase assignment fuel'
    exact not_applicable_of_refusedIn (hrefused phase.form) assignment fuel'

def methodVariables (c : Candidate) : List TypeVariableId :=
  c.metadata.typeParameters.map (fun p => p.id)

/-- A report about a method call is an error under every assignment. -/
def MethodReportProven (T : ClassTable) (fuel : Nat)
    (candidates : List Candidate) (args : List TypeRef) : Prop :=
  forall n, selectMethod T (OpenRecursion.run (assignableStep T) fuel) candidates
      args = some (.noApplicable n) ->
    forall c, c ∈ candidates ->
      NeverApplicable T c c.env (methodVariables c) args

/-- A report about a diamond creation is an error under every assignment. -/
def DiamondReportProven (T : ClassTable) (fuel : Nat)
    (classParams : List TypeParameter) (constructors : List MemberMetadata)
    (args : List TypeRef) : Prop :=
  forall n, selectDiamond (OpenRecursion.run (assignableStep T) fuel) classParams
      constructors args = some (.noApplicable n) ->
    forall m, m ∈ constructors ->
      NeverApplicable T (diamondCandidate classParams args m) []
        (classParams.map (fun p => p.id)) args

theorem inferMethodTypeArguments_withEnv {prepared : Candidate}
    (h : inferMethodTypeArguments T ask args c = some prepared) :
    prepared = c.withEnv prepared.env := by
  unfold inferMethodTypeArguments at h
  split at h
  · cases h
    rfl
  · split at h
    · cases h
      rfl
    · rcases Option.map_eq_some_iff.mp h with ⟨env, _henv, hprepared⟩
      subst hprepared
      rfl

theorem boundTo_acceptBindings {params : List TypeParameter} {inferred : Inferred}
    {env env' : TypeEnv} (h : acceptBindings ask params inferred env = some env')
    {v : TypeVariableId} (hv : v ∉ params.map (fun p => p.id)) :
    boundTo env' v = boundTo env v := by
  induction inferred generalizing env with
  | nil =>
    cases h
    rfl
  | cons entry rest ih =>
    rcases entry with ⟨w, _ | actual⟩
    · exact ih h
    · rw [acceptBindings] at h
      cases hparam : params.find? (fun p => p.id == w) with
      | none =>
        rw [hparam] at h
        exact ih h
      | some param =>
        rw [hparam] at h
        simp only at h
        have hne : w ≠ v := by
          rintro rfl
          apply hv
          rw [List.mem_map]
          have hid := List.find?_some hparam
          exact ⟨param, List.mem_of_find?_eq_some hparam, eq_of_beq hid⟩
        split at h
        · cases h
        · rw [ih h]
          simp [boundTo, List.find?_append, hne]
        · exact ih h

theorem boundTo_inferMethodTypeArguments {prepared : Candidate}
    (h : inferMethodTypeArguments T ask args c = some prepared) {v : TypeVariableId}
    (hv : v ∉ methodVariables c) :
    boundTo prepared.env v = boundTo c.env v := by
  unfold inferMethodTypeArguments at h
  split at h
  · cases h
    rfl
  · split at h
    · cases h
      rfl
    · rcases Option.map_eq_some_iff.mp h with ⟨env, henv, rfl⟩
      exact boundTo_acceptBindings henv hv

theorem boundTo_inferEnvFromArgs {classParams : List TypeParameter} {m : MemberMetadata}
    {v : TypeVariableId} (hv : v ∉ classParams.map (fun p => p.id)) :
    boundTo (inferEnvFromArgs classParams m args) v = none := by
  unfold inferEnvFromArgs
  cases m.parameters with
  | none => rfl
  | some params =>
    simp only [boundTo, Option.map_eq_none_iff, List.find?_eq_none]
    intro entry hentry heq
    rcases List.mem_filterMap.mp hentry with ⟨p, hp, hbound⟩
    rcases Option.map_eq_some_iff.mp hbound with ⟨pair, _hpair, rfl⟩
    apply hv
    rw [List.mem_map]
    exact ⟨p, hp, eq_of_beq heq⟩

theorem methodReportProven_of_refused
    (h : forall c, c ∈ candidates -> RefusedAnyway T c c.env (methodVariables c) args) :
    MethodReportProven T fuel candidates args := by
  intro n hselect c hc
  unfold selectMethod at hselect
  cases hprepared : candidates.mapM (inferMethodTypeArguments T
      (OpenRecursion.run (assignableStep T) fuel) args) with
  | none =>
    rw [hprepared] at hselect
    cases hselect
  | some prepared =>
    rw [hprepared] at hselect
    rcases forall₂_mem_left (mapM_eq_some_iff.mp hprepared) hc with
      ⟨p, hp, hinfer⟩
    apply neverApplicable_of_refusedAnyway (h c hc)
      (fun v hv => boundTo_inferMethodTypeArguments hinfer hv)
    intro phase
    rw [← inferMethodTypeArguments_withEnv hinfer]
    exact rejected_of_selectCandidate hselect hp phase

theorem diamondReportProven_of_refused {classParams : List TypeParameter}
    {constructors : List MemberMetadata}
    (h : forall m, m ∈ constructors -> RefusedAnyway T (diamondCandidate classParams args m) []
      (classParams.map (fun p => p.id)) args) :
    DiamondReportProven T fuel classParams constructors args := by
  intro n hselect m hm
  have hrejected : forall phase, applicableIn (OpenRecursion.run (assignableStep T) fuel)
      ((diamondCandidate classParams args m).withEnv (inferEnvFromArgs classParams m args))
      args phase = some (some false) := by
    intro phase
    exact rejected_of_selectCandidate hselect (List.mem_map.mpr ⟨m, hm, rfl⟩) phase
  exact neverApplicable_of_refusedAnyway (h m hm)
    (fun v hv => boundTo_inferEnvFromArgs hv) hrejected

end JavaVsixLite
