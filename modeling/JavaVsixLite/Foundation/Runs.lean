import Mathlib.Data.List.Basic

/-!
# Runs of a partial step function

A system is a step function that refuses the actions that are not enabled.  A
run performs a list of actions one after the other.  Properties of every
reachable state come from two rules: an invariant of the state, and an invariant
of the state together with the actions performed so far.
-/

namespace JavaVsixLite
namespace Foundation

variable {σ α : Type*}

/-- Perform the actions in order; `none` when one of them is not enabled. -/
@[grind =] def run (step : σ -> α -> Option σ) : σ -> List α -> Option σ
  | s, [] => some s
  | s, a :: rest =>
    match step s a with
    | none => none
    | some t => run step t rest

/-- Every action of the run meets `ok` in the state in which it is performed. -/
def Guarded (step : σ -> α -> Option σ) (ok : σ -> α -> Prop) :
    σ -> List α -> Prop
  | _, [] => True
  | s, a :: rest =>
    ok s a ∧
      match step s a with
      | none => True
      | some t => Guarded step ok t rest

namespace Run

variable {step : σ -> α -> Option σ} {ok : σ -> α -> Prop}

variable {s t : σ} {a : α} {rest as : List α}

theorem run_cons (h : run step s (a :: rest) = some t) :
    exists u : σ, step s a = some u ∧ run step u rest = some t := by
  cases hstep : step s a with
  | none =>
    simp only [run, hstep] at h
    cases h
  | some u =>
    simp only [run, hstep] at h
    exact ⟨u, rfl, h⟩

theorem guarded_cons (h : Guarded step ok s (a :: rest)) (hstep : step s a = some t) :
    ok s a ∧ Guarded step ok t rest := by
  simp only [Guarded, hstep] at h
  exact h

theorem guarded_step (hok : ok s a) (hstep : step s a = some t) (h : Guarded step ok t rest) :
    Guarded step ok s (a :: rest) := by
  simp only [Guarded, hstep]
  exact ⟨hok, h⟩

theorem run_append {bs : List α} :
    forall {s t : σ}, run step s (as ++ bs) = some t ->
      exists u : σ, run step s as = some u ∧ run step u bs = some t := by
  induction as with
  | nil =>
    intro s t h
    exact ⟨s, rfl, h⟩
  | cons b rest ih =>
    intro s t h
    rcases run_cons h with ⟨v, hv, hrest⟩
    rcases ih hrest with ⟨u, hu, ht⟩
    refine ⟨u, ?_, ht⟩
    simp only [run, hv]
    exact hu

theorem run_snoc (h : run step s (as ++ [a]) = some t) :
    exists u : σ, run step s as = some u ∧ step u a = some t := by
  rcases run_append h with ⟨u, hu, hlast⟩
  rcases run_cons hlast with ⟨v, hv, ht⟩
  refine ⟨u, hu, ?_⟩
  rw [hv, ← ht]
  rfl

theorem run_concat :
    forall {s t u : σ}, run step s as = some t -> step t a = some u ->
      run step s (as ++ [a]) = some u := by
  induction as with
  | nil =>
    intro s t u h hstep
    cases h
    simp only [List.nil_append, run, hstep]
  | cons b rest ih =>
    intro s t u h hstep
    rcases run_cons h with ⟨v, hv, hrest⟩
    simp only [List.cons_append, run, hv]
    exact ih hrest hstep

theorem guarded_snoc :
    forall {s u : σ}, Guarded step ok s (as ++ [a]) ->
      run step s as = some u -> Guarded step ok s as ∧ ok u a := by
  induction as with
  | nil =>
    intro s u h hu
    cases hu
    exact ⟨trivial, h.1⟩
  | cons b rest ih =>
    intro s u h hu
    rcases run_cons hu with ⟨v, hv, hrest⟩
    rcases guarded_cons h hv with ⟨hb, htail⟩
    rcases ih htail hrest with ⟨hguarded, hlast⟩
    refine ⟨⟨hb, ?_⟩, hlast⟩
    rw [hv]
    exact hguarded

instance decidableGuarded [forall s a, Decidable (ok s a)] :
    forall (s : σ) (as : List α), Decidable (Guarded step ok s as)
  | _, [] => inferInstanceAs (Decidable True)
  | s, a :: rest =>
    have : Decidable (match step s a with
        | none => True
        | some t => Guarded step ok t rest) :=
      match step s a with
      | none => inferInstanceAs (Decidable True)
      | some t => decidableGuarded t rest
    inferInstanceAs (Decidable (_ ∧ _))

/-!
# The invariant rules
-/

theorem history_from {inv : List α -> σ -> Prop}
    (hstep : forall past s a t, inv past s -> ok s a -> step s a = some t ->
      inv (past ++ [a]) t) :
    forall {as past : List α} {s t : σ}, inv past s ->
      Guarded step ok s as -> run step s as = some t -> inv (past ++ as) t := by
  intro as
  induction as with
  | nil =>
    intro past s t hinv _hok hrun
    cases hrun
    simpa using hinv
  | cons a rest ih =>
    intro past s t hinv hok hrun
    rcases run_cons hrun with ⟨u, hu, hrest⟩
    rcases guarded_cons hok hu with ⟨ha, htail⟩
    have hnext : inv (past ++ [a]) u := hstep past s a u hinv ha hu
    have hend := ih hnext htail hrest
    simpa using hend

/-- What every guarded step preserves together with its history holds at the end. -/
theorem guarded_history (inv : List α -> σ -> Prop)
    (hstep : forall past s a t, inv past s -> ok s a -> step s a = some t -> inv (past ++ [a]) t)
    (hinit : inv [] s) (hok : Guarded step ok s as) (hrun : run step s as = some t) : inv as t :=
  history_from hstep hinit hok hrun

theorem guarded_invariant (inv : σ -> Prop)
    (hstep : forall s a t, inv s -> ok s a -> step s a = some t -> inv t) (hinit : inv s)
    (hok : Guarded step ok s as) (hrun : run step s as = some t) : inv t :=
  guarded_history (fun _ u => inv u) (fun _ s a t => hstep s a t) hinit hok hrun

theorem Guarded.mono {ok' : σ -> α -> Prop} (hok : forall s a, ok s a -> ok' s a)
    (h : Guarded step ok s as) : Guarded step ok' s as := by
  induction as generalizing s with
  | nil => trivial
  | cons a rest ih =>
    refine ⟨hok s a h.1, ?_⟩
    cases hstep : step s a with
    | none => trivial
    | some t => exact ih (guarded_cons h hstep).2

theorem guarded_true (s : σ) (as : List α) :
    Guarded step (fun _ _ => True) s as := by
  induction as generalizing s with
  | nil => trivial
  | cons a rest ih =>
    refine ⟨trivial, ?_⟩
    cases step s a with
    | none => trivial
    | some t => exact ih t

theorem history (inv : List α -> σ -> Prop)
    (hstep : forall past s a t, inv past s -> step s a = some t -> inv (past ++ [a]) t)
    (hinit : inv [] s) (hrun : run step s as = some t) :
    inv as t :=
  guarded_history inv (fun past s a t h _ => hstep past s a t h) hinit
    (guarded_true s as) hrun

theorem invariant (inv : σ -> Prop) (hstep : forall s a t, inv s -> step s a = some t -> inv t)
    (hinit : inv s) (hrun : run step s as = some t) : inv t :=
  history (fun _ u => inv u) (fun _ s a t => hstep s a t) hinit hrun

/-!
# What has happened since
-/

/-- An action with `p` is in the history, and none with `q` comes after it. -/
def Since (p q : α -> Prop) (past : List α) : Prop :=
  exists before a after, past = before ++ a :: after ∧ p a ∧ forall b, b ∈ after -> ¬ q b

variable {p q : α -> Prop}

theorem since_now (past : List α) {a : α} (h : p a) : Since p q (past ++ [a]) :=
  ⟨past, a, [], rfl, h, fun _ hb => (List.not_mem_nil hb).elim⟩

theorem Since.snoc {past : List α} (h : Since p q past) {b : α} (hb : ¬ q b) :
    Since p q (past ++ [b]) := by
  rcases h with ⟨before, a, after, rfl, ha, hafter⟩
  refine ⟨before, a, after ++ [b], by simp, ha, ?_⟩
  intro c hc
  rcases List.mem_append.mp hc with hc | hc
  · exact hafter c hc
  · rw [List.mem_singleton.mp hc]
    exact hb

end Run

end Foundation
end JavaVsixLite
