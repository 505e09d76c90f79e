import Mathlib.Data.List.Basic
import Mathlib.Order.WellFounded

/-!
# Fuelled open recursion

A general recursive function is given by one step that receives the function
itself as the callee `ask`.  Running the step on a callee of fuel `n` is the
run of fuel `n + 1`; a run that exhausts its fuel has no answer.

A step may be given by a plan, which asks its questions one after the other and
goes on according to their answers.  The run then returns exactly if every chain
of questions that it visits is finite.
-/

namespace JavaVsixLite
namespace Foundation
namespace OpenRecursion

variable {Q R : Type}

abbrev Callee (Q R : Type) := Q -> Option R

def run (step : Callee Q R -> Callee Q R) : Nat -> Callee Q R
  | 0, _ => none
  | fuel + 1, q => step (run step fuel) q

theorem run_succ (step : Callee Q R -> Callee Q R) (fuel : Nat) (q : Q) :
    run step (fuel + 1) q = step (run step fuel) q := rfl

def Extends (ask ask' : Callee Q R) : Prop :=
  forall q r, ask q = some r -> ask' q = some r

def Monotone (step : Callee Q R -> Callee Q R) : Prop :=
  forall ask ask', Extends ask ask' -> Extends (step ask) (step ask')

/-- The run on `q` returns `r` on some amount of fuel. -/
def Returns (step : Callee Q R -> Callee Q R) (q : Q) (r : R) : Prop :=
  exists fuel, run step fuel q = some r

def Terminates (step : Callee Q R -> Callee Q R) (q : Q) : Prop :=
  exists r, Returns step q r

/-!
# More fuel keeps an answer
-/

variable {step : Callee Q R -> Callee Q R} {q : Q}

theorem run_extends_succ (hmono : Monotone step) (fuel : Nat) :
    Extends (run step fuel) (run step (fuel + 1)) := by
  induction fuel with
  | zero =>
    intro q r h
    cases h
  | succ fuel ih =>
    exact hmono _ _ ih

theorem run_mono (hmono : Monotone step) {fuel fuel' : Nat} (hle : fuel ≤ fuel') {r : R}
    (h : run step fuel q = some r) :
    run step fuel' q = some r := by
  induction hle with
  | refl => exact h
  | step _ ih => exact run_extends_succ hmono _ q r ih

theorem run_deterministic (hmono : Monotone step) {fuel fuel' : Nat} {r r' : R}
    (h : run step fuel q = some r) (h' : run step fuel' q = some r') :
    r = r' := by
  have hmax := run_mono hmono (Nat.le_max_left fuel fuel') h
  have hmax' := run_mono hmono (Nat.le_max_right fuel fuel') h'
  rw [hmax] at hmax'
  exact Option.some.inj hmax'

/-!
# Plans
-/

/-- A computation that asks questions of `Q` and goes on with their answers in `R`. -/
inductive Plan (Q R S : Type) where
  | done (result : S)
  | ask (q : Q) (next : R -> Plan Q R S)

namespace Plan

variable {Q R S S' : Type}

def eval (callee : Callee Q R) : Plan Q R S -> Option S
  | done result => some result
  | ask q next =>
    match callee q with
    | none => none
    | some r => eval callee (next r)

def bind (f : S -> Plan Q R S') : Plan Q R S -> Plan Q R S'
  | done result => f result
  | ask q next => ask q (fun r => bind f (next r))

/-- The plan asks the question, the earlier ones being answered as given. -/
inductive Visits (answers : Q -> R -> Prop) (q : Q) : Plan Q R S -> Prop where
  | here (next : R -> Plan Q R S) : Visits answers q (.ask q next)
  | later {p : Q} {next : R -> Plan Q R S} {r : R} : answers p r ->
      Visits answers q (next r) -> Visits answers q (.ask p next)

theorem eval_bind (callee : Callee Q R) (f : S -> Plan Q R S') (plan : Plan Q R S) :
    (plan.bind f).eval callee =
      match plan.eval callee with
      | none => none
      | some result => (f result).eval callee := by
  induction plan with
  | done result => rfl
  | ask q next ih =>
    simp only [bind, eval]
    cases callee q with
    | none => rfl
    | some r => exact ih r

theorem visits_bind {answers : Q -> R -> Prop} {f : S -> Plan Q R S'} {plan : Plan Q R S} {q : Q}
    (h : Visits answers q (plan.bind f)) :
    Visits answers q plan ∨ exists result, Visits answers q (f result) := by
  induction plan with
  | done result => exact .inr ⟨result, h⟩
  | ask p next ih =>
    cases h with
    | here _ => exact .inl (.here next)
    | later hr hrest =>
      rcases ih _ hrest with hnext | hresult
      · exact .inl (.later hr hnext)
      · exact .inr hresult

theorem eval_mono {callee callee' : Callee Q R} (h : Extends callee callee') {plan : Plan Q R S}
    {result : S} (heval : plan.eval callee = some result) :
    plan.eval callee' = some result := by
  induction plan with
  | done _ => exact heval
  | ask q next ih =>
    rw [eval] at heval ⊢
    cases hq : callee q with
    | none =>
      rw [hq] at heval
      cases heval
    | some r =>
      rw [hq] at heval
      rw [h q r hq]
      exact ih r heval

/-- What a plan visits on the way to a result is answered. -/
theorem visited_isSome {callee : Callee Q R} {answers : Q -> R -> Prop} {plan : Plan Q R S}
    {result : S} (hagree : forall q r r', answers q r -> callee q = some r' -> r = r')
    (heval : plan.eval callee = some result) {q : Q} (h : Visits answers q plan) :
    (callee q).isSome := by
  induction h with
  | here next =>
    rw [eval] at heval
    cases hq : callee q with
    | none =>
      rw [hq] at heval
      cases heval
    | some r => rfl
  | @later p next r hr _ ih =>
    rw [eval] at heval
    cases hp : callee p with
    | none =>
      rw [hp] at heval
      cases heval
    | some r' =>
      rw [hp] at heval
      rw [hagree p r r' hr hp] at ih
      exact ih heval

end Plan

/-!
# Finite chains of visited questions
-/

/-- The plan of `q` visits `q'`. -/
def Asks (step : Callee Q R -> Callee Q R) (plan : Q -> Plan Q R R) (q' q : Q) : Prop :=
  (plan q).Visits (Returns step) q'

section Planned

variable {plan : Q -> Plan Q R R}

theorem monotone_of_plan (hplan : forall ask q, step ask q = (plan q).eval ask) :
    Monotone step := by
  intro ask ask' hask q r h
  rw [hplan] at h ⊢
  exact Plan.eval_mono hask h

theorem acc_of_terminates (hplan : forall ask q, step ask q = (plan q).eval ask)
    (h : Terminates step q) :
    Acc (Asks step plan) q := by
  rcases h with ⟨r, fuel, hrun⟩
  induction fuel generalizing q r with
  | zero => cases hrun
  | succ fuel ih =>
    apply Acc.intro
    intro q' hvisits
    rw [run_succ, hplan] at hrun
    have hagree : forall p s s', Returns step p s -> run step fuel p = some s' -> s = s' := by
      rintro p s s' ⟨fuel', hs⟩ hs'
      exact run_deterministic (monotone_of_plan hplan) hs hs'
    rcases Option.isSome_iff_exists.mp (Plan.visited_isSome hagree hrun hvisits) with ⟨r', hr'⟩
    exact ih r' hr'

/-- A plan whose visited questions all return is evaluated on some fuel. -/
theorem exists_eval (hmono : Monotone step) {S : Type} (p : Plan Q R S)
    (h : forall q', p.Visits (Returns step) q' -> Terminates step q') :
    exists fuel result, p.eval (run step fuel) = some result := by
  induction p with
  | done result => exact ⟨0, result, rfl⟩
  | ask q next ih =>
    rcases h q (.here next) with ⟨r, hreturns⟩
    rcases ih r (fun q' hq' => h q' (.later hreturns hq')) with ⟨fuel', result, heval⟩
    rcases hreturns with ⟨fuel, hrun⟩
    refine ⟨max fuel fuel', result, ?_⟩
    rw [Plan.eval, run_mono hmono (Nat.le_max_left fuel fuel') hrun]
    exact Plan.eval_mono (fun _ _ => run_mono hmono (Nat.le_max_right fuel fuel')) heval

theorem terminates_of_acc (hplan : forall ask q, step ask q = (plan q).eval ask)
    (h : Acc (Asks step plan) q) :
    Terminates step q := by
  induction h with
  | intro q _ ih =>
    rcases exists_eval (monotone_of_plan hplan) (plan q) ih with ⟨fuel, r, heval⟩
    refine ⟨r, fuel + 1, ?_⟩
    rw [run_succ, hplan]
    exact heval

theorem terminates_iff_acc (hplan : forall ask q, step ask q = (plan q).eval ask) :
    Terminates step q <-> Acc (Asks step plan) q :=
  ⟨acc_of_terminates hplan, terminates_of_acc hplan⟩

end Planned

end OpenRecursion
end Foundation
end JavaVsixLite
