import Mathlib.Data.List.Basic
import JavaVsixLite.Foundation.OpenRecursion

/-!
# Three-valued verdicts

A conservative check answers `some true`, `some false`, or
`none` when it cannot prove either.  This module develops the two lazy
folds such checks are built from, over an asking function that may itself fail
to return: the outer option of an answer is the absence of a result, the inner
one the undecided verdict.

Two runs of a check are compared by agreement: they agree unless one proves
what the other disproves.
-/

namespace JavaVsixLite
namespace Foundation

abbrev Verdict := Option Bool

namespace Verdict

/-!
# Agreement
-/

def Agrees (v w : Verdict) : Prop :=
  forall b : Bool, v = some b -> w ≠ some (!b)

theorem agrees_of_eq {v w : Verdict} (h : v = w) : Agrees v w := by
  intro b hv hw
  rw [← h, hv] at hw
  cases b <;> cases hw

theorem agrees_refl (v : Verdict) : Agrees v v :=
  agrees_of_eq rfl

theorem agrees_none_left (w : Verdict) : Agrees none w := by
  intro b hv
  cases hv

theorem agrees_none_right (v : Verdict) : Agrees v none := by
  intro b _hv hw
  cases hw

theorem Agrees.not_true_false {v w : Verdict} (h : Agrees v w)
    (hv : v = some true) : w ≠ some false :=
  h true hv

theorem Agrees.not_false_true {v w : Verdict} (h : Agrees v w)
    (hv : v = some false) : w ≠ some true :=
  h false hv

theorem agrees_of_cases {v w : Verdict}
    (htrue : v = some true -> w ≠ some false)
    (hfalse : v = some false -> w ≠ some true) : Agrees v w := by
  intro b hv
  cases b with
  | false => exact hfalse hv
  | true => exact htrue hv

/-!
# Lazy folds

`anyProved` stops at the first proof and `allProved` at the first
refutation.  The flag records that an undecided verdict was already seen.
-/

@[grind =] def anyProved {α : Type} (ask : α -> Option Verdict) :
    Bool -> List α -> Option Verdict
  | unknown, [] => some (if unknown then none else some false)
  | unknown, x :: rest =>
    match ask x with
    | none => none
    | some (some true) => some (some true)
    | some (some false) => anyProved ask unknown rest
    | some none => anyProved ask true rest

def allProved {α : Type} (ask : α -> Option Verdict) :
    Bool -> List α -> Option Verdict
  | unknown, [] => some (if unknown then none else some true)
  | unknown, x :: rest =>
    match ask x with
    | none => none
    | some (some false) => some (some false)
    | some (some true) => allProved ask unknown rest
    | some none => allProved ask true rest

variable {α β : Type}

variable {ask : α -> Option Verdict} {xs : List α} {unknown : Bool} {v : Verdict}

theorem anyProved_isSome (h : forall x, x ∈ xs -> (ask x).isSome) (unknown : Bool) :
    (anyProved ask unknown xs).isSome := by
  induction xs generalizing unknown with
  | nil => simp [anyProved]
  | cons x rest ih =>
    have hrest : forall y, y ∈ rest -> (ask y).isSome := by
      intro y hy
      exact h y (List.mem_cons_of_mem x hy)
    have hx : (ask x).isSome := h x List.mem_cons_self
    rcases Option.isSome_iff_exists.mp hx with ⟨v, hv⟩
    unfold anyProved
    rw [hv]
    rcases v with _ | _ | _
    · exact ih hrest true
    · exact ih hrest unknown
    · rfl

theorem anyProved_mono {ask' : α -> Option Verdict}
    (h : forall x, x ∈ xs -> forall v, ask x = some v -> ask' x = some v)
    (hrun : anyProved ask unknown xs = some v) :
    anyProved ask' unknown xs = some v := by
  induction xs generalizing unknown with
  | nil => exact hrun
  | cons x rest ih =>
    have hrest : forall y, y ∈ rest ->
        forall w, ask y = some w -> ask' y = some w := by
      intro y hy
      exact h y (List.mem_cons_of_mem x hy)
    unfold anyProved at hrun ⊢
    cases hx : ask x with
    | none =>
      rw [hx] at hrun
      cases hrun
    | some w =>
      rw [hx] at hrun
      rw [h x List.mem_cons_self w hx]
      rcases w with _ | _ | _
      · exact ih hrest hrun
      · exact ih hrest hrun
      · exact hrun

/-!
# What a decided fold proves

A fold that decides has a witness on one side and covers the whole list on the
other.
-/

theorem anyProved_true (h : anyProved ask unknown xs = some (some true)) :
    exists x, x ∈ xs ∧ ask x = some (some true) := by
  induction xs generalizing unknown with
  | nil =>
    cases unknown <;> simp [anyProved] at h
  | cons x rest ih =>
    unfold anyProved at h
    cases hx : ask x with
    | none =>
      rw [hx] at h
      cases h
    | some w =>
      rw [hx] at h
      rcases w with _ | _ | _
      · rcases ih h with ⟨y, hy, hask⟩
        exact ⟨y, List.mem_cons_of_mem x hy, hask⟩
      · rcases ih h with ⟨y, hy, hask⟩
        exact ⟨y, List.mem_cons_of_mem x hy, hask⟩
      · exact ⟨x, List.mem_cons_self, hx⟩

theorem anyProved_false (h : anyProved ask unknown xs = some (some false)) :
    unknown = false ∧ forall x, x ∈ xs -> ask x = some (some false) := by
  induction xs generalizing unknown with
  | nil =>
    cases unknown <;> simp [anyProved] at h ⊢
  | cons x rest ih =>
    unfold anyProved at h
    cases hx : ask x with
    | none =>
      rw [hx] at h
      cases h
    | some w =>
      rw [hx] at h
      rcases w with _ | _ | _
      · exact absurd (ih h).left (by decide)
      · refine ⟨(ih h).left, ?_⟩
        intro y hy
        rcases List.mem_cons.mp hy with hhead | htail
        · rw [hhead]
          exact hx
        · exact (ih h).right y htail
      · cases h

/-!
# Agreement of folds

Both folds preserve agreement as long as every element of one list has a
counterpart in the other that it agrees with.
-/

def AskAgrees (ask : α -> Option Verdict) (ask' : β -> Option Verdict)
    (x : α) (y : β) : Prop :=
  forall v w, ask x = some v -> ask' y = some w -> Agrees v w

theorem anyProved_agrees {ask' : β -> Option Verdict} {ys : List β} {unknown' : Bool} {w : Verdict}
    (hforth : forall x, x ∈ xs -> ask x = some (some true) -> exists y, y ∈ ys ∧
      AskAgrees ask ask' x y)
    (hback : unknown = false -> forall y, y ∈ ys -> exists x, x ∈ xs ∧ AskAgrees ask ask' x y)
    (hv : anyProved ask unknown xs = some v) (hw : anyProved ask' unknown' ys = some w) :
    Agrees v w := by
  apply agrees_of_cases
  · intro htrue hfalse
    subst htrue
    subst hfalse
    rcases anyProved_true hv with ⟨x, hx, hask⟩
    rcases anyProved_false hw with ⟨_hcomplete, hall⟩
    rcases hforth x hx hask with ⟨y, hy, hagree⟩
    exact (hagree _ _ hask (hall y hy)).not_true_false rfl rfl
  · intro hfalse htrue
    subst htrue
    subst hfalse
    rcases anyProved_true hw with ⟨y, hy, hask⟩
    rcases anyProved_false hv with ⟨hcomplete, hall⟩
    rcases hback hcomplete y hy with ⟨x, hx, hagree⟩
    exact (hagree _ _ (hall x hx) hask).not_false_true rfl rfl

/-!
# Duality

`allProved` is `anyProved` on the negated verdicts, so every fact about it is
read off the facts above.
-/

def negate (v : Verdict) : Verdict :=
  v.map not

def refute (ask : α -> Option Verdict) (x : α) : Option Verdict :=
  (ask x).map negate

theorem refute_eq_some_some {x : α} {b : Bool} :
    refute ask x = some (some b) <-> ask x = some (some (!b)) := by
  unfold refute negate
  rcases ask x with _ | _ | _ <;> cases b <;> simp

theorem allProved_eq_negate (ask : α -> Option Verdict) (unknown : Bool)
    (xs : List α) :
    allProved ask unknown xs = (anyProved (refute ask) unknown xs).map negate := by
  induction xs generalizing unknown with
  | nil => cases unknown <;> rfl
  | cons x rest ih =>
    unfold allProved anyProved refute
    rcases ask x with _ | _ | _ | _
    · rfl
    · exact ih true
    · rfl
    · exact ih unknown

theorem allProved_eq_some_some {b : Bool} :
    allProved ask unknown xs = some (some b) <->
      anyProved (refute ask) unknown xs = some (some (!b)) := by
  rw [allProved_eq_negate]
  unfold negate
  rcases anyProved (refute ask) unknown xs with _ | _ | _ <;> cases b <;> simp

theorem allProved_mono {ask' : α -> Option Verdict}
    (h : forall x, x ∈ xs -> forall v, ask x = some v -> ask' x = some v)
    (hrun : allProved ask unknown xs = some v) :
    allProved ask' unknown xs = some v := by
  rw [allProved_eq_negate, Option.map_eq_some_iff] at hrun ⊢
  rcases hrun with ⟨w, hw, hneg⟩
  refine ⟨w, anyProved_mono ?_ hw, hneg⟩
  intro x hx u hu
  rw [refute, Option.map_eq_some_iff] at hu ⊢
  rcases hu with ⟨t, ht, hneg'⟩
  exact ⟨t, h x hx t ht, hneg'⟩

theorem allProved_false (h : allProved ask unknown xs = some (some false)) :
    exists x, x ∈ xs ∧ ask x = some (some false) := by
  rcases anyProved_true (allProved_eq_some_some.mp h) with ⟨x, hx, hask⟩
  exact ⟨x, hx, refute_eq_some_some.mp hask⟩

theorem allProved_true (h : allProved ask unknown xs = some (some true)) :
    unknown = false ∧ forall x, x ∈ xs -> ask x = some (some true) := by
  rcases anyProved_false (allProved_eq_some_some.mp h) with ⟨hcomplete, hall⟩
  refine ⟨hcomplete, ?_⟩
  intro x hx
  exact refute_eq_some_some.mp (hall x hx)

theorem allProved_agrees {ask' : β -> Option Verdict} {ys : List β} {unknown' : Bool} {w : Verdict}
    (hforth : forall x, x ∈ xs -> exists y, y ∈ ys ∧ AskAgrees ask ask' x y)
    (hback : forall y, y ∈ ys -> exists x, x ∈ xs ∧ AskAgrees ask ask' x y)
    (hv : allProved ask unknown xs = some v) (hw : allProved ask' unknown' ys = some w) :
    Agrees v w := by
  apply agrees_of_cases
  · intro htrue hfalse
    subst htrue
    subst hfalse
    rcases allProved_false hw with ⟨y, hy, hask⟩
    rcases hback y hy with ⟨x, hx, hagree⟩
    exact (hagree _ _ ((allProved_true hv).right x hx) hask).not_true_false
      rfl rfl
  · intro hfalse htrue
    subst htrue
    subst hfalse
    rcases allProved_false hv with ⟨x, hx, hask⟩
    rcases hforth x hx with ⟨y, hy, hagree⟩
    exact (hagree _ _ hask ((allProved_true hw).right y hy)).not_false_true
      rfl rfl

/-!
# Folds over decided elements
-/

theorem allProved_map (f : β -> α) (ask : α -> Option Verdict)
    (unknown : Bool) (xs : List β) :
    allProved ask unknown (xs.map f) =
      allProved (fun x => ask (f x)) unknown xs := by
  induction xs generalizing unknown with
  | nil => rfl
  | cons x rest ih =>
    simp only [List.map_cons, allProved, ih]

theorem allProved_congr {ask' : α -> Option Verdict} (h : forall x, x ∈ xs -> ask x = ask' x)
    (unknown : Bool) :
    allProved ask unknown xs = allProved ask' unknown xs := by
  induction xs generalizing unknown with
  | nil => rfl
  | cons x rest ih =>
    have hrest : forall y, y ∈ rest -> ask y = ask' y := by
      intro y hy
      exact h y (List.mem_cons_of_mem x hy)
    simp only [allProved, h x List.mem_cons_self, ih hrest]

theorem anyProved_of_decided {decides : α -> Bool}
    (h : forall x, x ∈ xs -> ask x = some (some (decides x))) :
    anyProved ask false xs = some (some (xs.any decides)) := by
  induction xs with
  | nil => rfl
  | cons x rest ih =>
    have hrest := ih (fun y hy => h y (List.mem_cons_of_mem x hy))
    unfold anyProved
    rw [h x List.mem_cons_self, List.any_cons]
    cases decides x with
    | true => rfl
    | false => exact hrest

theorem anyProved_of_proved (h : forall x, x ∈ xs -> (ask x).isSome)
    (hproved : exists x, x ∈ xs ∧ ask x = some (some true)) (unknown : Bool) :
    anyProved ask unknown xs = some (some true) := by
  induction xs generalizing unknown with
  | nil =>
    rcases hproved with ⟨x, hx, _⟩
    cases hx
  | cons x rest ih =>
    have hrest : forall y, y ∈ rest -> (ask y).isSome := by
      intro y hy
      exact h y (List.mem_cons_of_mem x hy)
    unfold anyProved
    by_cases hx : ask x = some (some true)
    · rw [hx]
    · have hlater : exists y, y ∈ rest ∧ ask y = some (some true) := by
        rcases hproved with ⟨y, hy, hask⟩
        rcases List.mem_cons.mp hy with hhead | htail
        · rw [hhead] at hask
          exact absurd hask hx
        · exact ⟨y, htail, hask⟩
      rcases Option.isSome_iff_exists.mp (h x List.mem_cons_self) with ⟨v, hv⟩
      rw [hv] at hx ⊢
      rcases v with _ | _ | _
      · exact ih hrest hlater true
      · exact ih hrest hlater unknown
      · exact absurd rfl hx

theorem allProved_of_refuted (h : forall x, x ∈ xs -> (ask x).isSome)
    (hrefuted : exists x, x ∈ xs ∧ ask x = some (some false)) (unknown : Bool) :
    allProved ask unknown xs = some (some false) := by
  rw [allProved_eq_some_some]
  apply anyProved_of_proved
  · intro x hx
    rw [refute, Option.isSome_map]
    exact h x hx
  · rcases hrefuted with ⟨x, hx, hask⟩
    exact ⟨x, hx, refute_eq_some_some.mpr hask⟩

theorem allProved_of_decided {decides : α -> Bool}
    (h : forall x, x ∈ xs -> ask x = some (some (decides x))) :
    allProved ask false xs = some (some (xs.all decides)) := by
  have hrefute : forall x, x ∈ xs ->
      refute ask x = some (some (!decides x)) := by
    intro x hx
    rw [refute_eq_some_some, Bool.not_not]
    exact h x hx
  rw [allProved_eq_some_some, anyProved_of_decided hrefute,
    List.all_eq_not_any_not, Bool.not_not]

/-!
# Plans of folds
-/

section Plans

open OpenRecursion (Callee Plan)

variable {Q R : Type}

def anyPlan (plan : α -> Plan Q R Verdict) : Bool -> List α -> Plan Q R Verdict
  | unknown, [] => .done (if unknown then none else some false)
  | unknown, x :: rest =>
    (plan x).bind (fun v =>
      match v with
      | some true => .done (some true)
      | some false => anyPlan plan unknown rest
      | none => anyPlan plan true rest)

def allPlan (plan : α -> Plan Q R Verdict) : Bool -> List α -> Plan Q R Verdict
  | unknown, [] => .done (if unknown then none else some true)
  | unknown, x :: rest =>
    (plan x).bind (fun v =>
      match v with
      | some false => .done (some false)
      | some true => allPlan plan unknown rest
      | none => allPlan plan true rest)

theorem eval_anyPlan (callee : Callee Q R) (plan : α -> Plan Q R Verdict) (unknown : Bool)
    (xs : List α) :
    (anyPlan plan unknown xs).eval callee =
      anyProved (fun x => (plan x).eval callee) unknown xs := by
  induction xs generalizing unknown with
  | nil => rfl
  | cons x rest ih =>
    rw [anyPlan, Plan.eval_bind, anyProved]
    rcases (plan x).eval callee with _ | _ | _ | _
    · rfl
    · exact ih true
    · exact ih unknown
    · rfl

theorem eval_allPlan (callee : Callee Q R) (plan : α -> Plan Q R Verdict) (unknown : Bool)
    (xs : List α) :
    (allPlan plan unknown xs).eval callee =
      allProved (fun x => (plan x).eval callee) unknown xs := by
  induction xs generalizing unknown with
  | nil => rfl
  | cons x rest ih =>
    rw [allPlan, Plan.eval_bind, allProved]
    rcases (plan x).eval callee with _ | _ | _ | _
    · rfl
    · exact ih true
    · rfl
    · exact ih unknown

variable {plan : α -> Plan Q R Verdict} {answers : Q -> R -> Prop} {q : Q}

theorem visits_anyPlan (h : (anyPlan plan unknown xs).Visits answers q) :
    exists x, x ∈ xs ∧ (plan x).Visits answers q := by
  induction xs generalizing unknown with
  | nil => cases h
  | cons x rest ih =>
    rcases Plan.visits_bind h with hhead | ⟨v, hrest⟩
    · exact ⟨x, List.mem_cons_self, hhead⟩
    · rcases v with _ | _ | _
      · rcases ih hrest with ⟨y, hy, hvisits⟩
        exact ⟨y, List.mem_cons_of_mem x hy, hvisits⟩
      · rcases ih hrest with ⟨y, hy, hvisits⟩
        exact ⟨y, List.mem_cons_of_mem x hy, hvisits⟩
      · cases hrest

theorem visits_allPlan (h : (allPlan plan unknown xs).Visits answers q) :
    exists x, x ∈ xs ∧ (plan x).Visits answers q := by
  induction xs generalizing unknown with
  | nil => cases h
  | cons x rest ih =>
    rcases Plan.visits_bind h with hhead | ⟨v, hrest⟩
    · exact ⟨x, List.mem_cons_self, hhead⟩
    · rcases v with _ | _ | _
      · rcases ih hrest with ⟨y, hy, hvisits⟩
        exact ⟨y, List.mem_cons_of_mem x hy, hvisits⟩
      · cases hrest
      · rcases ih hrest with ⟨y, hy, hvisits⟩
        exact ⟨y, List.mem_cons_of_mem x hy, hvisits⟩

end Plans

end Verdict

end Foundation
end JavaVsixLite
