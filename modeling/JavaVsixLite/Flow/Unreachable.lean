import JavaVsixLite.Flow.Execution

/-!
# Unreachable statements are not reached

What completes normally in some execution is something that the analysis lets complete.
The proof is an induction on the execution; only sequences and `try` have an argument,
since every other statement that the analysis looks into is abrupt by its rule.
-/

namespace JavaVsixLite
namespace Flow

open Foundation

variable {Expr State Value : Type} {ev : Evaluation Expr State Value}

def Code.canComplete : Code Expr Value -> Bool
  | .statement _ x => canCompleteNormally x
  | .sequence xs => blockCanCompleteNormally xs
  | .forLoop _ _ _ _ => true
  | .eachLoop _ _ _ => true
  | .resourced _ body => blockCanCompleteNormally body
  | .guarded _ body catches => blockCanCompleteNormally body || catchesCanComplete catches

theorem isComment_canComplete {statement : Statement Expr} (h : statement.isComment = true) :
    canCompleteNormally statement = true := by
  cases statement <;> first | rfl | cases h

theorem blockCanCompleteNormally_cons (statement : Statement Expr)
    (rest : List (Statement Expr)) :
    blockCanCompleteNormally (statement :: rest) =
      (canCompleteNormally statement && blockCanCompleteNormally rest) := by
  rw [blockCanCompleteNormally]
  cases hcomment : statement.isComment with
  | true => simp [isComment_canComplete hcomment]
  | false => cases canCompleteNormally statement <;> simp

theorem catchesCanComplete_of_mem {catches : List (Option (List (Statement Expr)))}
    {handler : List (Statement Expr)} (hmem : some handler ∈ catches)
    (h : blockCanCompleteNormally handler = true) : catchesCanComplete catches = true := by
  induction catches with
  | nil => cases hmem
  | cons clause rest ih =>
    rcases List.mem_cons.mp hmem with heq | hrest
    · rw [← heq, catchesCanComplete, h, Bool.true_or]
    · cases clause with
      | none =>
        rw [catchesCanComplete]
        exact ih hrest
      | some body => rw [catchesCanComplete, ih hrest, Bool.or_true]

theorem Runs.canComplete {code : Code Expr Value} {s t : State} {o : Outcome}
    (h : Runs ev code s o t) : o = .normal -> code.canComplete = true := by
  induction h with
  | sequence_next first rest ihfirst ihrest =>
    intro ho
    simp only [Code.canComplete] at ihfirst ihrest ⊢
    rw [blockCanCompleteNormally_cons, ihfirst trivial, ihrest ho]
    rfl
  | sequence_stop first stop _ => exact fun ho => absurd ho stop
  | returns | return_throws | throws | breaks | continues => exact fun ho => nomatch ho
  | block all ih | constructor_body all ih => exact ih
  | resources_close all inner closed ih => exact ih
  | uncaught inner ih =>
    intro ho
    simp only [Code.canComplete] at ih ⊢
    rw [ih ho, Bool.true_or]
  | caught inner clause all _ ih =>
    intro ho
    simp only [Code.canComplete] at ih ⊢
    rw [catchesCanComplete_of_mem clause (ih ho), Bool.or_true]
  | try_only inner ih =>
    intro ho
    simp only [Code.canComplete] at ih ⊢
    rw [canCompleteNormally_try, tryCanCompleteNormally, ih ho]
    rfl
  | try_finally inner all ihinner ihall =>
    intro ho
    simp only [Code.canComplete] at ihinner ihall ⊢
    rw [canCompleteNormally_try, tryCanCompleteNormally, ihinner ho, finallyCanComplete,
      ihall trivial]
    rfl
  | try_finally_overrides inner all stop => exact fun ho => absurd ho stop
  | _ =>
    intro ho
    first | rfl | cases ho

/-!
# The warning
-/

theorem Reaches.canComplete {xs : List (Statement Expr)} {s t : State} {i : Nat}
    (h : Reaches ev xs s i t) :
    blockCanCompleteNormally (xs.take i) = true := by
  induction h with
  | here => rfl
  | later first rest ih =>
    have hfirst := first.canComplete rfl
    simp only [Code.canComplete] at hfirst
    rw [List.take_succ_cons, blockCanCompleteNormally_cons, hfirst, ih]
    rfl

theorem blocked_of_checkUnreachableFrom {xs : List (Statement Expr)} {i : Nat} {terminated : Bool}
    {d : Diagnostic} (h : d ∈ checkUnreachableFrom i terminated xs) :
    i ≤ d.statement ∧
      (terminated || !blockCanCompleteNormally (xs.take (d.statement - i))) = true := by
  induction xs generalizing i terminated with
  | nil => cases h
  | cons x rest ih =>
    unfold checkUnreachableFrom at h
    split at h
    · rename_i hcomment
      rcases ih h with ⟨hle, hblocked⟩
      have hpos : d.statement - i = d.statement - (i + 1) + 1 := by omega
      refine ⟨by omega, ?_⟩
      rw [hpos, List.take_succ_cons, blockCanCompleteNormally_cons,
        isComment_canComplete hcomment]
      exact hblocked
    · split at h
      · rename_i hterminated
        rw [List.mem_singleton.mp h]
        exact ⟨Nat.le_refl i, by rw [hterminated, Bool.true_or]⟩
      · rename_i hrunning
        rcases ih h with ⟨hle, hblocked⟩
        have hpos : d.statement - i = d.statement - (i + 1) + 1 := by omega
        refine ⟨by omega, ?_⟩
        rw [hpos, List.take_succ_cons, blockCanCompleteNormally_cons, Bool.not_and, hblocked,
          Bool.or_true]

/-- A statement that the analysis does not let complete never completes normally, and
control never arrives at a flagged statement of a block. -/
theorem analysis_sound (ev : Evaluation Expr State Value) :
    (forall (x : Statement Expr) (labels : List Text) (s t : State) (o : Outcome),
      canCompleteNormally x = false -> Runs ev (.statement labels x) s o t -> o ≠ .normal) ∧
    (forall (hasError : Bool) (xs : List (Statement Expr)) (d : Diagnostic),
      d ∈ checkUnreachable hasError xs -> forall s t, ¬ Reaches ev xs s d.statement t) := by
  constructor
  · intro x labels s t o hx hruns ho
    have hcan := hruns.canComplete ho
    simp only [Code.canComplete] at hcan
    rw [hx] at hcan
    cases hcan
  · intro hasError xs d hd s t hreaches
    unfold checkUnreachable at hd
    split at hd
    · cases hd
    · have hblocked := (blocked_of_checkUnreachableFrom hd).2
      rw [Nat.sub_zero, hreaches.canComplete] at hblocked
      cases hblocked

namespace Cleanup

def anything : Evaluation Unit Unit Unit where
  eval := fun _ _ _ _ => True
  truth := fun _ => true
  advance := fun _ _ _ _ => True
  close := fun _ _ _ _ => True

/-- `try { return; } finally { f(); }` and another statement behind it. -/
def statements : List (Statement Unit) :=
  [.tryStatement [] (some [.returnStatement none]) [] (some (some [.simple .expression [()]])),
    .lineComment, .simple .expression [()]]

theorem behind_try_unreached :
    Runs anything (.statement [] (statements.head (by decide))) () .returned () ∧
    ¬ Runs anything (.statement [] (statements.head (by decide))) () .normal () ∧
    ¬ Reaches anything statements () 2 () := by
  refine ⟨?_, ?_, ?_⟩
  · apply Runs.try_finally (t := ())
    · exact .uncaught (.resources_close .nil
        (.sequence_stop (.returns .nil) (by decide)) trivial)
    · exact .sequence_next (.simple (.cons (v := ()) trivial .nil)) .sequence_nil
  · intro h
    exact (analysis_sound anything).1 _ [] () () .normal (by decide) h rfl
  · exact (analysis_sound anything).2 false statements (unreachableStatement 2) (by decide) () ()

end Cleanup

end Flow
end JavaVsixLite
