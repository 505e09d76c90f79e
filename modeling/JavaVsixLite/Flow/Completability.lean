import JavaVsixLite.Flow.Execution

/-!
# Completion as the language defines it

JLS 14.22 says which statements can complete normally from the shape of the code
alone: the constant conditions, the `break` and `continue` statements that can be
reached, and whether a switch covers every value.  Exceptions are left out, a `catch`
is always entered.
-/

namespace JavaVsixLite
namespace Flow

open Foundation

/-- What the rules ask of expressions: their constant value, and for a selector
whether the labels of its switch cover every value. -/
structure Constants (Expr : Type) where
  constant : Expr -> Option Bool
  exhaustive : Expr -> Bool

section Rules

variable {Expr Value : Type}

inductive Ends (k : Constants Expr) : Code Expr Value -> Outcome -> Prop where
  | sequence_nil : Ends k (.sequence []) .normal
  | sequence_next {x xs o} (first : Ends k (.statement [] x) .normal)
      (rest : Ends k (.sequence xs) o) : Ends k (.sequence (x :: xs)) o
  | sequence_stop {x xs o} (first : Ends k (.statement [] x) o) (stop : o ≠ .normal) :
      Ends k (.sequence (x :: xs)) o
  | line_comment {labels} : Ends k (.statement labels .lineComment) .normal
  | block_comment {labels} : Ends k (.statement labels .blockComment) .normal
  | simple {labels kind parts} : Ends k (.statement labels (.simple kind parts)) .normal
  | returns {labels value} : Ends k (.statement labels (.returnStatement value)) .returned
  | breaks {labels label} :
      Ends k (.statement labels (.breakStatement label)) (.broke label)
  | continues {labels label} :
      Ends k (.statement labels (.continueStatement label)) (.continued label)
  | yields {labels value} : Ends k (.statement labels (.yieldStatement value)) .yielded
  | block {labels statements o} (all : Ends k (.sequence statements) o) :
      Ends k (.statement labels (.block statements)) o
  | constructor_body {labels statements o} (all : Ends k (.sequence statements) o) :
      Ends k (.statement labels (.constructorBody statements)) o
  | labeled {labels label body o} (inner : Ends k (.statement (label :: labels) body) o) :
      Ends k (.statement labels (.labeledStatement label body)) (o.leave (some label))
  | if_true {labels condition consequence alternative o}
      (branch : Ends k (.statement [] consequence) o) :
      Ends k (.statement labels (.ifStatement condition consequence alternative)) o
  | if_false {labels condition consequence alternative o}
      (branch : Ends k (.statement [] alternative) o) :
      Ends k (.statement labels (.ifStatement condition consequence (some alternative))) o
  | if_skip {labels condition consequence} :
      Ends k (.statement labels (.ifStatement condition consequence none)) .normal
  | while_done {labels condition body} (leaves : k.constant condition ≠ some true) :
      Ends k (.statement labels (.whileStatement condition body)) .normal
  | while_exit {labels condition body o} (enters : k.constant condition ≠ some false)
      (inner : Ends k (.statement [] body) o) (exit : o.iterates labels = false) :
      Ends k (.statement labels (.whileStatement condition body)) (o.leave none)
  | do_exit {labels condition body o} (inner : Ends k (.statement [] body) o)
      (exit : o.iterates labels = false) :
      Ends k (.statement labels (.doStatement body condition)) (o.leave none)
  | do_done {labels condition body o} (inner : Ends k (.statement [] body) o)
      (iterates : o.iterates labels = true) (leaves : k.constant condition ≠ some true) :
      Ends k (.statement labels (.doStatement body condition)) .normal
  | for_loop {labels init condition update body o}
      (loop : Ends k (.forLoop labels condition update body) o) :
      Ends k (.statement labels (.forStatement init condition update body)) o
  | for_done {labels condition update body} (leaves : k.constant condition ≠ some true) :
      Ends k (.forLoop labels (some condition) update body) .normal
  | for_exit {labels condition update body o}
      (enters : forall c, condition = some c -> k.constant c ≠ some false)
      (inner : Ends k (.statement [] body) o) (exit : o.iterates labels = false) :
      Ends k (.forLoop labels condition update body) (o.leave none)
  | each_loop {labels value v body o} (loop : Ends k (.eachLoop labels v body) o) :
      Ends k (.statement labels (.enhancedForStatement value body)) o
  | each_done {labels v body} : Ends k (.eachLoop labels v body) .normal
  | each_exit {labels v body o} (inner : Ends k (.statement [] body) o)
      (exit : o.iterates labels = false) : Ends k (.eachLoop labels v body) (o.leave none)
  | synchronized {labels lock body o} (all : Ends k (.sequence body) o) :
      Ends k (.statement labels (.synchronizedStatement lock body)) o
  | switch_groups_none {labels selector groups}
      (partly : k.exhaustive selector = false ∨ groups = []) :
      Ends k (.statement labels (.switchGroups selector groups)) .normal
  /-- Every group is entered, and falls through to the next one. -/
  | switch_groups {labels selector groups i o} (group : i < groups.length)
      (all : Ends k (.sequence (groups.drop i).flatten) o) :
      Ends k (.statement labels (.switchGroups selector groups)) (o.leave none)
  | switch_rules_none {labels selector rules}
      (partly : k.exhaustive selector = false ∨ rules = []) :
      Ends k (.statement labels (.switchRules selector rules)) .normal
  | switch_rule {labels selector rules rule o} (selected : rule ∈ rules)
      (inner : Ends k (.statement [] rule) o) :
      Ends k (.statement labels (.switchRules selector rules)) (o.leave none)
  | resourced {resources body o} (inner : Ends k (.sequence body) o) :
      Ends k (.resourced resources body) o
  | guarded_body {resources body catches o} (inner : Ends k (.resourced resources body) o) :
      Ends k (.guarded resources body catches) o
  | guarded_catch {resources body catches handler o} (clause : some handler ∈ catches)
      (all : Ends k (.sequence handler) o) : Ends k (.guarded resources body catches) o
  | try_missing {labels resources catches last} :
      Ends k (.statement labels (.tryStatement resources none catches last)) .normal
  | try_only {labels resources body catches last o} (missing : last.join = none)
      (inner : Ends k (.guarded resources body catches) o) :
      Ends k (.statement labels (.tryStatement resources (some body) catches last)) o
  | try_finally {labels resources body catches last o}
      (inner : Ends k (.guarded resources body catches) o)
      (all : Ends k (.sequence last) .normal) :
      Ends k (.statement labels (.tryStatement resources (some body) catches (some (some last)))) o
  | try_finally_overrides {labels resources body catches last o}
      (all : Ends k (.sequence last) o) (stop : o ≠ .normal) :
      Ends k (.statement labels (.tryStatement resources (some body) catches (some (some last)))) o

end Rules

/-!
# Executions follow the rules
-/

section Soundness

variable {Expr State Value : Type} {ev : Evaluation Expr State Value} {k : Constants Expr}

/-- The values of constant expressions are the ones they are evaluated to. -/
def Constants.AgreesWith (k : Constants Expr) (ev : Evaluation Expr State Value) : Prop :=
  forall e b s v t, k.constant e = some b -> ev.eval e s (some v) t -> ev.truth v = b

theorem Outcome.leave_ne_thrown {o : Outcome} {label : Option Text}
    (h : o.leave label ≠ .thrown) : o ≠ .thrown := by
  intro ho
  rw [ho] at h
  exact h rfl

theorem Constants.AgreesWith.ne {e : Expr} {s t : State} {v : Value} {b : Bool}
    (h : k.AgreesWith ev) (heval : ev.eval e s (some v) t) (htruth : ev.truth v = b) :
    k.constant e ≠ some (!b) := by
  intro hconstant
  have hvalue := h e _ s v t hconstant heval
  rw [htruth] at hvalue
  cases b with
  | true => cases hvalue
  | false => cases hvalue

/--
What an execution does, other than to throw, the rules allow, as long as no switch
is taken to cover every value; the semantics lets any group be selected.
-/
theorem Runs.ends (hk : k.AgreesWith ev) (hopen : forall e, k.exhaustive e = false)
    {code : Code Expr Value} {s t : State} {o : Outcome} (h : Runs ev code s o t) :
    o ≠ .thrown -> Ends k code o := by
  induction h with
  | sequence_nil => exact fun _ => .sequence_nil
  | sequence_next first rest ihfirst ihrest =>
    intro ho
    exact .sequence_next (ihfirst (fun hne => by cases hne)) (ihrest ho)
  | sequence_stop first stop ih => exact fun ho => .sequence_stop (ih ho) stop
  | line_comment => exact fun _ => .line_comment
  | block_comment => exact fun _ => .block_comment
  | simple all => exact fun _ => .simple
  | returns all => exact fun _ => .returns
  | breaks => exact fun _ => .breaks
  | continues => exact fun _ => .continues
  | yields eval => exact fun _ => .yields
  | block all ih => exact fun ho => .block (ih ho)
  | constructor_body all ih => exact fun ho => .constructor_body (ih ho)
  | labeled inner ih => exact fun ho => .labeled (ih (Outcome.leave_ne_thrown ho))
  | if_true eval holds branch ih => exact fun ho => .if_true (ih ho)
  | if_false eval fails branch ih => exact fun ho => .if_false (ih ho)
  | if_skip eval fails => exact fun _ => .if_skip
  | while_done eval fails => exact fun _ => .while_done (hk.ne eval fails)
  | while_again eval holds inner iterates again _ ih => exact ih
  | while_exit eval holds inner exit ih =>
    exact fun ho => .while_exit (hk.ne eval holds) (ih (Outcome.leave_ne_thrown ho)) exit
  | do_exit inner exit ih => exact fun ho => .do_exit (ih (Outcome.leave_ne_thrown ho)) exit
  | do_done inner iterates eval fails ih =>
    intro _
    apply Ends.do_done (ih _) iterates (hk.ne eval fails)
    intro hthrown
    rw [hthrown] at iterates
    cases iterates
  | do_again inner iterates eval holds again _ ih => exact ih
  | for_loop all loop ih => exact fun ho => .for_loop (ih ho)
  | for_done eval fails => exact fun _ => .for_done (hk.ne eval fails)
  | for_exit holds inner exit ih =>
    intro ho
    apply Ends.for_exit _ (ih (Outcome.leave_ne_thrown ho)) exit
    intro c hc
    cases holds with
    | always => cases hc
    | holds eval truth =>
      cases hc
      exact hk.ne eval truth
  | for_again holds inner iterates all again _ ih => exact ih
  | each_loop eval loop ih => exact fun ho => .each_loop (ih ho)
  | each_done step => exact fun _ => .each_done
  | each_exit step inner exit ih =>
    exact fun ho => .each_exit (ih (Outcome.leave_ne_thrown ho)) exit
  | each_again step inner iterates again _ ih => exact ih
  | synchronized eval all ih => exact fun ho => .synchronized (ih ho)
  | @switch_groups labels selector groups v i s t o u eval all ih =>
    intro ho
    rcases Nat.lt_or_ge i groups.length with hgroup | hbehind
    · exact .switch_groups hgroup (ih (Outcome.leave_ne_thrown ho))
    · rw [List.drop_eq_nil_of_le hbehind] at all
      cases all
      exact .switch_groups_none (Or.inl (hopen selector))
  | switch_rules_none eval => exact fun _ => .switch_rules_none (Or.inl (hopen _))
  | switch_rule eval selected inner ih =>
    exact fun ho => .switch_rule selected (ih (Outcome.leave_ne_thrown ho))
  | resources_close all inner closed ih => exact fun ho => .resourced (ih ho)
  | uncaught inner ih => exact fun ho => .guarded_body (ih ho)
  | caught inner clause all _ ih => exact fun ho => .guarded_catch clause (ih ho)
  | try_only inner ih => exact fun ho => .try_only rfl (ih ho)
  | try_finally inner all ihinner ihall =>
    intro ho
    exact .try_finally (ihinner ho) (ihall (fun hne => by cases hne))
  | try_finally_overrides inner all stop _ ih =>
    exact fun ho => .try_finally_overrides (ih ho) stop
  | _ => exact fun ho => absurd rfl ho

end Soundness

end Flow
end JavaVsixLite
