import JavaVsixLite.Flow.Completion

/-!
# Execution of statements

A big-step semantics.  What expressions do is a parameter of which nothing is assumed:
they may give any value, change the state or throw.  A `finally` replaces the outcome of
what stands before it when it does not complete itself.
-/

namespace JavaVsixLite
namespace Flow

open Foundation

inductive Outcome where
  | normal
  | returned
  | thrown
  | broke (label : Option Text)
  | continued (label : Option Text)
  | yielded
deriving DecidableEq

namespace Outcome

/-- Behind the statement that a `break` with the label leaves. -/
def leave (label : Option Text) (o : Outcome) : Outcome :=
  if o = .broke label then .normal else o

def iterates (labels : List Text) : Outcome -> Bool
  | .normal => true
  | .continued none => true
  | .continued (some label) => labels.contains label
  | _ => false

end Outcome

/-- A result `none` is an exception. -/
structure Evaluation (Expr State Value : Type) where
  eval : Expr -> State -> Option Value -> State -> Prop
  /-- The condition that a value stands for. -/
  truth : Value -> Bool
  /-- The next step of the iteration over a value; `false` at its end. -/
  advance : Value -> State -> Option Bool -> State -> Prop
  /-- Closing the resources. -/
  close : List Expr -> State -> Option Unit -> State -> Prop

variable {Expr State Value : Type}

namespace Evaluation

inductive EvalAll (ev : Evaluation Expr State Value) :
    List Expr -> State -> Option Unit -> State -> Prop where
  | nil {s : State} : EvalAll ev [] s (some ()) s
  | cons {e : Expr} {es : List Expr} {v : Value} {s t u : State} {r : Option Unit}
      (first : ev.eval e s (some v) t) (rest : EvalAll ev es t r u) : EvalAll ev (e :: es) s r u
  | throws {e : Expr} {es : List Expr} {s t : State} (first : ev.eval e s none t) :
      EvalAll ev (e :: es) s none t

/-- The condition of a `for` holds; a missing one always does. -/
inductive ForEnters (ev : Evaluation Expr State Value) :
    Option Expr -> State -> State -> Prop where
  | always {s : State} : ForEnters ev none s s
  | holds {condition : Expr} {v : Value} {s t : State} (eval : ev.eval condition s (some v) t)
      (truth : ev.truth v = true) : ForEnters ev (some condition) s t

end Evaluation

/-- What is executed: statements, and the parts of statements that have a rule of their
own.  A statement comes with the labels that stand directly before it. -/
inductive Code (Expr Value : Type) where
  | statement (labels : List Text) (statement : Statement Expr)
  | sequence (statements : List (Statement Expr))
  | forLoop (labels : List Text) (condition : Option Expr) (update : List Expr)
      (body : Statement Expr)
  | eachLoop (labels : List Text) (value : Value) (body : Statement Expr)
  | resourced (resources : List Expr) (body : List (Statement Expr))
  | guarded (resources : List Expr) (body : List (Statement Expr))
      (catches : List (Option (List (Statement Expr))))

open Evaluation in
inductive Runs (ev : Evaluation Expr State Value) :
    Code Expr Value -> State -> Outcome -> State -> Prop where
  | sequence_nil {s} : Runs ev (.sequence []) s .normal s
  | sequence_next {x xs s t u o} (first : Runs ev (.statement [] x) s .normal t)
      (rest : Runs ev (.sequence xs) t o u) : Runs ev (.sequence (x :: xs)) s o u
  | sequence_stop {x xs s t o} (first : Runs ev (.statement [] x) s o t) (stop : o ≠ .normal) :
      Runs ev (.sequence (x :: xs)) s o t
  | line_comment {labels s} : Runs ev (.statement labels .lineComment) s .normal s
  | block_comment {labels s} : Runs ev (.statement labels .blockComment) s .normal s
  | simple {labels kind parts s t} (all : EvalAll ev parts s (some ()) t) :
      Runs ev (.statement labels (.simple kind parts)) s .normal t
  | simple_throws {labels kind parts s t} (all : EvalAll ev parts s none t) :
      Runs ev (.statement labels (.simple kind parts)) s .thrown t
  | returns {labels value s t} (all : EvalAll ev value.toList s (some ()) t) :
      Runs ev (.statement labels (.returnStatement value)) s .returned t
  | return_throws {labels value s t} (all : EvalAll ev value.toList s none t) :
      Runs ev (.statement labels (.returnStatement value)) s .thrown t
  | throws {labels value s t r} (eval : ev.eval value s r t) :
      Runs ev (.statement labels (.throwStatement value)) s .thrown t
  | breaks {labels label s} :
      Runs ev (.statement labels (.breakStatement label)) s (.broke label) s
  | continues {labels label s} :
      Runs ev (.statement labels (.continueStatement label)) s (.continued label) s
  | yields {labels value v s t} (eval : ev.eval value s (some v) t) :
      Runs ev (.statement labels (.yieldStatement value)) s .yielded t
  | yield_throws {labels value s t} (eval : ev.eval value s none t) :
      Runs ev (.statement labels (.yieldStatement value)) s .thrown t
  | block {labels statements s o t} (all : Runs ev (.sequence statements) s o t) :
      Runs ev (.statement labels (.block statements)) s o t
  | constructor_body {labels statements s o t} (all : Runs ev (.sequence statements) s o t) :
      Runs ev (.statement labels (.constructorBody statements)) s o t
  | labeled {labels label body s o t} (inner : Runs ev (.statement (label :: labels) body) s o t) :
      Runs ev (.statement labels (.labeledStatement label body)) s (o.leave (some label)) t
  | if_throws {labels condition consequence alternative s t} (eval : ev.eval condition s none t) :
      Runs ev (.statement labels (.ifStatement condition consequence alternative)) s .thrown t
  | if_true {labels condition consequence alternative v s t o u}
      (eval : ev.eval condition s (some v) t) (holds : ev.truth v = true)
      (branch : Runs ev (.statement [] consequence) t o u) :
      Runs ev (.statement labels (.ifStatement condition consequence alternative)) s o u
  | if_false {labels condition consequence alternative v s t o u}
      (eval : ev.eval condition s (some v) t) (fails : ev.truth v = false)
      (branch : Runs ev (.statement [] alternative) t o u) :
      Runs ev (.statement labels (.ifStatement condition consequence (some alternative))) s o u
  | if_skip {labels condition consequence v s t} (eval : ev.eval condition s (some v) t)
      (fails : ev.truth v = false) :
      Runs ev (.statement labels (.ifStatement condition consequence none)) s .normal t
  | while_throws {labels condition body s t} (eval : ev.eval condition s none t) :
      Runs ev (.statement labels (.whileStatement condition body)) s .thrown t
  | while_done {labels condition body v s t} (eval : ev.eval condition s (some v) t)
      (fails : ev.truth v = false) :
      Runs ev (.statement labels (.whileStatement condition body)) s .normal t
  | while_again {labels condition body v s t u w o o'} (eval : ev.eval condition s (some v) t)
      (holds : ev.truth v = true) (inner : Runs ev (.statement [] body) t o u)
      (iterates : o.iterates labels = true)
      (again : Runs ev (.statement labels (.whileStatement condition body)) u o' w) :
      Runs ev (.statement labels (.whileStatement condition body)) s o' w
  | while_exit {labels condition body v s t u o} (eval : ev.eval condition s (some v) t)
      (holds : ev.truth v = true) (inner : Runs ev (.statement [] body) t o u)
      (exit : o.iterates labels = false) :
      Runs ev (.statement labels (.whileStatement condition body)) s (o.leave none) u
  | do_exit {labels condition body s t o} (inner : Runs ev (.statement [] body) s o t)
      (exit : o.iterates labels = false) :
      Runs ev (.statement labels (.doStatement body condition)) s (o.leave none) t
  | do_throws {labels condition body s t u o} (inner : Runs ev (.statement [] body) s o t)
      (iterates : o.iterates labels = true) (eval : ev.eval condition t none u) :
      Runs ev (.statement labels (.doStatement body condition)) s .thrown u
  | do_done {labels condition body v s t u o} (inner : Runs ev (.statement [] body) s o t)
      (iterates : o.iterates labels = true) (eval : ev.eval condition t (some v) u)
      (fails : ev.truth v = false) :
      Runs ev (.statement labels (.doStatement body condition)) s .normal u
  | do_again {labels condition body v s t u w o o'} (inner : Runs ev (.statement [] body) s o t)
      (iterates : o.iterates labels = true) (eval : ev.eval condition t (some v) u)
      (holds : ev.truth v = true)
      (again : Runs ev (.statement labels (.doStatement body condition)) u o' w) :
      Runs ev (.statement labels (.doStatement body condition)) s o' w
  | for_throws {labels init condition update body s t} (all : EvalAll ev init s none t) :
      Runs ev (.statement labels (.forStatement init condition update body)) s .thrown t
  | for_loop {labels init condition update body s t o u} (all : EvalAll ev init s (some ()) t)
      (loop : Runs ev (.forLoop labels condition update body) t o u) :
      Runs ev (.statement labels (.forStatement init condition update body)) s o u
  | for_condition_throws {labels condition update body s t} (eval : ev.eval condition s none t) :
      Runs ev (.forLoop labels (some condition) update body) s .thrown t
  | for_done {labels condition update body v s t} (eval : ev.eval condition s (some v) t)
      (fails : ev.truth v = false) :
      Runs ev (.forLoop labels (some condition) update body) s .normal t
  | for_exit {labels condition update body s t u o}
      (holds : ForEnters ev condition s t) (inner : Runs ev (.statement [] body) t o u)
      (exit : o.iterates labels = false) :
      Runs ev (.forLoop labels condition update body) s (o.leave none) u
  | for_update_throws {labels condition update body s t u w o}
      (holds : ForEnters ev condition s t) (inner : Runs ev (.statement [] body) t o u)
      (iterates : o.iterates labels = true) (all : EvalAll ev update u none w) :
      Runs ev (.forLoop labels condition update body) s .thrown w
  | for_again {labels condition update body s t u w x o o'}
      (holds : ForEnters ev condition s t) (inner : Runs ev (.statement [] body) t o u)
      (iterates : o.iterates labels = true) (all : EvalAll ev update u (some ()) w)
      (again : Runs ev (.forLoop labels condition update body) w o' x) :
      Runs ev (.forLoop labels condition update body) s o' x
  | each_throws {labels value body s t} (eval : ev.eval value s none t) :
      Runs ev (.statement labels (.enhancedForStatement value body)) s .thrown t
  | each_loop {labels value body v s t o u} (eval : ev.eval value s (some v) t)
      (loop : Runs ev (.eachLoop labels v body) t o u) :
      Runs ev (.statement labels (.enhancedForStatement value body)) s o u
  | each_advance_throws {labels v body s t} (step : ev.advance v s none t) :
      Runs ev (.eachLoop labels v body) s .thrown t
  | each_done {labels v body s t} (step : ev.advance v s (some false) t) :
      Runs ev (.eachLoop labels v body) s .normal t
  | each_exit {labels v body s t o u} (step : ev.advance v s (some true) t)
      (inner : Runs ev (.statement [] body) t o u) (exit : o.iterates labels = false) :
      Runs ev (.eachLoop labels v body) s (o.leave none) u
  | each_again {labels v body s t o o' u w} (step : ev.advance v s (some true) t)
      (inner : Runs ev (.statement [] body) t o u) (iterates : o.iterates labels = true)
      (again : Runs ev (.eachLoop labels v body) u o' w) :
      Runs ev (.eachLoop labels v body) s o' w
  | synchronized_throws {labels lock body s t} (eval : ev.eval lock s none t) :
      Runs ev (.statement labels (.synchronizedStatement lock body)) s .thrown t
  | synchronized {labels lock body v s t o u} (eval : ev.eval lock s (some v) t)
      (all : Runs ev (.sequence body) t o u) :
      Runs ev (.statement labels (.synchronizedStatement lock body)) s o u
  | switch_groups_throws {labels selector groups s t} (eval : ev.eval selector s none t) :
      Runs ev (.statement labels (.switchGroups selector groups)) s .thrown t
  /-- Any group may be selected, or none behind the last one. -/
  | switch_groups {labels selector groups v i s t o u} (eval : ev.eval selector s (some v) t)
      (all : Runs ev (.sequence (groups.drop i).flatten) t o u) :
      Runs ev (.statement labels (.switchGroups selector groups)) s (o.leave none) u
  | switch_rules_throws {labels selector rules s t} (eval : ev.eval selector s none t) :
      Runs ev (.statement labels (.switchRules selector rules)) s .thrown t
  | switch_rules_none {labels selector rules v s t} (eval : ev.eval selector s (some v) t) :
      Runs ev (.statement labels (.switchRules selector rules)) s .normal t
  | switch_rule {labels selector rules rule v s t o u} (eval : ev.eval selector s (some v) t)
      (selected : rule ∈ rules) (inner : Runs ev (.statement [] rule) t o u) :
      Runs ev (.statement labels (.switchRules selector rules)) s (o.leave none) u
  | resources_throw {resources body r s t u} (all : EvalAll ev resources s none t)
      (closed : ev.close resources t r u) :
      Runs ev (.resourced resources body) s .thrown u
  | resources_close {resources body s t o u w} (all : EvalAll ev resources s (some ()) t)
      (inner : Runs ev (.sequence body) t o u) (closed : ev.close resources u (some ()) w) :
      Runs ev (.resourced resources body) s o w
  | resources_close_throws {resources body s t o u w}
      (all : EvalAll ev resources s (some ()) t) (inner : Runs ev (.sequence body) t o u)
      (closed : ev.close resources u none w) :
      Runs ev (.resourced resources body) s .thrown w
  /-- No exception, or none that a clause catches. -/
  | uncaught {resources body catches s o t} (inner : Runs ev (.resourced resources body) s o t) :
      Runs ev (.guarded resources body catches) s o t
  | caught {resources body catches handler s t o u}
      (inner : Runs ev (.resourced resources body) s .thrown t)
      (clause : some handler ∈ catches) (all : Runs ev (.sequence handler) t o u) :
      Runs ev (.guarded resources body catches) s o u
  | try_only {labels resources body catches s o t}
      (inner : Runs ev (.guarded resources body catches) s o t) :
      Runs ev (.statement labels (.tryStatement resources (some body) catches none)) s o t
  /-- The outcome from before is taken up again. -/
  | try_finally {labels resources body catches last s o t u}
      (inner : Runs ev (.guarded resources body catches) s o t)
      (all : Runs ev (.sequence last) t .normal u) :
      Runs ev (.statement labels (.tryStatement resources (some body) catches (some (some last))))
        s o u
  | try_finally_overrides {labels resources body catches last s o o' t u}
      (inner : Runs ev (.guarded resources body catches) s o t)
      (all : Runs ev (.sequence last) t o' u) (stop : o' ≠ .normal) :
      Runs ev (.statement labels (.tryStatement resources (some body) catches (some (some last))))
        s o' u

/-- Control arrives at the statement of a block at the place `i`. -/
inductive Reaches (ev : Evaluation Expr State Value) :
    List (Statement Expr) -> State -> Nat -> State -> Prop where
  | here {x xs s} : Reaches ev (x :: xs) s 0 s
  | later {x xs s t i u} (first : Runs ev (.statement [] x) s .normal t)
      (rest : Reaches ev xs t i u) : Reaches ev (x :: xs) s (i + 1) u

end Flow
end JavaVsixLite
