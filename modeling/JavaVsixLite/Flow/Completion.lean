import JavaVsixLite.Foundation.ByteText

/-!
# Normal completion of statements

The conservative analysis behind the warning for unreachable code.  Only direct abrupt
statements, blocks and `try` forms are looked into; every other statement counts as
one that can complete.
-/

namespace JavaVsixLite
namespace Flow

open Foundation

/-- The statements that do nothing but evaluate their expressions in order. -/
inductive SimpleKind where
  | expression
  | localVariableDeclaration
  | localTypeDeclaration
  | assertion
  | explicitConstructorInvocation

/-- A body that is missing was lost in error recovery. -/
inductive Statement (Expr : Type) where
  | lineComment
  | blockComment
  | simple (kind : SimpleKind) (parts : List Expr)
  | returnStatement (value : Option Expr)
  | throwStatement (value : Expr)
  | breakStatement (label : Option Text)
  | continueStatement (label : Option Text)
  | yieldStatement (value : Expr)
  | block (statements : List (Statement Expr))
  | constructorBody (statements : List (Statement Expr))
  | labeledStatement (label : Text) (body : Statement Expr)
  | ifStatement (condition : Expr) (consequence : Statement Expr)
      (alternative : Option (Statement Expr))
  | whileStatement (condition : Expr) (body : Statement Expr)
  | doStatement (body : Statement Expr) (condition : Expr)
  | forStatement (init : List Expr) (condition : Option Expr) (update : List Expr)
      (body : Statement Expr)
  | enhancedForStatement (value : Expr) (body : Statement Expr)
  | synchronizedStatement (lock : Expr) (body : List (Statement Expr))
  /-- A switch of groups, which fall through to the next one. -/
  | switchGroups (selector : Expr) (groups : List (List (Statement Expr)))
  | switchRules (selector : Expr) (rules : List (Statement Expr))
  /-- With or without resources. -/
  | tryStatement (resources : List Expr) (body : Option (List (Statement Expr)))
      (catches : List (Option (List (Statement Expr))))
      (finallyClause : Option (Option (List (Statement Expr))))

variable {Expr : Type}

def Statement.isComment : Statement Expr -> Bool
  | .lineComment => true
  | .blockComment => true
  | _ => false

mutual
def canCompleteNormally : Statement Expr -> Bool
  | .returnStatement _ => false
  | .throwStatement _ => false
  | .breakStatement _ => false
  | .continueStatement _ => false
  | .block statements => blockCanCompleteNormally statements
  | .constructorBody statements => blockCanCompleteNormally statements
  | .tryStatement _ none _ _ => true
  | .tryStatement _ (some body) catches finallyClause =>
    (blockCanCompleteNormally body || catchesCanComplete catches) &&
      finallyCanComplete finallyClause
  | _ => true

def blockCanCompleteNormally : List (Statement Expr) -> Bool
  | [] => true
  | statement :: rest =>
    if statement.isComment then blockCanCompleteNormally rest
    else if !canCompleteNormally statement then false
    else blockCanCompleteNormally rest

def catchesCanComplete : List (Option (List (Statement Expr))) -> Bool
  | [] => false
  | none :: rest => catchesCanComplete rest
  | some body :: rest => blockCanCompleteNormally body || catchesCanComplete rest

def finallyCanComplete : Option (Option (List (Statement Expr))) -> Bool
  | none => true
  | some none => true
  | some (some block) => blockCanCompleteNormally block
end

/-- The body of a `try` or a catch clause completes, and the `finally` does. -/
def tryCanCompleteNormally (body : Option (List (Statement Expr)))
    (catches : List (Option (List (Statement Expr))))
    (finallyClause : Option (Option (List (Statement Expr)))) : Bool :=
  match body with
  | none => true
  | some body =>
    (blockCanCompleteNormally body || catchesCanComplete catches) &&
      finallyCanComplete finallyClause

theorem canCompleteNormally_try (resources : List Expr) (body : Option (List (Statement Expr)))
    (catches : List (Option (List (Statement Expr))))
    (finallyClause : Option (Option (List (Statement Expr)))) :
    canCompleteNormally (.tryStatement resources body catches finallyClause) =
      tryCanCompleteNormally body catches finallyClause := by
  cases body <;> rfl

/-!
# The warning
-/

def unreachableCode : String := "jvl.unreachable"

/-- The statement is given by its place among the statements of the block. -/
structure Diagnostic where
  statement : Nat
  code : String
  message : String
deriving DecidableEq

def unreachableStatement (i : Nat) : Diagnostic where
  statement := i
  code := unreachableCode
  message := "unreachable statement"

/-- The loop over the statements, the next one at the place `i`. -/
def checkUnreachableFrom : Nat -> Bool -> List (Statement Expr) -> List Diagnostic
  | _, _, [] => []
  | i, terminated, statement :: rest =>
    if statement.isComment then checkUnreachableFrom (i + 1) terminated rest
    else if terminated then [unreachableStatement i]
    else checkUnreachableFrom (i + 1) (!canCompleteNormally statement) rest

/-- A block with a syntax error gets no warning. -/
def checkUnreachable (hasError : Bool) (statements : List (Statement Expr)) : List Diagnostic :=
  if hasError then [] else checkUnreachableFrom 0 false statements

end Flow
end JavaVsixLite
