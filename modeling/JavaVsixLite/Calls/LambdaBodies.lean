import JavaVsixLite.Classpath.Pom
import JavaVsixLite.Flow.Completability
import JavaVsixLite.Subtyping.Engine

/-!
# The shape of a lambda body

A lambda with a block as its body fits a function type by the `return` statements
that belong to it and by whether the block can complete normally.  The resolver
collects the returns without looking into lambdas and class bodies, and takes any
statement for one that completes unless it is a `return`, a `throw` or a loop whose
condition is written `true`.
-/

namespace JavaVsixLite
namespace Calls

open Foundation
open Foundation.Verdict
open JavaVsixLite.Flow (Statement Code Constants Ends)
open Classpath (trim)

/-!
# Bodies
-/

inductive TypeBody where
  | classBody
  | enumBody
  | interfaceBody
  | annotationTypeBody

/--
Expressions, as far as they hold statements.  The statements of an expression are
those of a switch expression; the code of a type body is what its methods,
constructors and initialisers consist of; a selector comes with its switch labels.
-/
inductive Part where
  | expression (text : Text) (constant : Option Bool) (parts : List Part)
      (statements : List (Statement Part))
  | selector (value : Part) (exhaustive : Bool)
  | lambda (body : List (Statement Part))
  | typeBody (kind : TypeBody) (code : List (List (Statement Part)))

namespace Part

/-- The text, for what can be a condition. -/
def text : Part -> Text
  | .expression text _ _ _ => text
  | .selector value _ => value.text
  | _ => []

def constant : Part -> Option Bool
  | .expression _ constant _ _ => constant
  | _ => none

def exhaustive : Part -> Bool
  | .selector _ exhaustive => exhaustive
  | _ => false

def constants : Constants Part where
  constant := constant
  exhaustive := exhaustive

end Part

inductive ExpressionKind where
  | methodInvocation
  | objectCreation
  | assignment
  | update
  | other

/-- An expression comes with the type it resolves to. -/
inductive LambdaBody where
  | missing
  | expression (kind : ExpressionKind) (type : Option TypeRef)
  | block (statements : List (Statement Part))

/-!
# Returns
-/

/-- `foreign` tells the returns inside of a body that is a type's. -/
structure Return where
  foreign : Bool
  valued : Bool

mutual
def partReturns (foreign : Bool) : Part -> List Return
  | .expression _ _ parts statements =>
    partsReturns foreign parts ++ blockReturns foreign statements
  | .selector value _ => partReturns foreign value
  | .lambda _ => []
  | .typeBody .classBody _ => []
  | .typeBody _ code => groupsReturns true code

def partsReturns (foreign : Bool) : List Part -> List Return
  | [] => []
  | part :: rest => partReturns foreign part ++ partsReturns foreign rest

def statementReturns (foreign : Bool) : Statement Part -> List Return
  | .returnStatement value => [{ foreign := foreign, valued := value.isSome }]
  | .lineComment => []
  | .blockComment => []
  | .simple _ parts => partsReturns foreign parts
  | .throwStatement value => partReturns foreign value
  | .breakStatement _ => []
  | .continueStatement _ => []
  | .yieldStatement value => partReturns foreign value
  | .block statements => blockReturns foreign statements
  | .constructorBody statements => blockReturns foreign statements
  | .labeledStatement _ body => statementReturns foreign body
  | .ifStatement condition consequence none =>
    partReturns foreign condition ++ statementReturns foreign consequence
  | .ifStatement condition consequence (some alternative) =>
    partReturns foreign condition ++ statementReturns foreign consequence ++
      statementReturns foreign alternative
  | .whileStatement condition body =>
    partReturns foreign condition ++ statementReturns foreign body
  | .doStatement body condition =>
    statementReturns foreign body ++ partReturns foreign condition
  | .forStatement init none update body =>
    partsReturns foreign init ++ partsReturns foreign update ++ statementReturns foreign body
  | .forStatement init (some condition) update body =>
    partsReturns foreign init ++ partReturns foreign condition ++
      partsReturns foreign update ++ statementReturns foreign body
  | .enhancedForStatement value body =>
    partReturns foreign value ++ statementReturns foreign body
  | .synchronizedStatement lock body => partReturns foreign lock ++ blockReturns foreign body
  | .switchGroups selector groups =>
    partReturns foreign selector ++ groupsReturns foreign groups
  | .switchRules selector rules => partReturns foreign selector ++ blockReturns foreign rules
  | .tryStatement resources body catches finallyClause =>
    partsReturns foreign resources ++ clauseReturns foreign body ++
      catchesReturns foreign catches ++ finallyReturns foreign finallyClause

def blockReturns (foreign : Bool) : List (Statement Part) -> List Return
  | [] => []
  | statement :: rest => statementReturns foreign statement ++ blockReturns foreign rest

def groupsReturns (foreign : Bool) : List (List (Statement Part)) -> List Return
  | [] => []
  | group :: rest => blockReturns foreign group ++ groupsReturns foreign rest

def clauseReturns (foreign : Bool) : Option (List (Statement Part)) -> List Return
  | none => []
  | some block => blockReturns foreign block

def catchesReturns (foreign : Bool) : List (Option (List (Statement Part))) -> List Return
  | [] => []
  | clause :: rest => clauseReturns foreign clause ++ catchesReturns foreign rest

def finallyReturns (foreign : Bool) : Option (Option (List (Statement Part))) -> List Return
  | none => []
  | some clause => clauseReturns foreign clause
end

/-- `has_value` and `has_bare` behind the walk, which does not ask whose a return is. -/
def collectLambdaReturns (block : List (Statement Part)) : Bool × Bool :=
  ((blockReturns false block).any (fun r => r.valued),
    (blockReturns false block).any (fun r => !r.valued))

/-!
# Completion
-/

/-- The condition is the word `true`, in parentheses perhaps. -/
def writtenTrue (condition : Part) : Bool :=
  let opened := (trim condition.text).dropWhile (fun c => c == '(')
  trim (opened.reverse.dropWhile (fun c => c == ')')).reverse == ['t', 'r', 'u', 'e']

def isUnconditionalLoop : Statement Part -> Bool
  | .whileStatement condition _ => writtenTrue condition
  | .forStatement _ none _ _ => true
  | .forStatement _ (some condition) _ _ => writtenTrue condition
  | _ => false

mutual
@[grind =] def lambdaStatementCompletes : Statement Part -> Bool
  | .returnStatement _ => false
  | .throwStatement _ => false
  | .block statements => lambdaBlockCompletesNormally statements
  | .whileStatement condition body => !isUnconditionalLoop (.whileStatement condition body)
  | .forStatement init condition update body =>
    !isUnconditionalLoop (.forStatement init condition update body)
  | _ => true

@[grind =] def lambdaBlockCompletesNormally : List (Statement Part) -> Bool
  | [] => true
  | statement :: rest =>
    (statement.isComment || lambdaStatementCompletes statement) &&
      lambdaBlockCompletesNormally rest
end

/-!
# Shapes
-/

inductive BodyShape where
  | voidOnly
  | valueOnly
  | either
  | unknown
deriving DecidableEq

def computeLambdaBodyShape : LambdaBody -> BodyShape
  | .missing => .unknown
  | .expression .methodInvocation type => if type = some .void then .voidOnly else .either
  | .expression .objectCreation _ => .either
  | .expression .assignment _ => .either
  | .expression .update _ => .either
  | .expression .other _ => .valueOnly
  | .block statements =>
    match collectLambdaReturns statements with
    | (true, true) => .unknown
    | (true, false) => .valueOnly
    | (false, true) => .voidOnly
    | (false, false) =>
      if lambdaBlockCompletesNormally statements then .voidOnly else .either

/-- What the facts of the document hold for the lambda. -/
inductive ShapeEntry where
  | absent
  | computing
  | computed

/-- `lambda_body_shape`; asked for while it is computed there is no shape. -/
def lambdaBodyShape (entry : ShapeEntry) (body : LambdaBody) : BodyShape :=
  match entry with
  | .computing => .unknown
  | _ => computeLambdaBodyShape body

structure FunctionDescriptor where
  parameters : List TypeRef
  result : TypeRef

def shapeFits (shape : BodyShape) (result : TypeRef) : Bool :=
  match shape with
  | .unknown => true
  | .either => true
  | .voidOnly => result == .void
  | .valueOnly => !(result == .void)

def declaredCheck (ask : Ask) (declared target : TypeRef) : Option Verdict :=
  if declared == target then some (some true)
  else
    match ask (declared, target), ask (target, declared) with
    | some forth, some back => allProved some false [forth, back]
    | _, _ => none

/-- The verdict on the written parameter types, `none` where none is written. -/
def parameterChecks (ask : Ask) (parameters : List (Option TypeRef))
    (descriptor : FunctionDescriptor) : Option Verdict :=
  match ((parameters.zip descriptor.parameters).filterMap (fun entry =>
      entry.1.map (fun declared => declaredCheck ask declared entry.2))).mapM id with
  | none => none
  | some verdicts => allProved some false verdicts

def lambdaCompatible (ask : Ask) (shape : BodyShape) (parameters : List (Option TypeRef))
    (target : Option FunctionDescriptor) : Option Verdict :=
  match target with
  | none => some none
  | some descriptor =>
    if parameters.length ≠ descriptor.parameters.length then some (some false)
    else if shapeFits shape descriptor.result = false then some (some false)
    else parameterChecks ask parameters descriptor

/-!
# Congruence
-/

def ownReturns (block : List (Statement Part)) : List Return :=
  (blockReturns false block).filter (fun r => !r.foreign)

def foreignReturns (block : List (Statement Part)) : List Return :=
  (blockReturns false block).filter (fun r => r.foreign)

/-- JLS 14.22. -/
def CanCompleteNormally (block : List (Statement Part)) : Prop :=
  Ends Part.constants (Code.sequence block : Code Part Unit) .normal

/-- JLS 15.27.2; an expression has a value unless it is a call without one. -/
def ValueCompatible : LambdaBody -> Prop
  | .missing => False
  | .expression kind type => ¬ (kind = .methodInvocation ∧ type = some .void)
  | .block statements =>
    (forall r, r ∈ ownReturns statements -> r.valued = true) ∧
      ¬ CanCompleteNormally statements

/-- JLS 15.27.2; the other kinds of expressions are no statements. -/
def VoidCompatible : LambdaBody -> Prop
  | .missing => False
  | .expression kind _ => kind ≠ .other
  | .block statements => forall r, r ∈ ownReturns statements -> r.valued = false

def Congruent (body : LambdaBody) (result : TypeRef) : Prop :=
  if result = .void then VoidCompatible body else ValueCompatible body

def AllowsValue (shape : BodyShape) : Prop :=
  shape = .valueOnly ∨ shape = .either ∨ shape = .unknown

def AllowsVoid (shape : BodyShape) : Prop :=
  shape = .voidOnly ∨ shape = .either ∨ shape = .unknown

/-- What the shape of a body must not take away from it. -/
structure RejectsNothing (body : LambdaBody) (shape : BodyShape) : Prop where
  value : ValueCompatible body -> AllowsValue shape
  void : VoidCompatible body -> AllowsVoid shape
  verdict : forall (ask : Ask) parameters (descriptor : FunctionDescriptor),
    Congruent body descriptor.result ->
    lambdaCompatible ask shape parameters (some descriptor) =
      if parameters.length ≠ descriptor.parameters.length then some (some false)
      else parameterChecks ask parameters descriptor

theorem shapeFits_void {shape : BodyShape} : shapeFits shape .void = true <-> AllowsVoid shape := by
  cases shape <;> simp [shapeFits, AllowsVoid]

theorem shapeFits_value {shape : BodyShape} {result : TypeRef} (h : result ≠ .void) :
    shapeFits shape result = true <-> AllowsValue shape := by
  cases shape <;> simp [shapeFits, AllowsValue, h]

theorem rejectsNothing_iff {body : LambdaBody} {shape : BodyShape} :
    RejectsNothing body shape <->
      (ValueCompatible body -> AllowsValue shape) ∧ (VoidCompatible body -> AllowsVoid shape) := by
  constructor
  · intro h
    exact ⟨h.value, h.void⟩
  · rintro ⟨hvalue, hvoid⟩
    constructor
    · exact hvalue
    · exact hvoid
    · intro ask parameters descriptor hcongruent
      have hfits : shapeFits shape descriptor.result = true := by
        unfold Congruent at hcongruent
        split at hcongruent
        · rename_i hresult
          rw [hresult]
          exact shapeFits_void.mpr (hvoid hcongruent)
        · rename_i hresult
          exact (shapeFits_value hresult).mpr (hvalue hcongruent)
      simp [lambdaCompatible, hfits]

/-!
# What the walk recognises
-/

inductive Stops : Statement Part -> Prop where
  | returns {value} : Stops (.returnStatement value)
  | throws {value} : Stops (.throwStatement value)
  | block {statements statement} (mem : statement ∈ statements) (inner : Stops statement) :
      Stops (.block statements)
  | loop {statement} (unconditional : isUnconditionalLoop statement = true) : Stops statement

/--
A block without a return of its own, and that cannot complete, has a statement the
resolver stops at, unless a valued return of a local type hides that; and a block
without a valued return of its own has none in a local type, unless there is one
without a value as well.
-/
def Recognised : LambdaBody -> Prop
  | .block statements =>
    (ownReturns statements = [] -> ¬ CanCompleteNormally statements ->
      (exists r, r ∈ foreignReturns statements ∧ r.valued = true) ∨
        (foreignReturns statements = [] ∧ exists s, s ∈ statements ∧ Stops s)) ∧
    ((forall r, r ∈ ownReturns statements -> r.valued = false) ->
      (exists r, r ∈ foreignReturns statements ∧ r.valued = true) ->
        exists r, r ∈ blockReturns false statements ∧ r.valued = false)
  | _ => True

theorem mem_returns {r : Return} {block : List (Statement Part)} :
    r ∈ blockReturns false block <-> r ∈ ownReturns block ∨ r ∈ foreignReturns block := by
  unfold ownReturns foreignReturns
  cases hforeign : r.foreign <;> simp [List.mem_filter, hforeign]

theorem blockCompletes_eq_all (block : List (Statement Part)) :
    lambdaBlockCompletesNormally block =
      block.all (fun s => s.isComment || lambdaStatementCompletes s) := by
  induction block with
  | nil => rfl
  | cons statement rest ih => rw [lambdaBlockCompletesNormally, ih, List.all_cons]

theorem Stops.incomplete {statement : Statement Part} (h : Stops statement) :
    statement.isComment = false ∧ lambdaStatementCompletes statement = false := by
  induction h with
  | returns => exact ⟨rfl, rfl⟩
  | throws => exact ⟨rfl, rfl⟩
  | block mem inner ih =>
    constructor
    · rfl
    · rw [lambdaStatementCompletes, blockCompletes_eq_all, List.all_eq_false]
      exists _, mem
      rw [ih.left, ih.right]
      decide
  | @loop statement unconditional =>
    cases statement with
    | whileStatement condition body =>
      exact ⟨rfl, by rw [lambdaStatementCompletes, unconditional]; rfl⟩
    | forStatement init condition update body =>
      exact ⟨rfl, by rw [lambdaStatementCompletes, unconditional]; rfl⟩
    | _ => cases unconditional

theorem stops_of_incomplete :
    (forall statement, lambdaStatementCompletes statement = false -> Stops statement) ∧
      forall block, lambdaBlockCompletesNormally block = false ->
        exists s, s ∈ block ∧ Stops s := by
  apply lambdaStatementCompletes.mutual_induct
  case case1 => exact fun _ _ => .returns
  case case2 => exact fun _ _ => .throws
  case case3 =>
    intro statements ih h
    rw [lambdaStatementCompletes] at h
    rcases ih h with ⟨statement, hmem, hstops⟩
    exact .block hmem hstops
  case case4 =>
    intro condition body h
    rw [lambdaStatementCompletes, Bool.not_eq_false'] at h
    exact .loop h
  case case5 =>
    intro init condition update body h
    rw [lambdaStatementCompletes, Bool.not_eq_false'] at h
    exact .loop h
  case case6 =>
    intro statement hreturn hthrow hblock hwhile hfor h
    rw [lambdaStatementCompletes.eq_6 statement hreturn hthrow hblock hwhile hfor] at h
    cases h
  case case7 => exact fun h => by cases h
  case case8 =>
    intro statement rest ihstatement ihrest h
    rw [lambdaBlockCompletesNormally, Bool.and_eq_false_iff, Bool.or_eq_false_iff] at h
    rcases h with ⟨_, hstatement⟩ | hrest
    · exact ⟨statement, List.mem_cons_self, ihstatement hstatement⟩
    · rcases ihrest hrest with ⟨s, hmem, hstops⟩
      exact ⟨s, List.mem_cons_of_mem statement hmem, hstops⟩

theorem incomplete_iff_stops {block : List (Statement Part)} :
    lambdaBlockCompletesNormally block = false <-> exists s, s ∈ block ∧ Stops s := by
  constructor
  · exact stops_of_incomplete.right block
  · rintro ⟨s, hmem, hstops⟩
    rw [blockCompletes_eq_all, List.all_eq_false]
    exists s, hmem
    rw [hstops.incomplete.left, hstops.incomplete.right]
    decide

/-!
# When nothing is rejected
-/

section Blocks

variable {block : List (Statement Part)}

theorem collected_valued :
    (collectLambdaReturns block).1 = true <-> exists r, r ∈ blockReturns false block ∧
      r.valued = true := by
  simp [collectLambdaReturns]

theorem collected_bare :
    (collectLambdaReturns block).2 = true <-> exists r, r ∈ blockReturns false block ∧
      r.valued = false := by
  simp [collectLambdaReturns]

theorem blockShape_voidOnly :
    computeLambdaBodyShape (.block block) = .voidOnly <->
      (collectLambdaReturns block).1 = false ∧
        ((collectLambdaReturns block).2 = true ∨ lambdaBlockCompletesNormally block = true) := by
  simp only [computeLambdaBodyShape]
  rcases collectLambdaReturns block with ⟨_ | _, _ | _⟩
  · cases lambdaBlockCompletesNormally block <;> simp
  · simp
  · simp
  · simp

theorem blockShape_valueOnly :
    computeLambdaBodyShape (.block block) = .valueOnly <->
      (collectLambdaReturns block).1 = true ∧ (collectLambdaReturns block).2 = false := by
  simp only [computeLambdaBodyShape]
  rcases collectLambdaReturns block with ⟨_ | _, _ | _⟩
  · cases lambdaBlockCompletesNormally block <;> simp
  · simp
  · simp
  · simp

theorem allowsValue_iff {shape : BodyShape} : AllowsValue shape <-> shape ≠ .voidOnly := by
  cases shape <;> simp [AllowsValue]

theorem allowsVoid_iff {shape : BodyShape} : AllowsVoid shape <-> shape ≠ .valueOnly := by
  cases shape <;> simp [AllowsVoid]

theorem block_value_iff :
    (ValueCompatible (.block block) -> AllowsValue (computeLambdaBodyShape (.block block))) <->
      (ownReturns block = [] -> ¬ CanCompleteNormally block ->
        (exists r, r ∈ foreignReturns block ∧ r.valued = true) ∨
          (foreignReturns block = [] ∧ exists s, s ∈ block ∧ Stops s)) := by
  rw [allowsValue_iff, ne_eq, blockShape_voidOnly]
  constructor
  · intro h hown hcan
    by_cases hvalued : exists r, r ∈ foreignReturns block ∧ r.valued = true
    · exact Or.inl hvalued
    · right
      have hcompatible : ValueCompatible (.block block) := by
        constructor
        · intro r hr
          rw [hown] at hr
          cases hr
        · exact hcan
      have hnone : (collectLambdaReturns block).1 = false := by
        apply Bool.eq_false_iff.mpr
        intro hcollected
        rcases collected_valued.mp hcollected with ⟨r, hr, hvalue⟩
        rcases mem_returns.mp hr with hr | hr
        · rw [hown] at hr
          cases hr
        · exact hvalued ⟨r, hr, hvalue⟩
      constructor
      · apply List.eq_nil_iff_forall_not_mem.mpr
        intro r hr
        cases hvalue : r.valued with
        | true => exact hvalued ⟨r, hr, hvalue⟩
        | false =>
          have hbare := collected_bare.mpr ⟨r, mem_returns.mpr (Or.inr hr), hvalue⟩
          exact h hcompatible ⟨hnone, Or.inl hbare⟩
      · apply incomplete_iff_stops.mp
        apply Bool.eq_false_iff.mpr
        intro hcompletes
        exact h hcompatible ⟨hnone, Or.inr hcompletes⟩
  · rintro h ⟨hvalues, hcan⟩ ⟨hnone, hends⟩
    have hbare : forall r, r ∈ blockReturns false block -> r.valued = false := by
      intro r hr
      apply Bool.eq_false_iff.mpr
      intro hvalue
      rw [collected_valued.mpr ⟨r, hr, hvalue⟩] at hnone
      cases hnone
    have hown : ownReturns block = [] := by
      apply List.eq_nil_iff_forall_not_mem.mpr
      intro r hr
      have hvalue := hvalues r hr
      rw [hbare r (mem_returns.mpr (Or.inl hr))] at hvalue
      cases hvalue
    rcases h hown hcan with ⟨r, hr, hvalue⟩ | ⟨hforeign, hstops⟩
    · rw [hbare r (mem_returns.mpr (Or.inr hr))] at hvalue
      cases hvalue
    · rcases hends with hcollected | hcompletes
      · rcases collected_bare.mp hcollected with ⟨r, hr, _⟩
        rw [mem_returns, hown, hforeign] at hr
        rcases hr with hr | hr
        · cases hr
        · cases hr
      · rw [incomplete_iff_stops.mpr hstops] at hcompletes
        cases hcompletes

theorem block_void_iff :
    (VoidCompatible (.block block) -> AllowsVoid (computeLambdaBodyShape (.block block))) <->
      ((forall r, r ∈ ownReturns block -> r.valued = false) ->
        (exists r, r ∈ foreignReturns block ∧ r.valued = true) ->
          exists r, r ∈ blockReturns false block ∧ r.valued = false) := by
  rw [allowsVoid_iff, ne_eq, blockShape_valueOnly]
  constructor
  · rintro h hown ⟨r, hr, hvalue⟩
    apply collected_bare.mp
    apply Bool.eq_true_of_not_eq_false
    intro hnone
    exact h hown ⟨collected_valued.mpr ⟨r, mem_returns.mpr (Or.inr hr), hvalue⟩, hnone⟩
  · rintro h hown ⟨hcollected, hnone⟩
    rcases collected_valued.mp hcollected with ⟨r, hr, hvalue⟩
    rcases mem_returns.mp hr with hr | hr
    · rw [hown r hr] at hvalue
      cases hvalue
    · rw [collected_bare.mpr (h hown ⟨r, hr, hvalue⟩)] at hnone
      cases hnone

end Blocks

theorem expression_rejectsNothing (kind : ExpressionKind) (type : Option TypeRef) :
    (ValueCompatible (.expression kind type) ->
        AllowsValue (computeLambdaBodyShape (.expression kind type))) ∧
      (VoidCompatible (.expression kind type) ->
        AllowsVoid (computeLambdaBodyShape (.expression kind type))) := by
  cases kind with
  | methodInvocation =>
    by_cases hvoid : type = some .void
    · simp [ValueCompatible, computeLambdaBodyShape, hvoid, AllowsVoid]
    · simp [computeLambdaBodyShape, hvoid, AllowsVoid, AllowsValue]
  | objectCreation => simp [computeLambdaBodyShape, AllowsVoid, AllowsValue]
  | assignment => simp [computeLambdaBodyShape, AllowsVoid, AllowsValue]
  | update => simp [computeLambdaBodyShape, AllowsVoid, AllowsValue]
  | other => simp [VoidCompatible, computeLambdaBodyShape, AllowsValue]

/--
The shape of a body takes no function type away that the body fits exactly if the
body is not a block, or a block whose completion and returns the resolver sees.
-/
theorem shape_rejects_nothing_iff (body : LambdaBody) :
    (forall entry, RejectsNothing body (lambdaBodyShape entry body)) <-> Recognised body := by
  have hentries : (forall entry, RejectsNothing body (lambdaBodyShape entry body)) <->
      RejectsNothing body (computeLambdaBodyShape body) := by
    constructor
    · intro h
      exact h .absent
    · intro h entry
      cases entry with
      | absent => exact h
      | computed => exact h
      | computing =>
        apply rejectsNothing_iff.mpr
        exact ⟨fun _ => Or.inr (Or.inr rfl), fun _ => Or.inr (Or.inr rfl)⟩
  rw [hentries, rejectsNothing_iff]
  cases body with
  | missing => simp [ValueCompatible, VoidCompatible, Recognised]
  | expression kind type =>
    constructor
    · intro _
      trivial
    · intro _
      exact expression_rejectsNothing kind type
  | block block => rw [block_value_iff, block_void_iff, Recognised]

/-!
# Two blocks
-/

namespace LambdaBlocks

def name (text : Text) : Part :=
  .expression text none [] []

/-- `{ if (c) throw a; else throw b; }` -/
def throwing : List (Statement Part) :=
  [.ifStatement (name ['(', 'c', ')']) (.throwStatement (name ['a']))
    (some (.throwStatement (name ['b'])))]

/-- `{ enum E { A; int f() { return a; } } }` -/
def withEnum : List (Statement Part) :=
  [.simple .localTypeDeclaration
    [.typeBody .enumBody [[.returnStatement (some (name ['a']))]]]]

theorem throwing_never_completes : ¬ CanCompleteNormally throwing := by
  intro h
  cases h with
  | sequence_next first rest =>
    cases first with
    | if_true branch => cases branch
    | if_false branch => cases branch
  | sequence_stop first stop => exact stop rfl

/--
A block that throws on both branches has no return without a value and cannot
complete, and is rejected for every descriptor with a result; a block with no return
of its own is rejected for `void` because of the method of a local enum.
-/
theorem congruent_rejected :
    (ValueCompatible (.block throwing) ∧
      computeLambdaBodyShape (.block throwing) = .voidOnly ∧
      lambdaCompatible (fun _ => none) (lambdaBodyShape .absent (.block throwing)) []
        (some { parameters := [], result := .primitive .int }) = some (some false)) ∧
    VoidCompatible (.block withEnum) ∧
      computeLambdaBodyShape (.block withEnum) = .valueOnly ∧
      lambdaCompatible (fun _ => none) (lambdaBodyShape .absent (.block withEnum)) []
        (some { parameters := [], result := .void }) = some (some false) := by
  refine ⟨⟨⟨?_, throwing_never_completes⟩, rfl, rfl⟩, ?_, rfl, rfl⟩
  · intro r hr
    cases hr
  · intro r hr
    cases hr

end LambdaBlocks

end Calls
end JavaVsixLite
