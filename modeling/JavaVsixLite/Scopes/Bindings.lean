import JavaVsixLite.Scopes.Syntax
import JavaVsixLite.Source.Imports

/-!
# Looking up a bare name

`collectBindings` walks the ancestors of a position and takes what each of them
declares.  `checkUnresolvedIdentifier` reports a name that neither this walk
nor a second one for the remaining declarations finds.
-/

namespace JavaVsixLite
namespace Scopes

inductive BindingKind where
  | localVariable
  | forVar
  | param
  | field
deriving DecidableEq

/-- A visible variable; its declared type is known by the site. -/
structure Binding where
  binder : Binder
  kind : BindingKind

/-!
# What the ancestors declare
-/

def pushLocals : Node -> List Binding
  | .localDeclaration declarators =>
    declarators.filterMap (fun declarator =>
      match declarator with
      | .declarator binder _ => some ⟨binder, .localVariable⟩
      | _ => none)
  | _ => []

section Collect

variable (own : Node -> List Binding)

mutual

/-- A stack walk over a subtree: the node, then its children, last one first. -/
def collect : Node -> List Binding
  | .identifier name => own (.identifier name)
  | .plain kind children =>
    own (.plain kind children) ++ collectAll children
  | .logical op left right =>
    own (.logical op left right) ++ collect right ++ collect left
  | .logicalNot operand => own (.logicalNot operand) ++ collect operand
  | .parenthesized expression =>
    own (.parenthesized expression) ++ collect expression
  | .ternary condition consequence alternative =>
    own (.ternary condition consequence alternative) ++
      collect alternative ++ collect consequence ++ collect condition
  | .instanceOf left name pattern =>
    own (.instanceOf left name pattern) ++ collectOptional pattern ++
      collect left
  | .typePattern name => own (.typePattern name)
  | .recordPattern components =>
    own (.recordPattern components) ++ collectAll components
  | .recordPatternComponent name => own (.recordPatternComponent name)
  | .creation site arguments classBody =>
    own (.creation site arguments classBody) ++
      collectOptional classBody ++ collect arguments
  | .block kind statements =>
    own (.block kind statements) ++ collectAll statements
  | .labeled statement => own (.labeled statement) ++ collect statement
  | .localDeclaration declarators =>
    own (.localDeclaration declarators) ++ collectAll declarators
  | .declarator name value =>
    own (.declarator name value) ++ collectOptional value
  | .ifStatement condition consequence alternative =>
    own (.ifStatement condition consequence alternative) ++
      collectOptional alternative ++ collect consequence ++
      collect condition
  | .whileStatement condition body =>
    own (.whileStatement condition body) ++ collect body ++
      collect condition
  | .doStatement body condition =>
    own (.doStatement body condition) ++ collect condition ++ collect body
  | .forStatement init condition update body =>
    own (.forStatement init condition update body) ++ collect body ++
      collectAll update ++ collectOptional condition ++ collectAll init
  | .enhancedFor name value body =>
    own (.enhancedFor name value body) ++ collect body ++ collect value
  | .switchGroup labels statements =>
    own (.switchGroup labels statements) ++ collectAll statements ++
      collectAll labels
  | .switchRule label body =>
    own (.switchRule label body) ++ collect body ++ collect label
  | .switchLabel patterns guard =>
    own (.switchLabel patterns guard) ++ collectOptional guard ++
      collectAll patterns
  | .tryWithResources resources body handlers =>
    own (.tryWithResources resources body handlers) ++
      collectAll handlers ++ collect body ++ collectAll resources
  | .resource name value => own (.resource name value) ++ collectOptional value
  | .catchClause name body => own (.catchClause name body) ++ collect body
  | .callable kind header parameters body =>
    own (.callable kind header parameters body) ++ collectOptional body ++
      collectAll header
  | .typeDeclaration site header members =>
    own (.typeDeclaration site header members) ++ collectAll members ++
      collectAll header
  | .enumConstant site arguments classBody =>
    own (.enumConstant site arguments classBody) ++
      collectOptional classBody ++ collectOptional arguments

def collectAll : List Node -> List Binding
  | [] => []
  | n :: rest => collectAll rest ++ collect n

def collectOptional : Option Node -> List Binding
  | none => []
  | some n => collect n

end

end Collect

def patternBinding : Node -> List Binding
  | .typePattern binder => [⟨binder, .localVariable⟩]
  | .recordPatternComponent binder =>
    binder.toList.map (fun bound => ⟨bound, .localVariable⟩)
  | _ => []

/-- The variable an `instanceof` or a record component binds. -/
def instanceofBinding : Node -> List Binding
  | .instanceOf _ binder _ =>
    binder.toList.map (fun bound => ⟨bound, .localVariable⟩)
  | .recordPatternComponent binder =>
    binder.toList.map (fun bound => ⟨bound, .localVariable⟩)
  | _ => []

def pushPatternBindings (label : Node) : List Binding :=
  collect patternBinding label

def pushInstanceofBindings (condition : Node) : List Binding :=
  collect instanceofBinding condition

def pushParams (kind : CallableKind) (parameters : List Binder) :
    List Binding :=
  match kind with
  | .compactConstructor => []
  | _ => parameters.map (fun binder => ⟨binder, .param⟩)

/--
The declarations taken from one ancestor.  A block gives those of its
statements that start before the position: the statements up to the one the
position is in.
-/
def bindingsOf (step : Step) : List Binding :=
  match step.parent, step.role with
  | .block _ statements, .item i => (statements.take (i + 1)).flatMap pushLocals
  | .forStatement init _ _ _, _ => init.head?.toList.flatMap pushLocals
  | .enhancedFor binder _ _, _ => [⟨binder, .forVar⟩]
  | .switchRule label _, _ => pushPatternBindings label
  | .ifStatement condition _ _, _ => pushInstanceofBindings condition
  | .whileStatement condition _, _ => pushInstanceofBindings condition
  | .doStatement _ condition, _ => pushInstanceofBindings condition
  | .ternary condition _ _, _ => pushInstanceofBindings condition
  | .callable kind _ parameters _, _ => pushParams kind parameters
  | _, _ => []

/-!
# The check
-/

/-- Static imports by simple name, and whether one of them is on demand. -/
structure StaticImports where
  names : List String
  wildcard : Bool

namespace StaticImports

/-- One import path as it is read, with its leading `static`. -/
def add (imports : StaticImports) (path : String) : StaticImports :=
  if "static".toList.isPrefixOf path.toList then
    let rest := String.ofList (path.toList.drop 6)
    if ".*".toList.isSuffixOf rest.toList then
      { imports with wildcard := true }
    else
      { imports with names := lastSegment rest :: imports.names }
  else imports

/-- From the texts of the import declarations. -/
def parse (texts : List String) : StaticImports :=
  (texts.filterMap (fun text => dottedPath text.toList "import")).foldl add ⟨[], false⟩

def mayBind (imports : StaticImports) (name : String) : Bool :=
  imports.wildcard || imports.names.contains name

end StaticImports

/--
What the check asks about types: the fields the open hierarchy of a type gives
to the lookup, and its member names with the completeness flag (`none` when the
declaration is not in the table).
-/
structure Context where
  importTexts : List String
  fields : Nat -> List Binder
  memberNames : Nat -> Option (List String × Bool)

def enclosingTypes (steps : List Step) : List Nat :=
  steps.filterMap (fun step =>
    match step.parent with
    | .typeDeclaration site _ _ => some site
    | _ => none)

def collectBindings (ctx : Context) (steps : List Step) : List Binding :=
  steps.flatMap bindingsOf ++
    (enclosingTypes steps).head?.toList.flatMap (fun site =>
      (ctx.fields site).map (fun binder => ⟨binder, .field⟩))

def lookupBinding (ctx : Context) (steps : List Step) (name : String) :
    Option Binding :=
  (collectBindings ctx steps).find? (fun b => b.binder.name == name)

def isVariableOnlyPosition : List Step -> Bool
  | [] => false
  | step :: _ =>
    match step.parent, step.role with
    | .plain kind _, _ => kind != .other
    | .logical _ _ _, _ => true
    | .logicalNot _, _ => true
    | .parenthesized _, _ => true
    | .ternary _ _ _, _ => true
    | .declarator _ _, role => role == .value
    | .enhancedFor _ _ _, role => role == .value
    | .instanceOf _ _ _, role => role == .left
    | .callable .lambda _ _ _, role => role == .body
    | _, _ => false

def staysSilent (name : String) (step : Step) : Bool :=
  match step.parent with
  | .catchClause bound _ => bound.name == name
  | .tryWithResources resources _ _ =>
    resources.any (fun r =>
      match r with
      | .resource bound _ => bound.map Binder.name == some name
      | _ => false)
  | .creation _ _ classBody => classBody.isSome
  | _ => false

/-- A type proves nothing absent unless it is complete and lacks the name. -/
def typeAdmits (ctx : Context) (name : String) (site : Nat) : Bool :=
  match ctx.memberNames site with
  | none => true
  | some (names, complete) => !complete || names.contains name

def checkUnresolvedIdentifier (ctx : Context) (id : Occurrence) :
    Option String :=
  if !isVariableOnlyPosition id.steps then none
  else if id.name == "_" || (StaticImports.parse ctx.importTexts).mayBind id.name
    then none
  else if (lookupBinding ctx id.steps id.name).isSome then none
  else if id.steps.any (staysSilent id.name) then none
  else if (enclosingTypes id.steps).isEmpty then none
  else if (enclosingTypes id.steps).any (typeAdmits ctx id.name) then none
  else some ("cannot find symbol: variable '" ++ id.name ++ "'")

end Scopes
end JavaVsixLite
