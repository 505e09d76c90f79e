import JavaVsixLite.Scopes.Bindings

/-!
# The scope rules of the language

`scopes` lists what the language puts in scope at a position, each name with
the form of declaration that binds it.  Pattern variables follow flow scoping:
an expression introduces them when it is true or when it is false, and a
statement passes them on to the statements after it.
-/

namespace JavaVsixLite
namespace Scopes

open Source (ImportDeclaration)

inductive Form where
  | localVariable
  | forVariable
  | forEachVariable
  | resource
  | catchParameter
  | parameter
  | componentParameter
  | branch
  | switchPattern
  | field
  | anonymousField
  | staticImport
  | commentedImport
  | switchLocal
  | operand
  | escaped
  | forCondition
  | groupPattern
  | guardPattern
  | constantField
deriving DecidableEq

/-- The forms the walks over the ancestors account for. -/
def Form.covered : Form -> Bool
  | .commentedImport => false
  | .switchLocal => false
  | .operand => false
  | .escaped => false
  | .forCondition => false
  | .groupPattern => false
  | .guardPattern => false
  | .constantField => false
  | _ => true

/-- A static import brings in a field of this name. -/
structure Names (d : ImportDeclaration) (name : String) : Prop where
  isStatic : d.behindStatic.isSome
  simple : '.' ∉ name.toList
  last : d.onDemand.isSome ∨ exists type, d.name.path = type ++ "." ++ name

/--
What the language knows beyond the tree: whether a statement can complete
normally, whether a reachable `break` leaves it, the members of types and the
static imports with the fields they bring in.
-/
structure Language where
  completes : Node -> Bool
  breaksOut : Node -> Bool
  fields : Nat -> List Binder
  methods : Nat -> List String
  components : Nat -> List Binder
  components_fields : forall site, components site ⊆ fields site
  staticImports : List (ImportDeclaration × List Binder)
  staticImports_named : forall d binders, (d, binders) ∈ staticImports ->
    forall b, b ∈ binders -> Names d b.name

def Language.staticFields (J : Language) : List Binder :=
  J.staticImports.flatMap Prod.snd

theorem named_of_no_imports : forall d binders,
    (d, binders) ∈ ([] : List (ImportDeclaration × List Binder)) ->
      forall b, b ∈ binders -> Names d b.name :=
  fun _ _ h => absurd h List.not_mem_nil

/-!
# Pattern variables
-/

mutual

def componentBinders : Node -> List Binder
  | .recordPatternComponent binder => binder.toList
  | .recordPattern components => componentBindersAll components
  | _ => []

def componentBindersAll : List Node -> List Binder
  | [] => []
  | n :: rest => componentBinders n ++ componentBindersAll rest

end

def patternBinders : Node -> List Binder
  | .typePattern binder => [binder]
  | pattern => componentBinders pattern

/-- The pattern variables an expression introduces when it has this value. -/
def matched : Bool -> Node -> List Binder
  | true, .instanceOf _ binder pattern =>
    binder.toList ++ pattern.toList.flatMap componentBinders
  | true, .logical .and left right => matched true left ++ matched true right
  | false, .logical .or left right => matched false left ++ matched false right
  | outcome, .logicalNot operand => matched (!outcome) operand
  | outcome, .parenthesized expression => matched outcome expression
  | _, _ => []

/-- The pattern variables a statement passes on to those that follow it. -/
def introduced (J : Language) : Node -> List Binder
  | .ifStatement condition consequence none =>
    if J.completes consequence then [] else matched false condition
  | .ifStatement condition consequence (some alternative) =>
    match J.completes consequence, J.completes alternative with
    | true, false => matched true condition
    | false, true => matched false condition
    | _, _ => []
  | .whileStatement condition body =>
    if J.breaksOut (.whileStatement condition body) then []
    else matched false condition
  | .doStatement body condition =>
    if J.breaksOut (.doStatement body condition) then []
    else matched false condition
  | .forStatement init condition update body =>
    if J.breaksOut (.forStatement init condition update body) then []
    else condition.toList.flatMap (matched false)
  | .labeled statement => introduced J statement
  | _ => []

/-!
# Declarations
-/

def declaratorBinder : Node -> List Binder
  | .declarator binder _ => [binder]
  | _ => []

def declaredBinders : Node -> List Binder
  | .localDeclaration declarators => declarators.flatMap declaratorBinder
  | _ => []

def groupStatements : Node -> List Node
  | .switchGroup _ statements => statements
  | _ => []

def resourceBinder : Node -> List Binder
  | .resource binder _ => binder.toList
  | _ => []

def labelBinders : Node -> List Binder
  | .switchLabel patterns _ => patterns.flatMap patternBinders
  | _ => []

def guardBinders : Node -> List Binder
  | .switchLabel _ guard => guard.toList.flatMap (matched true)
  | _ => []

def declarationForm : List Step -> Option Form
  | ⟨.block .switchBlock _, _⟩ :: _ => none
  | ⟨.block _ _, .item _⟩ :: _ => some .localVariable
  | ⟨.forStatement _ _ _ _, .init 0⟩ :: _ => some .forVariable
  | ⟨.switchGroup _ _, .item _⟩ :: _ => some .switchLocal
  | _ => none

def labelForm : List Step -> Option Form
  | ⟨.switchRule _ _, .label _⟩ :: _ => some .switchPattern
  | ⟨.switchGroup _ _, .label _⟩ :: _ => some .groupPattern
  | _ => none

def bind (form : Form) (binders : List Binder) : List (Form × Binder) :=
  binders.map (fun binder => (form, binder))

@[simp] theorem mem_bind {form bound : Form} {b : Binder}
    {binders : List Binder} :
    (form, b) ∈ bind bound binders <-> form = bound ∧ b ∈ binders := by
  simp [bind, eq_comm, and_comm]

def scopesOf (J : Language) (step : Step) (outer : List Step) :
    List (Form × Binder) :=
  match step.parent, step.role with
  | .logical .and left _, .right => bind .operand (matched true left)
  | .logical .or left _, .right => bind .operand (matched false left)
  | .ternary condition _ _, .consequence => bind .branch (matched true condition)
  | .ternary condition _ _, .alternative =>
    bind .branch (matched false condition)
  | .ifStatement condition _ _, .consequence =>
    bind .branch (matched true condition)
  | .ifStatement condition _ _, .alternative =>
    bind .branch (matched false condition)
  | .whileStatement condition _, .body => bind .branch (matched true condition)
  | .block .switchBlock groups, .item i =>
    -- a local of a switch block is in scope in all later groups
    bind .switchLocal
      (((groups.take i).flatMap groupStatements).flatMap declaredBinders)
  | .block _ statements, .item i =>
    bind .localVariable ((statements.take i).flatMap declaredBinders) ++
      bind .escaped ((statements.take i).flatMap (introduced J))
  | .switchGroup labels statements, .item i =>
    bind .switchLocal ((statements.take i).flatMap declaredBinders) ++
      bind .escaped ((statements.take i).flatMap (introduced J)) ++
      bind .groupPattern (labels.flatMap labelBinders) ++
      bind .guardPattern (labels.flatMap guardBinders)
  | .switchRule label _, .body =>
    bind .switchPattern (labelBinders label) ++
      bind .guardPattern (guardBinders label)
  | .switchLabel patterns _, .guard =>
    (labelForm outer).toList.flatMap (fun form =>
      bind form (patterns.flatMap patternBinders))
  | .localDeclaration declarators, .item i =>
    -- the scope of a local starts with its own initializer
    (declarationForm outer).toList.flatMap (fun form =>
      bind form ((declarators.take (i + 1)).flatMap declaratorBinder))
  | .forStatement init condition _ _, role =>
    match role with
    | .condition => bind .forVariable (init.head?.toList.flatMap declaredBinders)
    | .update _ | .body =>
      bind .forVariable (init.head?.toList.flatMap declaredBinders) ++
        bind .forCondition (condition.toList.flatMap (matched true))
    | _ => []
  | .enhancedFor binder _ _, .body => bind .forEachVariable [binder]
  | .tryWithResources resources _ _, .item i =>
    bind .resource ((resources.take (i + 1)).flatMap resourceBinder)
  | .tryWithResources resources _ _, .body =>
    bind .resource (resources.flatMap resourceBinder)
  | .catchClause binder _, .body => bind .catchParameter [binder]
  | .callable .compactConstructor _ _ _, .body =>
    (enclosingTypes outer).head?.toList.flatMap (fun site =>
      bind .componentParameter (J.components site))
  | .callable _ _ parameters _, .body => bind .parameter parameters
  -- the scope of a field is the body of the declaration, not its header
  | .typeDeclaration site _ _, .item _ => bind .field (J.fields site)
  | .creation site _ (some _), .classBody => bind .anonymousField (J.fields site)
  | .enumConstant site _ _, .classBody => bind .constantField (J.fields site)
  | _, _ => []

def scopes (J : Language) : List Step -> List (Form × Binder)
  | [] => []
  | step :: outer => scopesOf J step outer ++ scopes J outer

/-- A static import of the field; the form says whether comments stand in it. -/
inductive Imported (J : Language) (b : Binder) : Form -> Prop where
  | plain {d : ImportDeclaration} {binders : List Binder} :
      (d, binders) ∈ J.staticImports -> b ∈ binders -> d.Plain ->
      Imported J b .staticImport
  | commented {d : ImportDeclaration} {binders : List Binder} :
      (d, binders) ∈ J.staticImports -> b ∈ binders -> ¬ d.Plain ->
      Imported J b .commentedImport

/-- The language binds this occurrence by a declaration of this form. -/
def Bound (J : Language) (id : Occurrence) (form : Form) : Prop :=
  exists b, b.name = id.name ∧
    ((form, b) ∈ scopes J id.steps ∨ Imported J b form)

/--
The check sees the types as they are: every declaration has its exact member
names, and the text of every static import is there.
-/
structure Exact (ctx : Context) (J : Language) : Prop where
  members : forall site, exists names,
    ctx.memberNames site = some (names, true) ∧
      forall name, name ∈ names <->
        name ∈ (J.fields site).map Binder.name ∨ name ∈ J.methods site
  fields : forall site, ctx.fields site ⊆ J.fields site
  imports : forall d binders, (d, binders) ∈ J.staticImports ->
    d.text ∈ ctx.importTexts

end Scopes
end JavaVsixLite
