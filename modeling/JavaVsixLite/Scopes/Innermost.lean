import JavaVsixLite.Scopes.Recognition
import Mathlib.Data.List.Infix

/-!
# The innermost declaration

The language gives a name to the innermost scope that declares it.  The walk
takes the locals of every ancestor first and the fields of one type last, so it
passes over the fields of the class bodies between a use and the local that it
takes, and it does not ask whether the use is in the scope of that local.
-/

namespace JavaVsixLite
namespace Scopes

/-!
# Shadowing
-/

/-- What the steps of a position that stands in `outer` bring into scope. -/
def within (J : Language) (outer : List Step) : List Step -> List (Form × Binder)
  | [] => []
  | step :: inner => scopesOf J step (inner ++ outer) ++ within J outer inner

def Lacks (entries : List (Form × Binder)) (name : String) : Prop :=
  forall entry, entry ∈ entries -> entry.2.name ≠ name

theorem Lacks.append {first second : List (Form × Binder)} {name : String}
    (hfirst : Lacks first name) (hsecond : Lacks second name) :
    Lacks (first ++ second) name := by
  intro entry hentry
  rcases List.mem_append.mp hentry with hmem | hmem
  · exact hfirst entry hmem
  · exact hsecond entry hmem

theorem within_append (J : Language) (outer near far : List Step) :
    within J outer (near ++ far) =
      within J (far ++ outer) near ++ within J outer far := by
  induction near with
  | nil => rfl
  | cons step rest ih => simp [within, ih]

theorem scopes_append (J : Language) (inside around : List Step) :
    scopes J (inside ++ around) = within J around inside ++ scopes J around := by
  induction inside with
  | nil => rfl
  | cons step rest ih => simp [scopes, within, ih]

/-- The declaration that the innermost scope with the name gives it. -/
inductive Assigned (J : Language) (steps : List Step) (name : String)
    (b : Binder) : Prop where
  | scope {inner outer : List Step} {step : Step} {form : Form} :
      steps = inner ++ step :: outer ->
      Lacks (within J (step :: outer) inner) name ->
      (form, b) ∈ scopesOf J step outer -> b.name = name ->
      Assigned J steps name b
  | staticImport :
      Lacks (scopes J steps) name -> b ∈ J.staticFields -> b.name = name ->
      Assigned J steps name b

/-!
# Class bodies
-/

/-- The steps into the body of a class, which brings its fields into scope. -/
def entersClass (step : Step) : Bool :=
  match step.parent, step.role with
  | .typeDeclaration _ _ _, .item _ => true
  | .creation _ _ (some _), .classBody => true
  | .enumConstant _ _ _, .classBody => true
  | _, _ => false

/-- The local declarations in scope in the code of the class body around. -/
@[grind =] def localScopes (J : Language) : List Step -> List (Form × Binder)
  | [] => []
  | step :: outer =>
    if entersClass step then []
    else scopesOf J step outer ++ localScopes J outer

/--
A local is not declared again in its scope, unless in a class body that stands
there.
-/
def DeclaredOnce (J : Language) (steps : List Step) : Prop :=
  forall around, around <:+ steps -> forall entry other,
    entry ∈ localScopes J around -> other ∈ localScopes J around ->
      entry.2.name = other.2.name -> entry.2 = other.2

theorem DeclaredOnce.outer {J : Language} {inner outer : List Step}
    (h : DeclaredOnce J (inner ++ outer)) : DeclaredOnce J outer :=
  fun around hsuffix => h around (hsuffix.trans (List.suffix_append inner outer))

theorem localScopes_cons {J : Language} {step : Step} {outer : List Step}
    {entry : Form × Binder} (h : entry ∈ localScopes J (step :: outer)) :
    entersClass step = false ∧
      (entry ∈ scopesOf J step outer ∨ entry ∈ localScopes J outer) := by
  unfold localScopes at h
  cases hclass : entersClass step with
  | true => simp [hclass] at h
  | false => simpa [hclass] using h

theorem mem_localScopes_of_step {J : Language} {step : Step}
    {outer : List Step} {entry : Form × Binder} (hclass : entersClass step = false)
    (h : entry ∈ scopesOf J step outer) : entry ∈ localScopes J (step :: outer) := by
  simp [localScopes, hclass, h]

/-- In the code of one class body, a local in scope is the only one of its name. -/
theorem assigned_of_localScopes {J : Language} {name : String} {b : Binder}
    {form : Form} {steps : List Step} (once : DeclaredOnce J steps)
    (hname : b.name = name) (h : (form, b) ∈ localScopes J steps) :
    Assigned J steps name b := by
  induction steps with
  | nil => cases h
  | cons step outer ih =>
    rcases localScopes_cons h with ⟨hclass, hscope⟩
    by_cases hlacks : Lacks (scopesOf J step outer) name
    · have houter : (form, b) ∈ localScopes J outer := by
        rcases hscope with hhere | houter
        · exact absurd hname (hlacks _ hhere)
        · exact houter
      have onceOuter : DeclaredOnce J outer :=
        @DeclaredOnce.outer J [step] outer once
      cases ih onceOuter houter with
      | scope hsplit hinner hmem hb =>
        rw [hsplit]
        refine @Assigned.scope J _ name b (step :: _) _ _ _ rfl ?_ hmem hb
        rw [hsplit] at hlacks
        exact hlacks.append hinner
      | staticImport hnone hstatic hb =>
        exact .staticImport (hlacks.append hnone) hstatic hb
    · -- the step itself has the name, and only for this local
      have hentry : exists entry, entry ∈ scopesOf J step outer ∧
          entry.2.name = name := by
        simpa [Lacks] using hlacks
      rcases hentry with ⟨⟨other, found⟩, hmem, hfound⟩
      have hsame : found = b :=
        once (step :: outer) (List.suffix_refl _) (other, found) (form, b)
          (mem_localScopes_of_step hclass hmem) h (hfound.trans hname.symm)
      rw [hsame] at hmem
      refine @Assigned.scope J _ name b [] outer step other rfl ?_ hmem hname
      intro entry hentry
      cases hentry

/-!
# What the walk takes
-/

/-- The first declaration of the name among those of an ancestor or a type. -/
def Lists (binders : List Binder) (name : String) (b : Binder) : Prop :=
  binders.find? (fun binder => binder.name == name) = some b

def localsOf (step : Step) : List Binder :=
  (bindingsOf step).map Binding.binder

/--
The nearest ancestor that declares the name as a local lists `b` for it, or no
ancestor does and the innermost type declaration lists `b` among its fields.
-/
inductive Nearest (ctx : Context) (steps : List Step) (name : String)
    (b : Binder) : Prop where
  | ancestor {inner outer : List Step} {step : Step} :
      steps = inner ++ step :: outer ->
      (forall nearer, nearer ∈ inner -> name ∉ (localsOf nearer).map Binder.name) ->
      Lists (localsOf step) name b -> Nearest ctx steps name b
  | field {site : Nat} :
      (forall step, step ∈ steps -> name ∉ (localsOf step).map Binder.name) ->
      (enclosingTypes steps).head? = some site ->
      Lists (ctx.fields site) name b -> Nearest ctx steps name b

theorem find?_name_none {binders : List Binder} {name : String} :
    binders.find? (fun binder => binder.name == name) = none <->
      name ∉ binders.map Binder.name := by
  simp [List.find?_eq_none]

theorem Lists.name_eq {binders : List Binder} {name : String} {b : Binder}
    (h : Lists binders name b) : b.name = name := by
  simpa using List.find?_some h

theorem find?_binder (bindings : List Binding) (name : String) :
    (bindings.find? (fun b => b.binder.name == name)).map Binding.binder =
      (bindings.map Binding.binder).find? (fun b => b.name == name) := by
  rw [List.find?_map]
  rfl

theorem find?_flatMap_eq_some {name : String} {b : Binder} (steps : List Step) :
    (steps.flatMap localsOf).find? (fun binder => binder.name == name) = some b <->
      exists inner step outer, steps = inner ++ step :: outer ∧
        (forall nearer, nearer ∈ inner ->
          name ∉ (localsOf nearer).map Binder.name) ∧
        Lists (localsOf step) name b := by
  induction steps with
  | nil => simp
  | cons step outer ih =>
    rw [List.flatMap_cons, List.find?_append, Option.or_eq_some_iff,
      find?_name_none, ih]
    constructor
    · rintro (hhere | ⟨hnone, inner, found, rest, rfl, hinner, hlists⟩)
      · exact ⟨[], step, outer, rfl, fun _ h => absurd h List.not_mem_nil, hhere⟩
      · refine ⟨step :: inner, found, rest, rfl, ?_, hlists⟩
        intro nearer hnearer
        rcases List.mem_cons.mp hnearer with rfl | hmem
        · exact hnone
        · exact hinner nearer hmem
    · rintro ⟨inner, found, rest, hsplit, hinner, hlists⟩
      cases inner with
      | nil =>
        cases hsplit
        exact .inl hlists
      | cons head tail =>
        cases hsplit
        refine .inr ⟨hinner _ List.mem_cons_self, tail, found, rest, rfl, ?_,
          hlists⟩
        exact fun nearer hnearer => hinner nearer (List.mem_cons_of_mem _ hnearer)

theorem lookupBinding_iff_nearest {ctx : Context} {steps : List Step}
    {name : String} {b : Binder} :
    (lookupBinding ctx steps name).map Binding.binder = some b <->
      Nearest ctx steps name b := by
  have hlocals : (steps.flatMap bindingsOf).map Binding.binder =
      steps.flatMap localsOf := by
    rw [List.map_flatMap]
    rfl
  have hfields : ((enclosingTypes steps).head?.toList.flatMap (fun site =>
      (ctx.fields site).map (fun binder => (⟨binder, .field⟩ : Binding)))).map
        Binding.binder = (enclosingTypes steps).head?.toList.flatMap ctx.fields := by
    simp [List.map_flatMap, Function.comp_def]
  unfold lookupBinding collectBindings
  rw [find?_binder, List.map_append, hlocals, hfields, List.find?_append,
    Option.or_eq_some_iff, find?_flatMap_eq_some, find?_name_none]
  constructor
  · rintro (⟨inner, step, outer, hsplit, hinner, hlists⟩ | ⟨hnone, hfield⟩)
    · exact .ancestor hsplit hinner hlists
    · cases hhead : (enclosingTypes steps).head? with
      | none => simp [hhead] at hfield
      | some site =>
        refine .field ?_ hhead (by simpa [hhead, Lists] using hfield)
        intro step hstep hname
        apply hnone
        rw [List.map_flatMap]
        exact List.mem_flatMap.mpr ⟨step, hstep, hname⟩
  · intro h
    cases h with
    | ancestor hsplit hinner hlists => exact .inl ⟨_, _, _, hsplit, hinner, hlists⟩
    | field hnone hhead hlists =>
      refine .inr ⟨?_, by simpa [hhead, Lists] using hlists⟩
      rw [List.map_flatMap]
      intro hname
      rcases List.mem_flatMap.mp hname with ⟨step, hstep, hmem⟩
      exact hnone step hstep hmem

/-!
# When the answer is the innermost declaration
-/

/-- The steps reach up to the border of a class body, or there are none. -/
def ClassBodies (inside : List Step) : Prop :=
  forall step, inside.getLast? = some step -> entersClass step = true

/--
The position lies in the scope of the declaration, and no class body between
them declares the name.
-/
inductive Undisturbed (J : Language) (steps : List Step) (name : String)
    (b : Binder) : Prop where
  | inCode {inside around : List Step} {form : Form} :
      steps = inside ++ around -> ClassBodies inside ->
      Lacks (within J around inside) name ->
      (form, b) ∈ localScopes J around -> Undisturbed J steps name b
  | inClass {inside outer : List Step} {step : Step} {form : Form} :
      steps = inside ++ step :: outer -> entersClass step = true ->
      Lacks (within J (step :: outer) inside) name ->
      (form, b) ∈ scopesOf J step outer -> Undisturbed J steps name b
  | imported :
      Lacks (scopes J steps) name -> b ∈ J.staticFields ->
      Undisturbed J steps name b

/-- The way out to an ancestor leaves some class bodies and then stays in code. -/
theorem exists_classBodies (inner : List Step) :
    exists inside near, inner = inside ++ near ∧ ClassBodies inside ∧
      forall step, step ∈ near -> entersClass step = false := by
  induction inner with
  | nil =>
    refine ⟨[], [], rfl, ?_, ?_⟩
    · intro step h
      cases h
    · intro step h
      cases h
  | cons step rest ih =>
    rcases ih with ⟨inside, near, rfl, hbodies, hnear⟩
    cases inside with
    | cons head tail =>
      refine ⟨step :: head :: tail, near, rfl, ?_, hnear⟩
      intro last hlast
      rw [List.getLast?_cons_cons] at hlast
      exact hbodies last hlast
    | nil =>
      cases hclass : entersClass step with
      | true =>
        refine ⟨[step], near, rfl, ?_, hnear⟩
        intro last hlast
        cases hlast
        exact hclass
      | false =>
        refine ⟨[], step :: near, rfl, hbodies, ?_⟩
        intro found hfound
        rcases List.mem_cons.mp hfound with rfl | hmem
        · exact hclass
        · exact hnear found hmem

theorem mem_localScopes_append {J : Language} {near outer : List Step}
    {entry : Form × Binder}
    (hnear : forall step, step ∈ near -> entersClass step = false)
    (h : entry ∈ localScopes J outer) : entry ∈ localScopes J (near ++ outer) := by
  induction near with
  | nil => exact h
  | cons step rest ih =>
    have hclass := hnear step List.mem_cons_self
    have hrest := ih (fun found hmem => hnear found (List.mem_cons_of_mem _ hmem))
    simp [localScopes, hclass, hrest]

theorem undisturbed_of_assigned {J : Language} {steps : List Step}
    {name : String} {b : Binder} (h : Assigned J steps name b) :
    Undisturbed J steps name b := by
  cases h with
  | @scope inner outer step form hsplit hlacks hmem hname =>
    cases hclass : entersClass step with
    | true => exact .inClass hsplit hclass hlacks hmem
    | false =>
      rcases exists_classBodies inner with ⟨inside, near, rfl, hbodies, hnear⟩
      rw [within_append] at hlacks
      refine @Undisturbed.inCode J _ name b inside (near ++ step :: outer) form
        (by rw [hsplit, List.append_assoc]) hbodies ?_ ?_
      · exact fun entry hentry => hlacks entry (List.mem_append_left _ hentry)
      · exact mem_localScopes_append hnear (mem_localScopes_of_step hclass hmem)
  | staticImport hlacks hstatic hname => exact .imported hlacks hstatic

theorem Assigned.inside {J : Language} {inside around : List Step}
    {name : String} {b : Binder} (hlacks : Lacks (within J around inside) name)
    (h : Assigned J around name b) : Assigned J (inside ++ around) name b := by
  cases h with
  | @scope inner outer step form hsplit hinner hmem hname =>
    refine @Assigned.scope J _ name b (inside ++ inner) outer step form
      (by rw [hsplit, List.append_assoc]) ?_ hmem hname
    rw [within_append]
    rw [hsplit] at hlacks
    exact hlacks.append hinner
  | staticImport hnone hstatic hname =>
    refine .staticImport ?_ hstatic hname
    rw [scopes_append]
    exact hlacks.append hnone

theorem assigned_of_undisturbed {J : Language} {steps : List Step}
    {name : String} {b : Binder} (once : DeclaredOnce J steps)
    (hname : b.name = name) (h : Undisturbed J steps name b) :
    Assigned J steps name b := by
  cases h with
  | inCode hsplit hbodies hlacks hmem =>
    subst hsplit
    exact (assigned_of_localScopes once.outer hname hmem).inside hlacks
  | inClass hsplit hclass hlacks hmem => exact .scope hsplit hlacks hmem hname
  | imported hlacks hstatic => exact .staticImport hlacks hstatic hname

theorem Nearest.name_eq {ctx : Context} {steps : List Step} {name : String}
    {b : Binder} (h : Nearest ctx steps name b) : b.name = name := by
  cases h with
  | ancestor _ _ hlists => exact hlists.name_eq
  | field _ _ hlists => exact hlists.name_eq

/--
The answer of the lookup is the innermost declaration exactly when the use lies
in the scope of the nearest declaration that the walk meets, and no class body
between them declares the name.
-/
theorem innermost_binding_iff (ctx : Context) (J : Language) (id : Occurrence)
    (once : DeclaredOnce J id.steps) :
    (forall b, lookupBinding ctx id.steps id.name = some b ->
        Assigned J id.steps id.name b.binder) <->
      forall b, Nearest ctx id.steps id.name b ->
        Undisturbed J id.steps id.name b := by
  constructor
  · intro hassigned b hnearest
    rcases Option.map_eq_some_iff.mp (lookupBinding_iff_nearest.mpr hnearest)
      with ⟨found, hfound, rfl⟩
    exact undisturbed_of_assigned (hassigned found hfound)
  · intro hundisturbed b hlookup
    have hnearest : Nearest ctx id.steps id.name b.binder :=
      lookupBinding_iff_nearest.mp (by rw [hlookup]; rfl)
    exact assigned_of_undisturbed once hnearest.name_eq (hundisturbed _ hnearest)

theorem declaredOnce_iff_tails {J : Language} {steps : List Step} :
    DeclaredOnce J steps <->
      forall around, around ∈ steps.tails ->
        forall entry, entry ∈ localScopes J around ->
          forall other, other ∈ localScopes J around ->
            entry.2.name = other.2.name -> entry.2 = other.2 := by
  constructor
  · intro once around haround entry hentry other hother
    exact once around ((List.mem_tails _ _).mp haround) entry other hentry hother
  · intro once around hsuffix entry other hentry hother
    exact once around ((List.mem_tails _ _).mpr hsuffix) entry hentry other hother

theorem Assigned.mem_within {J : Language} {inside around : List Step}
    {name : String} {b : Binder} (h : Assigned J (inside ++ around) name b)
    (hdeclared : ¬ Lacks (within J around inside) name) :
    exists form, (form, b) ∈ within J around inside := by
  cases h with
  | @scope inner outer step form hsplit hinner hmem hname =>
    rcases List.append_eq_append_iff.mp hsplit with
      ⟨rest, rfl, hrest⟩ | ⟨rest, rfl, hrest⟩
    · refine absurd ?_ hdeclared
      intro entry hentry
      rw [within_append] at hinner
      rw [hrest] at hentry
      exact hinner entry (List.mem_append_left _ hentry)
    · cases rest with
      | nil =>
        refine absurd ?_ hdeclared
        rw [List.nil_append] at hrest
        rw [List.append_nil, ← hrest]
        exact hinner
      | cons found more =>
        cases hrest
        refine ⟨form, ?_⟩
        rw [within_append]
        exact List.mem_append_right _ (List.mem_append_left _ hmem)
  | staticImport hnone hstatic hname =>
    rw [scopes_append] at hnone
    exact absurd (fun entry hentry =>
      hnone entry (List.mem_append_left _ hentry)) hdeclared

namespace InnerField

/-- The fields of `Outer` (none) and of `Inner`, the class with the site 1. -/
def fieldsOf (site : Nat) : List Binder :=
  if site = 1 then [⟨"x", 11⟩] else []

def context : Context where
  importTexts := []
  fields := fieldsOf
  memberNames := fun _ => none

def language : Language where
  completes := fun _ => true
  breaksOut := fun _ => false
  fields := fieldsOf
  methods := fun _ => []
  components := fun _ => []
  components_fields := fun _ => List.nil_subset _
  staticImports := []
  staticImports_named := named_of_no_imports

/-- `return x;` -/
def returned : Node := .plain .returnStatement [.identifier "x"]

/-- `int read() { return x; }` -/
def read : Node := .callable .method [] [] (some (.block .block [returned]))

/-- `class Inner { int x; int read() { return x; } }` -/
def inner : Node := .typeDeclaration 1 [] [.plain .other [], read]

/-- `void run(int x) { class Inner { .. } }` of the class `Outer` -/
def outward : List Step :=
  [⟨.block .block [inner], .item 0⟩,
    ⟨.callable .method [] [⟨"x", 10⟩] (some (.block .block [inner])), .body⟩,
    ⟨.typeDeclaration 0 []
      [.callable .method [] [⟨"x", 10⟩] (some (.block .block [inner]))], .item 0⟩]

/-- The `x` that `read` returns. -/
def use : Occurrence where
  name := "x"
  steps :=
    [⟨returned, .item 0⟩, ⟨.block .block [returned], .item 0⟩, ⟨read, .body⟩,
      ⟨inner, .item 1⟩] ++ outward
  linked := by simp [outward, Linked, Node.roles, returned, read, inner]

/-- `return x;` in the body of `run` itself -/
def direct : Occurrence where
  name := "x"
  steps :=
    [⟨returned, .item 0⟩, ⟨.block .block [returned], .item 0⟩,
      ⟨.callable .method [] [⟨"x", 10⟩] (some (.block .block [returned])), .body⟩,
      ⟨.typeDeclaration 0 []
        [.callable .method [] [⟨"x", 10⟩] (some (.block .block [returned]))], .item 0⟩]
  linked := by simp [Linked, Node.roles, returned]

theorem direct_innermost :
    DeclaredOnce language direct.steps ∧
      forall b, lookupBinding context direct.steps "x" = some b ->
        Assigned language direct.steps "x" b.binder := by
  have once : DeclaredOnce language direct.steps :=
    declaredOnce_iff_tails.mpr (by decide)
  refine ⟨once, (innermost_binding_iff context language direct once).mpr ?_⟩
  intro b hnearest
  have hlookup := lookupBinding_iff_nearest.mpr hnearest
  cases hlookup
  refine @Undisturbed.inCode _ _ _ _ [] direct.steps .parameter rfl ?_ ?_ (by decide)
  · intro step h
    cases h
  · intro entry h
    cases h

/-- The parameter of `run` is found where the field of `Inner` shadows it. -/
theorem parameter_found_for_field :
    DeclaredOnce language use.steps ∧
      lookupBinding context use.steps "x" = some ⟨⟨"x", 10⟩, .param⟩ ∧
      Assigned language use.steps "x" ⟨"x", 11⟩ ∧
      ¬ forall b, lookupBinding context use.steps "x" = some b ->
        Assigned language use.steps "x" b.binder := by
  refine ⟨declaredOnce_iff_tails.mpr (by decide), rfl, ?_, ?_⟩
  · refine @Assigned.scope _ _ _ _ (use.steps.take 3) outward ⟨inner, .item 1⟩ .field rfl ?_
      (by decide) rfl
    intro entry h
    cases h
  · intro h
    have hassigned : Assigned language (use.steps.take 4 ++ outward) "x" ⟨"x", 10⟩ :=
      h ⟨⟨"x", 10⟩, .param⟩ rfl
    have hfields : within language outward (use.steps.take 4) =
        [(.field, ⟨"x", 11⟩)] := rfl
    rcases hassigned.mem_within (by simp [Lacks, hfields]) with ⟨form, hmem⟩
    rw [hfields] at hmem
    cases List.mem_singleton.mp hmem

end InnerField

end Scopes
end JavaVsixLite
