import JavaVsixLite.Scopes.Scoping

/-!
# Which bound names the check recognises

The check is silent exactly where one of its walks meets a declaration of the
name.  The walks visit ancestors only, so they meet every declaration whose
scope is a part of the declaring statement or the rest of a block, and miss
those that a sibling operand, an earlier statement or a group of a switch
brings into scope.
-/

namespace JavaVsixLite
namespace Scopes

open Source (ImportDeclaration)

/-!
# What an ancestor offers
-/

/-- The condition whose pattern variables a statement or ternary gives away. -/
def conditionOf : Node -> Option Node
  | .ifStatement condition _ _ => some condition
  | .whileStatement condition _ => some condition
  | .doStatement _ condition => some condition
  | .ternary condition _ _ => some condition
  | _ => none

inductive Offers (b : Binder) : Step -> Prop where
  | statement {kind : BlockKind} {statements : List Node} {i j : Nat}
      {declaration : Node} :
      j ≤ i -> statements[j]? = some declaration ->
      b ∈ declaredBinders declaration ->
      Offers b ⟨.block kind statements, .item i⟩
  | forInit {init : List Node} {condition : Option Node} {update : List Node}
      {body declaration : Node} {role : Role} :
      init.head? = some declaration -> b ∈ declaredBinders declaration ->
      Offers b ⟨.forStatement init condition update body, role⟩
  | forEach {value body : Node} {role : Role} :
      Offers b ⟨.enhancedFor b value body, role⟩
  | label {label body m : Node} {role : Role} :
      Subtree label m ->
      m = .typePattern b ∨ m = .recordPatternComponent (some b) ->
      Offers b ⟨.switchRule label body, role⟩
  | condition {parent condition m : Node} {role : Role} :
      conditionOf parent = some condition -> Subtree condition m ->
      (exists left pattern, m = .instanceOf left (some b) pattern) ∨
        m = .recordPatternComponent (some b) ->
      Offers b ⟨parent, role⟩
  | parameter {kind : CallableKind} {header : List Node}
      {parameters : List Binder} {body : Option Node} {role : Role} :
      kind ≠ .compactConstructor -> b ∈ parameters ->
      Offers b ⟨.callable kind header parameters body, role⟩
  | catchParameter {body : Node} {role : Role} :
      Offers b ⟨.catchClause b body, role⟩
  | resource {resources handlers : List Node} {body r : Node} {role : Role} :
      r ∈ resources -> b ∈ resourceBinder r ->
      Offers b ⟨.tryWithResources resources body handlers, role⟩

def Anonymous (step : Step) : Prop :=
  exists site arguments body, step.parent = .creation site arguments (some body)

def OffersName (name : String) (step : Step) : Prop :=
  (exists b, b.name = name ∧ Offers b step) ∨ Anonymous step

variable {b : Binder} {step : Step} {name : String} {ctx : Context} {J : Language} {role : Role}
  {outer : List Step} {form : Form}

theorem OffersName.of (h : Offers b step) : OffersName b.name step :=
  .inl ⟨b, rfl, h⟩

theorem pushLocals_binders (declaration : Node) :
    (pushLocals declaration).map Binding.binder = declaredBinders declaration := by
  cases declaration with
  | localDeclaration declarators =>
    show (declarators.filterMap _).map Binding.binder =
      declarators.flatMap declaratorBinder
    induction declarators with
    | nil => rfl
    | cons d rest ih =>
      cases d <;> simp_all [declaratorBinder]
  | _ => rfl

theorem collectAll_eq (own : Node -> List Binding) (nodes : List Node) :
    collectAll own nodes = nodes.reverse.flatMap (collect own) := by
  induction nodes with
  | nil => rfl
  | cons n rest ih => simp [collectAll, ih]

theorem collectOptional_eq (own : Node -> List Binding) (node : Option Node) :
    collectOptional own node =
      node.toList.reverse.flatMap (collect own) := by
  cases node <;> simp [collectOptional]

theorem collect_eq (own : Node -> List Binding) (n : Node) :
    collect own n = own n ++ n.children.reverse.flatMap (collect own) := by
  cases n <;>
    simp [collect, collectAll_eq, collectOptional_eq, Node.children, Node.roles]

theorem mem_collect (own : Node -> List Binding) (b : Binding) (n : Node) :
    b ∈ collect own n <-> exists m, Subtree n m ∧ b ∈ own m := by
  constructor
  · refine Node.fromChildren (P := fun n => b ∈ collect own n ->
      exists m, Subtree n m ∧ b ∈ own m) ?_ n
    intro n ih hmem
    rw [collect_eq, List.mem_append, List.mem_flatMap] at hmem
    rcases hmem with hown | ⟨c, hc, hcollected⟩
    · exact ⟨n, .refl n, hown⟩
    · rw [List.mem_reverse] at hc
      rcases ih c hc hcollected with ⟨m, hsub, hown⟩
      exact ⟨m, .child hc hsub, hown⟩
  · rintro ⟨m, hsub, hown⟩
    induction hsub with
    | refl n =>
      rw [collect_eq]
      exact List.mem_append_left _ hown
    | child hc _ ih =>
      rw [collect_eq]
      refine List.mem_append_right _ (List.mem_flatMap.mpr ⟨_, ?_, ih hown⟩)
      exact List.mem_reverse.mpr hc

theorem mem_collect_binders (own : Node -> List Binding) (b : Binder)
    (n : Node) :
    b ∈ (collect own n).map Binding.binder <->
      exists m, Subtree n m ∧ b ∈ (own m).map Binding.binder := by
  simp only [List.mem_map, mem_collect]
  constructor
  · rintro ⟨found, ⟨m, hsub, hown⟩, hbinder⟩
    exact ⟨m, hsub, found, hown, hbinder⟩
  · rintro ⟨m, hsub, found, hown, hbinder⟩
    exact ⟨found, ⟨m, hsub, hown⟩, hbinder⟩

theorem mem_patternBinding {m : Node} :
    b ∈ (patternBinding m).map Binding.binder <->
      m = .typePattern b ∨ m = .recordPatternComponent (some b) := by
  cases m <;> simp [patternBinding, eq_comm]

theorem mem_instanceofBinding {m : Node} :
    b ∈ (instanceofBinding m).map Binding.binder <->
      (exists left pattern, m = .instanceOf left (some b) pattern) ∨
        m = .recordPatternComponent (some b) := by
  cases m <;> simp [instanceofBinding]

theorem mem_pushLocals {statements : List Node} :
    b ∈ (statements.flatMap pushLocals).map Binding.binder <->
      exists declaration, declaration ∈ statements ∧
        b ∈ declaredBinders declaration := by
  simp only [List.map_flatMap, pushLocals_binders, List.mem_flatMap]

theorem offers_of_binding (h : b ∈ (bindingsOf step).map Binding.binder) : Offers b step := by
  rcases step with ⟨parent, role⟩
  cases parent with
  | block kind statements =>
    cases role with
    | item i =>
      rcases mem_pushLocals.mp h with ⟨declaration, hmem, hb⟩
      rcases List.mem_iff_getElem?.mp hmem with ⟨j, hj⟩
      rw [List.getElem?_take] at hj
      split at hj
      · exact .statement (by omega) hj hb
      · cases hj
    | _ => cases h
  | forStatement init condition update body =>
    rcases mem_pushLocals.mp h with ⟨declaration, hmem, hb⟩
    exact .forInit (Option.mem_toList.mp hmem) hb
  | enhancedFor bound value body =>
    rcases List.mem_singleton.mp h with rfl
    exact .forEach
  | switchRule label body =>
    rcases (mem_collect_binders _ b label).mp h with ⟨m, hsub, hm⟩
    exact .label hsub (mem_patternBinding.mp hm)
  | ifStatement condition _ _ =>
    rcases (mem_collect_binders _ b condition).mp h with ⟨m, hsub, hm⟩
    exact .condition rfl hsub (mem_instanceofBinding.mp hm)
  | whileStatement condition _ =>
    rcases (mem_collect_binders _ b condition).mp h with ⟨m, hsub, hm⟩
    exact .condition rfl hsub (mem_instanceofBinding.mp hm)
  | doStatement _ condition =>
    rcases (mem_collect_binders _ b condition).mp h with ⟨m, hsub, hm⟩
    exact .condition rfl hsub (mem_instanceofBinding.mp hm)
  | ternary condition _ _ =>
    rcases (mem_collect_binders _ b condition).mp h with ⟨m, hsub, hm⟩
    exact .condition rfl hsub (mem_instanceofBinding.mp hm)
  | callable kind header parameters body =>
    cases kind <;> simp [bindingsOf, pushParams] at h <;>
      exact .parameter (by decide) h
  | _ => cases h

theorem offersName_of_walk
    (h : name ∈ (bindingsOf step).map (fun b => b.binder.name) ∨ staysSilent name step = true) :
    OffersName name step := by
  rcases h with hbinding | hsilent
  · rcases List.mem_map.mp hbinding with ⟨found, hmem, rfl⟩
    exact .of (offers_of_binding (List.mem_map.mpr ⟨found, hmem, rfl⟩))
  · rcases step with ⟨parent, role⟩
    cases parent with
    | catchClause bound body =>
      rcases beq_iff_eq.mp hsilent with rfl
      exact .of .catchParameter
    | tryWithResources resources body handlers =>
      rcases List.any_eq_true.mp hsilent with ⟨r, hmem, hbound⟩
      cases r with
      | resource bound value =>
        rcases Option.map_eq_some_iff.mp (beq_iff_eq.mp hbound)
          with ⟨b, rfl, rfl⟩
        exact .of (.resource hmem (List.mem_singleton_self b))
      | _ => cases hbound
    | creation site arguments classBody =>
      rcases Option.isSome_iff_exists.mp hsilent with ⟨body, rfl⟩
      exact .inr ⟨site, arguments, body, rfl⟩
    | _ => cases hsilent

theorem binding_of_offers (h : Offers b step) :
    b ∈ (bindingsOf step).map Binding.binder ∨
      staysSilent b.name step = true := by
  cases h with
  | @statement kind statements i j declaration hle hget hb =>
    left
    refine mem_pushLocals.mpr ⟨declaration, ?_, hb⟩
    refine List.mem_iff_getElem?.mpr ⟨j, ?_⟩
    rw [List.getElem?_take, if_pos (by omega), hget]
  | forInit hhead hb =>
    left
    exact mem_pushLocals.mpr ⟨_, Option.mem_toList.mpr hhead, hb⟩
  | forEach => exact .inl (List.mem_singleton.mpr rfl)
  | label hsub hm =>
    left
    exact (mem_collect_binders _ b _).mpr ⟨_, hsub, mem_patternBinding.mpr hm⟩
  | @condition parent condition m role hcond hsub hm =>
    left
    have hcollected : b ∈
        (pushInstanceofBindings condition).map Binding.binder :=
      (mem_collect_binders _ b condition).mpr
        ⟨m, hsub, mem_instanceofBinding.mpr hm⟩
    cases parent <;> cases hcond <;> exact hcollected
  | @parameter kind header parameters body role hkind hb =>
    left
    cases kind with
    | compactConstructor => exact absurd rfl hkind
    | _ => simpa [bindingsOf, pushParams] using hb
  | catchParameter => exact .inr (beq_self_eq_true b.name)
  | @resource resources handlers body r role hmem hb =>
    right
    refine List.any_eq_true.mpr ⟨r, hmem, ?_⟩
    cases r with
    | resource bound value =>
      rcases Option.mem_toList.mp hb with rfl
      simp
    | _ => cases hb

theorem walk_of_offersName (h : OffersName name step) :
    name ∈ (bindingsOf step).map (fun b => b.binder.name) ∨
      staysSilent name step = true := by
  rcases h with ⟨b, rfl, hoffers⟩ | ⟨site, arguments, body, hparent⟩
  · rcases binding_of_offers hoffers with hbinding | hsilent
    · rcases List.mem_map.mp hbinding with ⟨found, hmem, rfl⟩
      exact .inl (List.mem_map.mpr ⟨found, hmem, rfl⟩)
    · exact .inr hsilent
  · right
    simp [staysSilent, hparent]

theorem offersName_iff :
    name ∈ (bindingsOf step).map (fun b => b.binder.name) ∨
        staysSilent name step = true <->
      OffersName name step :=
  ⟨offersName_of_walk, walk_of_offersName⟩

/-!
# When the check is silent
-/

/--
The position is not one the check judges, or a declaration of the name stands
where the check looks: a static import, an ancestor, a member of an enclosing
type.
-/
def Recognised (ctx : Context) (J : Language) (id : Occurrence) : Prop :=
  isVariableOnlyPosition id.steps = false ∨
    id.name = "_" ∨
    (StaticImports.parse ctx.importTexts).mayBind id.name = true ∨
    (exists step, step ∈ id.steps ∧ OffersName id.name step) ∨
    enclosingTypes id.steps = [] ∨
    (exists site, site ∈ enclosingTypes id.steps ∧
      (id.name ∈ (J.fields site).map Binder.name ∨ id.name ∈ J.methods site))

theorem lookupBinding_isSome {steps : List Step} :
    (lookupBinding ctx steps name).isSome = true <->
      (exists step, step ∈ steps ∧
        name ∈ (bindingsOf step).map (fun b => b.binder.name)) ∨
      (exists site, (enclosingTypes steps).head? = some site ∧
        name ∈ (ctx.fields site).map Binder.name) := by
  simp only [lookupBinding, List.find?_isSome, collectBindings, beq_iff_eq]
  constructor
  · rintro ⟨b, hb, rfl⟩
    rcases List.mem_append.mp hb with hstep | hfield
    · rcases List.mem_flatMap.mp hstep with ⟨step, hmem, hbinding⟩
      exact .inl ⟨step, hmem, List.mem_map.mpr ⟨b, hbinding, rfl⟩⟩
    · rcases List.mem_flatMap.mp hfield with ⟨site, hsite, hbinding⟩
      rcases List.mem_map.mp hbinding with ⟨binder, hbinder, rfl⟩
      exact .inr ⟨site, Option.mem_toList.mp hsite,
        List.mem_map.mpr ⟨binder, hbinder, rfl⟩⟩
  · rintro (⟨step, hmem, hbinding⟩ | ⟨site, hsite, hname⟩)
    · rcases List.mem_map.mp hbinding with ⟨b, hb, hname⟩
      exact ⟨b, List.mem_append_left _ (List.mem_flatMap.mpr ⟨step, hmem, hb⟩),
        hname⟩
    · rcases List.mem_map.mp hname with ⟨binder, hbinder, hname⟩
      refine ⟨⟨binder, .field⟩, List.mem_append_right _ ?_, hname⟩
      exact List.mem_flatMap.mpr ⟨site, Option.mem_toList.mpr hsite,
        List.mem_map.mpr ⟨binder, hbinder, rfl⟩⟩

theorem typeAdmits_iff (exact : Exact ctx J) {site : Nat} :
    typeAdmits ctx name site = true <->
      name ∈ (J.fields site).map Binder.name ∨ name ∈ J.methods site := by
  rcases exact.members site with ⟨names, hmembers, hnames⟩
  rw [← hnames]
  simp [typeAdmits, hmembers]

theorem silent_iff_branches {id : Occurrence} :
    checkUnresolvedIdentifier ctx id = none <->
      isVariableOnlyPosition id.steps = false ∨
      id.name = "_" ∨
      (StaticImports.parse ctx.importTexts).mayBind id.name = true ∨
      (lookupBinding ctx id.steps id.name).isSome = true ∨
      (exists step, step ∈ id.steps ∧ staysSilent id.name step = true) ∨
      enclosingTypes id.steps = [] ∨
      (exists site, site ∈ enclosingTypes id.steps ∧
        typeAdmits ctx id.name site = true) := by
  unfold checkUnresolvedIdentifier
  grind

theorem silent_iff_recognised (exact : Exact ctx J) {id : Occurrence} :
    checkUnresolvedIdentifier ctx id = none <-> Recognised ctx J id := by
  rw [silent_iff_branches, lookupBinding_isSome]
  simp only [typeAdmits_iff exact, Recognised]
  have offered : (exists step, step ∈ id.steps ∧ OffersName id.name step) <->
      (exists step, step ∈ id.steps ∧
        id.name ∈ (bindingsOf step).map (fun b => b.binder.name)) ∨
      (exists step, step ∈ id.steps ∧ staysSilent id.name step = true) := by
    simp only [← offersName_iff, and_or_left, exists_or]
  have innermost : (exists site, (enclosingTypes id.steps).head? = some site ∧
      id.name ∈ (ctx.fields site).map Binder.name) ->
      exists site, site ∈ enclosingTypes id.steps ∧
        (id.name ∈ (J.fields site).map Binder.name ∨
          id.name ∈ J.methods site) := by
    rintro ⟨site, hhead, hname⟩
    rcases List.mem_map.mp hname with ⟨b, hb, hname⟩
    exact ⟨site, List.mem_of_mem_head? hhead,
      .inl (List.mem_map.mpr ⟨b, exact.fields site hb, hname⟩)⟩
  rw [offered]
  constructor
  · rintro (h | h | h | (h | h) | h | h | h)
    · exact .inl h
    · exact .inr (.inl h)
    · exact .inr (.inr (.inl h))
    · exact .inr (.inr (.inr (.inl (.inl h))))
    · exact .inr (.inr (.inr (.inr (.inr (innermost h)))))
    · exact .inr (.inr (.inr (.inl (.inr h))))
    · exact .inr (.inr (.inr (.inr (.inl h))))
    · exact .inr (.inr (.inr (.inr (.inr h))))
  · rintro (h | h | h | (h | h) | h | h)
    · exact .inl h
    · exact .inr (.inl h)
    · exact .inr (.inr (.inl h))
    · exact .inr (.inr (.inr (.inl (.inl h))))
    · exact .inr (.inr (.inr (.inr (.inl h))))
    · exact .inr (.inr (.inr (.inr (.inr (.inl h)))))
    · exact .inr (.inr (.inr (.inr (.inr (.inr h)))))

/-!
# From the scope rules to the walks
-/

theorem componentBindersAll_eq (components : List Node) :
    componentBindersAll components = components.flatMap componentBinders := by
  induction components with
  | nil => rfl
  | cons n rest ih => simp [componentBindersAll, ih]

theorem subtree_of_componentBinders (n : Node) :
    b ∈ componentBinders n ->
      Subtree n (.recordPatternComponent (some b)) := by
  refine Node.fromChildren (P := fun n => b ∈ componentBinders n ->
    Subtree n (.recordPatternComponent (some b))) ?_ n
  intro n ih hname
  cases n with
  | recordPatternComponent bound =>
    rcases Option.mem_toList.mp hname with rfl
    exact .refl _
  | recordPattern components =>
    rw [componentBinders, componentBindersAll_eq] at hname
    rcases List.mem_flatMap.mp hname with ⟨c, hc, hname⟩
    have hchild : c ∈ (Node.recordPattern components).children := by
      simpa [Node.children, Node.roles] using hc
    exact .child hchild (ih c hchild hname)
  | _ => cases hname

theorem subtree_of_patternBinders {n : Node} (h : b ∈ patternBinders n) :
    exists m, Subtree n m ∧
      (m = .typePattern b ∨ m = .recordPatternComponent (some b)) := by
  cases n with
  | typePattern bound =>
    rcases List.mem_singleton.mp h with rfl
    exact ⟨_, .refl _, .inl rfl⟩
  | _ => exact ⟨_, subtree_of_componentBinders _ h, .inr rfl⟩

theorem subtree_of_labelBinders {label : Node} (h : b ∈ labelBinders label) :
    exists m, Subtree label m ∧
      (m = .typePattern b ∨ m = .recordPatternComponent (some b)) := by
  cases label with
  | switchLabel patterns guard =>
    rcases List.mem_flatMap.mp h with ⟨pattern, hpattern, hname⟩
    rcases subtree_of_patternBinders hname with ⟨m, hsub, hm⟩
    refine ⟨m, .child ?_ hsub, hm⟩
    simp [Node.children, Node.roles, hpattern]
  | _ => cases h

theorem subtree_of_matched (n : Node) :
    forall outcome, b ∈ matched outcome n ->
      exists m, Subtree n m ∧
        ((exists left pattern, m = .instanceOf left (some b) pattern) ∨
          m = .recordPatternComponent (some b)) := by
  refine Node.fromChildren (P := fun n => forall outcome,
    b ∈ matched outcome n -> exists m, Subtree n m ∧
      ((exists left pattern, m = .instanceOf left (some b) pattern) ∨
        m = .recordPatternComponent (some b))) ?_ n
  intro n ih outcome hname
  have inChild : forall c, c ∈ n.children -> forall value,
      b ∈ matched value c -> exists m, Subtree n m ∧
        ((exists left pattern, m = .instanceOf left (some b) pattern) ∨
          m = .recordPatternComponent (some b)) := by
    intro c hc value hvalue
    rcases ih c hc value hvalue with ⟨m, hsub, hm⟩
    exact ⟨m, .child hc hsub, hm⟩
  cases n with
  | instanceOf left bound pattern =>
    cases outcome with
    | false => simp [matched] at hname
    | true =>
      rw [matched, List.mem_append] at hname
      rcases hname with hbound | hpattern
      · rcases Option.mem_toList.mp hbound with rfl
        exact ⟨_, .refl _, .inl ⟨left, pattern, rfl⟩⟩
      · rcases List.mem_flatMap.mp hpattern with ⟨p, hp, hname⟩
        refine ⟨_, .child ?_ (subtree_of_componentBinders p hname), .inr rfl⟩
        exact List.mem_cons_of_mem _ (by simpa [optional] using hp)
  | logical op left right =>
    cases op <;> cases outcome <;>
      simp only [matched, List.mem_append, List.not_mem_nil] at hname
    all_goals
      rcases hname with hleft | hright
      · exact inChild left (by simp [Node.children, Node.roles]) _ hleft
      · exact inChild right (by simp [Node.children, Node.roles]) _ hright
  | logicalNot operand =>
    rw [matched] at hname
    exact inChild operand (by simp [Node.children, Node.roles]) _ hname
  | parenthesized expression =>
    rw [matched] at hname
    exact inChild expression (by simp [Node.children, Node.roles]) _ hname
  | _ => simp [matched] at hname

theorem offers_of_matched {parent condition : Node} {outcome : Bool}
    (hparent : conditionOf parent = some condition) (h : b ∈ matched outcome condition) :
    Offers b ⟨parent, role⟩ := by
  rcases subtree_of_matched condition outcome h with ⟨m, hsub, hm⟩
  exact .condition hparent hsub hm

/-- An ancestor offers the name, or an enclosing type has it as a field. -/
def Met (J : Language) (b : Binder) (steps : List Step) : Prop :=
  (exists step, step ∈ steps ∧ OffersName b.name step) ∨
    exists site, site ∈ enclosingTypes steps ∧ b ∈ J.fields site

theorem met_of_offers (h : Offers b step) : Met J b (step :: outer) :=
  .inl ⟨step, List.mem_cons_self, .of h⟩

theorem Met.weaken (h : Met J b outer) : Met J b (step :: outer) := by
  rcases h with ⟨found, hmem, hoffers⟩ | ⟨site, hsite, hname⟩
  · exact .inl ⟨found, List.mem_cons_of_mem _ hmem, hoffers⟩
  · refine .inr ⟨site, ?_, hname⟩
    have hkept : (enclosingTypes outer) ⊆ enclosingTypes (step :: outer) := by
      intro s hs
      rcases List.mem_filterMap.mp hs with ⟨found, hfound, heq⟩
      exact List.mem_filterMap.mpr ⟨found, List.mem_cons_of_mem _ hfound, heq⟩
    exact hkept hsite

theorem offers_of_earlier {kind : BlockKind} {statements : List Node} {i : Nat}
    (h : b ∈ (statements.take i).flatMap declaredBinders) :
    Offers b ⟨.block kind statements, .item i⟩ := by
  rcases List.mem_flatMap.mp h with ⟨declaration, hmem, hname⟩
  rcases List.mem_iff_getElem?.mp hmem with ⟨j, hj⟩
  rw [List.getElem?_take] at hj
  split at hj
  · exact .statement (by omega) hj hname
  · cases hj

theorem met_of_declaration {declarators : List Node}
    (linked : Linked (.localDeclaration declarators) outer)
    (hform : declarationForm outer = some form) (hcovered : form.covered = true)
    (hname : b ∈ declarators.flatMap declaratorBinder) :
    Met J b (⟨.localDeclaration declarators, role⟩ :: outer) := by
  apply Met.weaken
  unfold declarationForm at hform
  split at hform
  · cases hform
  · have hget := linked.1
    simp only [Node.roles, mem_numbered, Role.item.injEq] at hget
    rcases hget with ⟨i, rfl, hget⟩
    exact met_of_offers (.statement (Nat.le_refl _) hget hname)
  · have hget := linked.1
    simp only [Node.roles, List.mem_append, mem_numbered, mem_optional,
      List.mem_singleton, Prod.mk.injEq, reduceCtorEq, Role.init.injEq,
      false_and, exists_false, or_false, exists_eq_left'] at hget
    rw [← List.head?_eq_getElem?] at hget
    exact met_of_offers (.forInit hget hname)
  · cases hform
    cases hcovered
  · cases hform

theorem met_of_label {patterns : List Node} {guard : Option Node}
    (linked : Linked (.switchLabel patterns guard) outer) (hform : labelForm outer = some form)
    (hcovered : form.covered = true) (hname : b ∈ patterns.flatMap patternBinders) :
    Met J b (⟨.switchLabel patterns guard, role⟩ :: outer) := by
  apply Met.weaken
  have hlabel : b ∈ labelBinders (.switchLabel patterns guard) := hname
  rcases subtree_of_labelBinders hlabel with ⟨m, hsub, hm⟩
  unfold labelForm at hform
  split at hform
  · have hmem := linked.1
    simp [Node.roles] at hmem
    rcases hmem with ⟨-, rfl⟩
    exact met_of_offers (.label hsub hm)
  · cases hform
    cases hcovered
  · cases hform

theorem not_covered_bind {bound : Form} {binders : List Binder} (hcovered : form.covered = true)
    (hbound : bound.covered = false) : (form, b) ∉ bind bound binders := by
  intro h
  rcases mem_bind.mp h with ⟨rfl, -⟩
  rw [hcovered] at hbound
  cases hbound

theorem met_of_forInit {init : List Node} {condition : Option Node} {update : List Node}
    {body : Node} (h : (form, b) ∈ bind .forVariable (init.head?.toList.flatMap declaredBinders)) :
    Met J b (⟨.forStatement init condition update body, role⟩ :: outer) := by
  rcases List.mem_flatMap.mp (mem_bind.mp h).2 with ⟨declaration, hmem, hname⟩
  exact met_of_offers (.forInit (Option.mem_toList.mp hmem) hname)

theorem met_of_site {site : Nat} {header members : List Node} (h : b ∈ J.fields site) :
    Met J b (⟨.typeDeclaration site header members, role⟩ :: outer) :=
  .inr ⟨site, List.mem_filterMap.mpr ⟨_, List.mem_cons_self, rfl⟩, h⟩

theorem met_of_scopesOf {parent : Node} (linked : Linked parent outer)
    (hcovered : form.covered = true) (h : (form, b) ∈ scopesOf J ⟨parent, role⟩ outer) :
    Met J b (⟨parent, role⟩ :: outer) := by
  cases parent with
  | logical op left right =>
    cases op <;> cases role <;> try cases h
    all_goals exact absurd h (not_covered_bind hcovered rfl)
  | ternary condition consequence alternative =>
    cases role <;> try cases h
    all_goals
      exact met_of_offers (offers_of_matched rfl (mem_bind.mp h).2)
  | ifStatement condition consequence alternative =>
    cases role <;> try cases h
    all_goals
      exact met_of_offers (offers_of_matched rfl (mem_bind.mp h).2)
  | whileStatement condition body =>
    cases role <;> try cases h
    exact met_of_offers (offers_of_matched rfl (mem_bind.mp h).2)
  | block kind statements =>
    cases kind <;> cases role <;> try cases h
    case switchBlock.item i => exact absurd h (not_covered_bind hcovered rfl)
    all_goals
      rcases List.mem_append.mp h with hlocal | hescaped
      · exact met_of_offers (offers_of_earlier (mem_bind.mp hlocal).2)
      · exact absurd hescaped (not_covered_bind hcovered rfl)
  | switchGroup labels statements =>
    cases role <;> try cases h
    rcases List.mem_append.mp h with h | hguard
    · rcases List.mem_append.mp h with h | hpattern
      · rcases List.mem_append.mp h with hlocal | hescaped
        · exact absurd hlocal (not_covered_bind hcovered rfl)
        · exact absurd hescaped (not_covered_bind hcovered rfl)
      · exact absurd hpattern (not_covered_bind hcovered rfl)
    · exact absurd hguard (not_covered_bind hcovered rfl)
  | switchRule label body =>
    cases role <;> try cases h
    rcases List.mem_append.mp h with hpattern | hguard
    · rcases subtree_of_labelBinders (mem_bind.mp hpattern).2 with ⟨m, hsub, hm⟩
      exact met_of_offers (.label hsub hm)
    · exact absurd hguard (not_covered_bind hcovered rfl)
  | switchLabel patterns guard =>
    cases role <;> try cases h
    rcases List.mem_flatMap.mp h with ⟨bound, hform, hbound⟩
    rcases mem_bind.mp hbound with ⟨rfl, hname⟩
    exact met_of_label linked (Option.mem_toList.mp hform) hcovered hname
  | localDeclaration declarators =>
    cases role <;> try cases h
    rcases List.mem_flatMap.mp h with ⟨bound, hform, hbound⟩
    rcases mem_bind.mp hbound with ⟨rfl, hname⟩
    rcases List.mem_flatMap.mp hname with ⟨d, hd, hname⟩
    exact met_of_declaration linked (Option.mem_toList.mp hform) hcovered
      (List.mem_flatMap.mpr ⟨d, List.mem_of_mem_take hd, hname⟩)
  | forStatement init condition update body =>
    cases role <;> try cases h
    case condition => exact met_of_forInit h
    all_goals
      rcases List.mem_append.mp h with hinit | hcondition
      · exact met_of_forInit hinit
      · exact absurd hcondition (not_covered_bind hcovered rfl)
  | enhancedFor bound value body =>
    cases role with
    | body =>
      rcases List.mem_singleton.mp (mem_bind.mp h).2 with rfl
      exact met_of_offers .forEach
    | _ => cases h
  | tryWithResources resources body handlers =>
    cases role <;> try cases h
    case item i =>
      rcases List.mem_flatMap.mp (mem_bind.mp h).2 with ⟨r, hr, hname⟩
      exact met_of_offers (.resource (List.mem_of_mem_take hr) hname)
    case body =>
      rcases List.mem_flatMap.mp (mem_bind.mp h).2 with ⟨r, hr, hname⟩
      exact met_of_offers (.resource hr hname)
  | catchClause bound body =>
    cases role with
    | body =>
      rcases List.mem_singleton.mp (mem_bind.mp h).2 with rfl
      exact met_of_offers .catchParameter
    | _ => cases h
  | callable kind header parameters body =>
    cases kind <;> cases role <;> try cases h
    case compactConstructor.body =>
      -- the components of the record are its fields
      rcases List.mem_flatMap.mp h with ⟨site, hsite, hname⟩
      refine Met.weaken (.inr ⟨site, ?_, ?_⟩)
      · exact List.mem_of_mem_head? (Option.mem_toList.mp hsite)
      · exact J.components_fields site (mem_bind.mp hname).2
    all_goals
      exact met_of_offers (.parameter (by decide) (mem_bind.mp h).2)
  | typeDeclaration site header members =>
    cases role <;> try cases h
    exact met_of_site (mem_bind.mp h).2
  | creation site arguments classBody =>
    cases classBody <;> cases role <;> try cases h
    exact .inl ⟨_, List.mem_cons_self, .inr ⟨site, arguments, _, rfl⟩⟩
  | enumConstant site arguments classBody =>
    cases role <;> try cases h
    exact absurd h (not_covered_bind hcovered rfl)
  | _ => cases role <;> cases h

theorem met_of_scopes (hcovered : form.covered = true) {n : Node} {steps : List Step}
    (linked : Linked n steps) (h : (form, b) ∈ scopes J steps) :
    Met J b steps := by
  induction steps generalizing n with
  | nil => cases h
  | cons step outer ih =>
    rcases List.mem_append.mp h with hhere | houter
    · exact met_of_scopesOf linked.2 hcovered hhere
    · exact (ih linked.2 houter).weaken

/-!
# Static imports
-/

namespace StaticImports

theorem mayBind_add {imports : StaticImports} {name : String} (path : String)
    (h : imports.mayBind name = true) : (imports.add path).mayBind name = true := by
  simp only [mayBind, Bool.or_eq_true, List.contains_iff_mem] at h ⊢
  simp only [add]
  split
  · split
    · exact .inl rfl
    · exact h.imp id (List.mem_cons_of_mem _)
  · exact h

theorem mayBind_foldl {name : String} (paths : List String)
    {imports : StaticImports} (h : imports.mayBind name = true) :
    (paths.foldl add imports).mayBind name = true := by
  induction paths generalizing imports with
  | nil => exact h
  | cons path rest ih => exact ih (mayBind_add path h)

theorem mayBind_parse {name text path : String} {texts : List String}
    (hmem : text ∈ texts) (hpath : dottedPath text.toList "import" = some path)
    (hadd : forall imports : StaticImports,
      (imports.add path).mayBind name = true) :
    (parse texts).mayBind name = true := by
  rcases List.append_of_mem hmem with ⟨before, after, rfl⟩
  have hread : (text :: after).filterMap (fun text => dottedPath text.toList "import") =
      path :: after.filterMap (fun text => dottedPath text.toList "import") :=
    List.filterMap_cons_some hpath
  rw [parse, List.filterMap_append, hread, List.foldl_append, List.foldl_cons]
  exact mayBind_foldl _ (hadd _)

theorem add_static (imports : StaticImports) (rest : String) :
    imports.add ("static" ++ rest) =
      if ".*".toList.isSuffixOf rest.toList then
        { imports with wildcard := true }
      else { imports with names := lastSegment rest :: imports.names } := by
  have hrest : String.ofList (("static" ++ rest).toList.drop 6) = rest := by
    simp [String.toList_append]
  unfold add
  rw [hrest, if_pos]
  simp [String.toList_append]

theorem mayBind_single (imports : StaticImports) (type : String)
    {name : String} (h : '.' ∉ name.toList) :
    (imports.add ("static" ++ type ++ "." ++ name)).mayBind name = true := by
  have hpath : "static" ++ type ++ "." ++ name =
      "static" ++ (type ++ "." ++ name) := by
    simp only [String.append_assoc]
  rw [hpath, add_static]
  split
  · rfl
  · simp [mayBind, lastSegment_append h]

theorem mayBind_onDemand (imports : StaticImports) (type name : String) :
    (imports.add ("static" ++ type ++ ".*")).mayBind name = true := by
  rw [String.append_assoc, add_static, if_pos]
  · rfl
  · simp [String.toList_append]

end StaticImports

theorem dottedPath_static {d : ImportDeclaration} {name : String} (plain : d.Plain)
    (named : Names d name) : dottedPath d.text.toList "import" = some d.path := by
  rw [plain.dottedPath, if_neg]
  simp [ImportDeclaration.path, named.isStatic]

theorem mayBind_of_exact {ctx : Context} {J : Language} (exact : Exact ctx J)
    {b : Binder} (h : Imported J b .staticImport) :
    (StaticImports.parse ctx.importTexts).mayBind b.name = true := by
  cases h with
  | @plain d binders hd hb plain =>
    have named := J.staticImports_named d binders hd b hb
    refine StaticImports.mayBind_parse (exact.imports d binders hd)
      (dottedPath_static plain named) (fun imports => ?_)
    unfold ImportDeclaration.path
    rw [if_pos named.isStatic]
    by_cases hdemand : d.onDemand.isSome = true
    · rw [if_pos hdemand]
      exact imports.mayBind_onDemand d.name.path b.name
    · rcases named.last.resolve_left hdemand with ⟨type, hlast⟩
      rw [if_neg hdemand, String.append_empty, hlast]
      have hassoc : "static" ++ (type ++ "." ++ b.name) =
          "static" ++ type ++ "." ++ b.name := by
        simp only [String.append_assoc]
      rw [hassoc]
      exact imports.mayBind_single type named.simple

/-- A comment behind the name stays in the path. -/
example :
    (StaticImports.parse ["import static java.lang.Math.PI /* pi */;"]).mayBind "PI" =
      false := by
  decide +kernel

/-!
# The check against the scope rules
-/

theorem recognised_of_covered {ctx : Context} {J : Language}
    (exact : Exact ctx J) {id : Occurrence} {form : Form}
    (hcovered : form.covered = true) (h : Bound J id form) :
    Recognised ctx J id := by
  rcases h with ⟨b, hname, hscope | himported⟩
  · rcases met_of_scopes hcovered id.linked hscope with hoffers | hfield
    · rw [hname] at hoffers
      exact .inr (.inr (.inr (.inl hoffers)))
    · rcases hfield with ⟨site, hsite, hb⟩
      exact .inr (.inr (.inr (.inr (.inr ⟨site, hsite,
        .inl (List.mem_map.mpr ⟨b, hb, hname⟩)⟩))))
  · cases himported with
    | plain hd hb plain =>
      have hbound := mayBind_of_exact exact (.plain hd hb plain)
      rw [hname] at hbound
      exact .inr (.inr (.inl hbound))
    | commented => cases hcovered

/--
A bound name is left alone exactly when a covered form binds it or a
declaration of the same name stands where the check looks.
-/
theorem bound_name_silent_iff (ctx : Context) (J : Language)
    (exact : Exact ctx J) (id : Occurrence) :
    ((exists form, Bound J id form) ->
        checkUnresolvedIdentifier ctx id = none) <->
      ((exists form, Bound J id form) ->
        (exists form, form.covered = true ∧ Bound J id form) ∨
          Recognised ctx J id) := by
  rw [silent_iff_recognised exact]
  refine imp_congr_right (fun _ => ⟨.inr, ?_⟩)
  rintro (⟨form, hcovered, hform⟩ | hrecognised)
  · exact recognised_of_covered exact hcovered hform
  · exact hrecognised

namespace ReturnedPattern

/-- One class `C` with the methods `test` and `check` and no field. -/
def context : Context where
  importTexts := []
  fields := fun _ => []
  memberNames := fun _ => some (["test", "check"], true)

def language : Language where
  completes := fun _ => true
  breaksOut := fun _ => false
  fields := fun _ => []
  methods := fun _ => ["test", "check"]
  components := fun _ => []
  components_fields := fun _ => List.Subset.refl _
  staticImports := []
  staticImports_named := named_of_no_imports

theorem context_exact : Exact context language where
  members := fun _ => ⟨_, rfl, fun name => by simp [language]⟩
  fields := fun _ => List.Subset.refl _
  imports := fun _ _ h => absurd h List.not_mem_nil

/-- `o instanceof S s` -/
def test : Node := .instanceOf (.identifier "o") (some ⟨"s", 1⟩) none

/-- `check(s)` -/
def use : Node := .plain .other [.plain .argumentList [.identifier "s"]]

/-- The ancestors of `s` in `check(s)`, as far as the call itself. -/
def inCall : List Step :=
  [⟨.plain .argumentList [.identifier "s"], .item 0⟩, ⟨use, .item 0⟩]

/-- A statement as the body of `boolean test(Object o)` of the class. -/
def inMethod (statement : Node) : List Step :=
  [⟨.block .block [statement], .item 0⟩,
    ⟨.callable .method [] [⟨"o", 0⟩] (some (.block .block [statement])), .body⟩,
    ⟨.typeDeclaration 0 []
      [.callable .method [] [⟨"o", 0⟩] (some (.block .block [statement]))], .item 0⟩]

/-- `return o instanceof S s && check(s);` -/
def returned : Occurrence where
  name := "s"
  steps := inCall ++
    [⟨.logical .and test use, .right⟩,
      ⟨.plain .returnStatement [.logical .and test use], .item 0⟩] ++
    inMethod (.plain .returnStatement [.logical .and test use])
  linked := by simp [inCall, inMethod, Linked, Node.roles, use]

/-- `if (o instanceof S s) return check(s);` -/
def guarded : Occurrence where
  name := "s"
  steps := inCall ++
    [⟨.plain .returnStatement [use], .item 0⟩,
      ⟨.ifStatement (.parenthesized test) (.plain .returnStatement [use]) none,
        .consequence⟩] ++
    inMethod
      (.ifStatement (.parenthesized test) (.plain .returnStatement [use]) none)
  linked := by simp [inCall, inMethod, Linked, Node.roles, use]

theorem guarded_silent :
    checkUnresolvedIdentifier context guarded = none := by
  refine (bound_name_silent_iff context language context_exact guarded).mpr
    (fun _ => .inl ⟨.branch, rfl, ?_⟩) ⟨.branch, ?_⟩
  · exact ⟨⟨"s", 1⟩, rfl, .inl (by decide)⟩
  · exact ⟨⟨"s", 1⟩, rfl, .inl (by decide)⟩

theorem returned_reported :
    Exact context language ∧ Bound language returned .operand ∧
      checkUnresolvedIdentifier context returned =
        some "cannot find symbol: variable 's'" :=
  ⟨context_exact, ⟨⟨"s", 1⟩, rfl, .inl (by decide)⟩, rfl⟩

end ReturnedPattern

end Scopes
end JavaVsixLite
