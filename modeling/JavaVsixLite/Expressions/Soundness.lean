import JavaVsixLite.Expressions.Clear

/-!
# Soundness of expression typing

Every form has its own lemma, from the answers about its parts; the induction
is on the levels that may still be entered.
-/

namespace JavaVsixLite
namespace Expressions

open Scopes (Step Binding)
open Typer (enclosingTypedecl)

theorem Typer.typeRef_of_fromTypeRef (T : Typer) {t : TypeRef} {ty : ResolvedType}
    (h : T.workspace.fromTypeRef t = some ty) : T.typeRef ty = t := by
  unfold Workspace.fromTypeRef at h
  split at h
  · cases h
    rfl
  · cases h
    rfl
  · cases h
    rfl
  · cases h
    rfl
  · split at h
    · rename_i node hnode
      cases h
      rw [Typer.typeRef, T.typeId_named _ node hnode]
    · split at h
      · cases h
      · split at h
        · cases h
          rfl
        · cases h
  · rename_i document declaration args
    rcases Option.map_eq_some_iff.mp h with ⟨node, hnode, rfl⟩
    rw [Typer.typeRef, T.typeId_local document declaration node hnode]
  · cases h

/-!
# One lemma for each form
-/

section Forms

variable {T : Typer} {J : Java}

variable {e : Expr} {r : Resolved}

theorem right_instance {ty : ResolvedType} :
    Right T J e (.instance ty) <-> J.Denotes T e (.value (.ref (T.typeRef ty))) :=
  Iff.rfl

theorem Right.value {e : Expr} {r : Resolved} (right : Right T J e r)
    (operand : IsValue T J e) :
    r.staticOnly = false ∧ J.Denotes T e (.value (.ref (T.typeRef r.ty))) := by
  rcases r with ⟨ty, static⟩
  cases static with
  | false => exact ⟨rfl, right⟩
  | true => exact absurd right (operand _)

theorem right_of_value (hstatic : r.staticOnly = false)
    (h : J.Denotes T e (.value (.ref (T.typeRef r.ty)))) : Right T J e r := by
  rcases r with ⟨ty, static⟩
  cases hstatic
  exact h

theorem right_of_typeRef {t : TypeRef} (denotes : J.Denotes T e (.value (.ref t)))
    (h : (T.workspace.fromTypeRef t).map Resolved.instance = some r) :
    Right T J e r := by
  rcases Option.map_eq_some_iff.mp h with ⟨ty, hty, rfl⟩
  rw [right_instance, T.typeRef_of_fromTypeRef hty]
  exact denotes

theorem resolveMemberSegment_right {lookup : MethodLookup} {object : Expr} {name : String}
    {cur : Resolved} (segment : SegmentClear T J lookup object name) (right : Right T J object cur)
    (h : T.resolveMemberSegment lookup cur name = some r) :
    Right T J (.fieldAccess object name) r := by
  have memberType : forall t, MemberTypeAt T J cur name t ->
      J.Denotes T (.fieldAccess object name) (.type t) := by
    intro t found
    rcases cur with ⟨ty, static⟩
    cases found.static
    exact .memberType right found.noField found.member
  unfold Typer.resolveMemberSegment at h
  split at h
  · rename_i fqn hnested
    cases h
    exact memberType _ (segment.external cur fqn right hnested)
  · split at h
    · rename_i node hnested
      cases h
      exact memberType _ (segment.inProject cur node right hnested)
    · split at h
      · rename_i m hm
        rcases Option.map_eq_some_iff.mp h with ⟨ty, hty, rfl⟩
        have hfield := segment.field cur m ty right hm hty
        rcases cur with ⟨receiver, static⟩
        cases static with
        | false => exact .field right hfield
        | true => exact .staticField right hfield
      · cases h

theorem walkSegments_right {lookup : MethodLookup} {names : List String} {object : Expr}
    {cur : Resolved} (segments : SegmentsClear T J lookup object names)
    (right : Right T J object cur) (h : T.walkSegments lookup cur names = some r) :
    Right T J (spelled object names) r := by
  induction names generalizing object cur with
  | nil =>
    cases h
    exact right
  | cons name rest ih =>
    simp only [Typer.walkSegments] at h
    split at h
    · rename_i next hnext
      exact ih segments.2
        (resolveMemberSegment_right segments.1 right hnext) h
    · cases h

section Step

variable {recurse : MethodLookup -> Nat -> Expr -> Option Resolved}
  {clear answered : MethodLookup -> Nat -> Expr -> Prop}
  {lookup : MethodLookup} {depth : Nat}

variable {text : String} {position : List Step} {b : Binding} {r : Resolved} {node : Nat} {e : Expr}

theorem inferred_right (recursive : CalleeRight T J recurse clear)
    (named : J.variableNamed position text = some b.binder)
    (variableClear : VariableClear T J clear lookup depth b)
    (hwritten : (T.declared b.binder.site).writtenNode = none) {value : Expr}
    (hvalue : (T.declared b.binder.site).value = some value) {found : Resolved}
    (hfound : recurse lookup (depth + 1) value = some found)
    (h : (if (T.declared b.binder.site).forEach then
      (T.iterableElementType found.ty).map Resolved.instance else some (.instance found.ty)) =
      some r) :
    Right T J (.name text position) r := by
  have hclear := variableClear.inferred value hwritten hvalue
  have right := recursive _ _ _ _ hclear.1 hfound
  have denotes := (right.value hclear.2).2
  split at h
  · rename_i hforEach
    rcases Option.map_eq_some_iff.mp h with ⟨ty, hty, rfl⟩
    exact .element named hwritten hvalue hforEach denotes
      (variableClear.element value found ty hwritten hvalue hforEach right hty)
  · rename_i hforEach
    cases h
    exact .inferred named hwritten hvalue (by simpa using hforEach) denotes

theorem written_right (named : J.variableNamed position text = some b.binder)
    (variableClear : VariableClear T J clear lookup depth b)
    (hwritten : (T.declared b.binder.site).writtenNode = some node) {ty : ResolvedType}
    (hty : T.resolveTypeNode node = some ty) :
    Right T J (.name text position) (.instance ty) := by
  rcases variableClear.written node ty hwritten hty with ⟨hdims, hvarargs, htype⟩
  have htypeOf : T.typeRef ty = J.writtenType (T.declared b.binder.site) node := by
    simp [Java.writtenType, hdims, hvarargs, Java.withDims, htype]
  rw [right_instance, htypeOf]
  exact .written named hwritten

theorem resolveAsType_static (h : T.resolveAsType text position = some r) :
    r.staticOnly = true := by
  simp only [Typer.resolveAsType] at h
  split at h
  · cases h
    rfl
  · rcases Option.map_eq_some_iff.mp h with ⟨fqn, -, rfl⟩
    rfl

theorem resolveName_unwritten (hbinding : Scopes.lookupBinding T.context position text = some b)
    (hwritten : (T.declared b.binder.site).writtenNode = none)
    (h : T.resolveName recurse lookup depth text position = some r) :
    (exists t, b.kind = .param ∧ T.lambdaParameter b.binder.site = some t ∧
      (T.receiverTypeRef (maxResolveDepth - depth) t).map Resolved.instance = some r) ∨
    exists value found, (T.declared b.binder.site).value = some value ∧
      recurse lookup (depth + 1) value = some found ∧
      (if (T.declared b.binder.site).forEach then
        (T.iterableElementType found.ty).map Resolved.instance
      else some (.instance found.ty)) = some r := by
  simp only [Typer.resolveName, hbinding, hwritten] at h
  grind

theorem resolveName_right (recursive : CalleeRight T J recurse clear)
    (nameClear : NameClear T J clear lookup depth text position)
    (h : T.resolveName recurse lookup depth text position = some r) :
    Right T J (.name text position) r := by
  have hresolved := h
  unfold Typer.resolveName at h
  split at h
  · cases h
  cases hbinding : Scopes.lookupBinding T.context position text with
  | none =>
    rw [hbinding] at h
    have hstatic := resolveAsType_static h
    rcases nameClear.unbound r hbinding h with ⟨hnone, htype⟩
    rcases r with ⟨ty, static⟩
    cases hstatic
    exact .typeName hnone htype
  | some b =>
    rw [hbinding] at h
    rcases nameClear.bound b hbinding with ⟨named, variableClear⟩
    simp only at h
    cases hwritten : (T.declared b.binder.site).writtenNode with
    | some node =>
      rw [hwritten] at h
      rcases Option.map_eq_some_iff.mp h with ⟨ty, hty, rfl⟩
      exact written_right named variableClear hwritten hty
    | none =>
      rcases resolveName_unwritten hbinding hwritten hresolved with
        ⟨t, hparam, hlambda, hresult⟩ | ⟨value, found, hvalue, hfound, hr⟩
      · rcases Option.map_eq_some_iff.mp hresult with ⟨ty, hty, rfl⟩
        exact .lambda named hwritten
          (variableClear.lambda t ty hwritten hparam hlambda hty)
      · exact inferred_right recursive named variableClear hwritten
          hvalue hfound hr

theorem resolveScopedPath_right (recursive : CalleeRight T J recurse clear)
    (path : PathClear T J clear lookup e) (h : T.resolveScopedPath recurse lookup e = some r) :
    Right T J e r := by
  have qualified : forall fqn rest, T.qualifiedHead (T.identifiers e) = some (fqn, rest) ->
      T.walkSegments lookup (.static (.external fqn [])) rest = some r ->
      Right T J e r := by
    intro fqn rest hhead hr
    rcases path.qualified fqn rest hhead with
      ⟨head, hspelled, denotes, segments⟩ | hnone
    · have right : Right T J head (.static (.external fqn [])) := denotes
      have walked := walkSegments_right segments right hr
      rwa [hspelled]
    · rw [hnone] at hr
      cases hr
  unfold Typer.resolveScopedPath at h
  cases hnames : T.identifiers e with
  | nil =>
    rw [hnames] at h qualified
    simp only at h
    split at h
    · rename_i fqn rest hhead
      exact qualified fqn rest hhead h
    · cases h
  | cons first rest =>
    rcases path.named first rest hnames with ⟨nameClear, hspelled⟩
    rw [hnames] at h qualified
    simp only at h
    split at h
    · rename_i found hwalked
      cases h
      split at hwalked
      · rename_i head hhead
        have right := resolveName_right recursive nameClear hhead
        rcases hspelled with ⟨hspelled, segments⟩ | hnone
        · have walked := walkSegments_right segments right hwalked
          rwa [hspelled]
        · rw [hnone head right] at hwalked
          cases hwalked
      · cases hwalked
    · split at h
      · rename_i fqn rest hhead
        exact qualified fqn rest hhead h
      · cases h

theorem this_right (hbody : classBody position = some (.declaration node))
    (hplain : (T.workspace.decl node).typeParameters = []) :
    Right T J (.this position) (.instance (.inProject node [])) := by
  have denotes := Java.Denotes.this (J := J) (T := T) hbody
  simpa [right_instance, Typer.typeRef, Java.thisType, Java.ownType, hplain]
    using denotes

theorem super_right {first : Nat} {rest : List Nat}
    (hbody : classBody position = some (.declaration node))
    (hsuperclass : (T.workspace.decl node).hasSuperclass = true)
    (hnodes : T.superNodes node = first :: rest) {ty : ResolvedType}
    (htype : T.typeRef ty = J.typeNode first) :
    Right T J (.super position) (.instance ty) := by
  have denotes := Java.Denotes.super (J := J) (T := T) hbody
  simpa [right_instance, Java.superType, Java.superclass, hsuperclass, hnodes,
    ← htype] using denotes

theorem ternary_right {consequence alternative : Expr} {c a : Resolved} (engine : EngineSound T J)
    (hc : Right T J consequence c) (hcValue : IsValue T J consequence)
    (ha : Right T J alternative a) (haValue : IsValue T J alternative)
    (hclear : forall c a, J.Denotes T consequence (.value (.ref c)) ->
      J.Denotes T alternative (.value (.ref a)) ->
      ConditionalClear (J.constantFits consequence) (J.constantFits alternative) c a)
    (h : T.resolveTernary c a = some r) :
    Right T J (.ternary consequence alternative) r := by
  rcases hc.value hcValue with ⟨hcStatic, hcDenotes⟩
  rcases ha.value haValue with ⟨haStatic, haDenotes⟩
  have clear := hclear _ _ hcDenotes haDenotes
  unfold Typer.resolveTernary at h
  split at h
  · rename_i hassignable
    cases h
    have htype := conditional_alternative engine (T.typeRef_concrete _)
      (T.typeRef_concrete _) clear hassignable
    exact right_of_value haStatic (.ternary hcDenotes haDenotes htype)
  · rename_i hfirst
    split at h
    · rename_i hassignable
      cases h
      have htype := conditional_consequence engine (T.typeRef_concrete _)
        (T.typeRef_concrete _) clear hfirst hassignable
      exact right_of_value hcStatic (.ternary hcDenotes haDenotes htype)
    · cases h

theorem string_value {found : Option Resolved} (hfound : forall r, found = some r -> Right T J e r)
    (operand : IsValue T J e) (h : Typer.isString found = true) :
    exists args, J.Denotes T e
      (.value (.ref (.named (.named "java.lang.String") args))) := by
  unfold Typer.isString at h
  split at h
  · rename_i fqn args static
    have hfqn : fqn = "java.lang.String" := by simpa using h
    subst hfqn
    exact ⟨args, ((hfound _ rfl).value operand).2⟩
  · cases h

theorem resolveCall_right {site : Nat} {object : Option Expr} {method : String}
    (given : CallsGiven T J) (recursive : CalleeRight T J recurse clear)
    (hclear : ClearStep T J clear answered lookup depth (.call site object method position))
    (h : T.resolveCall recurse lookup depth site object method position = some r) :
    Right T J (.call site object method position) r := by
  have denotes : forall t, J.callType site = .ref t ->
      J.Denotes T (.call site object method position) (.value (.ref t)) := by
    intro t ht
    rw [← ht]
    exact .call
  cases lookup with
  | unique =>
    simp only [Typer.resolveCall] at h
    split at h
    · rename_i result hresult
      exact right_of_typeRef
        (denotes result (given.methods site result hresult)) h
    · cases h
  | first =>
    have found : forall cur m, FirstMethodRight T J site method cur ->
        T.findMemberHierOfKind cur method .method = some m ->
        (T.memberResultType .first m cur).map Resolved.instance = some r ->
        Right T J (.call site object method position) r := by
      intro cur m first hm hresult
      rcases Option.map_eq_some_iff.mp hresult with ⟨ty, hty, rfl⟩
      exact denotes _ (first m ty hm hty)
    have hclear := hclear rfl
    simp only [Typer.resolveCall] at h
    split at h
    · cases h
    · rename_i cur hcur
      split at h
      · rename_i m hm
        cases object with
        | some e =>
          exact found cur m
            (hclear.2 cur (recursive _ _ _ _ hclear.1 hcur)) hm h
        | none =>
          rcases Option.map_eq_some_iff.mp hcur with ⟨node, hnode, rfl⟩
          exact found _ m (hclear node hnode) hm h
      · cases h

theorem fieldAccess_right {object : Expr} {field : String}
    (recursive : CalleeRight T J recurse clear)
    (answers : forall lookup depth e, answered lookup depth e ->
      (recurse lookup depth e).isSome = true)
    (hclear : ClearStep T J clear answered lookup depth (.fieldAccess object field))
    (h : T.resolveStep recurse lookup depth (.fieldAccess object field) = some r) :
    Right T J (.fieldAccess object field) r := by
  rcases hclear with ⟨hobject, segment, hpath⟩
  simp only [Typer.resolveStep] at h
  split at h
  · rename_i cur hcur
    exact resolveMemberSegment_right segment (recursive _ _ _ _ hobject hcur) h
  · rename_i hnone
    rcases hpath with hanswered | path
    · have hsome := answers _ _ _ hanswered
      rw [hnone] at hsome
      cases hsome
    · exact resolveScopedPath_right recursive path h

theorem plus_right {left right : Expr} (recursive : CalleeRight T J recurse clear)
    (hclear : ClearStep T J clear answered lookup depth (.binary .plus left right))
    (h : T.resolveStep recurse lookup depth (.binary .plus left right) = some r) :
    Right T J (.binary .plus left right) r := by
  rcases hclear with ⟨⟨hleft, hleftValue⟩, hright, hrightValue⟩
  simp only [Typer.resolveStep] at h
  split at h
  · rename_i hstring
    cases h
    rcases Bool.or_eq_true_iff.mp hstring with hstring | hstring
    · rcases string_value (fun r => recursive _ _ _ r hleft) hleftValue hstring
        with ⟨args, denotes⟩
      exact .concatLeft denotes
    · rcases string_value (fun r => recursive _ _ _ r hright) hrightValue hstring
        with ⟨args, denotes⟩
      exact .concatRight denotes
  · cases h

theorem creation_right {site type : Nat} (given : CallsGiven T J)
    (hclear : ClearStep T J clear answered lookup depth (.creation site type))
    (h : T.resolveStep recurse lookup depth (.creation site type) = some r) :
    Right T J (.creation site type) r := by
  have denotes : forall t, J.creationType site = .ref t ->
      J.Denotes T (.creation site type) (.value (.ref t)) := by
    intro t ht
    rw [← ht]
    exact .creation
  cases lookup with
  | unique =>
    simp only [Typer.resolveStep] at h
    split at h
    · rename_i result hresult
      exact right_of_typeRef
        (denotes result (given.creations site result hresult)) h
    · cases h
  | first =>
    rcases Option.map_eq_some_iff.mp h with ⟨ty, hty, rfl⟩
    exact denotes _ (hclear rfl ty hty)

theorem resolveStep_right (engine : EngineSound T J) (given : CallsGiven T J)
    (recursive : CalleeRight T J recurse clear)
    (answers : forall lookup depth e, answered lookup depth e ->
      (recurse lookup depth e).isSome = true)
    (hclear : ClearStep T J clear answered lookup depth e)
    (h : T.resolveStep recurse lookup depth e = some r) : Right T J e r := by
  cases e with
  | this position =>
    rcases Option.map_eq_some_iff.mp h with ⟨node, hnode, rfl⟩
    rcases hclear node hnode with ⟨hbody, hplain⟩
    exact this_right hbody hplain
  | super position =>
    simp only [Typer.resolveStep] at h
    split at h
    · cases h
    · rename_i node hnode
      split at h
      · cases h
      · rename_i first rest hnodes
        rcases Option.map_eq_some_iff.mp h with ⟨ty, hty, rfl⟩
        rcases hclear node first rest hnode hnodes with
          ⟨hbody, hsuperclass, htype⟩
        exact super_right hbody hsuperclass hnodes (htype ty hty)
  | name text position => exact resolveName_right recursive hclear h
  | boolean =>
    cases h
    exact .boolean
  | integer text =>
    have denotes : J.Denotes T (.integer text) _ := .integer
    simp only [Typer.resolveStep] at h
    split at h
    · rename_i hsuffix
      cases h
      rwa [if_pos hsuffix] at denotes
    · rename_i hsuffix
      cases h
      rwa [if_neg hsuffix] at denotes
  | floating text =>
    have denotes : J.Denotes T (.floating text) _ := .floating
    simp only [Typer.resolveStep] at h
    split at h
    · rename_i hsuffix
      cases h
      rwa [if_pos hsuffix] at denotes
    · rename_i hsuffix
      cases h
      rwa [if_neg hsuffix] at denotes
  | character =>
    cases h
    exact .character
  | string =>
    cases h
    exact .string
  | null =>
    cases h
    exact .null
  | parenthesized inner =>
    rcases (recursive _ _ _ _ hclear.1 h).value hclear.2 with
      ⟨hstatic, denotes⟩
    exact right_of_value hstatic (.parenthesized denotes)
  | cast type further =>
    rcases Option.map_eq_some_iff.mp h with ⟨ty, hty, rfl⟩
    rcases hclear ty hty with ⟨rfl, htype⟩
    rw [right_instance, htype]
    exact .cast
  | arrayAccess array =>
    simp only [Typer.resolveStep] at h
    split at h
    · rename_i element static harray
      have denotes := ((recursive _ _ _ _ hclear.1 harray).value hclear.2).2
      exact right_of_typeRef (.arrayAccess denotes) h
    · cases h
  | fieldAccess object field =>
    exact fieldAccess_right recursive answers hclear h
  | assignment left =>
    rcases (recursive _ _ _ _ hclear.1 h).value hclear.2 with
      ⟨hstatic, denotes⟩
    exact right_of_value hstatic (.assignment denotes)
  | ternary consequence alternative =>
    rcases hclear with ⟨⟨hc, hcValue⟩, ⟨ha, haValue⟩, hconditional⟩
    simp only [Typer.resolveStep] at h
    split at h
    · rename_i c a hcFound haFound
      exact ternary_right engine (recursive _ _ _ _ hc hcFound) hcValue
        (recursive _ _ _ _ ha haFound) haValue hconditional h
    · cases h
  | binary operator left right =>
    cases operator with
    | plus => exact plus_right recursive hclear h
    | comparison =>
      cases h
      exact .comparison
    | other => cases h
  | instanceOf =>
    cases h
    exact .instanceOf
  | unary bang =>
    cases bang with
    | true =>
      cases h
      exact .not
    | false => cases h
  | call site object method position =>
    exact resolveCall_right given recursive hclear h
  | creation site type => exact creation_right given hclear h
  | other => cases h

end Step

/-!
# The whole recursion
-/

theorem answered_isSome {nesting : Nat} {lookup : MethodLookup} {depth : Nat}
    {e : Expr} (h : Answered T nesting lookup depth e) :
    (T.resolveReceiver nesting lookup depth e).isSome = true := by
  induction nesting generalizing depth e with
  | zero => cases h
  | succ nesting ih =>
    rcases h with ⟨hdepth, h⟩
    rw [Typer.resolveReceiver, if_neg (Nat.not_lt.mpr hdepth)]
    cases e with
    | this position => simpa [Typer.resolveStep] using h
    | super position =>
      rcases h with ⟨node, first, rest, hnode, hnodes, hsome⟩
      simpa [Typer.resolveStep, hnode, hnodes] using hsome
    | name text position =>
      rcases h with ⟨hdepth, b, node, hbinding, hwritten, hsome⟩
      simpa [Typer.resolveStep, Typer.resolveName, Nat.not_lt.mpr hdepth,
        hbinding, hwritten] using hsome
    | cast type further => simpa [Typer.resolveStep] using h
    | call site object method position =>
      rcases h with ⟨rfl, t, hcall, hsome⟩
      simpa [Typer.resolveStep, Typer.resolveCall, hcall] using hsome
    | creation site type =>
      rcases h with ⟨rfl, t, hcreation, hsome⟩
      simpa [Typer.resolveStep, hcreation] using hsome
    | parenthesized inner => exact ih h
    | _ => cases h

theorem resolveReceiver_right (engine : EngineSound T J)
    (given : CallsGiven T J) {nesting : Nat} {lookup : MethodLookup}
    {depth : Nat} {e : Expr} {r : Resolved}
    (clear : Clear T J nesting lookup depth e)
    (h : T.resolveReceiver nesting lookup depth e = some r) : Right T J e r := by
  induction nesting generalizing lookup depth e r with
  | zero => cases h
  | succ nesting ih =>
    rw [Typer.resolveReceiver] at h
    split at h
    · cases h
    · rename_i hdepth
      exact resolveStep_right engine given (fun _ _ _ _ => ih)
        (fun _ _ _ => answered_isSome) (clear (Nat.le_of_not_lt hdepth)) h

/-!
# The answer for a value
-/

/-- Whatever type is answered is the static type. -/
def TypedSoundly (T : Typer) (J : Java) (e : Expr) : Prop :=
  forall ty, T.resolveExpressionType e = some ty ->
    J.Denotes T e (.value (.ref (T.typeRef ty)))

/-- Forms that are typed without a lookup of another expression or a name. -/
def Expr.isLeaf : Expr -> Bool
  | .this _ => true
  | .cast _ _ => true
  | .boolean => true
  | .integer _ => true
  | .floating _ => true
  | .character => true
  | .string => true
  | .null => true
  | .binary .comparison _ _ => true
  | .instanceOf => true
  | .unary _ => true
  | _ => false

theorem typed_of_clear (engine : EngineSound T J) (given : CallsGiven T J)
    {e : Expr} (clear : Clear T J Typer.maxNesting .unique 0 e) :
    TypedSoundly T J e := by
  intro ty h
  unfold Typer.resolveExpressionType at h
  split at h
  · rename_i r hr
    have right := resolveReceiver_right engine given clear hr
    rcases r with ⟨found, static⟩
    cases static with
    | true => cases h
    | false =>
      cases h
      exact right
  · cases h

theorem enclosingTypedecl_of_classBody {position : List Step} {node : Nat}
    (h : classBody position = some (.declaration node)) :
    enclosingTypedecl position = some node := by
  induction position with
  | nil => cases h
  | cons step outer ih =>
    rcases step with ⟨parent, role⟩
    simp only [classBody, List.findSome?_cons] at h
    split at h
    · rename_i body hbody
      cases h
      simp only [bodyOf] at hbody
      split at hbody <;> cases hbody
      rfl
    · rename_i hbody
      have houter := ih h
      simp only [bodyOf] at hbody
      split at hbody <;> try cases hbody
      simpa only [enclosingTypedecl, Scopes.enclosingTypes,
        List.filterMap_cons] using houter

theorem this_denotes {position : List Step} {d : Denotation}
    (h : J.Denotes T (.this position) d) :
    exists body, classBody position = some body ∧ d = .value (J.thisType T body) := by
  cases h with
  | this hbody => exact ⟨_, hbody, rfl⟩

theorem cast_denotes {type : Nat} {further : List Nat} {d : Denotation}
    (h : J.Denotes T (.cast type further) d) :
    (further = [] ∧ d = .value (.ref (J.typeNode type))) ∨
      exists types, d = .value (.intersection types) := by
  cases h with
  | cast => exact .inl ⟨rfl, rfl⟩
  | intersection => exact .inr ⟨_, rfl⟩

theorem clear_of_typed {e : Expr} (hleaf : e.isLeaf = true)
    (typed : TypedSoundly T J e) : Clear T J Typer.maxNesting .unique 0 e := by
  intro _
  cases e with
  | this position =>
    intro node hnode
    have hanswer : T.resolveExpressionType (.this position) =
        some (.inProject node []) := by
      simp [Typer.resolveExpressionType, Typer.maxNesting,
        Typer.resolveReceiver, Typer.resolveStep, hnode, Resolved.instance]
    rcases this_denotes (typed _ hanswer) with ⟨body, hbody, hdenotes⟩
    cases body with
    | anonymous site => cases hdenotes
    | declaration found =>
      have hsame := enclosingTypedecl_of_classBody hbody
      rw [hnode] at hsame
      cases hsame
      refine ⟨hbody, ?_⟩
      simpa [Java.thisType, Java.ownType, Typer.typeRef] using hdenotes.symm
  | cast type further =>
    intro r hr
    have hanswer : T.resolveExpressionType (.cast type further) = some r := by
      simp [Typer.resolveExpressionType, Typer.maxNesting,
        Typer.resolveReceiver, Typer.resolveStep, hr, Resolved.instance]
    rcases cast_denotes (typed r hanswer) with ⟨hone, hdenotes⟩ | ⟨types, hdenotes⟩
    · injection hdenotes with hvalue
      injection hvalue with htype
      exact ⟨hone, htype⟩
    · cases hdenotes
  | binary operator left right =>
    cases operator with
    | plus => cases hleaf
    | _ => trivial
  | _ => trivial

end Forms

namespace AnonymousBody

/-- `return this;` as the whole body of a method. -/
def returning : Scopes.Node :=
  .plain .returnStatement [.plain .other []]

def method : Scopes.Node :=
  .callable .method [] [] (some (.block .block [returning]))

/-- The ancestors of `this` in such a method, as far as the method. -/
def inMethod : List Step :=
  [⟨returning, .item 0⟩, ⟨.block .block [returning], .item 0⟩, ⟨method, .body⟩]

/-- `new Object() { Object me() { return this; } }` -/
def creation : Scopes.Node :=
  .creation 7 (.plain .argumentList []) (some (.plain .other [method]))

/-- `class A { int count; Object me() { return this; } Object self = ...; }` -/
def declaration : Scopes.Node :=
  .typeDeclaration 1 [] [method, .declarator ⟨"self", 11⟩ (some creation)]

/-- In the method of `A`. -/
def plain : List Step := inMethod ++ [⟨declaration, .item 0⟩]

def nested : List Step :=
  inMethod ++
    [⟨.plain .other [method], .item 0⟩, ⟨creation, .classBody⟩,
      ⟨.declarator ⟨"self", 11⟩ (some creation), .value⟩, ⟨declaration, .item 1⟩]

def count : Member where
  node := 10
  name := "count"
  kind := .field
  isStatic := false
  isPrivate := false
  isComponent := false
  signature := "int count"
  erased := none
  typeText := "int"
  isFinal := false
  marks := Marks.none

def workspace : Workspace :=
  { Workspace.closedOnly (fun _ => false) (fun _ => none) with
    decl := fun _ => { TypeDecl.plain "A" "A" [] with ownMembers := [count] }
    hasDocument := fun _ => true
    getNamed := fun binary => if binary = "A" then some 1 else none }

/-- The engine over an empty class table. -/
def assignable (actual expected : TypeRef) : Option Bool :=
  (assignableRefs ⟨[]⟩ 4 actual expected).join

def typer : Typer where
  workspace := workspace
  table := ⟨[]⟩
  memberFacts := fun _ => []
  context := ⟨[], fun _ => [⟨"count", 10⟩, ⟨"self", 11⟩], fun _ => none⟩
  typeId := fun node => if node = 1 then .named "A" else .localClass 0 node
  typeId_named := by
    intro binary node h
    simp only [workspace] at h
    split at h
    · rename_i hbinary
      cases h
      rw [hbinary]
      rfl
    · cases h
  typeId_local := by
    intro document declaration node h
    cases h
  declared := fun _ => ⟨none, false, 0, false, none, false⟩
  resolveTypeNode := fun _ => none
  superNodes := fun _ => []
  typeNamed := fun _ _ => none
  simpleToFqn := fun _ => none
  byNode := fun _ => none
  enclosingType := fun _ => none
  memberTypeNode := fun _ => some 0
  resolveInDocument := fun _ _ => some (.primitive .int)
  externalResult := fun _ _ => ⟨none, none, none⟩
  typeParams := fun _ => []
  renderIn := TypeRef.render
  resolveDisplayType := fun _ _ => none
  methodCall := fun _ => none
  constructorCall := fun _ => none
  lambdaParameter := fun _ => none
  assignable := assignable
  identifiers := fun _ => ["count"]
  start := fun _ => plain

theorem unboxed_boxed (t : TypeRef) : unboxed (boxed t) = unboxed t := by
  cases t with
  | primitive p => exact PrimitiveType.fromBoxFqn_boxFqn p
  | _ => rfl

/-- What the engine proves; each box is one class, whatever arguments stand after its name. -/
def Subtype (x y : TypeRef) : Prop :=
  (exists p, unboxed x = some p ∧ unboxed y = some p) ∨
    exists fuel, assignableRefs ⟨[]⟩ fuel x y = some (some true)

theorem boxed_of_unboxed {t : TypeRef} {p : PrimitiveType} (h : unboxed t = some p) :
    exists binary args, boxed t = .named (.named binary) args ∧
      PrimitiveType.fromBoxFqn binary = some p := by
  cases t with
  | primitive q =>
    cases h
    exact ⟨_, [], rfl, PrimitiveType.fromBoxFqn_boxFqn p⟩
  | named id args =>
    cases id with
    | named binary => exact ⟨binary, args, rfl, h⟩
    | localClass document declaration => cases h
  | _ => cases h

theorem boxes_unrelated {x y : TypeRef} {p q : PrimitiveType} (hx : unboxed x = some p)
    (hy : unboxed y = some q) (h : Subtype (boxed x) (boxed y)) : p = q := by
  rcases h with ⟨r, hxr, hyr⟩ | ⟨fuel, h⟩
  · rw [unboxed_boxed, hx] at hxr
    rw [unboxed_boxed, hy] at hyr
    exact Option.some.inj (hxr.trans hyr.symm)
  · rcases boxed_of_unboxed hx with ⟨first, argsx, hboxedx, hfirst⟩
    rcases boxed_of_unboxed hy with ⟨second, argsy, hboxedy, hsecond⟩
    rw [hboxedx, hboxedy] at h
    rcases assignableRefs_step h with ⟨ask, hstep⟩
    by_cases hsame : first = second
    · subst hsame
      exact Option.some.inj (hfirst.symm.trans hsecond)
    · have hobject : second ≠ "java.lang.Object" := by
        rintro rfl
        cases hsecond
      simp [assignableStep, isSubtype, hsame, hobject, ClassTable.classFacts,
        ClassTable.entry] at hstep

def java : Java where
  language :=
    { completes := fun _ => true
      breaksOut := fun _ => false
      fields := fun site =>
        if site = 1 then [⟨"count", 10⟩, ⟨"self", 11⟩] else []
      methods := fun _ => ["me"]
      components := fun _ => []
      components_fields := fun _ => List.nil_subset _
      staticImports := []
      staticImports_named := Scopes.named_of_no_imports }
  ownParameter := fun _ i => ⟨"A", i⟩
  typeNode := fun _ => TypeRef.objectRef
  implicitSuper := fun _ => TypeRef.objectRef
  anonymousSuper := fun _ => TypeRef.objectRef
  lambdaType := fun _ => none
  element := fun _ => none
  field := fun t name =>
    if t = TypeRef.ofName "A" ∧ name = "count" then some (.primitive .int)
    else none
  anonymousField := fun _ _ => none
  staticField := fun _ _ => none
  memberType := fun _ _ => none
  typeName := fun _ _ => none
  packageType := fun _ => none
  callType := fun _ => .ref TypeRef.objectRef
  creationType := fun site => .anonymous site
  constantFits := fun _ _ => false
  subtype := Subtype
  lub := fun x y z => Subtype x y ∧ z = y ∨ Subtype y x ∧ z = x
  lub_right := fun _ _ h => .inl ⟨h, rfl⟩
  lub_left := fun _ _ h => .inr ⟨h, rfl⟩
  boxes_unrelated := fun _ _ _ _ hx hy h => boxes_unrelated hx hy h

theorem subtype_boxed {p : PrimitiveType} {e : TypeRef} (hreference : e.isReference = true)
    (h : assignableRefs ⟨[]⟩ 4 (.primitive p) e = some (some true)) :
    Subtype (boxed (.primitive p)) e := by
  cases e with
  | named id args =>
    cases id with
    | localClass document declaration => cases h
    | named binary =>
      rw [assignableRefs, Foundation.OpenRecursion.run_succ] at h
      simp only [assignableStep, ClassTable.declaresInProject, ClassTable.entry,
        List.find?_nil, Option.map_none, Option.any_none, Bool.false_eq_true, if_false] at h
      cases hbox : PrimitiveType.fromBoxFqn binary with
      | none =>
        rw [hbox] at h
        exact .inr ⟨3, h⟩
      | some q =>
        rw [hbox] at h
        have hsame : p = q := by
          simp only [Option.some.injEq, boxAssignable] at h
          split at h
          · rename_i heq
            exact eq_of_beq heq
          · unfold constantNarrowing at h
            split at h <;> cases h
        subst hsame
        exact .inl ⟨p, PrimitiveType.fromBoxFqn_boxFqn p, hbox⟩
  | primitive q => cases hreference
  | _ => cases h

theorem engine_sound {T : Typer} {J : Java} (htable : T.table = ⟨[]⟩)
    (h : T.assignable = assignable) (hsubtype : J.subtype = Subtype) : EngineSound T J where
  answers := by
    intro a e htrue
    rw [h] at htrue
    rw [htable]
    exact ⟨4, Option.join_eq_some_iff.mp htrue⟩
  unboxes := by
    intro binary args p hbox
    rw [h]
    show (assignableRefs ⟨[]⟩ 4 (.named (.named binary) args) (.primitive p)).join =
      some true
    simp [assignableRefs, Foundation.OpenRecursion.run, assignableStep,
      unboxAssignable, hbox]
  proves := by
    intro a e htrue hreference
    rw [h] at htrue
    rw [hsubtype]
    have hproved := Option.join_eq_some_iff.mp htrue
    cases a with
    | primitive p => exact subtype_boxed hreference hproved
    | _ => exact .inr ⟨4, hproved⟩

theorem calls_given : CallsGiven typer java where
  methods := fun _ _ h => by cases h
  creations := fun _ _ h => by cases h

theorem result_int {m : HierMember} {cur : Resolved} {ty : ResolvedType}
    (h : typer.memberResultType .unique m cur = some ty) : ty = .primitive .int := by
  cases m with
  | external m => cases h
  | inProject m =>
    simp only [Typer.memberResultType] at h
    split at h <;> cases h
    · rfl
    · rfl

theorem segment_clear :
    SegmentClear typer java .unique (.this plain) "count" where
  external := by
    rintro ⟨ty, static⟩ fqn right h
    cases static with
    | false => cases h
    | true =>
      rcases this_denotes right with ⟨body, -, hbody⟩
      cases hbody
  inProject := by
    intro cur node right h
    rcases List.exists_of_findSome?_eq_some h with ⟨m, -, hm⟩
    split at hm
    · split at hm
      · split at hm <;> cases hm
      · cases hm
    · cases hm
  field := by
    rintro ⟨ty, static⟩ m result right hm hresult
    cases result_int hresult
    rcases this_denotes right with ⟨body, hbody, hdenotes⟩
    cases hbody
    cases static with
    | true => cases hdenotes
    | false =>
      have htype : typer.typeRef ty = TypeRef.ofName "A" := by
        injection hdenotes with hvalue
        injection hvalue
      show java.field (typer.typeRef ty) "count" = some (.primitive .int)
      rw [htype]
      rfl

/-- `flag ? this.count : 1L` -/
def size : Expr :=
  .ternary (.fieldAccess (.this plain) "count") (.integer "1L")

theorem count_type {c : TypeRef}
    (h : java.Denotes typer (.fieldAccess (.this plain) "count") (.value (.ref c))) :
    c = .primitive .int := by
  cases h with
  | @field _ _ t _ hobject hfield =>
    cases t with
    | ref t =>
      simp only [Java.fieldOf, java] at hfield
      split at hfield <;> cases hfield
      rfl
    | anonymous site => cases hfield
    | intersection types => cases hfield
  | staticField hobject hfield => cases hfield

theorem size_clear : Clear typer java Typer.maxNesting .unique 0 size := by
  refine fun _ => ⟨⟨fun _ => ⟨?_, segment_clear, .inl ⟨by decide, rfl⟩⟩, ?_⟩,
    ⟨fun _ => trivial, ?_⟩, ?_⟩
  · intro _ node hnode
    cases hnode
    exact ⟨rfl, rfl⟩
  · intro t h
    cases h with
    | memberType _ _ hmember => cases hmember
    | packageType hpackage => cases hpackage
  · intro t h
    cases h
  · intro c a hc ha
    rw [count_type hc]
    cases ha
    exact
      { unboxes := by
          intro p hp ha
          cases hp
          cases ha
        fitsAlternative := fun _ _ _ => rfl
        fitsConsequence := fun _ _ _ => rfl }

end AnonymousBody

end Expressions
end JavaVsixLite
