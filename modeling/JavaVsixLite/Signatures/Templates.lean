import Mathlib.Algebra.Order.BigOperators.Group.List
import JavaVsixLite.Foundation.Decimals
import JavaVsixLite.Foundation.Placeholders
import JavaVsixLite.Signatures.JvmSignature

/-!
# Templates for display

The display parser writes `{i}` for a type parameter of the class, and the type arguments
are put in place of these marks one after the other.  The structured parser has type
variables, which are substituted in the tree before it is rendered.  Both texts have the
same outline: the punctuation of a type around its leaves.
-/

namespace JavaVsixLite
namespace Signatures

open Foundation
open Foundation.Placeholders (replace)

/-!
# Filling in a template
-/

/-- The mark of the type parameter `i`. -/
def mark (i : Nat) : Text :=
  '{' :: (decimal i ++ ['}'])

/-- What is put in for a mark: the argument, the name of the type parameter, or else a
question mark. -/
def filling (args typeParams : List Text) (i : Nat) : Text :=
  (args[i]?.or typeParams[i]?).getD ['?']

def substituteTemplate (template : Text) (args typeParams : List Text) : Text :=
  (List.range (max typeParams.length args.length)).foldl
    (fun out i => replace (mark i) (filling args typeParams i) out) template

/-!
# Outlines
-/

inductive Leaf where
  | className (id : TypeId)
  | typeVariable (v : TypeVariableId)
  | unknown
deriving DecidableEq

def wildcardText : Option Text -> Option Text -> Text
  | some upper, _ => "? extends ".toList ++ upper
  | none, some lower => "? super ".toList ++ lower
  | none, none => ['?']

theorem wildcardText_upper (upper : Text) (lower : Option Text) :
    wildcardText (some upper) lower = "? extends ".toList ++ upper := rfl

theorem wildcardText_lower (lower : Text) :
    wildcardText none (some lower) = "? super ".toList ++ lower := rfl

mutual
@[grind =] def outline (text : Leaf -> Text) : TypeRef -> Text
  | .primitive p => p.name.toList
  | .void => "void".toList
  | .null => "null".toList
  | .named id args => text (.className id) ++ outlineArgs text args
  | .array element => outline text element ++ "[]".toList
  | .wildcard upper lower => wildcardText (outlineBound text upper) (outlineBound text lower)
  | .typeVariable v => text (.typeVariable v)
  | .unknown => text .unknown

@[grind =] def outlineArgs (text : Leaf -> Text) : List TypeRef -> Text
  | [] => []
  | arg :: rest => ['<'] ++ (outline text arg ++ (outlineRest text rest ++ ['>']))

@[grind =] def outlineRest (text : Leaf -> Text) : List TypeRef -> Text
  | [] => []
  | arg :: rest => ", ".toList ++ (outline text arg ++ outlineRest text rest)

@[grind =] def outlineBound (text : Leaf -> Text) : Option TypeRef -> Option Text
  | none => none
  | some bound => some (outline text bound)
end

mutual
@[grind =] def leaves : TypeRef -> List Leaf
  | .named id args => .className id :: leavesAll args
  | .array element => leaves element
  | .wildcard upper lower => ((leavesBound upper).or (leavesBound lower)).getD []
  | .typeVariable v => [.typeVariable v]
  | .unknown => [.unknown]
  | .primitive _ => []
  | .void => []
  | .null => []

@[grind =] def leavesAll : List TypeRef -> List Leaf
  | [] => []
  | arg :: rest => leaves arg ++ leavesAll rest

@[grind =] def leavesBound : Option TypeRef -> Option (List Leaf)
  | none => none
  | some bound => some (leaves bound)
end

/-- A leaf as `render_type_ref` shows it. -/
def Leaf.render : Leaf -> Text
  | .className id => (TypeRef.renderId id).toList
  | _ => ['?']

def Leaf.template : Leaf -> Text
  | .className id => (TypeRef.renderId id).toList
  | .typeVariable v => mark v.index
  | .unknown => ['?']

section Congruence

variable {text text' : Leaf -> Text}

theorem outlineRest_congr {ts : List TypeRef}
    (ih : forall t, t ∈ ts -> (forall leaf, leaf ∈ leaves t -> text leaf = text' leaf) ->
      outline text t = outline text' t)
    (h : forall leaf, leaf ∈ leavesAll ts -> text leaf = text' leaf) :
    outlineRest text ts = outlineRest text' ts := by
  induction ts with
  | nil => rfl
  | cons arg rest ihrest =>
    have harg := ih arg List.mem_cons_self (fun leaf hleaf =>
      h leaf (List.mem_append_left _ hleaf))
    have hrest := ihrest (fun t ht => ih t (List.mem_cons_of_mem arg ht)) (fun leaf hleaf =>
      h leaf (List.mem_append_right _ hleaf))
    rw [outlineRest, outlineRest, harg, hrest]

theorem outline_congr {t : TypeRef}
    (h : forall leaf, leaf ∈ leaves t -> text leaf = text' leaf) :
    outline text t = outline text' t := by
  induction t using TypeRef.induct with
  | named id args ih =>
    have hid := h (.className id) List.mem_cons_self
    have hargs : forall leaf, leaf ∈ leavesAll args -> text leaf = text' leaf :=
      fun leaf hleaf => h leaf (List.mem_cons_of_mem _ hleaf)
    rw [outline, outline, hid]
    cases args with
    | nil => rfl
    | cons arg rest =>
      have harg := ih arg List.mem_cons_self (fun leaf hleaf =>
        hargs leaf (List.mem_append_left _ hleaf))
      have hrest := outlineRest_congr (fun t ht => ih t (List.mem_cons_of_mem arg ht))
        (fun leaf hleaf => hargs leaf (List.mem_append_right _ hleaf))
      rw [outlineArgs, outlineArgs, harg, hrest]
  | array element ih =>
    rw [outline, outline, ih h]
  | wildcard upper lower ihu ihl =>
    cases upper with
    | some bound =>
      have hbound := ihu bound (Option.mem_some_self bound) h
      simp only [outline, outlineBound, wildcardText_upper, hbound]
    | none =>
      cases lower with
      | some bound =>
        have hbound := ihl bound (Option.mem_some_self bound) h
        simp only [outline, outlineBound, wildcardText_lower, hbound]
      | none => rfl
  | typeVariable v => exact h (.typeVariable v) List.mem_cons_self
  | unknown => exact h .unknown List.mem_cons_self
  | primitive p => rfl
  | void => rfl
  | null => rfl

end Congruence

attribute [grind =] TypeRef.render TypeRef.renderRest TypeRef.substitute TypeRef.substituteArgs
  TypeRef.substituteBound

theorem renderRest_eq_outline {ts : List TypeRef}
    (h : forall t, t ∈ ts -> t.render.toList = outline Leaf.render t) :
    (TypeRef.renderRest ts).toList = outlineRest Leaf.render ts := by
  induction ts with
  | nil => rfl
  | cons arg rest ih =>
    have hrest := ih (fun t ht => h t (List.mem_cons_of_mem arg ht))
    rw [TypeRef.renderRest, outlineRest, ← h arg List.mem_cons_self, ← hrest]
    simp

theorem render_eq_outline (t : TypeRef) : t.render.toList = outline Leaf.render t := by
  induction t using TypeRef.induct with
  | named id args ih =>
    cases args with
    | nil =>
      rw [TypeRef.render, outline, outlineArgs, List.append_nil]
      rfl
    | cons arg rest =>
      have hrest := renderRest_eq_outline (fun t ht => ih t (List.mem_cons_of_mem arg ht))
      rw [TypeRef.render, outline, outlineArgs, ← ih arg List.mem_cons_self, ← hrest]
      simp [Leaf.render]
  | array element ih =>
    rw [TypeRef.render, outline, ← ih, String.toList_append]
  | wildcard upper lower ihu ihl =>
    cases upper with
    | some bound =>
      rw [TypeRef.render, outline, outlineBound, ← ihu bound (Option.mem_some_self bound),
        String.toList_append]
      rfl
    | none =>
      cases lower with
      | some bound =>
        rw [TypeRef.render, outline, outlineBound, outlineBound,
          ← ihl bound (Option.mem_some_self bound),
          String.toList_append]
        rfl
      | none => rfl
  | typeVariable v => simp [TypeRef.render, outline, Leaf.render]
  | unknown => rfl
  | primitive p => rfl
  | void => rfl
  | null => rfl

def Leaf.substituted (env : TypeEnv) : Leaf -> Text
  | .typeVariable v => ((TypeRef.typeVariable v).substitute env).render.toList
  | leaf => leaf.render

theorem outlineRest_substitute {env : TypeEnv} {ts : List TypeRef}
    (h : forall t, t ∈ ts ->
      outline Leaf.render (t.substitute env) = outline (Leaf.substituted env) t) :
    outlineRest Leaf.render (ts.map (TypeRef.substitute env)) =
      outlineRest (Leaf.substituted env) ts := by
  induction ts with
  | nil => rfl
  | cons arg rest ih =>
    have hrest := ih (fun t ht => h t (List.mem_cons_of_mem arg ht))
    rw [List.map_cons, outlineRest, outlineRest, h arg List.mem_cons_self, hrest]

theorem outline_substitute (env : TypeEnv) (t : TypeRef) :
    outline Leaf.render (t.substitute env) = outline (Leaf.substituted env) t := by
  induction t using TypeRef.induct with
  | named id args ih =>
    rw [TypeRef.substitute, TypeRef.substituteArgs_eq, outline, outline]
    cases args with
    | nil => rfl
    | cons arg rest =>
      have hrest := outlineRest_substitute (fun t ht => ih t (List.mem_cons_of_mem arg ht))
      rw [List.map_cons, outlineArgs, outlineArgs, ih arg List.mem_cons_self, hrest]
      rfl
  | array element ih =>
    rw [TypeRef.substitute, outline, outline, ih]
  | wildcard upper lower ihu ihl =>
    rw [TypeRef.substitute]
    cases upper with
    | some bound =>
      simp only [TypeRef.substituteBound, outline, outlineBound, wildcardText_upper,
        ihu bound (Option.mem_some_self bound)]
    | none =>
      cases lower with
      | some bound =>
        simp only [TypeRef.substituteBound, outline, outlineBound, wildcardText_lower,
          ihl bound (Option.mem_some_self bound)]
      | none => rfl
  | typeVariable v =>
    rw [← render_eq_outline]
    rfl
  | unknown => rfl
  | primitive p => rfl
  | void => rfl
  | null => rfl

theorem render_substitute (env : TypeEnv) (t : TypeRef) :
    (t.substitute env).render.toList = outline (Leaf.substituted env) t := by
  rw [render_eq_outline, outline_substitute]

/-!
# Replacing marks in an outline
-/

theorem mark_ne_nil (i : Nat) : mark i ≠ [] :=
  List.cons_ne_nil _ _

theorem notMem_mark {c : Char} (hopen : c ≠ '{') (hclose : c ≠ '}') (hdigit : c.isDigit = false)
    (i : Nat) : c ∉ mark i := by
  unfold mark
  rw [List.mem_cons, List.mem_append, List.mem_singleton]
  rintro (rfl | hdigits | rfl)
  · exact hopen rfl
  · rw [isDigit_of_mem_decimal hdigits] at hdigit
    cases hdigit
  · exact hclose rfl

def Punctuation (sep : Text) : Prop :=
  forall c, c ∈ sep -> c ≠ '{' ∧ c ≠ '}' ∧ c.isDigit = false

instance (sep : Text) : Decidable (Punctuation sep) :=
  List.decidableBAll _ sep

theorem Punctuation.notMem_mark {sep : Text} (h : Punctuation sep) (i : Nat) :
    forall c, c ∈ sep -> c ∉ mark i := by
  intro c hc
  rcases h c hc with ⟨hopen, hclose, hdigit⟩
  exact Signatures.notMem_mark hopen hclose hdigit i

theorem Punctuation.replace {sep : Text} (h : Punctuation sep) (i : Nat) (val : Text) :
    replace (mark i) val sep = sep := by
  have hall := Placeholders.replace_sep_append (mark_ne_nil i) val (h.notMem_mark i) []
  rwa [List.append_nil, Placeholders.replace_nil, List.append_nil] at hall

theorem punctuation_primitive (p : PrimitiveType) : Punctuation p.name.toList := by
  cases p <;> decide

section Replacing

variable (i : Nat) (val : Text)

theorem replace_outlineRest {text : Leaf -> Text} {ts : List TypeRef}
    (h : forall t, t ∈ ts -> replace (mark i) val (outline text t) =
      outline (fun leaf => replace (mark i) val (text leaf)) t) (before : Text) :
    replace (mark i) val (before ++ (outlineRest text ts ++ ['>'])) =
      replace (mark i) val before ++
        (outlineRest (fun leaf => replace (mark i) val (text leaf)) ts ++ ['>']) := by
  induction ts generalizing before with
  | nil =>
    have hclose : Punctuation ['>'] := by decide
    have hparts := Placeholders.replace_append_sep_append (mark_ne_nil i) val
      (List.cons_ne_nil _ _) (hclose.notMem_mark i) before []
    exact hparts
  | cons arg rest ih =>
    have hsep : Punctuation ", ".toList := by decide
    have hrest := ih (fun t ht => h t (List.mem_cons_of_mem arg ht)) (outline text arg)
    rw [outlineRest, outlineRest, List.append_assoc, List.append_assoc, List.append_assoc,
      List.append_assoc, Placeholders.replace_append_sep_append (mark_ne_nil i) val (by decide)
        (hsep.notMem_mark i), hrest, h arg List.mem_cons_self]

theorem replace_outline (text : Leaf -> Text) (t : TypeRef) :
    replace (mark i) val (outline text t) =
      outline (fun leaf => replace (mark i) val (text leaf)) t := by
  induction t using TypeRef.induct with
  | named id args ih =>
    cases args with
    | nil =>
      rw [outline, outline, outlineArgs, outlineArgs, List.append_nil, List.append_nil]
    | cons arg rest =>
      have hopen : Punctuation ['<'] := by decide
      have hrest := replace_outlineRest i val
        (fun t ht => ih t (List.mem_cons_of_mem arg ht)) (outline text arg)
      rw [outline, outline, outlineArgs, outlineArgs,
        Placeholders.replace_append_sep_append (mark_ne_nil i) val (List.cons_ne_nil _ _)
          (hopen.notMem_mark i), hrest, ih arg List.mem_cons_self]
  | array element ih =>
    have hsep : Punctuation "[]".toList := by decide
    have hparts := Placeholders.replace_append_sep_append (mark_ne_nil i) val (by decide)
      (hsep.notMem_mark i) (outline text element) []
    rw [List.append_nil, Placeholders.replace_nil, List.append_nil] at hparts
    rw [outline, outline, hparts, ih]
  | wildcard upper lower ihu ihl =>
    cases upper with
    | some bound =>
      have hsep : Punctuation "? extends ".toList := by decide
      rw [outline, outline, outlineBound, outlineBound, wildcardText_upper,
        wildcardText_upper, Placeholders.replace_sep_append (mark_ne_nil i) val
          (hsep.notMem_mark i),
        ihu bound (Option.mem_some_self bound)]
    | none =>
      cases lower with
      | some bound =>
        have hsep : Punctuation "? super ".toList := by decide
        rw [outline, outline, outlineBound, outlineBound, outlineBound, outlineBound,
          wildcardText_lower, wildcardText_lower,
          Placeholders.replace_sep_append (mark_ne_nil i) val (hsep.notMem_mark i),
          ihl bound (Option.mem_some_self bound)]
      | none =>
        have hsep : Punctuation ['?'] := by decide
        exact hsep.replace i val
  | typeVariable v => rfl
  | unknown => rfl
  | primitive p => exact (punctuation_primitive p).replace i val
  | void =>
    have hsep : Punctuation "void".toList := by decide
    exact hsep.replace i val
  | null =>
    have hsep : Punctuation "null".toList := by decide
    exact hsep.replace i val

end Replacing

theorem substituteTemplate_outline (args typeParams : List Text) (text : Leaf -> Text)
    (t : TypeRef) :
    substituteTemplate (outline text t) args typeParams =
      outline (fun leaf => substituteTemplate (text leaf) args typeParams) t := by
  unfold substituteTemplate
  induction List.range (max typeParams.length args.length) generalizing text with
  | nil => rfl
  | cons i rest ih => rw [List.foldl_cons, replace_outline, ih]; rfl

end Signatures
end JavaVsixLite
