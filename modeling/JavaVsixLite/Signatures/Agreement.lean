import JavaVsixLite.Signatures.JvmSignature

/-!
# The two parsers agree

The display parser and the structured parser fail on the same signatures, and leave
the same rest behind where they fail or succeed.  So the parameters that one of them
finds can be put beside those of the other.
-/

namespace JavaVsixLite
namespace Signatures

open Foundation
open Foundation.Parser (Agrees)

abbrev Alike {β γ : Type} (p : Parser β) (q : Parser γ) : Prop :=
  Agrees (fun _ _ => True) p q

/-!
# Types
-/

section Types

variable {render : Parser Text} {parse : Parser TypeRef}

theorem typeArg_alike (h : Alike render parse) :
    Alike (typeArg render) (typeArgStructured parse) := by
  apply Agrees.after
  intro b
  generalize Char.ofNat b.toNat = c
  split
  · exact Agrees.after _ (fun _ => .pure trivial)
  · exact Agrees.after _ (fun _ => h.bind (fun _ _ _ => .pure trivial))
  · exact Agrees.after _ (fun _ => h.bind (fun _ _ _ => .pure trivial))
  · exact h

theorem typeArgList_alike (h : Alike render parse) :
    Alike (maybeTypeArgList render) (typeArgsStructured parse) := by
  apply Agrees.after
  intro next
  by_cases hnext : next = some (ascii '<')
  · have hsome : ¬ (next != some (ascii '<')) = true := by simp [hnext]
    simp only [if_pos hnext, if_neg hsome]
    apply Agrees.after
    intro _
    apply ((typeArg_alike h).manyUntil (ascii '>')).bind
    intro args args' _
    exact Agrees.after _ (fun _ => .pure trivial)
  · have hsome : (next != some (ascii '<')) = true := by simp [hnext]
    simp only [if_neg hnext, if_pos hsome]
    exact .pure trivial

theorem classTypeParts_alike (h : Alike render parse) :
    Alike (classTypeParts render) (classTypeStructured parse) := by
  apply Agrees.after
  intro outer
  apply (typeArgList_alike h).bind
  intro args args' _
  refine Agrees.bind (R := fun _ _ => True) (Agrees.whileNext _ ?_ trivial) ?_
  · intro parts read _
    apply Agrees.after
    intro inner
    exact (typeArgList_alike h).bind (fun _ _ _ => .pure trivial)
  · intro parts read _
    exact Agrees.after _ (fun _ => .pure trivial)

theorem classType_alike (h : Alike render parse) :
    Alike (classType render) (classTypeStructured parse) := by
  apply (classTypeParts_alike h).pure_left (f := fun parts =>
    if parts.2.isEmpty then parts.1
    else parts.1 ++ '<' :: (List.intercalate ", ".toList parts.2 ++ ['>']))
  rintro ⟨name, args⟩
  by_cases hargs : args.isEmpty = true
  · simp only [if_pos hargs]
    rfl
  · simp only [if_neg hargs]
    rfl

theorem typeInner_alike (display : DisplayScope) (scope : Scope) (h : Alike render parse) :
    Alike (typeRenderInner display render) (typeParseInner scope parse) := by
  apply Agrees.after
  intro b
  generalize Char.ofNat b.toNat = c
  split
  · exact .pure trivial
  · exact .pure trivial
  · exact .pure trivial
  · exact .pure trivial
  · exact .pure trivial
  · exact .pure trivial
  · exact .pure trivial
  · exact .pure trivial
  · exact h.bind (fun _ _ _ => .pure trivial)
  · exact Agrees.after _ (fun _ => Agrees.after _ (fun _ => .pure trivial))
  · exact classType_alike h
  · exact .fail

end Types

theorem type_alike (display : DisplayScope) (scope : Scope) (levels : Nat) :
    Alike (typeRender display levels) (typeParse scope levels) := by
  induction levels with
  | zero => exact .fail
  | succ levels ih => exact typeInner_alike display scope ih

/-!
# Type parameters
-/

theorem bounds_alike {render : Parser Text} {parse : Parser TypeRef} (h : Alike render parse) :
    Alike (skipBounds render) (boundsStructured parse) := by
  apply Agrees.whileNext _ ?_ trivial
  intro _ bounds _
  apply Agrees.after
  intro next
  by_cases hend : endsBound next = true
  · simp only [if_pos hend]
    exact .pure trivial
  · simp only [if_neg hend]
    exact h.attempt.bind (fun _ _ _ => .pure trivial)

def Named (names : List Text) (params : NamedParams) : Prop :=
  names = params.map Prod.fst

theorem eq_map_of_named {names : Option (List Text)} {params : Option NamedParams}
    (h : Option.Rel Named names params) :
    names = params.map (fun params => params.map Prod.fst) := by
  cases h with
  | none => rfl
  | some h =>
    rw [h]
    rfl

theorem typeParamsFrom_agrees (display : DisplayScope) (scope : Scope) (levels : Nat)
    (owner : String) (left : Nat) {names : List Text} {params : NamedParams}
    (h : Named names params) :
    Agrees Named (typeParamsFrom (typeRender display levels) left names)
      (typeParamsStructuredFrom scope levels owner left params) := by
  induction left generalizing names params with
  | zero =>
    apply Agrees.after
    intro next
    by_cases hnext : next = none
    · simp only [if_pos hnext]
      exact .pure h
    · simp only [if_neg hnext]
      exact Agrees.after _ (fun _ => .pure h)
  | succ left ih =>
    apply Agrees.after
    intro next
    cases next with
    | none => exact .pure h
    | some c =>
      by_cases hclose : c = ascii '>'
      · simp only [if_pos hclose]
        exact Agrees.after _ (fun _ => .pure h)
      · simp only [if_neg hclose]
        apply Agrees.after
        intro name
        apply (bounds_alike (type_alike display (scope ++ [params]) levels)).bind
        intro _ bounds _
        apply ih
        unfold Named at h ⊢
        rw [h, List.map_append, List.map_cons, List.map_nil]

theorem typeParams_agrees (display : DisplayScope) (scope : Scope) (levels : Nat)
    (owner : String) :
    Agrees Named (typeParams (typeRender display levels))
      (typeParamsStructured scope levels owner) := by
  apply Agrees.after
  intro next
  by_cases hnext : (next != some (ascii '<')) = true
  · simp only [if_pos hnext]
    exact .pure rfl
  · simp only [if_neg hnext]
    apply Agrees.after
    intro _
    exact typeParamsFrom_agrees display scope levels owner maxEntries rfl

/-!
# Members
-/

theorem return_alike {render : Parser Text} {parse : Parser TypeRef} (h : Alike render parse) :
    Alike (returnRender render) (returnParse parse) := by
  apply Agrees.after
  intro b
  by_cases hvoid : b = ascii 'V'
  · simp only [if_pos hvoid]
    exact Agrees.after _ (fun _ => .pure trivial)
  · simp only [if_neg hvoid]
    exact h

/-- The two readings of a method have as many parameters. -/
def Aligned (display : List Text × Text × List Text)
    (structured : List TypeParameter × TypeRef × List TypeRef) : Prop :=
  display.1.length = structured.1.length ∧ display.2.2.length = structured.2.2.length

theorem method_agrees (classParams : List Text) (namedParams : NamedParams) (owner : String) :
    Agrees Aligned (methodTemplateParser classParams)
      (methodSignatureParser namedParams owner) := by
  apply (typeParams_agrees _ _ _ owner).bind
  intro names mparams hnames
  apply Agrees.after
  intro _
  apply ((type_alike _ _ maxSigDepth).manyUntil (ascii ')')).bind
  intro params params' hparams
  apply Agrees.after
  intro _
  apply (return_alike (type_alike _ _ maxSigDepth)).bind
  intro ret ret' _
  apply Agrees.pure
  constructor
  · show names.length = (mparams.map Prod.snd).length
    rw [hnames, List.length_map, List.length_map]
  · exact hparams.length_eq

/--
The parsers of type-parameter lists agree from every position and at every nesting
depth, and the two readings of a field and of a method exist together, with as many
parameters.
-/
theorem display_and_structured_agree :
    (forall (s : List UInt8) (pos depth : Nat) (display : DisplayScope) (scope : Scope)
        (owner : String),
      (typeParams (typeRender display (maxSigDepth - depth)) (s.drop pos)).2 =
          (typeParamsStructured scope (maxSigDepth - depth) owner (s.drop pos)).2 ∧
        (typeParams (typeRender display (maxSigDepth - depth)) (s.drop pos)).1 =
          (typeParamsStructured scope (maxSigDepth - depth) owner (s.drop pos)).1.map
            (fun params => params.map Prod.fst)) ∧
    (forall (sig : List UInt8) (classParams : List Text) (namedParams : NamedParams),
      (fieldTemplate sig classParams).isSome = (parseFieldSignature sig namedParams).isSome) ∧
    (forall (sig : List UInt8) (classParams : List Text) (namedParams : NamedParams)
        (owner : String),
      Option.Rel Aligned (methodTemplate sig classParams)
        (parseMethodSignature sig namedParams owner)) := by
  refine ⟨?_, ?_, ?_⟩
  · intro s pos depth display scope owner
    rcases typeParams_agrees display scope (maxSigDepth - depth) owner (s.drop pos) with
      ⟨hrest, hnames⟩
    exact ⟨hrest, eq_map_of_named hnames⟩
  · intro sig classParams namedParams
    exact (type_alike _ _ maxSigDepth).isSome_eq sig
  · intro sig classParams namedParams owner
    exact (method_agrees classParams namedParams owner sig).2

end Signatures
end JavaVsixLite
