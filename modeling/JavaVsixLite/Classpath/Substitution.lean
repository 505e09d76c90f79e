import JavaVsixLite.Classpath.Pom

/-!
# What substitution does

A substitution fills in placeholders, whatever the order of the properties and however many of
its passes are needed.
-/

namespace JavaVsixLite
namespace Classpath

open Foundation
open Foundation.Placeholders

def valueOf (props : Props) (name : Placeholders.Name) : Option Text :=
  props.lookup name

theorem HashOrder.mem_entries_iff (order : HashOrder) {path : Text} {props : Props}
    {entry : Placeholders.Name × Text} :
    entry ∈ order.entries path props <-> valueOf props entry.1 = some entry.2 := by
  rw [(order.perm path props).mem_iff, List.mem_map, valueOf, Table.lookup_eq_some_iff]
  constructor
  · rintro ⟨found, hfound, rfl⟩
    exact hfound
  · intro h
    exact ⟨_, h, rfl⟩

section Expansion

variable {props : Props} {entries : List (Placeholders.Name × Text)}

theorem foldl_pass_expands (h : forall entry, entry ∈ entries ->
    valueOf props entry.1 = some entry.2)
    (state : Text × Bool) :
    Expands (valueOf props) state.1 (entries.foldl substituteEntry state).1 := by
  induction entries generalizing state with
  | nil => exact .refl
  | cons entry rest ih =>
    have hrest := ih (fun e he => h e (List.mem_cons_of_mem _ he)) (substituteEntry state entry)
    refine Relation.ReflTransGen.trans ?_ hrest
    unfold substituteEntry
    split
    · exact expands_replace (h entry List.mem_cons_self) state.1
    · exact .refl

theorem substitutePasses_expands
    (h : forall entry, entry ∈ entries -> valueOf props entry.1 = some entry.2) (passes : Nat)
    (value : Text) : Expands (valueOf props) value (substitutePasses entries passes value) := by
  induction passes generalizing value with
  | zero => exact .refl
  | succ passes ih =>
    have hpass : Expands (valueOf props) value (substitutePass entries value).1 :=
      foldl_pass_expands h (value, false)
    rw [substitutePasses]
    split
    · exact hpass.trans (ih _)
    · exact hpass

theorem substitute_expands (order : HashOrder) (path : Text) (props : Props) (value : Text) :
    Expands (valueOf props) value (substitute (order.entries path props) value) :=
  substitutePasses_expands (fun _ h => order.mem_entries_iff.mp h) 5 value

/-!
# Two sets of properties
-/

def Unchanged (props props' : Props) (value : Text) : Prop :=
  forall name, Reaches (valueOf props) value name -> valueOf props' name = valueOf props name

theorem substitute_unchanged (order : HashOrder) {path path' : Text} {props props' : Props}
    {value : Text} (h : Unchanged props props' value)
    (hsettled : Settled (substitute (order.entries path props) value))
    (hsettled' : Settled (substitute (order.entries path' props') value)) :
    substitute (order.entries path props) value = substitute (order.entries path' props') value :=
  ((substitute_expands order path props value).congr h).settled_unique
    (substitute_expands order path' props' value) hsettled hsettled'

/-!
# A single reference
-/

theorem eq_of_placeholder_infix {name name' : Placeholders.Name}
    (h : placeholder name'.val <:+: placeholder name.val) : name' = name := by
  rcases h with ⟨before, after, heq⟩
  have happend : placeholder name.val ++ [] = before ++ (placeholder name'.val ++ after) := by
    rw [List.append_nil, ← heq, List.append_assoc]
  rcases same_or_after happend with ⟨_, hname, _⟩ | ⟨mid, _, hempty⟩
  · exact hname.symm
  · have hlength := congrArg List.length hempty
    simp [placeholder] at hlength

theorem Settled.not_placeholder_infix {text : Text} (h : Settled text) (name : Text) :
    ¬ placeholder name <:+: text := by
  intro hinside
  have hopening : opening <:+: placeholder name := ⟨[], name ++ ['}'], rfl⟩
  exact h (hopening.trans hinside)

theorem replace_placeholder (name val : Text) :
    replace (placeholder name) val (placeholder name) = val := by
  have h := replace_placeholder_append name val []
  rw [List.append_nil] at h
  rw [h]
  exact List.append_nil val

/-- The pass over the entries leaves the reference as it is until its own entry comes. -/
theorem foldl_pass_reference {name : Placeholders.Name} {val : Text} (hval : Settled val)
    (hentries : forall entry, entry ∈ entries -> entry.1 = name -> entry.2 = val)
    {state : Text × Bool}
    (hstate : state.1 = val ∨ state.1 = placeholder name.val ∧ (name, val) ∈ entries) :
    (entries.foldl substituteEntry state).1 = val := by
  induction entries generalizing state with
  | nil =>
    rcases hstate with hstate | ⟨_, hmem⟩
    · exact hstate
    · cases hmem
  | cons entry rest ih =>
    have hrest := fun e he => hentries e (List.mem_cons_of_mem _ he)
    rw [List.foldl_cons, substituteEntry]
    rcases hstate with hstate | ⟨hstate, hmem⟩
    · rw [if_neg (by rw [hstate]; exact Settled.not_placeholder_infix hval entry.1.val)]
      exact ih hrest (.inl hstate)
    · split
      · rename_i hinside
        rw [hstate] at hinside
        have hname := eq_of_placeholder_infix hinside
        refine ih hrest (.inl ?_)
        rw [hstate, hname, hentries entry List.mem_cons_self hname]
        exact replace_placeholder name.val val
      · rename_i hinside
        refine ih hrest (.inr ⟨hstate, ?_⟩)
        rcases List.mem_cons.mp hmem with rfl | hmem
        · exact absurd (hstate ▸ List.infix_refl _) hinside
        · exact hmem

theorem substitute_reference (order : HashOrder) (path : Text) {props : Props}
    {name : Placeholders.Name} {val : Text} (h : valueOf props name = some val)
    (hval : Settled val) :
    substitute (order.entries path props) (placeholder name.val) = val := by
  have hentries : forall entry, entry ∈ order.entries path props -> entry.1 = name ->
      entry.2 = val := by
    intro entry hentry hname
    have hvalue := order.mem_entries_iff.mp hentry
    rw [hname, h] at hvalue
    exact (Option.some.inj hvalue).symm
  have hpass : (substitutePass (order.entries path props) (placeholder name.val)).1 = val :=
    foldl_pass_reference hval hentries (.inr ⟨rfl, order.mem_entries_iff.mpr h⟩)
  show substitutePasses _ (4 + 1) _ = _
  rw [substitutePasses]
  show (if _ then substitutePasses _ 4 (substitutePass _ _).1 else (substitutePass _ _).1) = _
  rw [hpass]
  split
  · exact hval.expands_eq (substitutePasses_expands (fun _ he => order.mem_entries_iff.mp he) 4 val)
  · rfl

end Expansion

end Classpath
end JavaVsixLite
