import JavaVsixLite.Foundation.PassOrders
import JavaVsixLite.Classpath.Substitution

/-!
# The order of the properties in a substitution

The properties are iterated in the order of a hash map, which is another one in every run.
Five passes are made.  Where five rounds complete the text, the order does not matter.
-/

namespace JavaVsixLite
namespace Classpath

open Foundation
open Foundation.Placeholders

section Passes

variable {entries : List (Placeholders.Name × Text)}

theorem substituteEntry_fst (state : Text × Bool) (entry : Placeholders.Name × Text) :
    (substituteEntry state entry).1 = fill (only entry) state.1 := by
  unfold substituteEntry
  split
  · exact replace_eq_fill entry state.1
  · rename_i hinside
    have hcomplete : Complete (only entry) state.1 := by
      intro name val hvalue hname
      rw [only_eq_some_iff.mp hvalue] at hinside
      exact hinside hname
    exact hcomplete.fill_eq.symm

theorem foldl_substituteEntry_fst (state : Text × Bool) :
    (entries.foldl substituteEntry state).1 = fillAll entries state.1 := by
  induction entries generalizing state with
  | nil => rfl
  | cons entry rest ih =>
    rw [List.foldl_cons, ih, substituteEntry_fst]
    rfl

theorem substitutePass_fst (value : Text) :
    (substitutePass entries value).1 = fillAll entries value :=
  foldl_substituteEntry_fst (value, false)

theorem foldl_substituteEntry_snd {state : Text × Bool}
    (h : (entries.foldl substituteEntry state).2 = false) :
    state.2 = false ∧ forall entry, entry ∈ entries -> ¬ placeholder entry.1.val <:+: state.1 := by
  induction entries generalizing state with
  | nil =>
    constructor
    · exact h
    · intro entry hentry
      cases hentry
  | cons entry rest ih =>
    have hrest := ih h
    unfold substituteEntry at hrest
    split at hrest
    · cases hrest.1
    · rename_i hinside
      constructor
      · exact hrest.1
      · intro other hother
        cases List.mem_cons.mp hother with
        | inl hself =>
          rw [hself]
          exact hinside
        | inr hmore => exact hrest.2 other hmore

theorem substitutePass_unchanged {value : Text}
    (h : forall entry, entry ∈ entries -> ¬ placeholder entry.1.val <:+: value) :
    substitutePass entries value = (value, false) := by
  unfold substitutePass
  induction entries with
  | nil => rfl
  | cons entry rest ih =>
    rw [List.foldl_cons, substituteEntry, if_neg (h entry List.mem_cons_self)]
    exact ih (fun e he => h e (List.mem_cons_of_mem _ he))

theorem substitutePasses_unchanged {value : Text}
    (h : forall entry, entry ∈ entries -> ¬ placeholder entry.1.val <:+: value) (passes : Nat) :
    substitutePasses entries passes value = value := by
  cases passes with
  | zero => rfl
  | succ passes =>
    rw [substitutePasses, substitutePass_unchanged h]
    rfl

theorem substitutePasses_succ (passes : Nat) (value : Text) :
    substitutePasses entries (passes + 1) value =
      substitutePasses entries passes (fillAll entries value) := by
  show (if (substitutePass entries value).2 then
    substitutePasses entries passes (substitutePass entries value).1
    else (substitutePass entries value).1) = _
  cases hflag : (substitutePass entries value).2 with
  | true => rw [if_pos rfl, substitutePass_fst]
  | false =>
    have hnone := (foldl_substituteEntry_snd hflag).2
    have hsame : fillAll entries value = value := by
      rw [← substitutePass_fst, substitutePass_unchanged hnone]
    rw [if_neg Bool.false_ne_true, substitutePass_fst, hsame,
      substitutePasses_unchanged hnone]

variable {props : Props}

theorem rounds_expands_substitutePasses (hvalues : valuesOf entries = valueOf props)
    (h : forall entry, entry ∈ entries -> valueOf props entry.1 = some entry.2) (passes : Nat)
    (value : Text) :
    Expands (valueOf props) (rounds (valueOf props) passes value)
      (substitutePasses entries passes value) := by
  induction passes generalizing value with
  | zero => exact .refl
  | succ passes ih =>
    have hpass := fill_expands_fillAll h value
    rw [hvalues] at hpass
    rw [substitutePasses_succ]
    exact (rounds_mono passes hpass).trans (ih _)

end Passes

/-!
# Every order
-/

section Orders

variable {props : Props} {value : Text}

theorem HashOrder.valuesOf_entries (order : HashOrder) (path : Text) (props : Props) :
    valuesOf (order.entries path props) = valueOf props := by
  funext name
  cases hvalue : valueOf props name with
  | some val =>
    have hentry : (name, val) ∈ order.entries path props := order.mem_entries_iff.mpr hvalue
    cases hfound : valuesOf (order.entries path props) name with
    | some val' =>
      have hsame := order.mem_entries_iff.mp (valuesOf_mem hfound)
      exact hsame.symm.trans hvalue
    | none =>
      unfold valuesOf at hfound
      rw [Option.map_eq_none_iff, List.find?_eq_none] at hfound
      exact absurd (beq_self_eq_true name) (hfound _ hentry)
  | none =>
    cases hfound : valuesOf (order.entries path props) name with
    | some val' =>
      have hsome := order.mem_entries_iff.mp (valuesOf_mem hfound)
      exact hsome.symm.trans hvalue
    | none => rfl

theorem substitute_eq_rounds (order : HashOrder) (path : Text)
    (h : Complete (valueOf props) (rounds (valueOf props) 5 value)) :
    substitute (order.entries path props) value = rounds (valueOf props) 5 value :=
  h.expands_eq (rounds_expands_substitutePasses (order.valuesOf_entries path props)
    (fun _ hentry => order.mem_entries_iff.mp hentry) 5 value)

def OrderFree (props : Props) (value : Text) : Prop :=
  forall (first second : HashOrder) (path path' : Text),
    substitute (first.entries path props) value = substitute (second.entries path' props) value

theorem orderFree_of_complete (h : Complete (valueOf props) (rounds (valueOf props) 5 value)) :
    OrderFree props value := by
  intro first second path path'
  rw [substitute_eq_rounds first path h, substitute_eq_rounds second path' h]

noncomputable def leavesFirst : HashOrder where
  entries := fun _ props =>
    sortedBy (rank (valueOf props) (props.entries.map (fun entry => (entry.1, entry.2))))
      (props.entries.map (fun entry => (entry.1, entry.2)))
  perm := fun _ _ => sortedBy_perm _ _

noncomputable def rootsFirst : HashOrder where
  entries := fun path props => (leavesFirst.entries path props).reverse
  perm := fun path props => (List.reverse_perm _).trans (leavesFirst.perm path props)

theorem leavesFirst_entries (hacyclic : Acyclic (valueOf props)) (path : Text) :
    LeavesFirst (leavesFirst.entries path props) := by
  apply leavesFirst_sortedBy hacyclic
  intro entry hentry
  have hmem : entry ∈ tableOrder.entries path props := hentry
  exact tableOrder.mem_entries_iff.mp hmem

theorem substitutePasses_leavesFirst {entries : List (Placeholders.Name × Text)}
    (hvalues : valuesOf entries = valueOf props) (hentries : TidyEntries entries)
    (hself : NoSelfReference entries) (horder : LeavesFirst entries) (htidy : Tidy value)
    (passes : Nat) :
    substitutePasses entries passes value = rounds (valueOf props) passes value := by
  induction passes generalizing value with
  | zero => rfl
  | succ passes ih =>
    rw [substitutePasses_succ, fillAll_of_leavesFirst htidy hentries hself horder, hvalues,
      rounds]
    have hvalueOf : TidyValues (valueOf props) := by
      rw [← hvalues]
      exact tidyValues_valuesOf hentries
    exact ih (htidy.fill hvalueOf)

theorem substitute_eq_expand (order : HashOrder) (path : Text)
    (h : Complete (valueOf props) (expand (valueOf props) 5 value)) :
    substitute (order.entries path props) value = expand (valueOf props) 5 value := by
  have hrounds := rounds_eq_expand h
  rw [← hrounds] at h ⊢
  exact substitute_eq_rounds order path h

theorem complete_of_orderFree (hacyclic : Acyclic (valueOf props)) (htidy : Tidy value)
    (hvalues : TidyValues (valueOf props)) (h : OrderFree props value) :
    Complete (valueOf props) (rounds (valueOf props) 5 value) := by
  have hmem : forall (order : HashOrder) entry, entry ∈ order.entries [] props ->
      valueOf props entry.1 = some entry.2 :=
    fun order _ hentry => order.mem_entries_iff.mp hentry
  have hentries : forall order : HashOrder, TidyEntries (order.entries [] props) :=
    fun order entry hentry => hvalues entry.1 entry.2 (hmem order entry hentry)
  have hself : forall order : HashOrder, NoSelfReference (order.entries [] props) :=
    fun order => hacyclic.noSelfReference (hmem order)
  have horder := leavesFirst_entries hacyclic []
  have hrounds := substitutePasses_leavesFirst (leavesFirst.valuesOf_entries [] props)
    (hentries leavesFirst) (hself leavesFirst) horder htidy 5
  have hnone := complete_of_rootsFirst htidy (hentries rootsFirst) (hself rootsFirst)
    (rootsFirst_reverse_iff.mpr horder)
  have hroots : substitutePasses (rootsFirst.entries [] props) 5 value =
      fillAll (rootsFirst.entries [] props) value := by
    rw [substitutePasses_succ]
    exact substitutePasses_unchanged hnone 4
  intro name val hvalue hinside
  have hentry : (name, val) ∈ rootsFirst.entries [] props :=
    rootsFirst.mem_entries_iff.mpr hvalue
  have hsame : substitutePasses (leavesFirst.entries [] props) 5 value =
      substitutePasses (rootsFirst.entries [] props) 5 value := h leavesFirst rootsFirst [] []
  apply hnone _ hentry
  rw [← hroots, ← hsame, hrounds]
  exact hinside

/-- The order of the properties does not matter where five rounds complete the text.  On texts
whose marks all belong to placeholders it matters everywhere else: there five rounds are enough
when no chain of references is longer. -/
theorem substitute_order_free_iff (hacyclic : Acyclic (valueOf props)) (value : Text) :
    (Complete (valueOf props) (rounds (valueOf props) 5 value) -> OrderFree props value) ∧
      (Tidy value -> TidyValues (valueOf props) ->
        (OrderFree props value <-> ChainsWithin (valueOf props) 5 value)) := by
  constructor
  · exact orderFree_of_complete
  · intro htidy hvalues
    rw [← htidy.complete_rounds_iff hvalues]
    exact ⟨complete_of_orderFree hacyclic htidy hvalues, orderFree_of_complete⟩

/-- With chains of at most five references, a substitution makes the recursive expansion and
leaves nothing wherever that expansion leaves nothing: at least where all marks belong to
placeholders. -/
theorem substitute_expansion_iff
    (hchains : forall text, ChainsWithin (valueOf props) 5 text) {depth : Nat} (hdepth : 5 ≤ depth)
    (value : Text) (order : HashOrder) (path : Text) :
    ((substitute (order.entries path props) value = expand (valueOf props) depth value ∧
        Complete (valueOf props) (substitute (order.entries path props) value)) <->
      Complete (valueOf props) (expand (valueOf props) depth value)) ∧
    (Tidy value -> TidyValues (valueOf props) ->
      Complete (valueOf props) (expand (valueOf props) depth value)) := by
  have hsame : expand (valueOf props) depth value = expand (valueOf props) 5 value := by
    have hadd := expand_add (hchains value) (depth - 5)
    rwa [Nat.add_sub_cancel' hdepth] at hadd
  rw [hsame]
  constructor
  · constructor
    · intro hresult
      rw [← hresult.1]
      exact hresult.2
    · intro hcomplete
      have hresult := substitute_eq_expand order path hcomplete
      constructor
      · exact hresult
      · rw [hresult]
        exact hcomplete
  · intro htidy hvalues
    exact htidy.complete_expand hvalues (hchains value)

end Orders

namespace Chain

/-- A name of one letter, and the reference to it. -/
def named (letter : String) : Placeholders.Name := xmlName letter

def reference (letter : String) : Text := placeholder (named letter).val

def chained : Props :=
  [⟨named "a", reference "b"⟩, ⟨named "b", reference "c"⟩, ⟨named "c", reference "d"⟩,
    ⟨named "d", reference "e"⟩, ⟨named "e", reference "f"⟩, ⟨named "f", ['1']⟩].toAList

def backwards : HashOrder where
  entries := fun path props => (tableOrder.entries path props).reverse
  perm := fun path props => (List.reverse_perm _).trans (tableOrder.perm path props)

variable {name : Placeholders.Name}

theorem mem_tableOrder {props : Props} {val : Text} (h : valueOf props name = some val) :
    (name, val) ∈ tableOrder.entries [] props :=
  tableOrder.mem_entries_iff.mpr h

/-- The rows of the chain, and what the two orders make of its longest reference. -/
theorem chained_values :
    tableOrder.entries [] chained =
        [(named "a", reference "b"), (named "b", reference "c"), (named "c", reference "d"),
          (named "d", reference "e"), (named "e", reference "f"), (named "f", ['1'])] ∧
      rounds (valueOf chained) 5 (reference "b") = ['1'] ∧
      substitute (tableOrder.entries [] chained) (reference "a") = ['1'] ∧
      substitute (backwards.entries [] chained) (reference "a") = reference "f" := by
  decide +kernel

theorem chained_cases {val : Text} (h : valueOf chained name = some val) :
    (name, val) = (named "a", reference "b") ∨ (name, val) = (named "b", reference "c") ∨
      (name, val) = (named "c", reference "d") ∨ (name, val) = (named "d", reference "e") ∨
      (name, val) = (named "e", reference "f") ∨ (name, val) = (named "f", ['1']) := by
  have hmem := mem_tableOrder h
  rw [chained_values.1] at hmem
  simpa only [List.mem_cons, List.not_mem_nil, or_false] using hmem

theorem eq_of_reference {letter : String} (h : placeholder name.val <:+: reference letter) :
    name = named letter :=
  eq_of_placeholder_infix h

theorem not_infix_literal : ¬ placeholder name.val <:+: ['1'] := by
  intro h
  exact absurd h.length_le (by simp [placeholder])

theorem chained_acyclic : Acyclic (valueOf chained) := by
  apply acyclic_of_rank (fun name => 200 - (name.val.headD 'a').toNat)
  intro name other hreference
  rcases hreference with ⟨val, hvalue, hinside⟩
  rcases chained_cases hvalue with h | h | h | h | h | h
  all_goals
    cases h
    first
      | exact absurd hinside not_infix_literal
      | rw [eq_of_reference hinside]
        decide

theorem tidy_reference (letter : String) : Tidy (reference letter) := by
  have htidy := Tidy.ref (named letter) .nil
  rwa [List.append_nil] at htidy

theorem chained_tidyValues : TidyValues (valueOf chained) := by
  intro name val hvalue
  rcases chained_cases hvalue with h | h | h | h | h | h
  all_goals
    cases h
    first
      | exact .char rfl .nil
      | exact tidy_reference _

/-- Five references resolve in every order. -/
theorem five_references_order_free :
    OrderFree chained (reference "b") ∧ ChainsWithin (valueOf chained) 5 (reference "b") := by
  have hrounds := chained_values.2.1
  have hcomplete : Complete (valueOf chained) (rounds (valueOf chained) 5 (reference "b")) := by
    rw [hrounds]
    exact fun _ _ _ => not_infix_literal
  have horder := (substitute_order_free_iff chained_acyclic (reference "b")).1 hcomplete
  exact ⟨horder, ((substitute_order_free_iff chained_acyclic (reference "b")).2
    (tidy_reference "b") chained_tidyValues).mp horder⟩

/-- Six references resolve in one order and not in the other. -/
theorem six_references_depend_on_order :
    Acyclic (valueOf chained) ∧
      substitute (tableOrder.entries [] chained) (reference "a") = ['1'] ∧
      substitute (backwards.entries [] chained) (reference "a") = reference "f" := by
  exact ⟨chained_acyclic, chained_values.2.2⟩

end Chain

namespace Seam

open Chain

def braced (letter : String) : Text := '{' :: ((named letter).val ++ ['}'])

/-- No property refers to another one, but each completes a reference behind a `$`. -/
def seams : Props :=
  [⟨named "a", braced "b"⟩, ⟨named "b", braced "c"⟩, ⟨named "c", braced "d"⟩,
    ⟨named "d", braced "e"⟩, ⟨named "e", braced "f"⟩, ⟨named "f", ['1']⟩].toAList

/-- No value holds a `$`, and the backward order leaves one reference in a text. -/
theorem seams_values :
    (forall entry, entry ∈ tableOrder.entries [] seams -> '$' ∉ entry.2) ∧
      substitute (backwards.entries [] seams) ("$$$$$".toList ++ reference "a") = reference "f" ∧
      valueOf seams (named "f") = some ['1'] := by
  decide +kernel

theorem seams_no_reference {name : Placeholders.Name} {val : Text}
    (h : valueOf seams name = some val) : '$' ∉ val :=
  seams_values.1 _ (mem_tableOrder h)

theorem seams_chainsWithin (text : Text) : ChainsWithin (valueOf seams) 5 text := by
  apply chainsWithin_of_rank (fun _ => 0)
  · intro _ _ _
    exact Nat.succ_pos 4
  · intro name other hreference
    rcases hreference with ⟨val, hvalue, hinside⟩
    exact absurd (hinside.subset List.mem_cons_self) (seams_no_reference hvalue)

/-- References that come together behind a `$` are left, however short the chains. -/
theorem seam_reference_left :
    (forall text, ChainsWithin (valueOf seams) 5 text) ∧
      substitute (backwards.entries [] seams) ("$$$$$".toList ++ reference "a") = reference "f" ∧
      valueOf seams (named "f") = some ['1'] ∧
      ¬ Complete (valueOf seams)
        (substitute (backwards.entries [] seams) ("$$$$$".toList ++ reference "a")) := by
  rcases seams_values with ⟨_, hresult, hvalue⟩
  refine ⟨seams_chainsWithin, hresult, hvalue, ?_⟩
  rw [hresult]
  intro hcomplete
  exact hcomplete (named "f") ['1'] hvalue (List.infix_refl _)

def short : Props :=
  [⟨named "e", reference "f"⟩, ⟨named "f", ['1']⟩].toAList

theorem short_cases {name : Placeholders.Name} {val : Text} (h : valueOf short name = some val) :
    (name, val) = (named "e", reference "f") ∨ (name, val) = (named "f", ['1']) := by
  have hmem := mem_tableOrder h
  have hentries : tableOrder.entries [] short =
      [(named "e", reference "f"), (named "f", ['1'])] := by
    decide +kernel
  rw [hentries] at hmem
  simpa only [List.mem_cons, List.not_mem_nil, or_false] using hmem

theorem short_chainsWithin (text : Text) : ChainsWithin (valueOf short) 5 text := by
  apply chainsWithin_of_rank (fun name => if name = named "e" then 1 else 0)
  · intro name val _
    show (if name = named "e" then 1 else 0) < 5
    split
    · exact Nat.succ_lt_succ (Nat.succ_pos 3)
    · exact Nat.succ_pos 4
  · intro name other hreference
    rcases hreference with ⟨val, hvalue, hinside⟩
    cases short_cases hvalue with
    | inl h =>
      cases h
      rw [eq_of_reference hinside]
      decide
    | inr h =>
      cases h
      exact absurd hinside not_infix_literal

/-- A reference in a tidy text is expanded. -/
theorem short_expanded :
    substitute (backwards.entries [] short) ('x' :: reference "e") =
      expand (valueOf short) 7 ('x' :: reference "e") := by
  have hvalues : TidyValues (valueOf short) := by
    intro name val hvalue
    cases short_cases hvalue with
    | inl h =>
      cases h
      exact tidy_reference "f"
    | inr h =>
      cases h
      exact .char rfl .nil
  have hexpansion := substitute_expansion_iff short_chainsWithin (Nat.le_add_right 5 2)
    ('x' :: reference "e") backwards []
  exact (hexpansion.1.mpr (hexpansion.2 (.char rfl (tidy_reference "e")) hvalues)).1

end Seam

end Classpath
end JavaVsixLite
