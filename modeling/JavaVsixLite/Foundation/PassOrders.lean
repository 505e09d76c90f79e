import Mathlib.Data.List.Induction
import JavaVsixLite.Foundation.Chains

/-!
# Orders of the names in a pass

A pass that comes to each name before the names whose values refer to it is a round and no
more.  A pass in the opposite order leaves nothing.  Names that do not refer to themselves
along any chain can be put in both orders.
-/

namespace JavaVsixLite
namespace Foundation
namespace Placeholders

variable {entries : List (Name × Text)} {text : Text}

def TidyEntries (entries : List (Name × Text)) : Prop :=
  forall entry, entry ∈ entries -> Tidy entry.2

theorem valuesOf_mem {name : Name} {val : Text} (h : valuesOf entries name = some val) :
    (name, val) ∈ entries := by
  rcases Option.map_eq_some_iff.mp h with ⟨found, hfound, rfl⟩
  have hsame := List.find?_some hfound
  have hname : found.1 = name := eq_of_beq hsame
  rw [← hname]
  exact List.mem_of_find?_eq_some hfound

theorem valuesOf_append_singleton (entry : Name × Text) (name : Name) :
    valuesOf (entries ++ [entry]) name = (valuesOf entries name).or (only entry name) := by
  unfold only valuesOf
  rw [List.find?_append]
  cases entries.find? (fun entry => entry.1 == name) <;> rfl

theorem tidyValues_only {entry : Name × Text} (h : Tidy entry.2) : TidyValues (only entry) := by
  intro name val hvalue
  rw [only_eq_some_iff.mp hvalue] at h
  exact h

theorem tidyValues_valuesOf (h : TidyEntries entries) : TidyValues (valuesOf entries) :=
  fun _ _ hvalue => h _ (valuesOf_mem hvalue)

theorem fillAll_append_singleton (entry : Name × Text) :
    fillAll (entries ++ [entry]) text = fill (only entry) (fillAll entries text) := by
  unfold fillAll
  rw [List.foldl_append]
  rfl

theorem Tidy.fillAll (h : Tidy text) (hentries : TidyEntries entries) :
    Tidy (fillAll entries text) := by
  induction entries using List.reverseRecOn with
  | nil => exact h
  | append_singleton entries entry ih =>
    rw [fillAll_append_singleton]
    have hbefore := ih (fun e he => hentries e (List.mem_append_left _ he))
    exact hbefore.fill
      (tidyValues_only (hentries entry (List.mem_append_right _ List.mem_cons_self)))

def NoSelfReference (entries : List (Name × Text)) : Prop :=
  forall entry, entry ∈ entries -> ¬ placeholder entry.1.val <:+: entry.2

def LeavesFirst (entries : List (Name × Text)) : Prop :=
  entries.Pairwise (fun early late => ¬ placeholder late.1.val <:+: early.2)

def RootsFirst (entries : List (Name × Text)) : Prop :=
  entries.Pairwise (fun early late => ¬ placeholder early.1.val <:+: late.2)

theorem fillAll_of_leavesFirst (h : Tidy text) (hentries : TidyEntries entries)
    (hself : NoSelfReference entries) (horder : LeavesFirst entries) :
    fillAll entries text = fill (valuesOf entries) text := by
  induction entries using List.reverseRecOn with
  | nil =>
    have hnone : Complete (valuesOf []) text :=
      fun _ _ hvalue => absurd (valuesOf_mem hvalue) List.not_mem_nil
    exact hnone.fill_eq.symm
  | append_singleton entries entry ih =>
    have hpairs := List.pairwise_append.mp horder
    have hbefore := ih (fun e he => hentries e (List.mem_append_left _ he))
      (fun e he => hself e (List.mem_append_left _ he)) hpairs.1
    have hlast := hself entry (List.mem_append_right _ List.mem_cons_self)
    rw [fillAll_append_singleton, hbefore, funext (valuesOf_append_singleton entry)]
    have hvalues := tidyValues_valuesOf hentries
    rw [funext (valuesOf_append_singleton entry)] at hvalues
    -- Nothing before the entry, and not the entry either, brings in its placeholder.
    have hcomplete : Complete (only entry)
        (fill (fun name => (valuesOf entries name).or (only entry name)) text) := by
      intro name val hvalue hinside
      have hname := only_eq_some_iff.mp hvalue
      rcases h.infix_fill hvalues hinside with ⟨hnone, _⟩ | ⟨other, out, hother, _, hout⟩
      · rw [hvalue, Option.or_eq_none_iff] at hnone
        cases hnone.2
      · cases Option.or_eq_some_iff.mp hother with
        | inl hfirst =>
          have hpair := hpairs.2.2 _ (valuesOf_mem hfirst) entry List.mem_cons_self
          rw [hname] at hpair
          exact hpair hout
        | inr hsecond =>
          have hsame := only_eq_some_iff.mp hsecond.2
          rw [hname] at hlast hsame
          cases hsame
          exact hlast hout
    exact hcomplete.expands_eq
      (Fills.expands (fill_or_fills (valuesOf entries) (only entry) text))

theorem complete_of_rootsFirst (h : Tidy text) (hentries : TidyEntries entries)
    (hself : NoSelfReference entries) (horder : RootsFirst entries) :
    forall entry, entry ∈ entries -> ¬ placeholder entry.1.val <:+: fillAll entries text := by
  induction entries using List.reverseRecOn with
  | nil =>
    intro entry hentry
    cases hentry
  | append_singleton entries last ih =>
    intro entry hentry hinside
    have hpairs := List.pairwise_append.mp horder
    have hearlier : TidyEntries entries := fun e he => hentries e (List.mem_append_left _ he)
    have hbefore := ih hearlier (fun e he => hself e (List.mem_append_left _ he)) hpairs.1
    have hlast : last ∈ entries ++ [last] := List.mem_append_right _ List.mem_cons_self
    rw [fillAll_append_singleton] at hinside
    rcases (h.fillAll hearlier).infix_fill (tidyValues_only (hentries last hlast)) hinside with
      ⟨hnone, hin⟩ | ⟨other, val, hother, _, hval⟩
    · cases List.mem_append.mp hentry with
      | inl hold => exact hbefore entry hold hin
      | inr hnew =>
        rw [List.mem_singleton.mp hnew, only_eq_some_iff.mpr rfl] at hnone
        cases hnone
    · have hsame := only_eq_some_iff.mp hother
      cases List.mem_append.mp hentry with
      | inl hold =>
        have hpair := hpairs.2.2 entry hold last List.mem_cons_self
        rw [hsame] at hpair
        exact hpair hval
      | inr hnew =>
        have hown := hself last hlast
        rw [List.mem_singleton.mp hnew] at hval
        rw [hsame] at hown hval
        exact hown hval

/-!
# Putting names in order
-/

section Rank

open Classical in
/-- How many of the names are reached from this one along chains of references. -/
noncomputable def rank (value : Name -> Option Text) (entries : List (Name × Text))
    (name : Name) : Nat :=
  ((entries.map Prod.fst).toFinset.filter
    (fun other => Relation.TransGen (References value) name other)).card

variable {value : Name -> Option Text}

theorem rank_lt (hacyclic : Acyclic value) {name other : Name} (hmem : other ∈ entries.map Prod.fst)
    (h : References value name other) :
    rank value entries other < rank value entries name := by
  classical
  apply Finset.card_lt_card
  rw [Finset.ssubset_iff_of_subset]
  · refine ⟨other, ?_, ?_⟩
    · simp only [Finset.mem_filter, List.mem_toFinset]
      exact ⟨hmem, .single h⟩
    · simp only [Finset.mem_filter, List.mem_toFinset]
      intro hself
      exact hacyclic other hself.2
  · intro found hfound
    simp only [Finset.mem_filter, List.mem_toFinset] at hfound ⊢
    exact ⟨hfound.1, .head h hfound.2⟩

theorem acyclic_of_rank (rank : Name -> Nat)
    (h : forall name other, References value name other -> rank other < rank name) :
    Acyclic value := by
  intro name hcycle
  have hdown : forall other, Relation.TransGen (References value) name other ->
      rank other < rank name := by
    intro other hpath
    induction hpath with
    | single hstep => exact h _ _ hstep
    | tail _ hstep ih => exact (h _ _ hstep).trans ih
  exact Nat.lt_irrefl _ (hdown name hcycle)

theorem Acyclic.noSelfReference (hacyclic : Acyclic value)
    (h : forall entry, entry ∈ entries -> value entry.1 = some entry.2) :
    NoSelfReference entries :=
  fun entry hentry hinside => hacyclic entry.1 (.single ⟨entry.2, h entry hentry, hinside⟩)

def sortedBy (key : Name -> Nat) (entries : List (Name × Text)) : List (Name × Text) :=
  entries.insertionSort (fun first second => key first.1 ≤ key second.1)

theorem sortedBy_perm (key : Name -> Nat) (entries : List (Name × Text)) :
    (sortedBy key entries).Perm entries :=
  List.perm_insertionSort _ _

theorem sortedBy_pairwise (key : Name -> Nat) (entries : List (Name × Text)) :
    (sortedBy key entries).Pairwise (fun first second => key first.1 ≤ key second.1) := by
  have htotal : Std.Total (fun first second : Name × Text => key first.1 ≤ key second.1) :=
    ⟨fun _ _ => Nat.le_total _ _⟩
  have htrans : IsTrans (Name × Text) (fun first second => key first.1 ≤ key second.1) :=
    ⟨fun _ _ _ => Nat.le_trans⟩
  exact List.pairwise_insertionSort _ entries

/-- Names without cycles have an order in which each comes before those that refer to it. -/
theorem leavesFirst_sortedBy (hacyclic : Acyclic value)
    (h : forall entry, entry ∈ entries -> value entry.1 = some entry.2) :
    LeavesFirst (sortedBy (rank value entries) entries) := by
  have hmem : forall entry, entry ∈ sortedBy (rank value entries) entries -> entry ∈ entries :=
    fun _ hentry => (sortedBy_perm _ _).mem_iff.mp hentry
  apply (sortedBy_pairwise (rank value entries) entries).imp_of_mem
  intro early late hearly hlate hle hinside
  have hreference : References value early.1 late.1 :=
    ⟨early.2, h early (hmem early hearly), hinside⟩
  have hless := rank_lt hacyclic (List.mem_map_of_mem (f := Prod.fst) (hmem late hlate)) hreference
  exact Nat.not_lt.mpr hle hless

theorem rootsFirst_reverse_iff : RootsFirst entries.reverse <-> LeavesFirst entries :=
  List.pairwise_reverse

end Rank

end Placeholders
end Foundation
end JavaVsixLite
