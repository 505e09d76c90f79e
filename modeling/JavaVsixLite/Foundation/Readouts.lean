import Mathlib.Data.List.Basic

/-!
# Values read through parameters

A value carries notes, and a reading at a parameter shows the value with each
note replaced by what it stands for there.  A value is legible when a reading
shows everything but the notes: one reading and the notes give the value back,
and so do all readings when they tell the notes apart.
-/

namespace JavaVsixLite
namespace Readouts

section Legible

variable {P L V A B C D : Type}

/-- The notes are taken from the front of a list, so that readings compose. -/
def Legible (allowed : P -> Prop) (value : P -> L -> V) (ok : A -> Prop) (read : P -> A -> B)
    (notes : A -> List L) : Prop :=
  forall p, allowed p -> forall a b, ok a -> ok b -> read p a = read p b ->
    (notes a).map (value p) = (notes b).map (value p) ∧
      forall r s, notes a ++ r = notes b ++ s -> a = b ∧ r = s

variable {allowed : P -> Prop} {value : P -> L -> V} {ok : A -> Prop} {read : P -> A -> B}
  {notes : A -> List L} {ok' : C -> Prop} {read' : P -> C -> D} {notes' : C -> List L}

/-!
# What a legible value gives
-/

theorem Legible.recovers (h : Legible allowed value ok read notes) {p : P} (hp : allowed p)
    {a b : A} (ha : ok a) (hb : ok b) (hread : read p a = read p b)
    (hnotes : notes a = notes b) : a = b := by
  have hsplit := (h p hp a b ha hb hread).2 [] []
  rw [hnotes] at hsplit
  exact (hsplit rfl).1

theorem list_eq_of_values {okNote : L -> Prop} (hp : exists p, allowed p)
    (hsep : forall l m, okNote l -> okNote m -> (forall p, allowed p -> value p l = value p m) ->
      l = m) :
    forall ls ms : List L, (forall l, l ∈ ls -> okNote l) -> (forall m, m ∈ ms -> okNote m) ->
      (forall p, allowed p -> ls.map (value p) = ms.map (value p)) -> ls = ms
  | [], [], _, _, _ => rfl
  | [], m :: ms, _, _, hmap => by
    rcases hp with ⟨p, hp⟩
    cases hmap p hp
  | l :: ls, [], _, _, hmap => by
    rcases hp with ⟨p, hp⟩
    cases hmap p hp
  | l :: ls, m :: ms, hls, hms, hmap => by
    have hhead : l = m := by
      apply hsep l m (hls l List.mem_cons_self) (hms m List.mem_cons_self)
      intro p hp
      exact (List.cons.inj (hmap p hp)).1
    have htail : ls = ms := by
      apply list_eq_of_values hp hsep ls ms
      · intro x hx
        exact hls x (List.mem_cons_of_mem l hx)
      · intro x hx
        exact hms x (List.mem_cons_of_mem m hx)
      · intro p hp
        exact (List.cons.inj (hmap p hp)).2
    rw [hhead, htail]

theorem Legible.separates {okNote : L -> Prop} (h : Legible allowed value ok read notes)
    (hp : exists p, allowed p)
    (hsep : forall l m, okNote l -> okNote m -> (forall p, allowed p -> value p l = value p m) ->
      l = m)
    (hok : forall a, ok a -> forall l, l ∈ notes a -> okNote l) {a b : A} (ha : ok a) (hb : ok b)
    (hread : forall p, allowed p -> read p a = read p b) : a = b := by
  have hnotes : notes a = notes b := by
    apply list_eq_of_values hp hsep (notes a) (notes b) (hok a ha) (hok b hb)
    intro p hp
    exact (h p hp a b ha hb (hread p hp)).1
  rcases hp with ⟨p, hp⟩
  exact h.recovers hp ha hb (hread p hp) hnotes

/-- Lists with the same image under each of two views that together determine an
element. -/
theorem list_eq_of_views (f : A -> B) (g : A -> C)
    (hviews : forall a b, f a = f b -> g a = g b -> a = b) :
    forall as bs : List A, as.map f = bs.map f -> as.map g = bs.map g -> as = bs
  | [], [], _, _ => rfl
  | [], b :: bs, hf, _ => by cases hf
  | a :: as, [], hf, _ => by cases hf
  | a :: as, b :: bs, hf, hg => by
    rcases List.cons.inj hf with ⟨hfhead, hftail⟩
    rcases List.cons.inj hg with ⟨hghead, hgtail⟩
    rw [hviews a b hfhead hghead, list_eq_of_views f g hviews as bs hftail hgtail]

/-!
# How readings compose
-/

theorem Legible.const : Legible allowed value (fun _ : A => True) (fun _ a => a) (fun _ => []) := by
  intro p _ a b _ _ hread
  constructor
  · rfl
  · intro r s hnotes
    exact ⟨hread, hnotes⟩

theorem Legible.prod (h : Legible allowed value ok read notes)
    (h' : Legible allowed value ok' read' notes') :
    Legible allowed value (fun x : A × C => ok x.1 ∧ ok' x.2)
      (fun p x => (read p x.1, read' p x.2)) (fun x => notes x.1 ++ notes' x.2) := by
  intro p hp x y hx hy hread
  rcases Prod.mk.inj hread with ⟨hfirst, hsecond⟩
  rcases h p hp x.1 y.1 hx.1 hy.1 hfirst with ⟨hvalues, hsplit⟩
  rcases h' p hp x.2 y.2 hx.2 hy.2 hsecond with ⟨hvalues', hsplit'⟩
  constructor
  · rw [List.map_append, List.map_append, hvalues, hvalues']
  · intro r s hnotes
    rw [List.append_assoc, List.append_assoc] at hnotes
    rcases hsplit _ _ hnotes with ⟨hleft, hrest⟩
    rcases hsplit' _ _ hrest with ⟨hright, hend⟩
    exact ⟨Prod.ext hleft hright, hend⟩

theorem Legible.list (h : Legible allowed value ok read notes) :
    Legible allowed value (fun as : List A => forall a, a ∈ as -> ok a)
      (fun p as => as.map (read p)) (fun as => as.flatMap notes) := by
  intro p hp as
  induction as with
  | nil =>
    intro bs _ _ hread
    cases bs with
    | nil => exact ⟨rfl, fun _ _ hnotes => ⟨rfl, hnotes⟩⟩
    | cons b bs => cases hread
  | cons a as ih =>
    intro bs hok hok' hread
    cases bs with
    | nil => cases hread
    | cons b bs =>
      rcases List.cons.inj hread with ⟨hhead, htail⟩
      rcases h p hp a b (hok a List.mem_cons_self) (hok' b List.mem_cons_self) hhead with
        ⟨hvalues, hsplit⟩
      rcases ih bs (fun x hx => hok x (List.mem_cons_of_mem a hx))
          (fun x hx => hok' x (List.mem_cons_of_mem b hx)) htail with
        ⟨hvalues', hsplit'⟩
      constructor
      · simp only [List.flatMap_cons, List.map_append, hvalues, hvalues']
      · intro r s hnotes
        simp only [List.flatMap_cons, List.append_assoc] at hnotes
        rcases hsplit _ _ hnotes with ⟨hab, hrest⟩
        rcases hsplit' _ _ hrest with ⟨habs, hend⟩
        exact ⟨by rw [hab, habs], hend⟩

theorem Legible.option (h : Legible allowed value ok read notes) :
    Legible allowed value (fun o : Option A => forall a, o = some a -> ok a)
      (fun p o => o.map (read p)) (fun o => o.elim [] notes) := by
  intro p hp x y hx hy hread
  cases x with
  | none =>
    cases y with
    | none => exact ⟨rfl, fun _ _ hnotes => ⟨rfl, hnotes⟩⟩
    | some b => cases hread
  | some a =>
    cases y with
    | none => cases hread
    | some b =>
      rcases h p hp a b (hx a rfl) (hy b rfl) (Option.some.inj hread) with
        ⟨hvalues, hsplit⟩
      constructor
      · exact hvalues
      · intro r s hnotes
        rcases hsplit r s hnotes with ⟨hab, hend⟩
        exact ⟨congrArg some hab, hend⟩

theorem Legible.comap (h : Legible allowed value ok' read' notes') (view : A -> C)
    (hview : forall a b, view a = view b -> a = b) (hok : forall a, ok a -> ok' (view a))
    (hread : forall p, allowed p -> forall a b, ok a -> ok b -> read p a = read p b ->
      read' p (view a) = read' p (view b)) :
    Legible allowed value ok read (fun a => notes' (view a)) := by
  intro p hp a b ha hb hab
  rcases h p hp (view a) (view b) (hok a ha) (hok b hb) (hread p hp a b ha hb hab) with
    ⟨hvalues, hsplit⟩
  constructor
  · exact hvalues
  · intro r s hnotes
    rcases hsplit r s hnotes with ⟨heq, hend⟩
    exact ⟨hview a b heq, hend⟩

end Legible

end Readouts
end JavaVsixLite
