import Mathlib.Data.List.Basic
import Mathlib.Data.List.Infix
import Mathlib.Data.List.Nodup
import Mathlib.Data.List.Perm.Subperm

/-!
# Depth-first search with a stack

The successors of a vertex are pushed in order, so the last one is taken first.  A route
is the list of positions that are taken on it.  Of all routes without a repeated vertex
to the vertices that are looked for, the search arrives on the one that comes before all
the others.
-/

namespace JavaVsixLite
namespace Foundation

namespace DepthFirst

variable {α : Type} {next : α -> List α}

/-!
# Routes
-/

/-- The positions taken, the vertices passed before the end, and the end. -/
inductive Route (next : α -> List α) : α -> List Nat -> List α -> α -> Prop where
  | here (t : α) : Route next t [] [] t
  | step {t u v : α} {i : Nat} {p : List Nat} {ts : List α} (h : (next t)[i]? = some u)
      (rest : Route next u p ts v) : Route next t (i :: p) (t :: ts) v

def SimpleRoute (next : α -> List α) (t : α) (p : List Nat) (v : α) : Prop :=
  exists ts, Route next t p ts v ∧ (ts ++ [v]).Nodup

/-- The first route ends where the second goes on, or it takes the later position where
the two part. -/
def Precedes : List Nat -> List Nat -> Prop
  | _, [] => False
  | [], _ :: _ => True
  | i :: p, j :: q => j < i ∨ (i = j ∧ Precedes p q)

def Branches : List Nat -> List Nat -> Prop
  | _, [] => False
  | [], _ :: _ => False
  | i :: p, j :: q => j < i ∨ (i = j ∧ Branches p q)

namespace Route

variable {t v : α} {p : List Nat} {ts : List α}

theorem length_eq (h : Route next t p ts v) : ts.length = p.length := by
  induction h with
  | here t => rfl
  | step h rest ih => rw [List.length_cons, List.length_cons, ih]

theorem functional {v' : α} {ts' : List α} (h : Route next t p ts v) (h' : Route next t p ts' v') :
    ts = ts' ∧ v = v' := by
  induction h generalizing ts' with
  | here t =>
    cases h'
    exact ⟨rfl, rfl⟩
  | step hstep rest ih =>
    cases h' with
    | step hstep' rest' =>
      rw [hstep] at hstep'
      cases hstep'
      rcases ih rest' with ⟨hts, hv⟩
      exact ⟨by rw [hts], hv⟩

theorem append {u : α} {q : List Nat} {us : List α} (h : Route next t p ts u)
    (h' : Route next u q us v) : Route next t (p ++ q) (ts ++ us) v := by
  induction h with
  | here t => exact h'
  | step hstep rest ih => exact .step hstep (ih h')

theorem snoc {u : α} {i : Nat} (h : Route next t p ts u) (hstep : (next u)[i]? = some v) :
    Route next t (p ++ [i]) (ts ++ [u]) v :=
  h.append (.step hstep (.here v))

theorem of_append {q : List Nat} (h : Route next t (p ++ q) ts v) :
    exists u us vs, Route next t p us u ∧ Route next u q vs v ∧ ts = us ++ vs := by
  induction p generalizing t ts with
  | nil => exact ⟨t, [], ts, .here t, h, rfl⟩
  | cons i p ih =>
    cases h with
    | step hstep rest =>
      rcases ih rest with ⟨u, us, vs, hfirst, hlast, rfl⟩
      exact ⟨u, _ :: us, vs, .step hstep hfirst, hlast, rfl⟩

theorem crossing {S : List α} (h : Route next t p ts v) (ht : t ∈ S) (hv : v ∉ S) :
    exists u c, u ∈ ts ∧ c ∈ next u ∧ u ∈ S ∧ c ∉ S := by
  induction h with
  | here t => exact absurd ht hv
  | @step t u v i p ts hstep rest ih =>
    by_cases hu : u ∈ S
    · rcases ih hu hv with ⟨w, c, hw, hc, hwS, hcS⟩
      exact ⟨w, c, List.mem_cons_of_mem _ hw, hc, hwS, hcS⟩
    · exact ⟨t, u, List.mem_cons_self, List.mem_of_getElem? hstep, ht, hu⟩

end Route

theorem SimpleRoute.length_lt {S : List α} (hS : forall t, t ∈ S -> forall u, u ∈ next t -> u ∈ S)
    {t v : α} {p : List Nat} (h : SimpleRoute next t p v) (ht : t ∈ S) :
    p.length < S.length := by
  rcases h with ⟨ts, hroute, hnodup⟩
  have hinside : ts ++ [v] ⊆ S := by
    clear hnodup
    induction hroute with
    | here t =>
      intro u hu
      rw [List.mem_singleton.mp hu]
      exact ht
    | @step t u v i p ts hstep rest ih =>
      intro w hw
      rcases List.mem_cons.mp hw with rfl | hw
      · exact ht
      · exact ih (hS _ ht u (List.mem_of_getElem? hstep)) hw
  have hle := (hnodup.subperm hinside).length_le
  rw [List.length_append, hroute.length_eq, List.length_singleton] at hle
  omega

/-!
# The order of routes
-/

theorem Precedes.asymm {p q : List Nat} (h : Precedes p q) : ¬ Precedes q p := by
  induction p generalizing q with
  | nil =>
    cases q with
    | nil => exact h.elim
    | cons j q => exact id
  | cons i p ih =>
    cases q with
    | nil => exact h.elim
    | cons j q =>
      unfold Precedes at h ⊢
      rintro (hlt | ⟨rfl, hback⟩)
      · rcases h with h | ⟨h, _⟩ <;> omega
      · rcases h with h | ⟨_, h⟩
        · omega
        · exact ih h hback

theorem precedes_of_extends {p q : List Nat} (h : p <+: q) (hne : p ≠ q) : Precedes p q := by
  induction p generalizing q with
  | nil =>
    cases q with
    | nil => exact absurd rfl hne
    | cons j q => trivial
  | cons i p ih =>
    cases q with
    | nil => exact absurd (List.prefix_nil.mp h) (List.cons_ne_nil i p)
    | cons j q =>
      rcases List.cons_prefix_cons.mp h with ⟨rfl, hrest⟩
      exact .inr ⟨rfl, ih hrest (fun heq => hne (by rw [heq]))⟩

namespace Branches

variable {p q : List Nat}

theorem precedes (h : Branches p q) : Precedes p q := by
  induction p generalizing q with
  | nil => cases q <;> exact h.elim
  | cons i p ih =>
    cases q with
    | nil => exact h.elim
    | cons j q =>
      rcases h with h | ⟨rfl, h⟩
      · exact .inl h
      · exact .inr ⟨rfl, ih h⟩

theorem append (h : Branches p q) (r s : List Nat) : Branches (p ++ r) (q ++ s) := by
  induction p generalizing q with
  | nil => cases q <;> exact h.elim
  | cons i p ih =>
    cases q with
    | nil => exact h.elim
    | cons j q =>
      rcases h with h | ⟨rfl, h⟩
      · exact .inl h
      · exact .inr ⟨rfl, ih h⟩

theorem of_later {i j : Nat} (p : List Nat) (h : j < i) : Branches (p ++ [i]) (p ++ [j]) := by
  induction p with
  | nil => exact .inl h
  | cons k p ih => exact .inr ⟨rfl, ih⟩

theorem of_extends {q' : List Nat} (h : Branches p q) (hq : q <+: q') : Branches p q' := by
  rcases hq with ⟨s, rfl⟩
  have happ := h.append [] s
  rw [List.append_nil] at happ
  exact happ

end Branches

/-!
# The stack
-/

/-- A vertex on the stack, with the route on which it was found. -/
structure Pending (α : Type) where
  passed : List α
  positions : List Nat
  vertex : α

namespace Pending

def start (root : α) : Pending α where
  passed := []
  positions := []
  vertex := root

def child (e : Pending α) (entry : α × Nat) : Pending α where
  passed := e.passed ++ [e.vertex]
  positions := e.positions ++ [entry.2]
  vertex := entry.1

def children (next : α -> List α) (e : Pending α) : List (Pending α) :=
  ((next e.vertex).zipIdx.map e.child).reverse

theorem mem_children {e x : Pending α} :
    x ∈ e.children next <-> exists c i, (next e.vertex)[i]? = some c ∧ x = e.child (c, i) := by
  unfold children
  rw [List.mem_reverse, List.mem_map]
  constructor
  · rintro ⟨⟨c, i⟩, hentry, rfl⟩
    exact ⟨c, i, List.mem_zipIdx_iff_getElem?.mp hentry, rfl⟩
  · rintro ⟨c, i, hentry, rfl⟩
    exact ⟨(c, i), List.mem_zipIdx_iff_getElem?.mpr hentry, rfl⟩

theorem pairwise_children (e : Pending α) :
    (e.children next).Pairwise (fun x y => Branches x.positions y.positions) := by
  unfold children
  rw [List.pairwise_reverse, List.pairwise_map]
  have hsorted : (next e.vertex).zipIdx.Pairwise (fun a b => a.2 < b.2) := by
    have hrange := List.pairwise_lt_range' (s := 0) (n := (next e.vertex).length)
    rw [← List.zipIdx_map_snd 0 (next e.vertex), List.pairwise_map] at hrange
    exact hrange
  exact hsorted.imp (fun h => Branches.of_later e.positions h)

theorem map_vertex_children (e : Pending α) :
    (e.children next).map Pending.vertex = (next e.vertex).reverse := by
  unfold children
  rw [List.map_reverse, List.map_map]
  congr 1
  exact List.zipIdx_map_fst 0 (next e.vertex)

def entry (e : Pending α) : α × Nat :=
  (e.vertex, e.passed.length)

theorem map_entry_children (e : Pending α) :
    (e.children next).map entry =
      (next e.vertex).reverse.map (fun c => (c, e.passed.length + 1)) := by
  rw [← map_vertex_children, List.map_map]
  apply List.map_congr_left
  intro x hx
  rcases mem_children.mp hx with ⟨c, i, _, rfl⟩
  unfold entry child
  rw [List.length_append]
  rfl

end Pending

/-- Between two rounds: nothing that is looked for has been visited, every simple route to
it goes through the stack, and the stack is ordered like the routes. -/
structure Frontier (next : α -> List α) (root : α) (P : α -> Prop) (visited : List α)
    (stack : List (Pending α)) : Prop where
  routes : forall e, e ∈ stack -> Route next root e.positions e.passed e.vertex
  simple : forall e, e ∈ stack -> e.passed.Nodup
  passed : forall e, e ∈ stack -> forall u, u ∈ e.passed -> u ∈ visited
  nested : stack.Pairwise (fun e e' => e'.passed <+: e.passed)
  ordered : stack.Pairwise (fun e e' => Branches e.positions e'.positions)
  covers : forall p v, SimpleRoute next root p v -> P v ->
    exists e, e ∈ stack ∧ e.positions <+: p
  closed : forall u, u ∈ visited -> forall c, c ∈ next u ->
    c ∈ visited ∨ exists e, e ∈ stack ∧ e.vertex = c ∧ u ∈ e.passed
  unmet : forall u, u ∈ visited -> ¬ P u

namespace Frontier

variable {root : α} {P : α -> Prop} {visited : List α} {e : Pending α} {stack : List (Pending α)}

theorem initial (next : α -> List α) (root : α) (P : α -> Prop) :
    Frontier next root P [] [Pending.start root] where
  routes := by
    intro e he
    rw [List.mem_singleton.mp he]
    exact .here root
  simple := by
    intro e he
    rw [List.mem_singleton.mp he]
    exact List.nodup_nil
  passed := by
    intro e he u hu
    rw [List.mem_singleton.mp he] at hu
    cases hu
  nested := List.pairwise_singleton _ _
  ordered := List.pairwise_singleton _ _
  covers := fun p _ _ _ => ⟨_, List.mem_singleton.mpr rfl, List.nil_prefix⟩
  closed := fun _ hu => absurd hu List.not_mem_nil
  unmet := fun _ hu => absurd hu List.not_mem_nil

theorem top_simple (h : Frontier next root P visited (e :: stack)) (hnew : e.vertex ∉ visited) :
    SimpleRoute next root e.positions e.vertex := by
  refine ⟨e.passed, h.routes e List.mem_cons_self, ?_⟩
  rw [List.nodup_append]
  refine ⟨h.simple e List.mem_cons_self, List.nodup_singleton _, ?_⟩
  intro u hu v hv huv
  rw [huv, List.mem_singleton.mp hv] at hu
  exact hnew (h.passed e List.mem_cons_self _ hu)

/-- A vertex that was visited before is dropped.  No simple route is lost: from the visited
vertices it could go on only through a vertex that it has passed already. -/
theorem skip (h : Frontier next root P visited (e :: stack)) (hold : e.vertex ∈ visited) :
    Frontier next root P visited stack where
  routes := fun x hx => h.routes x (List.mem_cons_of_mem _ hx)
  simple := fun x hx => h.simple x (List.mem_cons_of_mem _ hx)
  passed := fun x hx => h.passed x (List.mem_cons_of_mem _ hx)
  nested := (List.pairwise_cons.mp h.nested).2
  ordered := (List.pairwise_cons.mp h.ordered).2
  covers := by
    intro p v hroute hv
    rcases h.covers p v hroute hv with ⟨x, hx, hprefix⟩
    rcases List.mem_cons.mp hx with rfl | hx
    · rcases hprefix with ⟨r, rfl⟩
      rcases hroute with ⟨ts, hts, hnodup⟩
      rcases hts.of_append with ⟨u, us, vs, hfirst, hlast, rfl⟩
      rcases (h.routes x List.mem_cons_self).functional hfirst with ⟨hus, hu⟩
      rw [← hu] at hlast
      rcases hlast.crossing hold (fun hvisited => h.unmet v hvisited hv) with
        ⟨w, c, hw, hc, hwVisited, hcNew⟩
      have hpassed : w ∈ x.passed := by
        rcases h.closed w hwVisited c hc with hcVisited | ⟨y, hy, _, hwy⟩
        · exact absurd hcVisited hcNew
        · rcases List.mem_cons.mp hy with rfl | hy
          · exact hwy
          · exact ((List.pairwise_cons.mp h.nested).1 y hy).subset hwy
      rw [hus] at hpassed
      rw [List.append_assoc, List.nodup_append] at hnodup
      exact absurd rfl (hnodup.2.2 w hpassed w (List.mem_append_left _ hw))
    · exact ⟨x, hx, hprefix⟩
  closed := by
    intro u hu c hc
    rcases h.closed u hu c hc with hvisited | ⟨x, hx, hvertex, hpassed⟩
    · exact .inl hvisited
    · rcases List.mem_cons.mp hx with rfl | hx
      · exact .inl (hvertex ▸ hold)
      · exact .inr ⟨x, hx, hvertex, hpassed⟩
  unmet := h.unmet

theorem visit (h : Frontier next root P visited (e :: stack)) (hnew : e.vertex ∉ visited)
    (hmiss : ¬ P e.vertex) :
    Frontier next root P (e.vertex :: visited) (e.children next ++ stack) where
  routes := by
    intro x hx
    rcases List.mem_append.mp hx with hchild | hx
    · rcases Pending.mem_children.mp hchild with ⟨c, i, hstep, rfl⟩
      exact (h.routes e List.mem_cons_self).snoc hstep
    · exact h.routes x (List.mem_cons_of_mem _ hx)
  simple := by
    intro x hx
    rcases List.mem_append.mp hx with hchild | hx
    · rcases Pending.mem_children.mp hchild with ⟨c, i, hstep, rfl⟩
      rcases h.top_simple hnew with ⟨ts, hts, hnodup⟩
      rw [((h.routes e List.mem_cons_self).functional hts).1.symm] at hnodup
      exact hnodup
    · exact h.simple x (List.mem_cons_of_mem _ hx)
  passed := by
    intro x hx u hu
    rcases List.mem_append.mp hx with hchild | hx
    · rcases Pending.mem_children.mp hchild with ⟨c, i, hstep, rfl⟩
      rcases List.mem_append.mp hu with hu | hu
      · exact List.mem_cons_of_mem _ (h.passed e List.mem_cons_self u hu)
      · rw [List.mem_singleton.mp hu]
        exact List.mem_cons_self
    · exact List.mem_cons_of_mem _ (h.passed x (List.mem_cons_of_mem _ hx) u hu)
  nested := by
    rw [List.pairwise_append]
    refine ⟨?_, (List.pairwise_cons.mp h.nested).2, ?_⟩
    · apply List.pairwise_of_forall_mem_list
      intro x hx y hy
      rcases Pending.mem_children.mp hx with ⟨c, i, _, rfl⟩
      rcases Pending.mem_children.mp hy with ⟨d, j, _, rfl⟩
      exact List.prefix_refl _
    · intro x hx y hy
      rcases Pending.mem_children.mp hx with ⟨c, i, _, rfl⟩
      exact ((List.pairwise_cons.mp h.nested).1 y hy).trans (List.prefix_append _ _)
  ordered := by
    rw [List.pairwise_append]
    refine ⟨Pending.pairwise_children e, (List.pairwise_cons.mp h.ordered).2, ?_⟩
    intro x hx y hy
    rcases Pending.mem_children.mp hx with ⟨c, i, _, rfl⟩
    have hbranches := ((List.pairwise_cons.mp h.ordered).1 y hy).append [i] []
    rw [List.append_nil] at hbranches
    exact hbranches
  covers := by
    intro p v hroute hv
    rcases h.covers p v hroute hv with ⟨x, hx, hprefix⟩
    rcases List.mem_cons.mp hx with rfl | hx
    · rcases hprefix with ⟨r, rfl⟩
      rcases hroute with ⟨ts, hts, _⟩
      rcases hts.of_append with ⟨u, us, vs, hfirst, hlast, _⟩
      have hu := ((h.routes x List.mem_cons_self).functional hfirst).2
      rw [← hu] at hlast
      cases hlast with
      | here => exact absurd hv hmiss
      | @step _ c _ i q vs hstep rest =>
        have hchild := Pending.mem_children.mpr ⟨c, i, hstep, rfl⟩
        refine ⟨x.child (c, i), List.mem_append_left _ hchild, q, ?_⟩
        rw [← List.singleton_append, ← List.append_assoc]
        rfl
    · exact ⟨x, List.mem_append_right _ hx, hprefix⟩
  closed := by
    intro u hu c hc
    rcases List.mem_cons.mp hu with rfl | hu
    · rcases List.mem_iff_getElem?.mp hc with ⟨i, hstep⟩
      have hchild := Pending.mem_children.mpr ⟨c, i, hstep, rfl⟩
      exact .inr ⟨e.child (c, i), List.mem_append_left _ hchild, rfl,
        List.mem_append_right _ (List.mem_singleton.mpr rfl)⟩
    · rcases h.closed u hu c hc with hvisited | ⟨x, hx, hvertex, hpassed⟩
      · exact .inl (List.mem_cons_of_mem _ hvisited)
      · rcases List.mem_cons.mp hx with rfl | hx
        · exact .inl (hvertex ▸ List.mem_cons_self)
        · exact .inr ⟨x, List.mem_append_right _ hx, hvertex, hpassed⟩
  unmet := by
    intro u hu
    rcases List.mem_cons.mp hu with rfl | hu
    · exact hmiss
    · exact h.unmet u hu

/-- The first vertex that is met of those looked for: its route comes before all others. -/
theorem least (h : Frontier next root P visited (e :: stack)) {p : List Nat} {v : α}
    (hroute : SimpleRoute next root p v) (hv : P v) : e.positions = p ∨ Precedes e.positions p := by
  rcases h.covers p v hroute hv with ⟨x, hx, hprefix⟩
  rcases List.mem_cons.mp hx with rfl | hx
  · by_cases heq : x.positions = p
    · exact .inl heq
    · exact .inr (precedes_of_extends hprefix heq)
  · exact .inr (((List.pairwise_cons.mp h.ordered).1 x hx).of_extends hprefix).precedes

theorem exhausted (h : Frontier next root P visited []) {p : List Nat} {v : α}
    (hroute : SimpleRoute next root p v) : ¬ P v := by
  intro hv
  rcases h.covers p v hroute hv with ⟨x, hx, _⟩
  cases hx

end Frontier

end DepthFirst

end Foundation
end JavaVsixLite
