import JavaVsixLite.Foundation.Runs
import JavaVsixLite.Foundation.Tables

/-!
# The workspace symbol index

The index is built by a walk over the source roots, started by whoever needs it
and finds it missing, dirty or older than a root.  The lock is held only when a
walk starts and when it is installed: other walks and invalidations fall in
between, and an abandoned request drops its walk.
-/

namespace JavaVsixLite
namespace Server

open Foundation

variable {Root Mtime Entry : Type}

abbrev WalkId := Nat

/-- What `index_file` makes of one file of the walk. -/
inductive FileScan (Entry : Type) where
  | entry (e : Entry)
  | unnamed
  | notFound
  | failed

structure Inner (Root Mtime Entry : Type) where
  entries : List Entry
  rootMtimes : Table Root (Option Mtime)
  built : Bool
  truncated : Bool
  generation : Nat
  dirty : Bool
  dirtyEpoch : Nat

def Inner.default : Inner Root Mtime Entry where
  entries := []
  rootMtimes := ∅
  built := false
  truncated := false
  generation := 0
  dirty := false
  dirtyEpoch := 0

/-- A walk under way: the roots it has still to scan and what it has found. -/
structure Walk (Root Mtime Entry : Type) where
  roots : List Root
  epochBefore : Nat
  entries : List Entry
  rootMtimes : Table Root (Option Mtime)
  truncated : Bool
  incomplete : Bool

structure WorkspaceIndex (Root Mtime Entry : Type) where
  cap : Nat
  inner : Inner Root Mtime Entry
  walks : WalkId -> Option (Walk Root Mtime Entry)

/-- One root, as the walk finds it: its time, its files and whether reading failed. -/
structure RootScan (Mtime Entry : Type) where
  mtime : Option Mtime
  files : List (FileScan Entry)
  ioErrors : Bool

/-- `boundaryFound` tells whether the boundary could be canonicalized. -/
inductive IndexAction (Root Mtime Entry : Type) where
  | start (walk : WalkId) (roots : List Root) (mtime : Root -> Option Mtime)
      (boundaryFound : Bool)
  | scan (walk : WalkId) (found : RootScan Mtime Entry)
  | finish (walk : WalkId)
  | abandon (walk : WalkId)
  | invalidate

namespace WorkspaceIndex

/-- The files of a root, until the cap is reached; whether the walk stopped early. -/
def visitFiles (cap : Nat) : List (FileScan Entry) -> List Entry -> Bool ->
    List Entry × Bool × Bool
  | [], entries, incomplete => (entries, incomplete, false)
  | file :: rest, entries, incomplete =>
    if cap ≤ entries.length then (entries, incomplete, true)
    else
      match file with
      | .entry e => visitFiles cap rest (entries ++ [e]) incomplete
      | .unnamed => visitFiles cap rest entries incomplete
      | .notFound => visitFiles cap rest entries incomplete
      | .failed => visitFiles cap rest entries true

def setWalk (s : WorkspaceIndex Root Mtime Entry) (w : WalkId)
    (walk : Option (Walk Root Mtime Entry)) : WorkspaceIndex Root Mtime Entry :=
  { s with walks := Function.update s.walks w walk }

@[simp] theorem setWalk_walks (s : WorkspaceIndex Root Mtime Entry) (w : WalkId)
    (walk : Option (Walk Root Mtime Entry)) (v : WalkId) :
    (s.setWalk w walk).walks v = if v = w then walk else s.walks v := by
  simp [setWalk, Function.update_apply]

theorem walk_of_dropped {s : WorkspaceIndex Root Mtime Entry} {w v : WalkId}
    {walk : Walk Root Mtime Entry} (h : (s.setWalk w none).walks v = some walk) :
    v ≠ w ∧ s.walks v = some walk := by
  by_cases hvw : v = w
  · rw [setWalk_walks, if_pos hvw] at h
    cases h
  · rw [setWalk_walks, if_neg hvw] at h
    exact ⟨hvw, h⟩

variable [DecidableEq Root]

/-- The loop's turn for one root; past the cap only the root's time is recorded. -/
def scanRoot (cap : Nat) (walk : Walk Root Mtime Entry) (root : Root) (rest : List Root)
    (found : RootScan Mtime Entry) : Walk Root Mtime Entry :=
  let timed := walk.rootMtimes.insert root found.mtime
  if cap ≤ walk.entries.length then
    { walk with roots := rest, rootMtimes := timed, truncated := true }
  else
    let visited := visitFiles cap found.files walk.entries walk.incomplete
    { walk with
      roots := rest
      entries := visited.1
      rootMtimes := timed
      truncated := walk.truncated || visited.2.2
      incomplete := visited.2.1 || found.ioErrors }

@[simp] theorem scanRoot_epochBefore (cap : Nat) (walk : Walk Root Mtime Entry) (root : Root)
    (rest : List Root) (found : RootScan Mtime Entry) :
    (scanRoot cap walk root rest found).epochBefore = walk.epochBefore := by
  unfold scanRoot
  split <;> rfl

def invalidate (inner : Inner Root Mtime Entry) : Inner Root Mtime Entry :=
  { inner with dirty := true, dirtyEpoch := inner.dirtyEpoch + 1 }

/-- The end of `ensure_built`: a racing invalidation or failed reading leaves it dirty. -/
def install (inner : Inner Root Mtime Entry) (walk : Walk Root Mtime Entry) :
    Inner Root Mtime Entry :=
  { inner with
    entries := walk.entries
    rootMtimes := walk.rootMtimes
    truncated := walk.truncated
    built := true
    generation := inner.generation + 1
    dirty := decide (inner.dirtyEpoch ≠ walk.epochBefore) || walk.incomplete }

variable [DecidableEq Mtime]

def needsRebuild (inner : Inner Root Mtime Entry) (roots : List Root)
    (mtime : Root -> Option Mtime) : Bool :=
  !inner.built || inner.dirty || decide (inner.rootMtimes.keys.length ≠ roots.length) ||
    roots.any (fun root => decide (inner.rootMtimes.lookup root ≠ some (mtime root)))

def newWalk (inner : Inner Root Mtime Entry) (roots : List Root) : Walk Root Mtime Entry where
  roots := roots
  epochBefore := inner.dirtyEpoch
  entries := []
  rootMtimes := ∅
  truncated := false
  incomplete := false

def perform (s : WorkspaceIndex Root Mtime Entry) :
    IndexAction Root Mtime Entry -> Option (WorkspaceIndex Root Mtime Entry)
  | .start w roots mtime boundaryFound =>
    match s.walks w with
    | some _ => none
    | none =>
      if needsRebuild s.inner roots mtime && boundaryFound then
        some (s.setWalk w (some (newWalk s.inner roots)))
      else some s
  | .scan w found =>
    match s.walks w with
    | some walk =>
      match walk.roots with
      | root :: rest => some (s.setWalk w (some (scanRoot s.cap walk root rest found)))
      | [] => none
    | none => none
  | .finish w =>
    match s.walks w with
    | some walk =>
      match walk.roots with
      | [] => some { s.setWalk w none with inner := install s.inner walk }
      | _ :: _ => none
    | none => none
  | .abandon w =>
    match s.walks w with
    | some _ => some (s.setWalk w none)
    | none => none
  | .invalidate => some { s with inner := invalidate s.inner }

def initial (cap : Nat) : WorkspaceIndex Root Mtime Entry where
  cap := cap
  inner := Inner.default
  walks := fun _ => none

/-!
# One action
-/

theorem perform_cases {s t : WorkspaceIndex Root Mtime Entry}
    {a : IndexAction Root Mtime Entry} (h : s.perform a = some t) :
    (exists w roots mtime boundaryFound, a = .start w roots mtime boundaryFound ∧
      s.walks w = none ∧ (t = s ∨ t = s.setWalk w (some (newWalk s.inner roots)))) ∨
    (exists w found walk root rest, a = .scan w found ∧ s.walks w = some walk ∧
      walk.roots = root :: rest ∧
      t = s.setWalk w (some (scanRoot s.cap walk root rest found))) ∨
    (exists w walk, a = .finish w ∧ s.walks w = some walk ∧
      t = { s.setWalk w none with inner := install s.inner walk }) ∨
    (exists w walk, a = .abandon w ∧ s.walks w = some walk ∧ t = s.setWalk w none) ∨
    (a = .invalidate ∧ t = { s with inner := invalidate s.inner }) := by
  cases a with
  | start w roots mtime boundaryFound =>
    left
    refine ⟨w, roots, mtime, boundaryFound, rfl, ?_⟩
    cases hwalk : s.walks w with
    | some walk => simp [perform, hwalk] at h
    | none =>
      refine ⟨rfl, ?_⟩
      simp only [perform, hwalk] at h
      split at h
      · exact Or.inr (Option.some.inj h).symm
      · exact Or.inl (Option.some.inj h).symm
  | scan w found =>
    right; left
    cases hwalk : s.walks w with
    | none => simp [perform, hwalk] at h
    | some walk =>
      cases hroots : walk.roots with
      | nil => simp [perform, hwalk, hroots] at h
      | cons root rest =>
        simp only [perform, hwalk, hroots] at h
        exact ⟨w, found, walk, root, rest, rfl, hwalk, hroots, (Option.some.inj h).symm⟩
  | finish w =>
    right; right; left
    cases hwalk : s.walks w with
    | none => simp [perform, hwalk] at h
    | some walk =>
      cases hroots : walk.roots with
      | cons root rest => simp [perform, hwalk, hroots] at h
      | nil =>
        simp only [perform, hwalk, hroots] at h
        exact ⟨w, walk, rfl, hwalk, (Option.some.inj h).symm⟩
  | abandon w =>
    right; right; right; left
    cases hwalk : s.walks w with
    | none => simp [perform, hwalk] at h
    | some walk =>
      simp only [perform, hwalk] at h
      exact ⟨w, walk, rfl, hwalk, (Option.some.inj h).symm⟩
  | invalidate =>
    right; right; right; right
    exact ⟨rfl, (Option.some.inj h).symm⟩

end WorkspaceIndex

namespace IndexAction

def starts (w : WalkId) : IndexAction Root Mtime Entry -> Prop
  | .start v _ _ _ => v = w
  | _ => False

/-- The action ends the walk, starts another one of its name, or invalidates the index. -/
def interrupts (w : WalkId) : IndexAction Root Mtime Entry -> Prop
  | .start v _ _ _ => v = w
  | .scan _ _ => False
  | .finish v => v = w
  | .abandon v => v = w
  | .invalidate => True

end IndexAction

namespace WorkspaceIndex

open Run

variable [DecidableEq Root] [DecidableEq Mtime]

/-!
# Walks since the last invalidation
-/

/--
The entries are those of a walk that has been installed, none after it, and the
walk started after the last invalidation.
-/
def Produced (cap : Nat) (past : List (IndexAction Root Mtime Entry))
    (s : WorkspaceIndex Root Mtime Entry) : Prop :=
  exists before first middle w after u walk,
    past = before ++ first :: (middle ++ .finish w :: after) ∧
    first.starts w ∧ (forall a, a ∈ middle -> ¬ a.interrupts w) ∧
    (forall a, a ∈ after -> a ≠ .invalidate ∧ forall v, a ≠ .finish v) ∧
    run perform (initial cap) (before ++ first :: middle) = some u ∧
    u.walks w = some walk ∧ s.inner.entries = walk.entries

/-- A walk whose epoch is still current has seen no invalidation since it started. -/
structure Current (cap : Nat) (past : List (IndexAction Root Mtime Entry))
    (s : WorkspaceIndex Root Mtime Entry) : Prop where
  reached : run perform (initial cap) past = some s
  epoch : forall w walk, s.walks w = some walk -> walk.epochBefore ≤ s.inner.dirtyEpoch
  started : forall w walk, s.walks w = some walk ->
    walk.epochBefore = s.inner.dirtyEpoch ->
      Since (IndexAction.starts w) (IndexAction.interrupts w) past
  produced : s.inner.built = true -> s.inner.dirty = false -> Produced cap past s

theorem Produced.snoc {cap : Nat} {past : List (IndexAction Root Mtime Entry)}
    {s t : WorkspaceIndex Root Mtime Entry} (h : Produced cap past s)
    {a : IndexAction Root Mtime Entry} (ha : a ≠ .invalidate) (hfinish : forall v, a ≠ .finish v)
    (hentries : t.inner.entries = s.inner.entries) : Produced cap (past ++ [a]) t := by
  rcases h with
    ⟨before, first, middle, w, after, u, walk, rfl, hfirst, hmiddle, hafter, hu, hwalk, hs⟩
  refine ⟨before, first, middle, w, after ++ [a], u, walk, by simp, hfirst, hmiddle, ?_, hu,
    hwalk, hentries.trans hs⟩
  intro b hb
  rcases List.mem_append.mp hb with hb | hb
  · exact hafter b hb
  · rw [List.mem_singleton.mp hb]
    exact ⟨ha, hfinish⟩

theorem current_initial (cap : Nat) :
    Current cap ([] : List (IndexAction Root Mtime Entry)) (initial cap) := by
  refine ⟨rfl, ?_, ?_, ?_⟩
  · intro w walk hwalk
    cases hwalk
  · intro w walk hwalk
    cases hwalk
  · intro hbuilt
    cases hbuilt

section Step

variable {cap : Nat} {past : List (IndexAction Root Mtime Entry)}
  {s t : WorkspaceIndex Root Mtime Entry} {a : IndexAction Root Mtime Entry}

theorem current_perform (h : Current cap past s) (hstep : s.perform a = some t) :
    Current cap (past ++ [a]) t := by
  have hreached := run_concat h.reached hstep
  rcases perform_cases hstep with ⟨w, roots, mtime, boundaryFound, rfl, hnone, rfl | rfl⟩ |
    ⟨w, found, walk, root, rest, rfl, hwalk, _, rfl⟩ | ⟨w, walk, rfl, hwalk, rfl⟩ |
    ⟨w, walk, rfl, hwalk, rfl⟩ | ⟨rfl, rfl⟩
  · refine ⟨hreached, h.epoch, ?_, fun hb hd => (h.produced hb hd).snoc (by simp) (by simp) rfl⟩
    intro v walk hv hepoch
    refine (h.started v walk hv hepoch).snoc ?_
    rintro (rfl : w = v)
    rw [hnone] at hv
    cases hv
  · refine ⟨hreached, ?_, ?_, fun hb hd => (h.produced hb hd).snoc (by simp) (by simp) rfl⟩
    · intro v walk hv
      by_cases hvw : v = w
      · simp only [setWalk_walks, if_pos hvw] at hv
        cases hv
        exact le_refl _
      · simp only [setWalk_walks, if_neg hvw] at hv
        exact h.epoch v walk hv
    · intro v walk hv hepoch
      by_cases hvw : v = w
      · exact since_now past hvw.symm
      · simp only [setWalk_walks, if_neg hvw] at hv
        exact (h.started v walk hv hepoch).snoc (fun (hw : w = v) => hvw hw.symm)
  · refine ⟨hreached, ?_, ?_, fun hb hd => (h.produced hb hd).snoc (by simp) (by simp) rfl⟩
    · intro v other hv
      by_cases hvw : v = w
      · simp only [setWalk_walks, if_pos hvw] at hv
        cases hv
        rw [scanRoot_epochBefore]
        exact h.epoch w walk hwalk
      · simp only [setWalk_walks, if_neg hvw] at hv
        exact h.epoch v other hv
    · intro v other hv hepoch
      by_cases hvw : v = w
      · simp only [setWalk_walks, if_pos hvw] at hv
        cases hv
        rw [scanRoot_epochBefore] at hepoch
        rw [hvw]
        exact (h.started w walk hwalk hepoch).snoc (fun hno => hno)
      · simp only [setWalk_walks, if_neg hvw] at hv
        exact (h.started v other hv hepoch).snoc (fun hno => hno)
  · refine ⟨hreached, ?_, ?_, ?_⟩
    · intro v other hv
      exact h.epoch v other (walk_of_dropped hv).2
    · intro v other hv hepoch
      rcases walk_of_dropped hv with ⟨hvw, hv'⟩
      exact (h.started v other hv' hepoch).snoc (fun (hw : w = v) => hvw hw.symm)
    · intro _ hclean
      -- the walk is installed clean, so its epoch is the current one
      have hepoch : walk.epochBefore = s.inner.dirtyEpoch := by
        simp only [install, Bool.or_eq_false_iff, decide_eq_false_iff_not, not_not] at hclean
        exact hclean.1.symm
      rcases h.started w walk hwalk hepoch with ⟨before, first, middle, hpast, hfirst, hmiddle⟩
      refine ⟨before, first, middle, w, [], s, walk, by simp [hpast], hfirst, hmiddle, ?_,
        hpast ▸ h.reached, hwalk, rfl⟩
      intro b hb
      cases hb
  · refine ⟨hreached, ?_, ?_, fun hb hd => (h.produced hb hd).snoc (by simp) (by simp) rfl⟩
    · intro v other hv
      exact h.epoch v other (walk_of_dropped hv).2
    · intro v other hv hepoch
      rcases walk_of_dropped hv with ⟨hvw, hv'⟩
      exact (h.started v other hv' hepoch).snoc (fun (hw : w = v) => hvw hw.symm)
  · refine ⟨hreached, ?_, ?_, ?_⟩
    · intro v walk hv
      exact le_trans (h.epoch v walk hv) (Nat.le_succ _)
    · intro v walk hv hepoch
      have hle : walk.epochBefore ≤ s.inner.dirtyEpoch := h.epoch v walk hv
      have hnew : walk.epochBefore = s.inner.dirtyEpoch + 1 := hepoch
      exact absurd hle (by rw [hnew]; exact Nat.not_succ_le_self _)
    · intro _ hclean
      cases hclean

end Step

/--
Whenever the index is built and not dirty, its entries are those of a walk that
started after the last invalidation.
-/
theorem clean_index_produced_since_invalidation (cap : Nat)
    (as : List (IndexAction Root Mtime Entry)) (s : WorkspaceIndex Root Mtime Entry)
    (hrun : run perform (initial cap) as = some s) (hbuilt : s.inner.built = true)
    (hclean : s.inner.dirty = false) : Produced cap as s :=
  (Run.history (Current cap) (fun _ _ _ _ h hstep => current_perform h hstep)
    (current_initial cap) hrun).produced hbuilt hclean

/-- The index is invalidated while one walk is under way, and a second walk is installed. -/
def overtakingWalk : List (IndexAction Nat Nat String) :=
  [.start 0 [1] (fun _ => some 3) true, .invalidate, .start 1 [1] (fun _ => some 3) true,
    .scan 1 { mtime := some 3, files := [.entry "A"], ioErrors := false }, .finish 1]

theorem clean_index_produced_overtakingWalk :
    exists s : WorkspaceIndex Nat Nat String,
      run perform (initial 5000) overtakingWalk = some s ∧ s.inner.entries = ["A"] ∧
        Produced 5000 overtakingWalk s :=
  ⟨_, rfl, rfl, clean_index_produced_since_invalidation 5000 overtakingWalk _ rfl rfl rfl⟩

end WorkspaceIndex

end Server
end JavaVsixLite
