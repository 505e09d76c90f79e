import Mathlib.Data.List.Perm.Basic
import Mathlib.Data.List.Nodup
import Mathlib.Data.List.Perm.Subperm
import JavaVsixLite.Foundation.LinkedTrees

/-!
# The walk over the source files of a workspace

Directories wait on a stack under the paths on which they were found, and a set of
canonical directories keeps each of them from being put there again.  Hidden and
generated names are skipped, and so is what lies outside the boundary once its links
are followed.  The points at which the walk lets other tasks run are left out.
-/

namespace JavaVsixLite
namespace Server
namespace FileWalk

open Foundation

/-- Paths in the order of their steps from the top. -/
abbrev PathBuf := List PathStep

def skippedDirNames : List Text :=
  ["target", "build", ".git"].map String.toList

def isExcludedComponent (name : Text) : Bool :=
  name.head? == some '.' || skippedDirNames.contains name

def isJavaName (name : Text) : Bool :=
  ".java".toList.isSuffixOf name

/-- What the walk asks the system for; an entry of a directory can fail by itself. -/
structure FileSystem where
  canonicalize : PathBuf -> Except IoErrorKind Place
  readDir : PathBuf -> Except IoErrorKind (List (Except IoErrorKind Text))
  isDir : Place -> Bool

structure Walk where
  stoppedEarly : Bool
  ioErrors : Bool

/-- What is not found has gone meanwhile; other errors leave the walk incomplete. -/
def Walk.noteError (walk : Walk) (e : IoErrorKind) : Walk :=
  if e = .notFound then walk else { walk with ioErrors := true }

theorem Walk.stoppedEarly_noteError (walk : Walk) (e : IoErrorKind) :
    (walk.noteError e).stoppedEarly = walk.stoppedEarly := by
  unfold Walk.noteError
  split
  · rfl
  · rfl

/-- The top of the stack is its head; `reads` and `files` are the calls made so far. -/
structure WalkState (σ : Type) where
  walk : Walk
  stack : List PathBuf
  visitedDirs : List Place
  visitor : σ
  reads : List PathBuf
  files : List PathBuf

def insideBoundary (boundary : Option PathBuf) (canon : Place) : Bool :=
  boundary.all (fun path => path.isPrefixOf (canon.map .down))

section Definitions

variable {σ : Type} (fs : FileSystem) (boundary : Option PathBuf)
  (onFile : σ -> PathBuf -> σ × Bool)

def WalkState.initial (root : PathBuf) (visitor : σ) : WalkState σ :=
  let start : WalkState σ :=
    { walk := { stoppedEarly := false, ioErrors := false }
      stack := [root]
      visitedDirs := []
      visitor := visitor
      reads := []
      files := [] }
  match fs.canonicalize root with
  | .ok rootCanon => { start with visitedDirs := [rootCanon] }
  | .error e => { start with walk := start.walk.noteError e }

def WalkState.visitFile (s : WalkState σ) (path : PathBuf) : WalkState σ :=
  let answer := onFile s.visitor path
  { s with
    visitor := answer.1
    files := s.files ++ [path]
    walk := if answer.2 then s.walk else { s.walk with stoppedEarly := true } }

local instance : LawfulBEq Place := inferInstance

def WalkState.visitDir (s : WalkState σ) (path : PathBuf) (canon : Place) : WalkState σ :=
  if canon ∈ s.visitedDirs then s
  else { s with visitedDirs := canon :: s.visitedDirs, stack := path :: s.stack }

def WalkState.noteError (s : WalkState σ) (e : IoErrorKind) : WalkState σ :=
  { s with walk := s.walk.noteError e }

def visitEntry (dir : PathBuf) (s : WalkState σ) :
    Except IoErrorKind Text -> WalkState σ
  | .error e => s.noteError e
  | .ok name =>
    let path := dir ++ [.down name]
    if isExcludedComponent name then s
    else
      match fs.canonicalize path with
      | .error e => s.noteError e
      | .ok canon =>
        if !insideBoundary boundary canon then s
        else if fs.isDir canon then s.visitDir path canon
        else if isJavaName name then s.visitFile onFile path
        else s

def visitEntries (dir : PathBuf) (s : WalkState σ) :
    List (Except IoErrorKind Text) -> WalkState σ
  | [] => s
  | entry :: rest =>
    let next := visitEntry fs boundary onFile dir s entry
    if next.walk.stoppedEarly then next else visitEntries dir next rest

def visitTop (dir : PathBuf) (rest : List PathBuf) (s : WalkState σ) : WalkState σ :=
  let popped := { s with stack := rest, reads := s.reads ++ [dir] }
  match fs.readDir dir with
  | .error e => popped.noteError e
  | .ok entries => visitEntries fs boundary onFile dir popped entries

/-- `none` stands for a walk that needs more than the rounds given. -/
@[grind =] def walkLoop : Nat -> WalkState σ -> Option (WalkState σ)
  | 0, s => if s.stack = [] then some s else none
  | fuel + 1, s =>
    match s.stack with
    | [] => some s
    | dir :: rest =>
      let next := visitTop fs boundary onFile dir rest s
      if next.walk.stoppedEarly then some next else walkLoop fuel next

def walkJavaFiles (root : PathBuf) (visitor : σ) (fuel : Nat) : Option (WalkState σ) :=
  walkLoop fs boundary onFile fuel (.initial fs root visitor)

end Definitions

/-!
# What the walk is to find
-/

section Specification

variable (fs : FileSystem) (root : PathBuf) (boundary : Option PathBuf)

def FileSystem.Lists (dir : PathBuf) (name : Text) : Prop :=
  exists entries, fs.readDir dir = .ok entries ∧ .ok name ∈ entries

/-- A path down from the root through directories that are not excluded and inside. -/
inductive Walked : PathBuf -> Place -> Prop where
  | root {canon : Place} (h : fs.canonicalize root = .ok canon) : Walked root canon
  | down {dir : PathBuf} {above canon : Place} {name : Text} (hdir : Walked dir above)
      (hlists : fs.Lists dir name) (hname : isExcludedComponent name = false)
      (hcanon : fs.canonicalize (dir ++ [.down name]) = .ok canon)
      (hinside : insideBoundary boundary canon = true) (hisDir : fs.isDir canon = true) :
      Walked (dir ++ [.down name]) canon

/-- A source file inside the boundary, in a directory on a walked path. -/
structure SourceFile (dir : PathBuf) (name : Text) (canon : Place) : Prop where
  walked : exists above, Walked fs root boundary dir above
  lists : fs.Lists dir name
  java : isJavaName name = true
  canonical : fs.canonicalize (dir ++ [.down name]) = .ok canon
  inside : insideBoundary boundary canon = true
  notDir : fs.isDir canon = false

/--
No directory is read twice, the visitor is called on source files only, and if it has
not stopped the walk it has seen each source file on some path.  A name that is
excluded is not that of a source file to be seen.
-/
structure WalkAnswers {σ : Type} (result : WalkState σ) : Prop where
  readOnce : (result.reads.map fs.canonicalize).Nodup
  sound : forall path, path ∈ result.files -> exists dir name canon,
    path = dir ++ [.down name] ∧ SourceFile fs root boundary dir name canon ∧
      isExcludedComponent name = false
  complete : result.walk.stoppedEarly = false -> forall dir name canon,
    SourceFile fs root boundary dir name canon -> isExcludedComponent name = false ->
      exists found, found ++ [.down name] ∈ result.files ∧
        fs.canonicalize found = fs.canonicalize dir ∧
        fs.canonicalize (found ++ [.down name]) = .ok canon

end Specification

/-!
# File systems that follow their links
-/

/-- A path is followed name by name, and the directories are among the given places. -/
structure FileSystem.Lawful (fs : FileSystem) (dirs : List Place) : Prop where
  down : forall path canon name, fs.canonicalize path = .ok canon ->
    fs.canonicalize (path ++ [.down name]) =
      fs.canonicalize (canon.map .down ++ [.down name])
  readDir : forall path canon, fs.canonicalize path = .ok canon ->
    fs.readDir path = fs.readDir (canon.map .down)
  unresolved : forall path e, fs.canonicalize path = .error e ->
    exists e', fs.readDir path = .error e'
  finite : forall canon, fs.isDir canon = true -> canon ∈ dirs

/-- The system over a tree whose directories can all be read. -/
def treeSystem (tree : LinkedTree) : FileSystem where
  canonicalize := tree.canonicalize
  readDir path := (tree.readDir path).map (fun names => names.map .ok)
  isDir := tree.isDir

theorem lawful_treeSystem (tree : LinkedTree) :
    (treeSystem tree).Lawful ([] :: tree.nodes.keys) where
  down path canon name h := LinkedTree.canonicalize_append h [.down name]
  readDir path canon h := by
    show (tree.readDir path).map _ = (tree.readDir _).map _
    rw [LinkedTree.readDir_canonical h]
  unresolved path e h := by
    have hnone : tree.canonicalize path = .error e := h
    refine ⟨e, ?_⟩
    show (tree.readDir path).map _ = _
    rw [LinkedTree.readDir, hnone]
    rfl
  finite canon h := LinkedTree.mem_top_or_keys h

theorem FileSystem.Lawful.lists_congr {fs : FileSystem} {dirs : List Place}
    (hfs : fs.Lawful dirs) {p q : PathBuf} {canon : Place}
    (hp : fs.canonicalize p = .ok canon) (hq : fs.canonicalize q = .ok canon) {name : Text} :
    fs.Lists p name <-> fs.Lists q name := by
  unfold FileSystem.Lists
  rw [hfs.readDir p canon hp, hfs.readDir q canon hq]

theorem Walked.canonicalize_eq {fs : FileSystem} {root : PathBuf} {boundary : Option PathBuf}
    {dir : PathBuf} {canon : Place} (h : Walked fs root boundary dir canon) :
    fs.canonicalize dir = .ok canon := by
  cases h with
  | root h => exact h
  | down _ _ _ hcanon _ _ => exact hcanon

theorem Walked.exists_root {fs : FileSystem} {root : PathBuf} {boundary : Option PathBuf}
    {dir : PathBuf} {canon : Place} (h : Walked fs root boundary dir canon) :
    exists rootCanon, fs.canonicalize root = .ok rootCanon := by
  induction h with
  | root h => exact ⟨_, h⟩
  | down _ _ _ _ _ _ ih => exact ih

/-!
# What a round preserves
-/

section Rounds

variable {σ : Type} {fs : FileSystem} {root : PathBuf} {boundary : Option PathBuf}
  {onFile : σ -> PathBuf -> σ × Bool} {rootCanon : Place}

/-- Waiting and read paths are walked, and their places are those visited, each once. -/
structure Progress (fs : FileSystem) (root : PathBuf) (boundary : Option PathBuf)
    (rootCanon : Place) (s : WalkState σ) : Prop where
  walked : forall path, path ∈ s.stack ++ s.reads ->
    exists canon, Walked fs root boundary path canon
  places : ((s.stack ++ s.reads).map fs.canonicalize).Perm (s.visitedDirs.map .ok)
  nodup : s.visitedDirs.Nodup
  start : rootCanon ∈ s.visitedDirs
  dirs : forall canon, canon ∈ s.visitedDirs -> canon = rootCanon ∨ fs.isDir canon = true
  sound : forall path, path ∈ s.files -> exists dir name canon,
    path = dir ++ [.down name] ∧ SourceFile fs root boundary dir name canon ∧
      isExcludedComponent name = false

structure Grows (s t : WalkState σ) : Prop where
  visited : s.visitedDirs ⊆ t.visitedDirs
  files : s.files ⊆ t.files

theorem Grows.refl (s : WalkState σ) : Grows s s where
  visited := List.Subset.refl _
  files := List.Subset.refl _

theorem Grows.trans {s t u : WalkState σ} (hst : Grows s t) (htu : Grows t u) : Grows s u where
  visited := List.Subset.trans hst.visited htu.visited
  files := List.Subset.trans hst.files htu.files

def Handled (fs : FileSystem) (boundary : Option PathBuf) (s : WalkState σ) (dir : PathBuf)
    (name : Text) : Prop :=
  isExcludedComponent name = false -> forall canon,
    fs.canonicalize (dir ++ [.down name]) = .ok canon -> insideBoundary boundary canon = true ->
      if fs.isDir canon then canon ∈ s.visitedDirs
      else isJavaName name = true -> dir ++ [.down name] ∈ s.files

theorem Handled.grows {s t : WalkState σ} {dir : PathBuf} {name : Text}
    (h : Handled fs boundary s dir name) (hgrows : Grows s t) :
    Handled fs boundary t dir name := by
  intro hname canon hcanon hinside
  have hs := h hname canon hcanon hinside
  split
  · rename_i hdir
    rw [if_pos hdir] at hs
    exact hgrows.visited hs
  · rename_i hdir
    rw [if_neg hdir] at hs
    exact fun hjava => hgrows.files (hs hjava)

theorem progress_noteError {s : WalkState σ} (h : Progress fs root boundary rootCanon s)
    (e : IoErrorKind) : Progress fs root boundary rootCanon (s.noteError e) where
  walked := h.walked
  places := h.places
  nodup := h.nodup
  start := h.start
  dirs := h.dirs
  sound := h.sound

theorem progress_visitFile {s : WalkState σ} (h : Progress fs root boundary rootCanon s)
    {dir : PathBuf} {name : Text} {canon : Place}
    (hfile : SourceFile fs root boundary dir name canon)
    (hname : isExcludedComponent name = false) :
    Progress fs root boundary rootCanon (s.visitFile onFile (dir ++ [.down name])) where
  walked := h.walked
  places := h.places
  nodup := h.nodup
  start := h.start
  dirs := h.dirs
  sound := by
    intro path hpath
    cases List.mem_append.mp hpath with
    | inl hold => exact h.sound path hold
    | inr hnew => exact ⟨dir, name, canon, List.mem_singleton.mp hnew, hfile, hname⟩

theorem progress_visitDir {s : WalkState σ} (h : Progress fs root boundary rootCanon s)
    {path : PathBuf} {canon : Place} (hwalked : Walked fs root boundary path canon)
    (hdir : fs.isDir canon = true) :
    Progress fs root boundary rootCanon (s.visitDir path canon) := by
  unfold WalkState.visitDir
  split
  · exact h
  · rename_i hnew
    constructor
    · intro p hp
      cases hp with
      | head => exact ⟨canon, hwalked⟩
      | tail _ hp => exact h.walked p hp
    · show ((path :: (s.stack ++ s.reads)).map fs.canonicalize).Perm _
      rw [List.map_cons, List.map_cons, hwalked.canonicalize_eq]
      exact h.places.cons _
    · exact List.nodup_cons.mpr ⟨hnew, h.nodup⟩
    · exact List.mem_cons_of_mem canon h.start
    · intro c hc
      cases hc with
      | head => exact Or.inr hdir
      | tail _ hc => exact h.dirs c hc
    · exact h.sound

theorem grows_visitDir (s : WalkState σ) (path : PathBuf) (canon : Place) :
    Grows s (s.visitDir path canon) ∧ canon ∈ (s.visitDir path canon).visitedDirs := by
  unfold WalkState.visitDir
  split
  · rename_i hold
    exact ⟨Grows.refl s, hold⟩
  · exact ⟨⟨List.subset_cons_self canon s.visitedDirs, List.Subset.refl _⟩, List.mem_cons_self⟩

theorem reads_visitDir (s : WalkState σ) (path : PathBuf) (canon : Place) :
    (s.visitDir path canon).reads = s.reads := by
  unfold WalkState.visitDir
  split
  · rfl
  · rfl

structure EntrySpec (fs : FileSystem) (root : PathBuf) (boundary : Option PathBuf)
    (rootCanon : Place) (dir : PathBuf) (s t : WalkState σ)
    (entries : List (Except IoErrorKind Text)) : Prop where
  progress : Progress fs root boundary rootCanon t
  grows : Grows s t
  reads : t.reads = s.reads
  handled : t.walk.stoppedEarly = false -> forall name, .ok name ∈ entries ->
    Handled fs boundary t dir name

variable (onFile) in
theorem visitEntry_spec {dir : PathBuf} {above : Place} {s : WalkState σ}
    (h : Progress fs root boundary rootCanon s) (hdir : Walked fs root boundary dir above)
    {entry : Except IoErrorKind Text}
    (hlists : forall name, entry = .ok name -> fs.Lists dir name) :
    EntrySpec fs root boundary rootCanon dir s (visitEntry fs boundary onFile dir s entry)
      [entry] := by
  cases entry with
  | error e =>
    refine ⟨progress_noteError h e, ⟨List.Subset.refl _, List.Subset.refl _⟩, rfl, ?_⟩
    intro _ name hname
    cases List.mem_singleton.mp hname
  | ok name =>
    have hhere := hlists name rfl
    have hsingle : forall t : WalkState σ, Handled fs boundary t dir name ->
        forall other, Except.ok other ∈ [Except.ok (ε := IoErrorKind) name] ->
          Handled fs boundary t dir other := by
      intro t ht other hother
      cases List.mem_singleton.mp hother
      exact ht
    simp only [visitEntry]
    cases hname : isExcludedComponent name with
    | true =>
      rw [if_pos rfl]
      refine ⟨h, Grows.refl s, rfl, fun _ => hsingle s ?_⟩
      intro hno
      rw [hname] at hno
      cases hno
    | false =>
      rw [if_neg Bool.false_ne_true]
      cases hcanon : fs.canonicalize (dir ++ [.down name]) with
      | error e =>
        refine ⟨progress_noteError h e, ⟨List.Subset.refl _, List.Subset.refl _⟩, rfl,
          fun _ => hsingle _ ?_⟩
        intro _ canon hother
        rw [hcanon] at hother
        cases hother
      | ok canon =>
        have hsame : forall other, fs.canonicalize (dir ++ [.down name]) = .ok other ->
            other = canon := by
          intro other hother
          rw [hcanon] at hother
          exact (Except.ok.inj hother).symm
        cases hinside : insideBoundary boundary canon with
        | false =>
          simp only [hinside, Bool.not_false, if_true]
          refine ⟨h, Grows.refl s, rfl, fun _ => hsingle s ?_⟩
          intro _ other hother hin
          rw [hsame other hother, hinside] at hin
          cases hin
        | true =>
          simp only [hinside, Bool.not_true, Bool.false_eq_true, if_false]
          cases hisDir : fs.isDir canon with
          | true =>
            simp only [if_true]
            have hgrows := grows_visitDir s (dir ++ [.down name]) canon
            have hwalked := Walked.down hdir hhere hname hcanon hinside hisDir
            refine ⟨progress_visitDir h hwalked hisDir, hgrows.1, reads_visitDir _ _ _,
              fun _ => hsingle _ ?_⟩
            intro _ other hother _
            rw [hsame other hother, if_pos hisDir]
            exact hgrows.2
          | false =>
            simp only [Bool.false_eq_true, if_false]
            cases hjava : isJavaName name with
            | true =>
              simp only [if_true]
              have hfile : SourceFile fs root boundary dir name canon :=
                ⟨⟨above, hdir⟩, hhere, hjava, hcanon, hinside, hisDir⟩
              refine ⟨progress_visitFile h hfile hname,
                ⟨List.Subset.refl _, List.subset_append_left _ _⟩, rfl,
                fun _ => hsingle _ ?_⟩
              intro _ other hother _
              rw [hsame other hother, if_neg (by rw [hisDir]; exact Bool.false_ne_true)]
              exact fun _ => List.mem_append_right _ List.mem_cons_self
            | false =>
              simp only [Bool.false_eq_true, if_false]
              refine ⟨h, Grows.refl s, rfl, fun _ => hsingle s ?_⟩
              intro _ other hother _
              rw [hsame other hother, if_neg (by rw [hisDir]; exact Bool.false_ne_true),
                hjava]
              intro hno
              cases hno

variable (onFile) in
theorem visitEntries_spec {dir : PathBuf} {above : Place} {s : WalkState σ}
    (h : Progress fs root boundary rootCanon s) (hdir : Walked fs root boundary dir above)
    {entries : List (Except IoErrorKind Text)}
    (hlists : forall name, .ok name ∈ entries -> fs.Lists dir name) :
    EntrySpec fs root boundary rootCanon dir s (visitEntries fs boundary onFile dir s entries)
      entries := by
  induction entries generalizing s with
  | nil => exact ⟨h, Grows.refl s, rfl, fun _ name hname => absurd hname List.not_mem_nil⟩
  | cons entry rest ih =>
    have hfirst : forall name, entry = .ok name -> fs.Lists dir name := by
      intro name hname
      apply hlists name
      rw [hname]
      exact List.mem_cons_self
    have hone := visitEntry_spec onFile h hdir hfirst
    simp only [visitEntries]
    cases hstopped : (visitEntry fs boundary onFile dir s entry).walk.stoppedEarly with
    | true =>
      rw [if_pos rfl]
      refine ⟨hone.progress, hone.grows, hone.reads, ?_⟩
      intro hgoes
      rw [hstopped] at hgoes
      cases hgoes
    | false =>
      rw [if_neg Bool.false_ne_true]
      have hrest := ih hone.progress (fun name hname => hlists name (List.mem_cons_of_mem _ hname))
      refine ⟨hrest.progress, hone.grows.trans hrest.grows, hrest.reads.trans hone.reads, ?_⟩
      intro hgoes name hname
      cases List.mem_cons.mp hname with
      | inl heq =>
        subst heq
        exact (hone.handled hstopped name List.mem_cons_self).grows hrest.grows
      | inr hlater => exact hrest.handled hgoes name hlater

def AllHandled (fs : FileSystem) (boundary : Option PathBuf) (s : WalkState σ) : Prop :=
  forall dir, dir ∈ s.reads -> forall name, fs.Lists dir name -> Handled fs boundary s dir name

variable (onFile) in
theorem visitTop_spec {s : WalkState σ} (h : Progress fs root boundary rootCanon s)
    (hall : AllHandled fs boundary s) {dir : PathBuf} {rest : List PathBuf}
    (hstack : s.stack = dir :: rest) :
    let t := visitTop fs boundary onFile dir rest s
    Progress fs root boundary rootCanon t ∧ t.reads = s.reads ++ [dir] ∧
      (t.walk.stoppedEarly = false -> AllHandled fs boundary t) := by
  intro t
  let popped : WalkState σ := { s with stack := rest, reads := s.reads ++ [dir] }
  have hmoved : (popped.stack ++ popped.reads).Perm (s.stack ++ s.reads) := by
    show (rest ++ (s.reads ++ [dir])).Perm _
    rw [hstack, ← List.append_assoc]
    exact List.perm_append_comm
  have hpopped : Progress fs root boundary rootCanon popped := by
    constructor
    · intro path hpath
      exact h.walked path (hmoved.mem_iff.mp hpath)
    · exact (hmoved.map fs.canonicalize).trans h.places
    · exact h.nodup
    · exact h.start
    · exact h.dirs
    · exact h.sound
  have hwalked : exists above, Walked fs root boundary dir above := by
    apply h.walked
    rw [hstack]
    exact List.mem_cons_self
  have hkept : forall t : WalkState σ, t.reads = s.reads ++ [dir] -> Grows s t ->
      (forall name, fs.Lists dir name -> Handled fs boundary t dir name) ->
        AllHandled fs boundary t := by
    intro t hreads hgrows hdir other hother name hname
    rw [hreads, List.mem_append, List.mem_singleton] at hother
    cases hother with
    | inl hold => exact (hall other hold name hname).grows hgrows
    | inr heq =>
      rw [heq] at hname ⊢
      exact hdir name hname
  cases hread : fs.readDir dir with
  | error e =>
    have ht : t = popped.noteError e := by
      show visitTop fs boundary onFile dir rest s = _
      rw [visitTop, hread]
    rw [ht]
    refine ⟨progress_noteError hpopped e, rfl, fun _ => hkept _ rfl ?_ ?_⟩
    · exact ⟨List.Subset.refl _, List.Subset.refl _⟩
    · intro name hname
      rcases hname with ⟨entries, hentries, _⟩
      rw [hread] at hentries
      cases hentries
  | ok entries =>
    have ht : t = visitEntries fs boundary onFile dir popped entries := by
      show visitTop fs boundary onFile dir rest s = _
      rw [visitTop, hread]
    rw [ht]
    rcases hwalked with ⟨above, habove⟩
    have hlists : forall name, .ok name ∈ entries -> fs.Lists dir name :=
      fun name hname => ⟨entries, hread, hname⟩
    have hspec := visitEntries_spec onFile hpopped habove hlists
    refine ⟨hspec.progress, hspec.reads, fun hgoes => hkept _ hspec.reads ?_ ?_⟩
    · exact ⟨hspec.grows.visited, hspec.grows.files⟩
    · intro name hname
      rcases hname with ⟨other, hother, hmem⟩
      rw [hread] at hother
      cases hother
      exact hspec.handled hgoes name hmem

theorem Progress.length_le {dirs : List Place} (hfs : fs.Lawful dirs) {s : WalkState σ}
    (h : Progress fs root boundary rootCanon s) :
    s.stack.length + s.reads.length ≤ dirs.length + 1 := by
  have hlength := h.places.length_eq
  rw [List.length_map, List.length_map, List.length_append] at hlength
  have hsub : s.visitedDirs ⊆ rootCanon :: dirs := by
    intro canon hcanon
    cases h.dirs canon hcanon with
    | inl hroot =>
      rw [hroot]
      exact List.mem_cons_self
    | inr hdir => exact List.mem_cons_of_mem _ (hfs.finite canon hdir)
  rw [hlength]
  exact (List.subperm_of_subset h.nodup hsub).length_le

theorem walkLoop_done {s : WalkState σ} (h : s.stack = []) (fuel : Nat) :
    walkLoop fs boundary onFile fuel s = some s := by
  cases fuel with
  | zero => exact if_pos h
  | succ fuel =>
    rw [walkLoop]
    simp only [h]

theorem walkLoop_zero {s : WalkState σ} {dir : PathBuf} {rest : List PathBuf}
    (h : s.stack = dir :: rest) : walkLoop fs boundary onFile 0 s = none := by
  rw [walkLoop, h]
  exact if_neg (List.cons_ne_nil dir rest)

theorem walkLoop_succ {s : WalkState σ} {dir : PathBuf} {rest : List PathBuf}
    (h : s.stack = dir :: rest) (fuel : Nat) :
    walkLoop fs boundary onFile (fuel + 1) s =
      if (visitTop fs boundary onFile dir rest s).walk.stoppedEarly then
        some (visitTop fs boundary onFile dir rest s)
      else walkLoop fs boundary onFile fuel (visitTop fs boundary onFile dir rest s) := by
  rw [walkLoop]
  simp only [h]

variable (onFile) in
/-- What the walk ends with: it was stopped, or nothing waits and all is dealt with. -/
theorem walkLoop_spec {dirs : List Place} (hfs : fs.Lawful dirs) {s : WalkState σ} {fuel : Nat}
    (h : Progress fs root boundary rootCanon s) (hall : AllHandled fs boundary s)
    (hfuel : dirs.length + 1 ≤ fuel + s.reads.length) :
    exists t, walkLoop fs boundary onFile fuel s = some t ∧
      Progress fs root boundary rootCanon t ∧
      (t.walk.stoppedEarly = false -> t.stack = [] ∧ AllHandled fs boundary t) := by
  induction fuel generalizing s with
  | zero =>
    have hlength := h.length_le hfs
    cases hstack : s.stack with
    | nil => exact ⟨s, walkLoop_done hstack 0, h, fun _ => ⟨hstack, hall⟩⟩
    | cons dir rest =>
      rw [hstack, List.length_cons] at hlength
      omega
  | succ fuel ih =>
    cases hstack : s.stack with
    | nil => exact ⟨s, walkLoop_done hstack _, h, fun _ => ⟨hstack, hall⟩⟩
    | cons dir rest =>
      have htop := visitTop_spec onFile h hall hstack
      simp only at htop
      rw [walkLoop_succ hstack]
      cases hstopped : (visitTop fs boundary onFile dir rest s).walk.stoppedEarly with
      | true =>
        refine ⟨_, rfl, htop.1, ?_⟩
        intro hgoes
        rw [hstopped] at hgoes
        cases hgoes
      | false =>
        apply ih htop.1 (htop.2.2 hstopped)
        rw [htop.2.1, List.length_append, List.length_singleton]
        omega

theorem walkLoop_add {s t : WalkState σ} {fuel : Nat}
    (h : walkLoop fs boundary onFile fuel s = some t) (more : Nat) :
    walkLoop fs boundary onFile (fuel + more) s = some t := by
  induction fuel generalizing s with
  | zero =>
    cases hstack : s.stack with
    | nil =>
      rw [walkLoop_done hstack] at h ⊢
      exact h
    | cons dir rest =>
      rw [walkLoop_zero hstack] at h
      cases h
  | succ fuel ih =>
    rw [Nat.succ_add]
    cases hstack : s.stack with
    | nil =>
      rw [walkLoop_done hstack] at h ⊢
      exact h
    | cons dir rest =>
      rw [walkLoop_succ hstack] at h ⊢
      split
      · rename_i hstopped
        rw [if_pos hstopped] at h
        exact h
      · rename_i hstopped
        rw [if_neg hstopped] at h
        exact ih h

/-!
# A visitor that never stops
-/

variable (fs boundary) in
theorem visitEntry_goes (hnever : forall v path, (onFile v path).2 = true) (dir : PathBuf)
    {s : WalkState σ} (h : s.walk.stoppedEarly = false) (entry : Except IoErrorKind Text) :
    (visitEntry fs boundary onFile dir s entry).walk.stoppedEarly = false := by
  have hnote : forall e, (s.noteError e).walk.stoppedEarly = false := by
    intro e
    exact (s.walk.stoppedEarly_noteError e).trans h
  cases entry with
  | error e => exact hnote e
  | ok name =>
    simp only [visitEntry]
    split
    · exact h
    · split
      · exact hnote _
      · split
        · exact h
        · split
          · unfold WalkState.visitDir
            split
            · exact h
            · exact h
          · split
            · unfold WalkState.visitFile
              simp only [hnever, if_true]
              exact h
            · exact h

theorem visitEntries_goes (hnever : forall v path, (onFile v path).2 = true) (dir : PathBuf)
    {s : WalkState σ} (h : s.walk.stoppedEarly = false)
    (entries : List (Except IoErrorKind Text)) :
    (visitEntries fs boundary onFile dir s entries).walk.stoppedEarly = false := by
  induction entries generalizing s with
  | nil => exact h
  | cons entry rest ih =>
    have hnext := visitEntry_goes fs boundary hnever dir h entry
    simp only [visitEntries, hnext, Bool.false_eq_true, if_false]
    exact ih hnext

theorem walkLoop_goes (hnever : forall v path, (onFile v path).2 = true) {fuel : Nat}
    {s t : WalkState σ} (h : s.walk.stoppedEarly = false)
    (ht : walkLoop fs boundary onFile fuel s = some t) : t.walk.stoppedEarly = false := by
  induction fuel generalizing s with
  | zero =>
    cases hstack : s.stack with
    | nil =>
      rw [walkLoop_done hstack] at ht
      cases ht
      exact h
    | cons dir rest =>
      rw [walkLoop_zero hstack] at ht
      cases ht
  | succ fuel ih =>
    cases hstack : s.stack with
    | nil =>
      rw [walkLoop_done hstack] at ht
      cases ht
      exact h
    | cons dir rest =>
      have htop : (visitTop fs boundary onFile dir rest s).walk.stoppedEarly = false := by
        unfold visitTop
        simp only
        split
        · exact (s.walk.stoppedEarly_noteError _).trans h
        · apply visitEntries_goes hnever dir
          exact h
      rw [walkLoop_succ hstack, htop, if_neg Bool.false_ne_true] at ht
      exact ih htop ht

/-!
# The whole walk
-/

variable (boundary) in
theorem progress_initial (hroot : fs.canonicalize root = .ok rootCanon) (visitor : σ) :
    Progress fs root boundary rootCanon (.initial fs root visitor) := by
  unfold WalkState.initial
  rw [hroot]
  constructor
  · intro path hpath
    cases List.mem_singleton.mp hpath
    exact ⟨rootCanon, .root hroot⟩
  · simp [hroot]
  · exact List.nodup_singleton rootCanon
  · exact List.mem_cons_self
  · intro canon hcanon
    exact Or.inl (List.mem_singleton.mp hcanon)
  · intro path hpath
    cases hpath

theorem read_of_walked {dirs : List Place} (hfs : fs.Lawful dirs)
    (hroot : fs.canonicalize root = .ok rootCanon) {t : WalkState σ}
    (h : Progress fs root boundary rootCanon t) (hstack : t.stack = [])
    (hall : AllHandled fs boundary t) {dir : PathBuf} {canon : Place}
    (hdir : Walked fs root boundary dir canon) :
    exists found, found ∈ t.reads ∧ fs.canonicalize found = .ok canon := by
  have hread : forall place, place ∈ t.visitedDirs ->
      exists found, found ∈ t.reads ∧ fs.canonicalize found = .ok place := by
    intro place hplace
    have hmem := h.places.mem_iff.mpr (List.mem_map_of_mem hplace)
    rw [hstack, List.nil_append] at hmem
    exact List.mem_map.mp hmem
  apply hread
  induction hdir with
  | root hcanon =>
    rw [hroot] at hcanon
    cases hcanon
    exact h.start
  | @down dir above canon name habove hlists hname hcanon hinside hisDir ih =>
    rcases hread above ih with ⟨found, hfound, hsame⟩
    have hlists' := (hfs.lists_congr habove.canonicalize_eq hsame).mp hlists
    have hcanon' : fs.canonicalize (found ++ [.down name]) = .ok canon := by
      rw [hfs.down found above name hsame, ← hfs.down dir above name habove.canonicalize_eq]
      exact hcanon
    have hhandled := hall found hfound name hlists' hname canon hcanon' hinside
    rw [if_pos hisDir] at hhandled
    exact hhandled

theorem answers_of_progress {dirs : List Place} (hfs : fs.Lawful dirs)
    (hroot : fs.canonicalize root = .ok rootCanon) {t : WalkState σ}
    (h : Progress fs root boundary rootCanon t)
    (hend : t.walk.stoppedEarly = false -> t.stack = [] ∧ AllHandled fs boundary t) :
    WalkAnswers fs root boundary t where
  readOnce := by
    have hnodup : (t.visitedDirs.map (fun canon => Except.ok (ε := IoErrorKind) canon)).Nodup :=
      h.nodup.map (fun _ _ heq => Except.ok.inj heq)
    have hplaces := h.places.nodup_iff.mpr hnodup
    rw [List.map_append] at hplaces
    exact hplaces.of_append_right
  sound := h.sound
  complete := by
    intro hgoes dir name canon hfile hname
    rcases hend hgoes with ⟨hstack, hall⟩
    rcases hfile.walked with ⟨above, habove⟩
    rcases read_of_walked hfs hroot h hstack hall habove with ⟨found, hfound, hsame⟩
    have hdir := habove.canonicalize_eq
    have hcanon : fs.canonicalize (found ++ [.down name]) = .ok canon := by
      rw [hfs.down found above name hsame, ← hfs.down dir above name hdir]
      exact hfile.canonical
    have hlists := (hfs.lists_congr hdir hsame).mp hfile.lists
    have hhandled := hall found hfound name hlists hname canon hcanon hfile.inside
    rw [if_neg (by rw [hfile.notDir]; exact Bool.false_ne_true)] at hhandled
    exact ⟨found, hhandled hfile.java, hsame.trans hdir.symm, hcanon⟩

theorem answers_of_unresolved {dirs : List Place} (hfs : fs.Lawful dirs) {e : IoErrorKind}
    (hroot : fs.canonicalize root = .error e) (visitor : σ) (fuel : Nat) :
    exists t, walkJavaFiles fs boundary onFile root visitor (fuel + 1) = some t ∧
      WalkAnswers fs root boundary t := by
  rcases hfs.unresolved root e hroot with ⟨e', hread⟩
  let s : WalkState σ := .initial fs root visitor
  let t : WalkState σ := visitTop fs boundary onFile root [] s
  have hs : s = WalkState.mk (Walk.noteError ⟨false, false⟩ e) [root] [] visitor [] [] := by
    show WalkState.initial fs root visitor = _
    rw [WalkState.initial, hroot]
  have ht : t = WalkState.mk ((Walk.noteError ⟨false, false⟩ e).noteError e') [] [] visitor
      [root] [] := by
    show visitTop fs boundary onFile root [] s = _
    rw [hs, visitTop, hread]
    rfl
  have hgoes : t.walk.stoppedEarly = false := by
    rw [ht, Walk.stoppedEarly_noteError, Walk.stoppedEarly_noteError]
  refine ⟨t, ?_, ?_, ?_, ?_⟩
  · have hstack : s.stack = root :: [] := by rw [hs]
    show walkLoop fs boundary onFile (fuel + 1) s = some t
    rw [walkLoop_succ hstack]
    show (if t.walk.stoppedEarly then some t else walkLoop fs boundary onFile fuel t) = some t
    rw [hgoes, if_neg Bool.false_ne_true, walkLoop_done (by rw [ht])]
  · rw [ht]
    exact List.nodup_singleton _
  · intro path hpath
    rw [ht] at hpath
    cases hpath
  · intro _ dir name canon hfile
    rcases hfile.walked with ⟨above, habove⟩
    rcases habove.exists_root with ⟨rootCanon, hsome⟩
    rw [hroot] at hsome
    cases hsome

variable (root boundary onFile) in
/--
In every lawful file system the walk ends, and what it answers does not depend on the
rounds it is given.
-/
theorem walkJavaFiles_answers {dirs : List Place} (hfs : fs.Lawful dirs) (visitor : σ) :
    exists t, (forall fuel, dirs.length + 1 ≤ fuel ->
        walkJavaFiles fs boundary onFile root visitor fuel = some t) ∧
      WalkAnswers fs root boundary t := by
  have hmore : forall t, walkJavaFiles fs boundary onFile root visitor (dirs.length + 1) = some t ->
      forall fuel, dirs.length + 1 ≤ fuel ->
        walkJavaFiles fs boundary onFile root visitor fuel = some t := by
    intro t ht fuel hfuel
    rcases Nat.exists_eq_add_of_le hfuel with ⟨more, rfl⟩
    exact walkLoop_add ht more
  cases hroot : fs.canonicalize root with
  | error e =>
    rcases answers_of_unresolved hfs hroot visitor dirs.length with ⟨t, ht, hanswers⟩
    exact ⟨t, hmore t ht, hanswers⟩
  | ok rootCanon =>
    have hinitial := progress_initial boundary hroot visitor
    have hnone : AllHandled fs boundary (WalkState.initial fs root visitor) := by
      intro dir hdir
      have hreads : (WalkState.initial fs root visitor).reads = [] := by
        unfold WalkState.initial
        rw [hroot]
      rw [hreads] at hdir
      cases hdir
    have hfuel : dirs.length + 1 ≤
        dirs.length + 1 + (WalkState.initial fs root visitor).reads.length :=
      Nat.le_add_right _ _
    rcases walkLoop_spec onFile hfs hinitial hnone hfuel with ⟨t, ht, hprogress, hend⟩
    exact ⟨t, hmore t ht, answers_of_progress hfs hroot hprogress hend⟩

theorem walkJavaFiles_goes (hnever : forall v path, (onFile v path).2 = true) {visitor : σ}
    {fuel : Nat} {t : WalkState σ}
    (ht : walkJavaFiles fs boundary onFile root visitor fuel = some t) :
    t.walk.stoppedEarly = false := by
  have hstart : (WalkState.initial fs root visitor).walk.stoppedEarly = false := by
    unfold WalkState.initial
    simp only
    split
    · rfl
    · exact Walk.stoppedEarly_noteError _ _
  exact walkLoop_goes hnever hstart ht

end Rounds

/--
Over every tree of directories, files and links the walk ends, reads no directory twice,
and shows the visitor source files inside the boundary only.  If the visitor never stops
it, it has seen each of them that the walked directories hold under a name that is not
excluded.
-/
theorem walk_java_files_answers (tree : LinkedTree) {σ : Type} (root : PathBuf)
    (boundary : Option PathBuf) (onFile : σ -> PathBuf -> σ × Bool) (visitor : σ) :
    exists result, (forall fuel, tree.nodes.keys.length + 2 ≤ fuel ->
        walkJavaFiles (treeSystem tree) boundary onFile root visitor fuel = some result) ∧
      WalkAnswers (treeSystem tree) root boundary result ∧
      ((forall v path, (onFile v path).2 = true) -> result.walk.stoppedEarly = false) := by
  rcases walkJavaFiles_answers root boundary onFile
    (lawful_treeSystem tree) visitor with ⟨result, hresult, hanswers⟩
  refine ⟨result, hresult, hanswers, ?_⟩
  intro hnever
  exact walkJavaFiles_goes hnever (hresult _ (Nat.le_refl _))

namespace Hidden

def name : Text := ".A.java".toList

def tree : LinkedTree where
  nodes := AList.insert [name] .file ∅

theorem eq_name_of_lists {dir : PathBuf} {n : Text} (h : (treeSystem tree).Lists dir n) :
    n = name := by
  rcases h with ⟨entries, hentries, hn⟩
  have hread : (tree.readDir dir).map (fun names => names.map (Except.ok (ε := IoErrorKind))) =
      .ok entries := hentries
  unfold LinkedTree.readDir at hread
  cases hplace : tree.canonicalize dir with
  | error e =>
    rw [hplace] at hread
    cases hread
  | ok place =>
    rw [hplace] at hread
    simp only at hread
    split at hread
    · cases hread
      rcases List.mem_map.mp hn with ⟨m, hm, heq⟩
      cases heq
      rcases LinkedTree.mem_childNames.mp hm with ⟨node, hnode⟩
      rw [LinkedTree.nodeAt, if_neg (by simp)] at hnode
      have hkey : place ++ [n] ∈ tree.nodes.keys := Table.mem_keys_iff.mpr ⟨node, hnode⟩
      have hsame : place ++ [n] = [] ++ [name] := List.mem_singleton.mp hkey
      exact List.singleton_inj.mp (List.append_inj' hsame rfl).2
    · cases hread

theorem sourceFile : SourceFile (treeSystem tree) [] none [] name [name] where
  walked := ⟨[], .root (LinkedTree.follow_nil [] [])⟩
  lists := by
    refine ⟨[.ok name], ?_, List.mem_cons_self⟩
    have htop : tree.canonicalize [] = .ok [] := LinkedTree.follow_nil [] []
    show (tree.readDir []).map _ = _
    rw [LinkedTree.readDir, htop]
    rfl
  java := by decide
  canonical := by
    have hnode : tree.nodeAt ([] ++ [name]) = some .file := rfl
    have hsolid : LinkedTree.Solid tree ([] ++ [name]) := by
      apply LinkedTree.Solid.down .top rfl hnode
      intro fromTop target h
      cases h
    exact LinkedTree.canonicalize_of_solid hsolid
  inside := rfl
  notDir := by rfl

/-- The file is a source file in the root, and no visitor is ever shown it. -/
theorem hidden_source_file_not_visited :
    SourceFile (treeSystem tree) [] none [] name [name] ∧
      exists result : WalkState Unit,
        walkJavaFiles (treeSystem tree) none (fun v _ => (v, true)) [] () 3 = some result ∧
          result.files = [] := by
  constructor
  · exact sourceFile
  · have hwalk := walkJavaFiles_answers [] none (fun (v : Unit) _ => (v, true))
      (lawful_treeSystem tree) ()
    rcases hwalk with ⟨result, hresult, hanswers⟩
    refine ⟨result, hresult 3 (by decide), ?_⟩
    rw [List.eq_nil_iff_forall_not_mem]
    intro path hpath
    rcases hanswers.sound path hpath with ⟨dir, n, canon, _, hfile, hname⟩
    rw [eq_name_of_lists hfile.lists] at hname
    exact absurd hname (by decide)

end Hidden

end FileWalk
end Server
end JavaVsixLite
