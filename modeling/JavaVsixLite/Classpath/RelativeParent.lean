import Mathlib.Data.List.Induction
import JavaVsixLite.Classpath.Pom
import JavaVsixLite.Foundation.LexicalPaths

/-!
# The relative parent of a project POM

The `relativePath` of a parent comes from an untrusted file.  Its `..` components are
resolved without touching the file system, and what leaves the project is not read.
-/

namespace JavaVsixLite
namespace Classpath

open Foundation
open Foundation.Component (resolve ClimbsAbove ClimbsFrom)

variable {P : Platform}

/-!
# Where normalization fails
-/

theorem foldl_normalizeStep_none (components : List Component) :
    components.foldl (normalizeStep P) none = none := by
  induction components with
  | nil => rfl
  | cons c rest ih => exact ih

theorem foldl_normalizeStep_eq_none_iff (components : List Component) (out : Text)
    (depth : Nat) :
    components.foldl (normalizeStep P) (some (out, depth)) = none <->
      ClimbsFrom depth components := by
  induction components generalizing out depth with
  | nil => simp [Component.not_climbsFrom_nil]
  | cons c rest ih =>
    rw [List.foldl_cons]
    cases c with
    | drive name =>
      rw [Component.climbsFrom_anchor depth rfl (by simp)]
      exact ih _ _
    | root =>
      rw [Component.climbsFrom_anchor depth rfl (by simp)]
      exact ih _ _
    | normal name =>
      rw [Component.climbsFrom_normal]
      exact ih _ _
    | parent =>
      cases depth with
      | zero =>
        have hnone : normalizeStep P (some (out, 0)) .parent = none := rfl
        rw [hnone, foldl_normalizeStep_none]
        simp [Component.climbsFrom_parent_zero]
      | succ depth =>
        rw [Component.climbsFrom_parent_succ]
        exact ih _ _

theorem lexicalNormalize_eq_none_iff (path : Text) :
    lexicalNormalize P path = none <-> ClimbsAbove (P.components path) := by
  unfold lexicalNormalize
  rw [Option.map_eq_none_iff, foldl_normalizeStep_eq_none_iff, Component.climbs_iff]

/-!
# Names of a path
-/

structure PathName (P : Platform) (name : Text) : Prop where
  no_sep : forall c, c ∈ name -> P.isSep c = false
  nameOf_eq : Platform.nameOf name = some (.normal name)

variable {path name : Text} {c : Component}

theorem pathName_of_mem_names (h : .normal name ∈ P.names path) : PathName P name := by
  unfold Platform.names at h
  rcases List.mem_filterMap.mp h with ⟨piece, hpiece, hname⟩
  have hsame : piece = name := by
    unfold Platform.nameOf at hname
    split at hname
    · cases hname
    · split at hname
      · cases hname
      · injection hname with hname
        injection hname
  rw [hsame] at hpiece hname
  exact ⟨fun c hc => (mem_of_mem_splitOnP hpiece c hc).2, hname⟩

theorem anchor_not_mem_names (h : c ∈ P.names path) :
    c = .parent ∨ exists name, c = .normal name := by
  unfold Platform.names at h
  rcases List.mem_filterMap.mp h with ⟨piece, _, hname⟩
  unfold Platform.nameOf at hname
  split at hname
  · cases hname
  · split at hname
    · injection hname with hname
      exact .inl hname.symm
    · injection hname with hname
      exact .inr ⟨piece, hname.symm⟩

theorem PathName.names_eq (h : PathName P name) : P.names name = [.normal name] := by
  rw [P.names_of_no_sep h.no_sep, h.nameOf_eq]
  rfl

theorem PathName.startsAtSep {name : Text} (h : PathName P name) : P.startsAtSep name = false := by
  unfold Platform.startsAtSep
  cases name with
  | nil => rfl
  | cons c rest => exact h.no_sep c List.mem_cons_self

/-- Where a path starts: on a drive, at a root, both or neither. -/
def anchorsOf (P : Platform) (path : Text) : List Component :=
  (if (P.splitDrive path).1 = [] then [] else [.drive (P.splitDrive path).1]) ++
    (if P.startsAtSep (P.splitDrive path).2 then [.root] else [])

/-- The steps of a path from where it starts. -/
def stepsOf (P : Platform) (path : Text) : List Component :=
  P.names (P.splitDrive path).2

theorem components_eq (path : Text) : P.components path = anchorsOf P path ++ stepsOf P path :=
  rfl

theorem splitDrive_cases (path : Text) :
    (P.splitDrive path).1 = [] ∨
      P = .windows ∧ exists letter : Char, letter.isAlpha = true ∧
        (P.splitDrive path).1 = [letter, ':'] := by
  cases P with
  | unix => exact .inl rfl
  | windows =>
    unfold Platform.splitDrive
    split
    · rename_i letter rest _
      by_cases hletter : letter.isAlpha = true
      · rw [if_pos hletter]
        exact .inr ⟨rfl, letter, hletter, rfl⟩
      · rw [if_neg hletter]
        exact .inl rfl
    · exact .inl rfl

theorem splitDrive_letter {letter : Char} (hletter : letter.isAlpha = true) (rest : Text) :
    Platform.windows.splitDrive (letter :: ':' :: rest) = ([letter, ':'], rest) := by
  simp [Platform.splitDrive, hletter]

theorem anchor_of_mem (h : c ∈ anchorsOf P path) : c.isNormal = false ∧ c ≠ .parent := by
  unfold anchorsOf at h
  cases List.mem_append.mp h with
  | inl hdrive =>
    split at hdrive
    · cases hdrive
    · rw [List.mem_singleton.mp hdrive]
      exact ⟨rfl, by simp⟩
  | inr hroot =>
    split at hroot
    · rw [List.mem_singleton.mp hroot]
      exact ⟨rfl, by simp⟩
    · cases hroot

/-!
# The parent of a path
-/

theorem exists_start_of_names {text piece : Text} {names : List Component}
    (hpiece : forall d, d ∈ piece -> P.isSep d = false)
    (h : P.names (text ++ piece) = names ++ [c]) :
    exists start, start <+: text ++ piece ∧ P.names start = names ∧
      P.startsAtSep start = P.startsAtSep (text ++ piece) := by
  induction text using List.reverseRecOn generalizing piece with
  | nil =>
    rw [List.nil_append, P.names_of_no_sep hpiece] at h
    have hnone : names = [] := by
      have hlength := congrArg List.length h
      cases hname : Platform.nameOf piece with
      | none => simp [hname] at h
      | some d => simpa [hname] using hlength
    refine ⟨[], List.nil_prefix, ?_, ?_⟩
    · rw [hnone]
      exact P.names_nil
    · cases piece with
      | nil => rfl
      | cons d rest => exact (hpiece d List.mem_cons_self).symm
  | append_singleton init d ih =>
    rw [List.append_assoc, List.singleton_append] at h ⊢
    cases hd : P.isSep d with
    | false =>
      apply ih _ h
      intro e he
      cases List.mem_cons.mp he with
      | inl hself => rw [hself, hd]
      | inr hrest => exact hpiece e hrest
    | true =>
      rw [P.names_append_sep init piece hd, P.names_of_no_sep hpiece] at h
      cases hname : Platform.nameOf piece with
      | none =>
        rw [hname, Option.toList_none, List.append_nil] at h
        have hempty : forall e, e ∈ ([] : Text) -> P.isSep e = false := by simp
        rcases ih hempty (by rw [List.append_nil, h]) with ⟨start, hstart, hnames, hsep⟩
        rw [List.append_nil] at hstart hsep
        refine ⟨start, hstart.trans (List.prefix_append _ _), hnames, ?_⟩
        have hinit : init ≠ [] := by
          intro hnil
          rw [hnil, P.names_nil] at h
          simp at h
        rw [hsep, Platform.startsAtSep_append hinit]
      | some last =>
        rw [hname, Option.toList_some] at h
        have hinit := (List.append_inj' h rfl).1
        refine ⟨init ++ [d], ?_, ?_, ?_⟩
        · exact ⟨piece, by rw [List.append_assoc, List.singleton_append]⟩
        · rw [P.names_append_sep init [] hd, P.names_nil, List.append_nil, hinit]
        · cases init <;> rfl

theorem splitDrive_start {start : Text} (h : start <+: (P.splitDrive path).2) :
    P.splitDrive ((P.splitDrive path).1 ++ start) = ((P.splitDrive path).1, start) := by
  rcases splitDrive_cases (P := P) path with hnone | ⟨hwindows, letter, hletter, hdrive⟩
  · have hwhole := P.splitDrive_append path
    rw [hnone, List.nil_append] at hwhole
    rw [hwhole] at h
    rw [hnone, List.nil_append]
    rcases splitDrive_cases (P := P) start with hstart | ⟨hwindows, letter, hletter, hstart⟩
    · have hsplit := P.splitDrive_append start
      rw [hstart, List.nil_append] at hsplit
      exact Prod.ext hstart hsplit
    · have hsplit := P.splitDrive_append start
      rcases h with ⟨tail, htail⟩
      rw [← htail, ← hsplit, hstart, hwindows] at hnone
      simp [splitDrive_letter hletter] at hnone
  · rw [hdrive, hwindows]
    exact splitDrive_letter hletter start

theorem components_parentPath {init : List Component} (h : P.components path = init ++ [c])
    (hc : isName c = true) :
    exists start, parentPath P path = some start ∧ P.components start = init := by
  have hsteps : exists names, stepsOf P path = names ++ [c] := by
    rcases List.eq_nil_or_concat' (stepsOf P path) with hnil | ⟨names, last, hnames⟩
    · rw [components_eq, hnil, List.append_nil] at h
      have hanchor : c ∈ anchorsOf P path := by
        rw [h]
        exact List.mem_append_right _ List.mem_cons_self
      have hnot := anchor_of_mem hanchor
      cases c with
      | parent => exact absurd rfl hnot.2
      | normal name => cases hnot.1
      | drive name => cases hc
      | root => cases hc
    · rw [components_eq, hnames, ← List.append_assoc] at h
      have hlast := (List.append_inj' h rfl).2
      injection hlast with hlast
      exact ⟨names, by rw [hnames, hlast]⟩
  rcases hsteps with ⟨names, hnames⟩
  have hinit : init = anchorsOf P path ++ names := by
    rw [components_eq, hnames, ← List.append_assoc] at h
    exact ((List.append_inj' h rfl).1).symm
  have hempty : forall d, d ∈ ([] : Text) -> P.isSep d = false := by simp
  have hrest : P.names ((P.splitDrive path).2 ++ []) = names ++ [c] := by
    rw [List.append_nil]
    exact hnames
  rcases exists_start_of_names hempty hrest with ⟨start, hstart, hread, hsep⟩
  rw [List.append_nil] at hstart hsep
  have hwhole : (P.splitDrive path).1 ++ start ∈ path.inits := by
    rw [List.mem_inits]
    nth_rewrite 2 [← P.splitDrive_append path]
    exact List.prefix_append_right_inj _ |>.mpr hstart
  have hcomponents : P.components ((P.splitDrive path).1 ++ start) = init := by
    rw [components_eq, anchorsOf, stepsOf, splitDrive_start hstart, hread, hsep, hinit]
    rfl
  unfold parentPath
  rw [h, List.getLast?_concat, List.dropLast_concat]
  simp only [hc, if_true]
  cases hfind : path.inits.find? (fun start => P.components start == init) with
  | none =>
    have hnone := List.find?_eq_none.mp hfind _ hwhole
    simp [hcomponents] at hnone
  | some found => exact ⟨found, rfl, by simpa using List.find?_some hfind⟩

theorem components_popPath {init : List Component} (h : P.components path = init ++ [c])
    (hc : isName c = true) :
    P.components (popPath P path) = init := by
  rcases components_parentPath h hc with ⟨start, hstart, hcomponents⟩
  unfold popPath
  rw [hstart]
  exact hcomponents

theorem popPath_drive (h : P.components path = [.drive name]) : popPath P path = path := by
  unfold popPath parentPath
  rw [h]
  rfl

/-!
# One step of the loop
-/

theorem components_join_name (h : PathName P name) (hdrive : P.hasDrive name = false)
    (base : Text) :
    P.components (P.join base name) = P.components base ++ [.normal name] := by
  have hrelative : P.anchored name = false := by
    unfold Platform.anchored
    rw [hdrive, h.startsAtSep]
    rfl
  rw [Platform.components_join_relative hrelative, h.names_eq]

def restOf (P : Platform) (name : Text) : List Component :=
  (Platform.nameOf (P.splitDrive name).2).toList

theorem components_join_drive (h : PathName P name) (hdrive : P.hasDrive name = true)
    (base : Text) :
    P.components (P.join base name) =
      .drive (P.splitDrive name).1 :: restOf P name := by
  have hjoin : P.join base name = name := by
    unfold Platform.join
    rw [hdrive, Bool.true_or, if_pos rfl]
  have hrest : forall c, c ∈ (P.splitDrive name).2 -> P.isSep c = false := by
    intro c hc
    apply h.no_sep
    rw [← P.splitDrive_append name]
    exact List.mem_append_right _ hc
  have hsep : P.startsAtSep (P.splitDrive name).2 = false := by
    cases hname : (P.splitDrive name).2 with
    | nil => rfl
    | cons c rest => exact hrest c (by rw [hname]; exact List.mem_cons_self)
  have hsome : (P.splitDrive name).1 ≠ [] := by
    intro hnil
    unfold Platform.hasDrive at hdrive
    rw [hnil] at hdrive
    cases hdrive
  rw [hjoin, components_eq, anchorsOf, stepsOf, if_neg hsome, hsep, P.names_of_no_sep hrest]
  rfl

theorem restOf_cases (hdrive : P.hasDrive name = true) :
    restOf P name = [] ∨
      exists c, restOf P name = [c] ∧ isName c = true ∧ c ≠ .normal name := by
  unfold restOf
  cases hrest : Platform.nameOf (P.splitDrive name).2 with
  | none => exact .inl rfl
  | some c =>
    refine .inr ⟨c, rfl, ?_, ?_⟩
    · unfold Platform.nameOf at hrest
      split at hrest
      · cases hrest
      · split at hrest <;> cases hrest <;> rfl
    · intro hc
      have hsame : (P.splitDrive name).2 = name := by
        rw [hc] at hrest
        unfold Platform.nameOf at hrest
        split at hrest
        · cases hrest
        · split at hrest
          · cases hrest
          · injection hrest with hrest
            injection hrest
      have hwhole := congrArg List.length (P.splitDrive_append name)
      rw [hsame, List.length_append] at hwhole
      have hempty : (P.splitDrive name).1 = [] := by simpa using hwhole
      unfold Platform.hasDrive at hdrive
      rw [hempty] at hdrive
      cases hdrive

def Steps (P : Platform) (path : List Component) : Prop :=
  forall c, c ∈ path -> c = .parent ∨ exists name, c = .normal name ∧ PathName P name

theorem steps_stepsOf (path : Text) : Steps P (stepsOf P path) := by
  intro c hc
  cases anchor_not_mem_names hc with
  | inl hparent => exact .inl hparent
  | inr hname =>
    rcases hname with ⟨name, rfl⟩
    exact .inr ⟨name, rfl, pathName_of_mem_names hc⟩

def NoDriveNames (P : Platform) (path : List Component) : Prop :=
  forall name, .normal name ∈ path -> P.hasDrive name = false

/-!
# A path without drive names
-/

theorem foldl_normalizeStep_resolve {anchors path : List Component}
    (hanchors : forall c, c ∈ anchors -> c.isNormal = false) (hpath : Steps P path)
    (hdrives : NoDriveNames P path) {out : Text} {names : List Text}
    (hout : P.components out = anchors ++ names.map .normal) :
    (path.foldl (normalizeStep P) (some (out, names.length))).map
        (fun state => P.components state.1) =
      resolve (anchors ++ names.map .normal) path := by
  induction path generalizing out names with
  | nil => rw [List.foldl_nil, Option.map_some, resolve, hout]
  | cons c rest ih =>
    have hrest : Steps P rest := fun d hd => hpath d (List.mem_cons_of_mem c hd)
    have hnone : NoDriveNames P rest := fun n hn => hdrives n (List.mem_cons_of_mem c hn)
    rw [List.foldl_cons]
    cases hpath c List.mem_cons_self with
    | inl hparent =>
      subst hparent
      rcases List.eq_nil_or_concat' names with rfl | ⟨init, last, rfl⟩
      · have hfail : normalizeStep P (some (out, 0)) .parent = none := rfl
        rw [List.length_nil, hfail, foldl_normalizeStep_none, List.map_nil, List.append_nil,
          Component.resolve_parent_of_anchors hanchors]
        rfl
      · rw [List.map_append, ← List.append_assoc, List.map_singleton] at hout ⊢
        have hpop : P.components (popPath P out) = anchors ++ init.map .normal :=
          components_popPath hout rfl
        rw [Component.resolve_parent, List.length_append]
        exact ih hrest hnone hpop
    | inr hname =>
      rcases hname with ⟨name, rfl, hnamed⟩
      have hjoin : P.components (P.join out name) =
          anchors ++ (names ++ [name]).map .normal := by
        rw [components_join_name hnamed (hdrives name List.mem_cons_self), hout,
          List.map_append, List.append_assoc]
        rfl
      have hnext := ih hrest hnone hjoin
      rw [List.length_append, List.map_append, ← List.append_assoc] at hnext
      rw [Component.resolve_of_ne_parent _ (by simp)]
      exact hnext

/-!
# Where a path starts
-/

theorem components_bare (h : (P.splitDrive name).2 = []) :
    P.components name = anchorsOf P name := by
  rw [components_eq, stepsOf, h, P.names_nil, List.append_nil]

theorem foldl_normalizeStep_anchors (path : Text) :
    exists out, (anchorsOf P path).foldl (normalizeStep P) (some ([], 0)) = some (out, 0) ∧
      P.components out = anchorsOf P path := by
  unfold anchorsOf
  rcases splitDrive_cases (P := P) path with hnone | ⟨hwindows, letter, hletter, hdrive⟩
  · rw [hnone, if_pos rfl, List.nil_append]
    split
    · refine ⟨P.join [] [P.mainSep], rfl, ?_⟩
      cases P <;> decide
    · refine ⟨[], rfl, ?_⟩
      cases P <;> decide
  · subst hwindows
    have hbare : Platform.windows.join [] [letter, ':'] = [letter, ':'] := by
      simp [Platform.join, Platform.hasDrive, splitDrive_letter hletter]
    rw [hdrive, if_neg (List.cons_ne_nil _ _)]
    split
    · refine ⟨Platform.windows.join (Platform.windows.join [] [letter, ':']) ['\\'], rfl, ?_⟩
      have hroot : Platform.windows.join [letter, ':'] ['\\'] = [letter, ':', '\\'] := by
        have hnoDrive : Platform.windows.hasDrive ['\\'] = false := by decide
        have hone : Platform.windows.startsAtTwoSeps ['\\'] = false := by decide
        have hrooted : Platform.windows.hasRoot ['\\'] = true := by decide
        simp [Platform.join, hnoDrive, hone, hrooted, splitDrive_letter hletter]
      rw [hbare, hroot, components_eq, anchorsOf, stepsOf, splitDrive_letter hletter]
      simp [Platform.startsAtSep, Platform.isSep, Platform.names, Platform.nameOf,
        List.splitOnP_cons_eq_if_modifyHead]
    · refine ⟨Platform.windows.join [] [letter, ':'], rfl, ?_⟩
      rw [hbare, components_bare (by rw [splitDrive_letter hletter]), anchorsOf,
        splitDrive_letter hletter]
      rfl

theorem anchors_not_normal (path : Text) :
    forall c, c ∈ anchorsOf P path -> c.isNormal = false :=
  fun _ hc => (anchor_of_mem hc).1

theorem resolve_components (path : Text) :
    resolve [] (P.components path) = resolve (anchorsOf P path) (stepsOf P path) := by
  rw [components_eq, Component.resolve_append,
    Component.resolve_of_no_parent [] (fun _ hc => (anchor_of_mem hc).2)]
  rfl

theorem lexicalNormalize_eq (path : Text) :
    exists start, P.components start = anchorsOf P path ∧
      lexicalNormalize P path =
        ((stepsOf P path).foldl (normalizeStep P) (some (start, 0))).map Prod.fst := by
  rcases foldl_normalizeStep_anchors (P := P) path with ⟨start, hfold, hstart⟩
  refine ⟨start, hstart, ?_⟩
  unfold lexicalNormalize
  rw [components_eq, List.foldl_append, hfold]

theorem lexicalNormalize_resolve (h : NoDriveNames P (stepsOf P path)) :
    (lexicalNormalize P path).map P.components = resolve [] (P.components path) := by
  rcases lexicalNormalize_eq (P := P) path with ⟨start, hstart, heq⟩
  have hout : P.components start = anchorsOf P path ++ ([] : List Text).map .normal := by
    rw [hstart, List.map_nil, List.append_nil]
  have hloop := foldl_normalizeStep_resolve (anchors_not_normal path) (steps_stepsOf path) h hout
  rw [List.map_nil, List.append_nil] at hloop
  rw [heq, resolve_components, Option.map_map]
  exact hloop

/-!
# A path with drive names
-/

def startAfter (P : Platform) (anchors path : List Component) : List Component :=
  path.foldl (fun start c =>
    match c with
    | .normal name => if P.hasDrive name then [.drive (P.splitDrive name).1] else start
    | _ => start) anchors

/-- What looks like a drive in the steps is taken back to the start they are made from. -/
def BackAtStart (P : Platform) (anchors path : List Component) : Prop :=
  exists front back, path = front ++ back ∧ resolve anchors front = some anchors ∧
    startAfter P anchors front = anchors ∧ NoDriveNames P back

theorem startAfter_append (anchors front back : List Component) :
    startAfter P anchors (front ++ back) = startAfter P (startAfter P anchors front) back := by
  unfold startAfter
  rw [List.foldl_append]

theorem startAfter_of_noDriveNames (anchors : List Component) {path : List Component}
    (h : NoDriveNames P path) : startAfter P anchors path = anchors := by
  induction path with
  | nil => rfl
  | cons c rest ih =>
    have hrest := ih (fun n hn => h n (List.mem_cons_of_mem c hn))
    cases c with
    | normal name =>
      have hname := h name List.mem_cons_self
      unfold startAfter
      rw [List.foldl_cons]
      simp only [hname, Bool.false_eq_true, if_false]
      exact hrest
    | drive name => exact hrest
    | root => exact hrest
    | parent => exact hrest

/-- How far the path built so far is from the one that the steps lead to: `kept` names are
taken for a drive with what is left of the last of them, `names` are in both. -/
structure Strayed (P : Platform) (anchors path : List Component) (out : Text) (depth : Nat)
    (front back : List Component) (kept names : List Text) (left : List Component) : Prop where
  split : path = front ++ back
  front_resolves : resolve anchors front = some (anchors ++ kept.map .normal)
  path_resolves : resolve anchors path = some (anchors ++ (kept ++ names).map .normal)
  no_drive : NoDriveNames P back
  components_out : P.components out = startAfter P anchors front ++ left ++ names.map .normal
  depth_eq : depth = kept.length + names.length
  on_drive : kept ≠ [] -> exists drive, startAfter P anchors front = [.drive drive]
  left_cases : left = [] ∨ exists init last c,
    kept = init ++ [last] ∧ left = [c] ∧ isName c = true ∧ c ≠ .normal last

section Step

variable {anchors path front back left : List Component} {out : Text} {depth : Nat}
  {kept names : List Text}

theorem noDriveNames_concat {c : Component} (hback : NoDriveNames P back)
    (hc : forall name, c = .normal name -> P.hasDrive name = false) :
    NoDriveNames P (back ++ [c]) := by
  intro name hname
  cases List.mem_append.mp hname with
  | inl hold => exact hback name hold
  | inr hnew => exact hc name (List.mem_singleton.mp hnew).symm

theorem resolve_concat_normal {reached : List Component} (name : Text)
    (h : resolve anchors path = some reached) :
    resolve anchors (path ++ [.normal name]) = some (reached ++ [.normal name]) := by
  rw [Component.resolve_append, h]
  rfl

theorem resolve_concat_parent {reached : List Component} {name : Text}
    (h : resolve anchors path = some (reached ++ [.normal name])) :
    resolve anchors (path ++ [.parent]) = some reached := by
  rw [Component.resolve_append, h, Option.bind_some, Component.resolve_parent]
  rfl

theorem Strayed.drive_name (h : Strayed P anchors path out depth front back kept names left)
    {name : Text} (hname : PathName P name) (hdrive : P.hasDrive name = true) :
    Strayed P anchors (path ++ [.normal name]) (P.join out name) (depth + 1)
      (path ++ [.normal name]) [] (kept ++ names ++ [name]) [] (restOf P name) := by
  have hstart : startAfter P anchors (path ++ [.normal name]) =
      [.drive (P.splitDrive name).1] := by
    rw [startAfter_append]
    unfold startAfter
    simp [hdrive]
  have hresolve : resolve anchors (path ++ [.normal name]) =
      some (anchors ++ (kept ++ names ++ [name]).map .normal) := by
    rw [resolve_concat_normal name h.path_resolves, List.append_assoc, List.map_append]
    simp
  constructor
  · rw [List.append_nil]
  · exact hresolve
  · rw [hresolve, List.append_nil]
  · intro n hn
    cases hn
  · rw [components_join_drive hname hdrive, hstart]
    simp
  · rw [h.depth_eq]
    simp [Nat.add_assoc]
  · intro _
    exact ⟨_, hstart⟩
  · cases restOf_cases hdrive with
    | inl hnone => exact .inl hnone
    | inr hsome =>
      rcases hsome with ⟨c, hc⟩
      exact .inr ⟨kept ++ names, name, c, rfl, hc⟩

theorem Strayed.plain_name (h : Strayed P anchors path out depth front back kept names left)
    {name : Text} (hname : PathName P name) (hdrive : P.hasDrive name = false) :
    Strayed P anchors (path ++ [.normal name]) (P.join out name) (depth + 1)
      front (back ++ [.normal name]) kept (names ++ [name]) left := by
  constructor
  · rw [h.split, List.append_assoc]
  · exact h.front_resolves
  · rw [resolve_concat_normal name h.path_resolves, ← List.append_assoc, List.append_assoc,
      List.map_append]
    simp
  · apply noDriveNames_concat h.no_drive
    intro n hn
    injection hn with hn
    rw [← hn, hdrive]
  · rw [components_join_name hname hdrive, h.components_out, List.map_append,
      ← List.append_assoc]
    rfl
  · rw [h.depth_eq, List.length_append]
    rfl
  · exact h.on_drive
  · exact h.left_cases

theorem Strayed.up {last : Text}
    (h : Strayed P anchors path out depth front back kept (names ++ [last]) left) :
    Strayed P anchors (path ++ [.parent]) (popPath P out) (depth - 1)
      front (back ++ [.parent]) kept names left := by
  constructor
  · rw [h.split, List.append_assoc]
  · exact h.front_resolves
  · apply resolve_concat_parent
    rw [h.path_resolves, ← List.append_assoc, List.map_append, ← List.append_assoc]
    rfl
  · apply noDriveNames_concat h.no_drive
    intro n hn
    cases hn
  · have hout := h.components_out
    rw [List.map_append, ← List.append_assoc] at hout
    exact components_popPath hout rfl
  · rw [h.depth_eq, List.length_append, List.length_singleton, ← Nat.add_assoc,
      Nat.add_sub_cancel]
  · exact h.on_drive
  · exact h.left_cases

theorem Strayed.up_kept {last : Text}
    (h : Strayed P anchors path out depth front back (kept ++ [last]) [] left) :
    Strayed P anchors (path ++ [.parent]) (popPath P out) (depth - 1)
      (path ++ [.parent]) [] kept [] [] := by
  have hstart : startAfter P anchors (path ++ [.parent]) = startAfter P anchors front := by
    rw [startAfter_append, h.split, startAfter_append,
      startAfter_of_noDriveNames _ h.no_drive]
    rfl
  have hresolve : resolve anchors (path ++ [.parent]) =
      some (anchors ++ kept.map .normal) := by
    apply resolve_concat_parent
    rw [h.path_resolves, List.append_nil, List.map_append, ← List.append_assoc]
    rfl
  rcases h.on_drive (by simp) with ⟨drive, hdrive⟩
  constructor
  · rw [List.append_nil]
  · exact hresolve
  · rw [hresolve, List.append_nil]
  · intro n hn
    cases hn
  · rw [hstart, List.map_nil, List.append_nil, List.append_nil]
    have hout := h.components_out
    rw [List.map_nil, List.append_nil] at hout
    rcases h.left_cases with hnone | ⟨_, _, c, _, hleft, hc, _⟩
    · rw [hnone, List.append_nil] at hout
      rw [popPath_drive (hout.trans hdrive), hout]
    · rw [hleft] at hout
      exact components_popPath hout hc
  · rw [h.depth_eq]
    simp
  · intro _
    exact ⟨drive, hstart.trans hdrive⟩
  · exact .inl rfl

end Step

variable {anchors path : List Component} {out : Text} {depth : Nat}

theorem strayed_start {start : Text} (h : P.components start = anchors) :
    Strayed P anchors [] start 0 [] [] [] [] [] := by
  constructor
  · rfl
  · simp [resolve]
  · simp [resolve]
  · intro n hn
    cases hn
  · simp [h, startAfter]
  · rfl
  · intro hne
    exact absurd rfl hne
  · exact .inl rfl

theorem strayed_of_foldl (hpath : Steps P path) {start : Text}
    (hstart : P.components start = anchors)
    (h : path.foldl (normalizeStep P) (some (start, 0)) = some (out, depth)) :
    exists front back kept names left,
      Strayed P anchors path out depth front back kept names left := by
  induction path using List.reverseRecOn generalizing out depth with
  | nil =>
    cases h
    exact ⟨[], [], [], [], [], strayed_start hstart⟩
  | append_singleton init c ih =>
    rw [List.foldl_append, List.foldl_cons, List.foldl_nil] at h
    have hinit : Steps P init := fun d hd => hpath d (List.mem_append_left _ hd)
    cases hfold : init.foldl (normalizeStep P) (some (start, 0)) with
    | none =>
      rw [hfold] at h
      cases h
    | some state =>
      rcases ih hinit hfold with ⟨front, back, kept, names, left, hstrayed⟩
      rw [hfold] at h
      cases hpath c (List.mem_append_right _ List.mem_cons_self) with
      | inr hname =>
        rcases hname with ⟨name, rfl, hnamed⟩
        cases h
        cases hdrive : P.hasDrive name with
        | true => exact ⟨_, _, _, _, _, hstrayed.drive_name hnamed hdrive⟩
        | false => exact ⟨_, _, _, _, _, hstrayed.plain_name hnamed hdrive⟩
      | inl hparent =>
        subst hparent
        have hup : (if state.2 = 0 then none else some (popPath P state.1, state.2 - 1)) =
            some (out, depth) := h
        split at hup
        · cases hup
        · rename_i hdepth
          cases hup
          rcases List.eq_nil_or_concat' names with rfl | ⟨more, last, rfl⟩
          · rcases List.eq_nil_or_concat' kept with rfl | ⟨more, last, rfl⟩
            · exact absurd hstrayed.depth_eq hdepth
            · exact ⟨_, _, _, _, _, hstrayed.up_kept⟩
          · exact ⟨_, _, _, _, _, hstrayed.up⟩

/-!
# Where a path with drive names is resolved
-/

theorem Strayed.left_eq_nil {front back left : List Component} {names : List Text}
    (h : Strayed P anchors path out depth front back [] names left) : left = [] := by
  rcases h.left_cases with hnone | ⟨init, last, _, hkept, _⟩
  · exact hnone
  · simp at hkept

theorem Strayed.components_eq_iff {front back left : List Component} {kept names : List Text}
    (h : Strayed P anchors path out depth front back kept names left) :
    P.components out = anchors ++ (kept ++ names).map .normal <->
      kept = [] ∧ startAfter P anchors front = anchors := by
  constructor
  · intro hout
    rw [h.components_out, List.map_append, ← List.append_assoc] at hout
    have hstart := List.append_cancel_right hout
    rcases List.eq_nil_or_concat' kept with rfl | ⟨init, last, rfl⟩
    · rw [h.left_eq_nil, List.append_nil, List.map_nil, List.append_nil] at hstart
      exact ⟨rfl, hstart⟩
    · rcases h.on_drive (by simp) with ⟨drive, hdrive⟩
      rw [hdrive, List.map_append, ← List.append_assoc, List.map_singleton] at hstart
      rcases h.left_cases with hnone | ⟨_, other, c, hkept, hleft, _, hc⟩
      · rw [hnone, List.append_nil] at hstart
        have hlast := congrArg List.getLast? hstart
        rw [List.getLast?_concat] at hlast
        cases hlast
      · rw [hleft] at hstart
        have hlast := (List.append_inj' hstart rfl).2
        have hsame := (List.append_inj' hkept rfl).2
        injection hlast with hlast
        injection hsame with hsame
        rw [hlast, hsame] at hc
        exact absurd rfl hc
  · intro hback
    rcases hback with ⟨rfl, hstart⟩
    rw [h.components_out, h.left_eq_nil, hstart, List.append_nil, List.nil_append]

/-- A path is resolved exactly when its drive names are taken back to its start. -/
theorem resolve_eq_some_iff {path : Text} (h : lexicalNormalize P path = some out) :
    resolve [] (P.components path) = some (P.components out) <->
      BackAtStart P (anchorsOf P path) (stepsOf P path) := by
  rcases lexicalNormalize_eq (P := P) path with ⟨start, hstart, heq⟩
  rw [heq] at h
  rcases Option.map_eq_some_iff.mp h with ⟨⟨out, depth⟩, hfold, rfl⟩
  rw [resolve_components]
  constructor
  · intro hresolve
    rcases strayed_of_foldl (steps_stepsOf path) hstart hfold with
      ⟨front, back, kept, names, left, hstrayed⟩
    rw [hstrayed.path_resolves] at hresolve
    injection hresolve with hout
    rcases hstrayed.components_eq_iff.mp hout.symm with ⟨rfl, hsame⟩
    refine ⟨front, back, hstrayed.split, ?_, hsame, hstrayed.no_drive⟩
    rw [hstrayed.front_resolves, List.map_nil, List.append_nil]
  · intro hback
    rcases hback with ⟨front, back, hsplit, hfront, hsame, hnone⟩
    have hsteps := steps_stepsOf (P := P) path
    rw [hsplit] at hfold hsteps ⊢
    rw [List.foldl_append] at hfold
    cases hfirst : front.foldl (normalizeStep P) (some (start, 0)) with
    | none =>
      rw [hfirst, foldl_normalizeStep_none] at hfold
      cases hfold
    | some state =>
      have hfrontSteps : Steps P front := fun c hc => hsteps c (List.mem_append_left _ hc)
      have hbackSteps : Steps P back := fun c hc => hsteps c (List.mem_append_right _ hc)
      rcases strayed_of_foldl hfrontSteps hstart hfirst with
        ⟨first, second, kept, names, left, hstrayed⟩
      have hpath := hstrayed.path_resolves
      rw [hfront] at hpath
      injection hpath with hpath
      have hnames : (kept ++ names).map Component.normal = [] := by simpa using hpath
      rcases List.append_eq_nil_iff.mp (List.map_eq_nil_iff.mp hnames) with ⟨rfl, rfl⟩
      have hon : startAfter P (anchorsOf P path) first = anchorsOf P path := by
        rwa [hstrayed.split, startAfter_append,
          startAfter_of_noDriveNames _ hstrayed.no_drive] at hsame
      have hout : P.components state.1 = anchorsOf P path ++ ([] : List Text).map .normal := by
        rw [hstrayed.components_out, hstrayed.left_eq_nil, hon, List.append_nil]
      have hdepth : state = (state.1, ([] : List Text).length) :=
        Prod.ext rfl hstrayed.depth_eq
      have hloop := foldl_normalizeStep_resolve (anchors_not_normal path) hbackSteps hnone hout
      rw [← hdepth, ← hfirst, hfold, List.map_nil, List.append_nil] at hloop
      rw [Component.resolve_append, hfront, Option.bind_some, ← hloop]
      rfl

theorem backAtStart_unix (anchors path : List Component) : BackAtStart .unix anchors path :=
  ⟨[], path, rfl, rfl, rfl, fun _ _ => rfl⟩

theorem lexicalNormalize_again {path : Text}
    (hback : BackAtStart P (anchorsOf P path) (stepsOf P path))
    (h : resolve [] (P.components path) = some (P.components out)) :
    exists again, lexicalNormalize P out = some again ∧
      P.components again = P.components out := by
  rw [resolve_components] at h
  rcases hback with ⟨front, back, hsplit, hfront, _, hnone⟩
  have hreach : resolve (anchorsOf P path) back = some (P.components out) := by
    rw [hsplit, Component.resolve_append, hfront] at h
    exact h
  have hdrives : NoDriveNames P (stepsOf P out) := by
    intro name hname
    have hmem : .normal name ∈ P.components out := by
      rw [components_eq]
      exact List.mem_append_right _ hname
    cases Component.mem_of_resolve hreach _ hmem with
    | inl hanchor => cases anchors_not_normal path _ hanchor
    | inr hstep => exact hnone name hstep
  have hparent : forall c, c ∈ P.components out -> c ≠ .parent :=
    Component.no_parent_of_resolve (fun _ hc => (anchor_of_mem hc).2) hreach
  have hagain := lexicalNormalize_resolve hdrives
  rw [Component.resolve_of_no_parent [] hparent, List.nil_append] at hagain
  exact Option.map_eq_some_iff.mp hagain

/-!
# The path that is joined
-/

theorem onto_steps (h : forall c, c ∈ path -> c = .parent ∨ exists name, c = .normal name)
    (base : List Component) : Component.onto base path = base ++ path := by
  cases path with
  | nil => rfl
  | cons c rest =>
    cases h c List.mem_cons_self with
    | inl hparent => rw [hparent, Component.onto] <;> simp
    | inr hname =>
      rcases hname with ⟨name, rfl⟩
      rw [Component.onto] <;> simp

theorem takeWhile_isDrive (base : Text) :
    (P.components base).takeWhile Component.isDrive =
      if (P.splitDrive base).1 = [] then [] else [.drive (P.splitDrive base).1] := by
  have hnone : forall c,
      c ∈ (if P.startsAtSep (P.splitDrive base).2 then [Component.root] else []) ++
        stepsOf P base -> c.isDrive = false := by
    intro c hc
    cases List.mem_append.mp hc with
    | inl hroot =>
      split at hroot
      · rw [List.mem_singleton.mp hroot]
        rfl
      · cases hroot
    | inr hstep =>
      cases anchor_not_mem_names hstep with
      | inl hparent => rw [hparent]; rfl
      | inr hname =>
        rcases hname with ⟨name, rfl⟩
        rfl
  have hrest : List.takeWhile Component.isDrive
      ((if P.startsAtSep (P.splitDrive base).2 then [Component.root] else []) ++
        stepsOf P base) = [] := by
    cases htail : (if P.startsAtSep (P.splitDrive base).2 then [Component.root] else []) ++
        stepsOf P base with
    | nil => rfl
    | cons c rest =>
      rw [List.takeWhile_cons_of_neg]
      rw [hnone c (by rw [htail]; exact List.mem_cons_self)]
      exact Bool.false_ne_true
  rw [components_eq, anchorsOf, List.append_assoc]
  split
  · exact hrest
  · rw [List.singleton_append, List.takeWhile_cons_of_pos rfl, hrest]

theorem components_join {rel : Text} (h : P.startsAtTwoSeps rel = false) (base : Text) :
    P.components (P.join base rel) = Component.onto (P.components base) (P.components rel) := by
  cases hdrive : P.hasDrive rel with
  | true =>
    have hjoin : P.join base rel = rel := by
      unfold Platform.join
      rw [hdrive, Bool.true_or, if_pos rfl]
    have hsome : (P.splitDrive rel).1 ≠ [] := by
      intro hnil
      unfold Platform.hasDrive at hdrive
      rw [hnil] at hdrive
      cases hdrive
    rw [hjoin, components_eq, anchorsOf, if_neg hsome, List.append_assoc]
    rfl
  | false =>
    have hnone : (P.splitDrive rel).1 = [] := by simpa [Platform.hasDrive] using hdrive
    have hsplit : P.splitDrive rel = ([], rel) := by
      have hwhole := P.splitDrive_append rel
      rw [hnone, List.nil_append] at hwhole
      exact Prod.ext hnone hwhole
    cases hsep : P.startsAtSep rel with
    | true =>
      have hjoin : P.join base rel = (P.splitDrive base).1 ++ rel := by
        unfold Platform.join Platform.hasRoot
        rw [hdrive, h, hsplit, hsep]
        rfl
      have hbare := Platform.splitDrive_bare_append (P.splitDrive_drive base) hsplit
      rw [hjoin, components_eq, anchorsOf, stepsOf, hbare, components_eq rel, anchorsOf,
        stepsOf, hsplit]
      simp only [hsep, if_true]
      rw [List.nil_append, List.singleton_append, Component.onto, takeWhile_isDrive,
        List.append_assoc]
      rfl
    | false =>
      have hrelative : P.anchored rel = false := by
        unfold Platform.anchored
        rw [hdrive, hsep]
        rfl
      have hnames : P.components rel = P.names rel := by
        rw [components_eq, anchorsOf, stepsOf, hsplit]
        simp [hsep]
      rw [Platform.components_join_relative hrelative, hnames,
        onto_steps (fun _ hc => anchor_not_mem_names hc)]

/-!
# Containment
-/

/-- What the relative parent of a POM is promised to be. -/
structure Contained (P : Platform) (pomPath rel projectRoot path : Text) : Prop where
  no_parent : .parent ∉ P.components path
  normal_form : exists again, lexicalNormalize P path = some again ∧
    P.components again = P.components path
  resolved : exists directory, parentPath P pomPath = some directory ∧
    resolve [] (Component.onto (P.components directory) (P.components rel)) =
      some (P.components path)
  under_root : exists root, lexicalNormalize P projectRoot = some root ∧
    P.components root <+: P.components path

/-- The relative parent is the normal form of the joined path, under that of the root. -/
theorem projectLocalParent_eq_some {env : Environment} {pomPath rel projectRoot path : Text}
    (h : projectLocalParent env pomPath rel projectRoot = some path) :
    isAbsolute env.platform rel = false ∧
      (exists directory, parentPath env.platform pomPath = some directory ∧
        lexicalNormalize env.platform (env.platform.join directory rel) = some path) ∧
      exists root, lexicalNormalize env.platform projectRoot = some root ∧
        env.platform.components root <+: env.platform.components path := by
  unfold projectLocalParent at h
  split at h
  · cases h
  · rename_i hrel
    rcases Option.bind_eq_some_iff.mp h with ⟨directory, hdirectory, h⟩
    rcases Option.bind_eq_some_iff.mp h with ⟨candidate, hcandidate, h⟩
    rcases Option.bind_eq_some_iff.mp h with ⟨root, hroot, h⟩
    split at h
    · rename_i hunder
      rcases Option.bind_eq_some_iff.mp h with ⟨canon, _, h⟩
      rcases Option.bind_eq_some_iff.mp h with ⟨canonRoot, _, h⟩
      split at h
      · cases h
        have hrelative := (Bool.or_eq_false_iff.mp (Bool.not_eq_true _ |>.mp hrel)).2
        refine ⟨hrelative, ⟨directory, hdirectory, hcandidate⟩, root, hroot, ?_⟩
        have hprefix := (Bool.and_eq_true_iff.mp hunder).1
        exact List.isPrefixOf_iff_prefix.mp hprefix
      · cases h
    · cases h

/-- The relative parent of a POM is contained in the project exactly when the drive names
on its way are taken back to the start of that way. -/
theorem relative_parent_contained_iff (env : Environment) :
    (forall pomPath rel projectRoot path directory,
      projectLocalParent env pomPath rel projectRoot = some path ->
      parentPath env.platform pomPath = some directory ->
        (Contained env.platform pomPath rel projectRoot path <->
          BackAtStart env.platform (anchorsOf env.platform (env.platform.join directory rel))
            (stepsOf env.platform (env.platform.join directory rel)))) ∧
    (forall path, lexicalNormalize env.platform path = none <->
      ClimbsAbove (env.platform.components path)) ∧
    forall path out, lexicalNormalize env.platform path = some out ->
      ((resolve [] (env.platform.components path) = some (env.platform.components out) ∧
        exists again, lexicalNormalize env.platform out = some again ∧
          env.platform.components again = env.platform.components out) <->
        BackAtStart env.platform (anchorsOf env.platform path) (stepsOf env.platform path)) := by
  refine ⟨?_, lexicalNormalize_eq_none_iff, ?_⟩
  · intro pomPath rel projectRoot path directory hpath hdirectory
    rcases projectLocalParent_eq_some hpath with ⟨hrel, ⟨other, hother, hnormal⟩, hroot⟩
    have hsame : other = directory := Option.some_inj.mp (hother.symm.trans hdirectory)
    rw [hsame] at hnormal
    have htwo : env.platform.startsAtTwoSeps rel = false := by
      unfold isAbsolute at hrel
      exact (Bool.or_eq_false_iff.mp hrel).1
    have hjoin := components_join htwo directory
    constructor
    · intro hcontained
      rcases hcontained.resolved with ⟨again, hagain, hresolved⟩
      rw [Option.some_inj.mp (hagain.symm.trans hdirectory), ← hjoin] at hresolved
      exact (resolve_eq_some_iff hnormal).mp hresolved
    · intro hback
      have hresolved := (resolve_eq_some_iff hnormal).mpr hback
      constructor
      · intro hparent
        exact Component.no_parent_of_resolve (by simp) hresolved _ hparent rfl
      · exact lexicalNormalize_again hback hresolved
      · rw [hjoin] at hresolved
        exact ⟨directory, hdirectory, hresolved⟩
      · exact hroot
  · intro path out hout
    constructor
    · intro hresolved
      exact (resolve_eq_some_iff hout).mp hresolved.1
    · intro hback
      have hresolved := (resolve_eq_some_iff hout).mpr hback
      exact ⟨hresolved, lexicalNormalize_again hback hresolved⟩

namespace DriveName

def nested : Environment :=
  .ofDocuments (fun path => if path = "/p/pom.xml".toList then some (.tag "project" []) else none)
    { locatePom := fun _ _ _ => none, locateJar := fun _ _ _ => none }

def onDrive : Environment :=
  { nested with
    platform := .windows
    isFile := fun path => path == "C:x".toList
    canonicalize := fun path =>
      if path = ".".toList then some "C:\\p".toList
      else if path = "C:x".toList then some "C:\\p\\x".toList
      else none }

theorem nested_parent_contained :
    Contained .unix "/p/m/pom.xml".toList "../pom.xml".toList "/p".toList "/p/pom.xml".toList :=
  ((relative_parent_contained_iff nested).1 "/p/m/pom.xml".toList "../pom.xml".toList
    "/p".toList "/p/pom.xml".toList "/p/m".toList (by decide +kernel) (by decide +kernel)).mpr
    (backAtStart_unix _ _)

/-- `a/C:x` leads to `C:x`, and `a/C:..` to a path that still goes up. -/
theorem drive_name_not_contained :
    projectLocalParent onDrive "pom.xml".toList "a/C:x".toList ".".toList = some "C:x".toList ∧
      ¬ Contained .windows "pom.xml".toList "a/C:x".toList ".".toList "C:x".toList ∧
      lexicalNormalize .windows "a/C:..".toList = some "C:..".toList ∧
      lexicalNormalize .windows "C:..".toList = none := by
  refine ⟨by decide +kernel, ?_, by decide +kernel, by decide +kernel⟩
  intro hcontained
  rcases hcontained.resolved with ⟨directory, hdirectory, hresolved⟩
  have hempty : parentPath .windows "pom.xml".toList = some [] := by decide +kernel
  have hsame : directory = [] := Option.some_inj.mp (hdirectory.symm.trans hempty)
  rw [hsame] at hresolved
  exact absurd hresolved (by decide +kernel)

end DriveName

end Classpath
end JavaVsixLite
