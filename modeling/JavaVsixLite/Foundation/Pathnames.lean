import Mathlib.Data.List.Infix
import JavaVsixLite.Foundation.ByteText
import JavaVsixLite.Foundation.JoinedLists

/-!
# Path names

A path is a text.  Its components are a drive (on a platform that has drives), a
root when it starts with a separator, and its names; empty names and `.` count
for nothing.  Joining a path to a base appends it, unless it starts at a root or
on a drive of its own.

A path stays under a root when its components are those of the root followed by
ordinary names only.  Prefixes of the Windows platform other than drives are
taken for rooted paths.
-/

namespace JavaVsixLite
namespace Foundation

inductive Platform where
  | unix
  | windows
deriving DecidableEq

inductive Component where
  | drive (name : Text)
  | root
  | parent
  | normal (name : Text)
deriving DecidableEq

def Component.isNormal : Component -> Bool
  | .normal _ => true
  | _ => false

namespace Platform

variable (P : Platform)

def isSep (c : Char) : Bool :=
  match P with
  | .unix => c == '/'
  | .windows => c == '/' || c == '\\'

def mainSep : Char :=
  match P with
  | .unix => '/'
  | .windows => '\\'

def splitDrive (path : Text) : Text × Text :=
  match P, path with
  | .windows, letter :: ':' :: rest =>
    if letter.isAlpha then ([letter, ':'], rest) else ([], path)
  | _, _ => ([], path)

def hasDrive (path : Text) : Bool :=
  !(P.splitDrive path).1.isEmpty

def startsAtSep (path : Text) : Bool :=
  path.head?.any P.isSep

def hasRoot (path : Text) : Bool :=
  P.startsAtSep (P.splitDrive path).2

def startsAtTwoSeps (path : Text) : Bool :=
  P == .windows && P.startsAtSep path && P.startsAtSep path.tail

def nameOf (name : Text) : Option Component :=
  if name = [] ∨ name = ['.'] then none
  else if name = ['.', '.'] then some .parent
  else some (.normal name)

def names (path : Text) : List Component :=
  (path.splitOnP P.isSep).filterMap nameOf

def components (path : Text) : List Component :=
  let split := P.splitDrive path
  (if split.1 = [] then [] else [.drive split.1]) ++
    (if P.startsAtSep split.2 then [.root] else []) ++ P.names split.2

/-- A separator goes between, unless one is there or the base is a bare drive or empty. -/
def needsSep (base : Text) : Bool :=
  !(P.splitDrive base).2.isEmpty && !base.getLast?.any P.isSep

def join (base path : Text) : Text :=
  if P.hasDrive path || P.startsAtTwoSeps path then path
  else if P.hasRoot path then (P.splitDrive base).1 ++ path
  else if P.needsSep base then base ++ P.mainSep :: path
  else base ++ path

/-- `Path::starts_with` -/
def startsWith (path base : Text) : Bool :=
  (P.components base).isPrefixOf (P.components path)

def StaysUnder (root path : Text) : Prop :=
  P.components root <+: P.components path ∧
    forall c, c ∈ (P.components path).drop (P.components root).length -> c.isNormal = true

instance (root path : Text) : Decidable (P.StaysUnder root path) :=
  inferInstanceAs (Decidable (_ ∧ forall c, c ∈ _ -> _))

example : Platform.unix.StaysUnder "/m2".toList
    (Platform.unix.join "/m2".toList "a/./b.jar".toList) := by
  decide

example : ¬ Platform.unix.StaysUnder "/m2".toList
    (Platform.unix.join "/m2".toList "/etc/b.jar".toList) := by
  decide

/-!
# Components of a joined path
-/

theorem isSep_mainSep : P.isSep P.mainSep = true := by
  cases P <;> decide

theorem names_nil : P.names [] = [] := by
  cases P <;> decide

theorem names_append_sep (xs ys : Text) {sep : Char} (hsep : P.isSep sep = true) :
    P.names (xs ++ sep :: ys) = P.names xs ++ P.names ys := by
  unfold names
  rw [List.splitOnP_append_cons xs ys hsep, List.filterMap_append]

theorem names_of_no_sep {name : Text} (h : forall c, c ∈ name -> P.isSep c = false) :
    P.names name = (nameOf name).toList := by
  unfold names
  rw [List.splitOnP_eq_singleton h]
  cases hname : nameOf name <;> simp [hname]

theorem splitOnP_append_of_no_sep {p : Char -> Bool} {stem : Text}
    (h : forall c, c ∈ stem -> p c = false) (text : Text) :
    (stem ++ text).splitOnP p = (text.splitOnP p).modifyHead (fun piece => stem ++ piece) := by
  induction stem with
  | nil =>
    cases hsplit : text.splitOnP p with
    | nil => simp [hsplit]
    | cons head tail => simp [hsplit]
  | cons first stem ih =>
    have hfirst : p first = false := h first List.mem_cons_self
    have hstem : forall c, c ∈ stem -> p c = false :=
      fun c hc => h c (List.mem_cons_of_mem first hc)
    rw [List.cons_append, List.splitOnP_cons_eq_if_modifyHead, hfirst, ih hstem]
    cases text.splitOnP p with
    | nil => rfl
    | cons head tail => rfl

theorem nameOf_normal {name : Text} (h : name ≠ ['.', '.']) {c : Component}
    (hc : nameOf name = some c) : c.isNormal = true := by
  unfold nameOf at hc
  rw [if_neg h] at hc
  split at hc
  · cases hc
  · cases hc
    rfl

theorem filterMap_nameOf_normal_iff {pieces : List Text} :
    (forall c, c ∈ pieces.filterMap nameOf -> c.isNormal = true) <-> ['.', '.'] ∉ pieces := by
  constructor
  · intro h hmem
    have hparent := h .parent (List.mem_filterMap.mpr ⟨['.', '.'], hmem, rfl⟩)
    cases hparent
  · intro h c hc
    rcases List.mem_filterMap.mp hc with ⟨name, hname, hof⟩
    refine nameOf_normal ?_ hof
    rintro rfl
    exact h hname

theorem names_normal_of_no_dot {text : Text} (h : '.' ∉ text) :
    forall c, c ∈ P.names text -> c.isNormal = true := by
  refine filterMap_nameOf_normal_iff.mpr ?_
  intro hmem
  exact h (mem_of_mem_splitOnP hmem '.' List.mem_cons_self).1

theorem splitDrive_unix (path : Text) : Platform.unix.splitDrive path = ([], path) := rfl

theorem splitDrive_append (path : Text) :
    (P.splitDrive path).1 ++ (P.splitDrive path).2 = path := by
  unfold splitDrive
  split
  · split <;> rfl
  · rfl

theorem not_isAlpha_of_isSep {c : Char} (h : P.isSep c = true) : c.isAlpha = false := by
  cases P with
  | unix =>
    have hc : c = '/' := by simpa [isSep] using h
    rw [hc]
    decide
  | windows =>
    have hc : c = '/' ∨ c = '\\' := by simpa [isSep] using h
    rcases hc with rfl | rfl <;> decide

theorem splitDrive_append_text {base : Text} (tail : Text)
    (hbase : (P.splitDrive base).2 ≠ [])
    (htail : tail.head? = some ':' -> base.getLast?.any P.isSep = true) :
    P.splitDrive (base ++ tail) =
      ((P.splitDrive base).1, (P.splitDrive base).2 ++ tail) := by
  cases P with
  | unix => simp [splitDrive_unix]
  | windows =>
    match base with
    | [] => exact absurd rfl hbase
    | [c] =>
      match tail with
      | [] => rfl
      | d :: rest =>
        by_cases hd : d = ':'
        · subst hd
          have hsep : Platform.windows.isSep c = true := by simpa using htail rfl
          have hletter := not_isAlpha_of_isSep Platform.windows hsep
          simp [splitDrive, hletter]
        · simp [splitDrive, hd]
    | c :: d :: rest =>
      by_cases hd : d = ':'
      · subst hd
        by_cases hletter : c.isAlpha = true
        · simp [splitDrive, hletter]
        · simp [splitDrive, hletter]
      · simp [splitDrive, hd]

def anchored (path : Text) : Bool :=
  P.hasDrive path || P.startsAtSep path

section Relative

variable {P} {path : Text}

theorem relative_iff : P.anchored path = false <->
    P.splitDrive path = ([], path) ∧ P.startsAtSep path = false := by
  unfold anchored
  rw [Bool.or_eq_false_iff]
  constructor
  · rintro ⟨hdrive, hsep⟩
    refine ⟨?_, hsep⟩
    have hnone : (P.splitDrive path).1 = [] := by simpa [hasDrive] using hdrive
    have hwhole := P.splitDrive_append path
    rw [hnone, List.nil_append] at hwhole
    exact Prod.ext hnone hwhole
  · rintro ⟨hdrive, hsep⟩
    exact ⟨by simp [hasDrive, hdrive], hsep⟩

theorem join_relative (h : P.anchored path = false) (base : Text) :
    P.join base path =
      base ++ (if P.needsSep base then P.mainSep :: path else path) := by
  rcases relative_iff.mp h with ⟨hdrive, hsep⟩
  have hrooted : P.hasRoot path = false := by simp [hasRoot, hdrive, hsep]
  have hdriven : P.hasDrive path = false := by simp [hasDrive, hdrive]
  have htwo : P.startsAtTwoSeps path = false := by simp [startsAtTwoSeps, hsep]
  unfold join
  rw [hdriven, htwo, hrooted]
  cases P.needsSep base <;> simp

theorem splitDrive_bare_append {base : Text} (hbase : (P.splitDrive base).2 = [])
    (h : P.splitDrive path = ([], path)) : P.splitDrive (base ++ path) = (base, path) := by
  cases P with
  | unix =>
    have hempty : base = [] := hbase
    rw [hempty]
    rfl
  | windows =>
    match base with
    | [] => exact h
    | [c] => cases hbase
    | c :: d :: rest =>
      by_cases hd : d = ':'
      · subst hd
        by_cases hletter : c.isAlpha = true
        · have hrest : rest = [] := by simpa [splitDrive, hletter] using hbase
          rw [hrest]
          simp [splitDrive, hletter]
        · simp [splitDrive, hletter] at hbase
      · simp [splitDrive, hd] at hbase

theorem names_join {base : Text} (hbase : base ≠ []) (path : Text) :
    P.names (base ++ (if base.getLast?.any P.isSep then path else P.mainSep :: path)) =
      P.names base ++ P.names path := by
  cases hlast : base.getLast?.any P.isSep with
  | false => exact P.names_append_sep base path P.isSep_mainSep
  | true =>
    rcases List.eq_nil_or_concat' base with rfl | ⟨init, sep, rfl⟩
    · exact absurd rfl hbase
    · have hsep : P.isSep sep = true := by simpa using hlast
      have hself := P.names_append_sep init [] hsep
      rw [names_nil, List.append_nil] at hself
      show P.names ((init ++ [sep]) ++ path) = _
      rw [List.append_assoc, List.singleton_append, P.names_append_sep init path hsep, hself]

theorem startsAtSep_append {base : Text} (hbase : base ≠ []) (tail : Text) :
    P.startsAtSep (base ++ tail) = P.startsAtSep base := by
  cases base with
  | nil => exact absurd rfl hbase
  | cons c rest => rfl

theorem components_join_relative (h : P.anchored path = false) (base : Text) :
    P.components (P.join base path) = P.components base ++ P.names path := by
  rcases relative_iff.mp h with ⟨hdrive, hsep⟩
  rw [join_relative h]
  by_cases hrest : (P.splitDrive base).2 = []
  · have hbare : (P.splitDrive base).1 = base := by
      have hwhole := P.splitDrive_append base
      rwa [hrest, List.append_nil] at hwhole
    have hneeds : P.needsSep base = false := by simp [needsSep, hrest]
    have hnone : P.startsAtSep [] = false := rfl
    simp only [hneeds, Bool.false_eq_true, if_false, components,
      splitDrive_bare_append hrest hdrive, hbare, hrest, hsep, hnone, names_nil,
      List.append_nil]
  · have hlast : (P.splitDrive base).2.getLast? = base.getLast? := by
      have hwhole := congrArg List.getLast? (P.splitDrive_append base)
      rwa [List.getLast?_append_of_ne_nil _ hrest] at hwhole
    have hneeds : P.needsSep base = !(P.splitDrive base).2.getLast?.any P.isSep := by
      rw [hlast]
      simp [needsSep, hrest]
    have htail : (if P.needsSep base then P.mainSep :: path else path) =
        if (P.splitDrive base).2.getLast?.any P.isSep then path else P.mainSep :: path := by
      rw [hneeds]
      cases (P.splitDrive base).2.getLast?.any P.isSep <;> rfl
    have hsplit := P.splitDrive_append_text
      (if (P.splitDrive base).2.getLast?.any P.isSep then path else P.mainSep :: path) hrest
      (by
        intro hcolon
        rw [← hlast]
        cases hsep' : (P.splitDrive base).2.getLast?.any P.isSep with
        | true => rfl
        | false =>
          rw [hsep'] at hcolon
          cases P <;> simp [mainSep] at hcolon)
    rw [htail]
    simp only [components, hsplit, startsAtSep_append hrest, names_join hrest,
      List.append_assoc]

end Relative

/-!
# Staying under any root
-/

theorem components_ne_normal_of_anchored {path : Text} (h : P.anchored path = true) :
    exists c rest, P.components path = c :: rest ∧ c.isNormal = false := by
  unfold components
  by_cases hdrive : (P.splitDrive path).1 = []
  · have hwhole := P.splitDrive_append path
    rw [hdrive, List.nil_append] at hwhole
    have hsep : P.startsAtSep path = true := by
      simpa [anchored, hasDrive, hdrive] using h
    refine ⟨.root, P.names (P.splitDrive path).2, ?_, rfl⟩
    simp [hdrive, hwhole, hsep]
  · refine ⟨.drive (P.splitDrive path).1,
      (if P.startsAtSep (P.splitDrive path).2 then [.root] else []) ++
        P.names (P.splitDrive path).2, ?_, rfl⟩
    simp [hdrive]

theorem splitDrive_drive (base : Text) : (P.splitDrive (P.splitDrive base).1).2 = [] := by
  cases P with
  | unix => rfl
  | windows =>
    match base with
    | [] => rfl
    | [c] => rfl
    | c :: d :: rest =>
      by_cases hd : d = ':'
      · subst hd
        by_cases hletter : c.isAlpha = true
        · simp [splitDrive, hletter]
        · simp [splitDrive, hletter]
      · simp [splitDrive, hd]

theorem anchored_join {path : Text} (h : P.anchored path = true) (base : Text) :
    P.anchored (P.join base path) = true := by
  unfold join
  by_cases hreplaces : (P.hasDrive path || P.startsAtTwoSeps path) = true
  · rw [if_pos hreplaces]
    exact h
  · rw [if_neg hreplaces]
    have hnone : P.hasDrive path = false := by
      cases hdrive : P.hasDrive path with
      | true => exact absurd (by rw [hdrive]; rfl) hreplaces
      | false => rfl
    have hsep : P.startsAtSep path = true := by simpa [anchored, hnone] using h
    have hdrive : P.splitDrive path = ([], path) := by
      have hempty : (P.splitDrive path).1 = [] := by simpa [hasDrive] using hnone
      have hwhole := P.splitDrive_append path
      rw [hempty, List.nil_append] at hwhole
      exact Prod.ext hempty hwhole
    have hroot : P.hasRoot path = true := by
      unfold hasRoot
      rw [hdrive]
      exact hsep
    rw [if_pos hroot]
    unfold anchored hasDrive
    rw [splitDrive_bare_append (P.splitDrive_drive base) hdrive]
    cases hbase : (P.splitDrive base).1 with
    | nil => simp [hsep]
    | cons c rest => rfl

theorem staysUnder_iff_of_components {root path : Text} {rest : List Component}
    (h : P.components path = P.components root ++ rest) :
    P.StaysUnder root path <-> forall c, c ∈ rest -> c.isNormal = true := by
  unfold StaysUnder
  rw [h, List.drop_left]
  constructor
  · intro hunder
    exact hunder.2
  · intro hnormal
    exact ⟨List.prefix_append _ rest, hnormal⟩

def oneName : Text := ['r']

theorem not_staysUnder_oneName {path : Text} {c : Component} {rest : List Component}
    (h : P.components path = c :: rest) (hc : c.isNormal = false) :
    ¬ P.StaysUnder oneName path := by
  have hname : P.components oneName = [.normal oneName] := by
    cases P <;> decide
  rintro ⟨hstart, _⟩
  rw [h, hname] at hstart
  rcases hstart with ⟨tail, htail⟩
  cases htail
  cases hc

theorem anchored_eq_false_of_join_staysUnder {base path : Text}
    (h : P.StaysUnder oneName (P.join base path)) : P.anchored path = false := by
  cases hanchor : P.anchored path with
  | false => rfl
  | true =>
    rcases P.components_ne_normal_of_anchored (P.anchored_join hanchor base) with
      ⟨c, rest, hcomponents, hc⟩
    exact absurd h (P.not_staysUnder_oneName hcomponents hc)

/-- A relative path of ordinary names is what stays under every root it is joined to. -/
theorem join_staysUnder_iff (path : Text) :
    (forall root, P.StaysUnder root (P.join root path)) <->
      P.anchored path = false ∧ forall c, c ∈ P.names path -> c.isNormal = true := by
  constructor
  · intro h
    have hrelative : P.anchored path = false :=
      P.anchored_eq_false_of_join_staysUnder (h oneName)
    refine ⟨hrelative, ?_⟩
    exact (P.staysUnder_iff_of_components (components_join_relative hrelative _)).mp (h oneName)
  · rintro ⟨hrelative, hnormal⟩ root
    exact (P.staysUnder_iff_of_components (components_join_relative hrelative root)).mpr hnormal

section Twice

variable {first second : Text}

theorem components_join_join (hfirst : P.anchored first = false)
    (hsecond : P.anchored second = false) (root : Text) :
    P.components (P.join (P.join root first) second) =
      P.components root ++ (P.names first ++ P.names second) := by
  rw [components_join_relative hsecond, components_join_relative hfirst, List.append_assoc]

theorem join_join_staysUnder (hfirst : P.anchored first = false)
    (hsecond : P.anchored second = false)
    (hnormal : forall c, c ∈ P.names first ++ P.names second -> c.isNormal = true)
    (root : Text) : P.StaysUnder root (P.join (P.join root first) second) :=
  (P.staysUnder_iff_of_components (P.components_join_join hfirst hsecond root)).mpr hnormal

theorem relative_of_join_join_staysUnder
    (h : P.StaysUnder oneName (P.join (P.join oneName first) second)) :
    P.anchored first = false ∧ P.anchored second = false ∧
      forall c, c ∈ P.names first ++ P.names second -> c.isNormal = true := by
  have hsecond : P.anchored second = false := P.anchored_eq_false_of_join_staysUnder h
  have hfirst : P.anchored first = false := by
    cases hanchor : P.anchored first with
    | false => rfl
    | true =>
      rcases P.components_ne_normal_of_anchored (P.anchored_join hanchor oneName) with
        ⟨c, rest, hjoined, hc⟩
      have hcomponents : P.components (P.join (P.join oneName first) second) =
          c :: (rest ++ P.names second) := by
        rw [components_join_relative hsecond, hjoined]
        rfl
      exact absurd h (P.not_staysUnder_oneName hcomponents hc)
  have hcomponents := P.components_join_join hfirst hsecond oneName
  exact ⟨hfirst, hsecond, (P.staysUnder_iff_of_components hcomponents).mp h⟩

end Twice

end Platform

end Foundation
end JavaVsixLite
