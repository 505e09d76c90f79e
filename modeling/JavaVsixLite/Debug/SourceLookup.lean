import Mathlib.Data.List.AList
import JavaVsixLite.Debug.Debuggee
import JavaVsixLite.Foundation.Pathnames

/-!
# The source file of a stack frame

A frame is shown with the source file of its class: the directories of its
package and the name of its SourceFile attribute under one of the session's
source roots.  Both the class signature and the attribute are texts the debuggee
sends.
-/

namespace JavaVsixLite
namespace Debug

open Foundation

/-- What the lookup reads of the session, with the answers it has cached. -/
structure SourceSession where
  connected : Bool
  sourceFiles : AList (fun _ : ClassId => Option Text)
  sourceRoots : List Text

namespace SourceSession

/-- A failed answer is cached like an absent attribute. -/
def classSourceFile (sourceFile : ClassId -> Except JdwpError Text) (s : SourceSession)
    (classId : ClassId) : Option Text × SourceSession :=
  match s.sourceFiles.lookup classId with
  | some cached => (cached, s)
  | none =>
    if s.connected then
      ((sourceFile classId).toOption,
        { s with sourceFiles := s.sourceFiles.insert classId (sourceFile classId).toOption })
    else (none, s)

end SourceSession

/-- What stands between `L` and `;` in a class signature. -/
def binaryName (signature : Text) : Option Text :=
  match signature with
  | 'L' :: rest => if rest.getLast? = some ';' then some rest.dropLast else none
  | _ => none

def outerName (binary : Text) : Text :=
  binary.takeWhile (fun c => c != '$')

def rsplitOnce : Text -> Option (Text × Text)
  | [] => none
  | c :: rest =>
    match rsplitOnce rest with
    | some (before, after) => some (c :: before, after)
    | none => if c = '/' then some ([], rest) else none

def packageDir (outer : Text) : Text :=
  (rsplitOnce outer).elim [] Prod.fst

def simpleName (outer : Text) : Text :=
  (rsplitOnce outer).elim outer Prod.snd

def fileName (sourceFile : Option Text) (outer : Text) : Text :=
  sourceFile.getD (simpleName outer ++ ".java".toList)

def traverses (fileName : Text) : Bool :=
  fileName.contains '/' || fileName.contains '\\' || decide (['.', '.'] <:+: fileName)

def candidate (P : Platform) (packageDir fileName root : Text) : Text :=
  P.join (P.join root packageDir) fileName

def SourceSession.resolveSource (P : Platform) (isFile : Text -> Bool)
    (sourceFile : ClassId -> Except JdwpError Text) (s : SourceSession) (signature : Text)
    (classId : ClassId) : Option Text × SourceSession :=
  match binaryName signature with
  | none => (none, s)
  | some binary =>
    let outer := outerName binary
    let answered := s.classSourceFile sourceFile classId
    let name := fileName answered.1 outer
    if traverses name then (none, answered.2)
    else ((s.sourceRoots.map (candidate P (packageDir outer) name)).find? isFile, answered.2)

/-!
# Where the file is
-/

theorem names_normal_of_not_traverses (P : Platform) {name : Text}
    (h : traverses name = false) :
    (P.anchored name = P.hasDrive name) ∧
      forall c, c ∈ P.names name -> c.isNormal = true := by
  unfold traverses at h
  simp only [Bool.or_eq_false_iff, decide_eq_false_iff_not, List.contains_eq_mem] at h
  rcases h with ⟨⟨hslash, hbackslash⟩, hdots⟩
  have hsep : forall c, c ∈ name -> P.isSep c = false := by
    intro c hc
    have hne : c ≠ '/' ∧ c ≠ '\\' := by
      constructor
      · rintro rfl
        exact hslash hc
      · rintro rfl
        exact hbackslash hc
    cases P with
    | unix => simpa [Platform.isSep] using hne.1
    | windows => simp [Platform.isSep, hne.1, hne.2]
  constructor
  · have hstart : P.startsAtSep name = false := by
      cases name with
      | nil => rfl
      | cons c rest => exact hsep c List.mem_cons_self
    unfold Platform.anchored
    rw [hstart, Bool.or_false]
  · intro c hc
    rw [P.names_of_no_sep hsep] at hc
    refine Platform.nameOf_normal ?_ (Option.mem_toList.mp hc)
    rintro rfl
    exact hdots (List.infix_refl _)

/--
The lookup refuses the texts, or the package is a relative path that never goes
up and the file name starts on no drive.
-/
def Contained (P : Platform) (signature : Text) (sourceFile : Option Text) : Prop :=
  forall binary, binaryName signature = some binary ->
    traverses (fileName sourceFile (outerName binary)) = false ->
      P.anchored (packageDir (outerName binary)) = false ∧
      ['.', '.'] ∉ (packageDir (outerName binary)).splitOnP P.isSep ∧
      P.hasDrive (fileName sourceFile (outerName binary)) = false

section Lookup

variable {P : Platform} {sourceFile : ClassId -> Except JdwpError Text} {s : SourceSession}
  {signature : Text} {classId : ClassId}

theorem classSourceFile_roots (roots : List Text) :
    ({ s with sourceRoots := roots }.classSourceFile sourceFile classId).1 =
      (s.classSourceFile sourceFile classId).1 := by
  unfold SourceSession.classSourceFile
  cases s.sourceFiles.lookup classId with
  | some cached => rfl
  | none => cases s.connected <;> rfl

theorem resolveSource_eq {isFile : Text -> Bool} {binary : Text}
    (hbinary : binaryName signature = some binary)
    (hname : traverses (fileName (s.classSourceFile sourceFile classId).1
      (outerName binary)) = false) (roots : List Text) :
    ({ s with sourceRoots := roots }.resolveSource P isFile sourceFile signature classId).1 =
      (roots.map (candidate P (packageDir (outerName binary))
        (fileName (s.classSourceFile sourceFile classId).1 (outerName binary)))).find?
          isFile := by
  unfold SourceSession.resolveSource
  simp only [hbinary, classSourceFile_roots, hname, Bool.false_eq_true, if_false]

theorem resolveSource_eq_some {isFile : Text -> Bool} {roots : List Text} {path : Text}
    (h : ({ s with sourceRoots := roots }.resolveSource P isFile sourceFile signature
      classId).1 = some path) :
    exists binary root, binaryName signature = some binary ∧ root ∈ roots ∧
      traverses (fileName (s.classSourceFile sourceFile classId).1
        (outerName binary)) = false ∧
      path = candidate P (packageDir (outerName binary))
        (fileName (s.classSourceFile sourceFile classId).1 (outerName binary)) root := by
  cases hbinary : binaryName signature with
  | none =>
    unfold SourceSession.resolveSource at h
    rw [hbinary] at h
    cases h
  | some binary =>
    cases hname : traverses (fileName (s.classSourceFile sourceFile classId).1
        (outerName binary)) with
    | true =>
      unfold SourceSession.resolveSource at h
      simp only [hbinary, classSourceFile_roots, hname, if_true] at h
      cases h
    | false =>
      rw [resolveSource_eq hbinary hname] at h
      rcases List.mem_map.mp (List.mem_of_find?_eq_some h) with ⟨root, hroot, hpath⟩
      exact ⟨binary, root, rfl, hroot, hname, hpath.symm⟩

end Lookup

/--
Whatever the source roots and the files there are, a path that is found stays
under one of the roots exactly when the two texts are contained.
-/
theorem resolveSource_staysUnder_iff (P : Platform)
    (sourceFile : ClassId -> Except JdwpError Text) (s : SourceSession) (signature : Text)
    (classId : ClassId) :
    (forall (roots : List Text) (isFile : Text -> Bool) (path : Text),
      ({ s with sourceRoots := roots }.resolveSource P isFile sourceFile signature
          classId).1 = some path ->
        exists root, root ∈ roots ∧ P.StaysUnder root path) <->
      Contained P signature (s.classSourceFile sourceFile classId).1 := by
  constructor
  · intro h binary hbinary hname
    have hfound : ({ s with sourceRoots := [Platform.oneName] }.resolveSource P
        (fun _ => true) sourceFile signature classId).1 =
          some (candidate P (packageDir (outerName binary))
            (fileName (s.classSourceFile sourceFile classId).1 (outerName binary))
              Platform.oneName) := by
      rw [resolveSource_eq hbinary hname]
      rfl
    rcases h [Platform.oneName] (fun _ => true) _ hfound with ⟨root, hroot, hunder⟩
    rw [List.mem_singleton.mp hroot] at hunder
    rcases P.relative_of_join_join_staysUnder hunder with ⟨hpackage, hfile, hnormal⟩
    refine ⟨hpackage, ?_, ?_⟩
    · refine Platform.filterMap_nameOf_normal_iff.mp ?_
      intro c hc
      exact hnormal c (List.mem_append_left _ hc)
    · rw [(names_normal_of_not_traverses P hname).1] at hfile
      exact hfile
  · intro h roots isFile path hpath
    rcases resolveSource_eq_some hpath with ⟨binary, root, hbinary, hroot, hname, rfl⟩
    rcases h binary hbinary hname with ⟨hpackage, hdots, hdrive⟩
    rcases names_normal_of_not_traverses P hname with ⟨hanchored, hfile⟩
    refine ⟨root, hroot, P.join_join_staysUnder hpackage (hanchored.trans hdrive) ?_ root⟩
    intro c hc
    rcases List.mem_append.mp hc with hc | hc
    · exact Platform.filterMap_nameOf_normal_iff.mpr hdots c hc
    · exact hfile c hc

/-- The package of the signature is the root directory's, whatever the source root. -/
theorem resolveSource_leaves_the_roots :
    ({ connected := true, sourceFiles := ∅, sourceRoots := ["/work/src".toList] :
        SourceSession }.resolveSource .unix (fun _ => true)
          (fun _ => .ok "shadow".toList) "L/etc/X;".toList 1).1 =
        some "/etc/shadow".toList ∧
      ({ connected := true, sourceFiles := ∅, sourceRoots := ["/work/src".toList] :
        SourceSession }.resolveSource .unix (fun _ => true)
          (fun _ => .ok "Evil.java".toList) "L../../X;".toList 1).1 =
        some "/work/src/../../Evil.java".toList ∧
      ¬ Platform.unix.StaysUnder "/work/src".toList "/etc/shadow".toList ∧
      ¬ Platform.unix.StaysUnder "/work/src".toList "/work/src/../../Evil.java".toList := by
  decide

end Debug
end JavaVsixLite
