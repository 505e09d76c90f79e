import JavaVsixLite.Classpath.Coordinates
import JavaVsixLite.Foundation.NodePaths

/-!
# Coordinates of the artifacts to download

The editor builds the address and the place in the local repository of an artifact
from texts that the server sent, so it checks them itself.
-/

namespace JavaVsixLite
namespace Editor

open Foundation
open Classpath (SafeCoord)

structure Coordinate where
  group : Text
  artifact : Text
  version : Text

inductive ArtifactExt where
  | pom
  | jar
deriving DecidableEq

def ArtifactExt.text : ArtifactExt -> Text
  | .pom => ['p', 'o', 'm']
  | .jar => ['j', 'a', 'r']

/-- The characters of `\s`. -/
def isScriptSpace (c : Char) : Bool :=
  (9 <= c.val && c.val <= 13) || c.val == 0x20 || c.val == 0xA0 || c.val == 0x1680 ||
    (0x2000 <= c.val && c.val <= 0x200A) || c.val == 0x2028 || c.val == 0x2029 ||
    c.val == 0x202F || c.val == 0x205F || c.val == 0x3000 || c.val == 0xFEFF

def isSafeCoordinateSegment (segment : Text) : Bool :=
  !segment.isEmpty && !segment.any isScriptSpace && !decide (['.', '.'] <:+: segment) &&
    !segment.contains '/' && !segment.contains '\\' && !segment.contains ':'

def isSafeCoordinate (coord : Coordinate) : Bool :=
  isSafeCoordinateSegment coord.group && isSafeCoordinateSegment coord.artifact &&
    isSafeCoordinateSegment coord.version

def groupPath (group : Text) : Text :=
  ['/'].intercalate (group.splitOn '.')

def fileName (coord : Coordinate) (ext : ArtifactExt) : Text :=
  coord.artifact ++ '-' :: (coord.version ++ '.' :: ext.text)

def artifactFileUrl (coord : Coordinate) (ext : ArtifactExt) (repoBase : Text) : Text :=
  ['/'].intercalate
    [repoBase, groupPath coord.group, coord.artifact, coord.version, fileName coord ext]

/-- The components of the path; `none` when the coordinate is refused. -/
def m2FilePath (P : Platform) (m2Root : Text) (coord : Coordinate) (ext : ArtifactExt) :
    Option (List Component) :=
  if !isSafeCoordinate coord then none
  else
    let segments := m2Root :: coord.group.splitOn '.' ++ [coord.artifact, coord.version]
    some (P.nodeJoin (segments ++ [fileName coord ext]))

/-!
# The place in the repository
-/

theorem safeCoord_of_segment {segment : Text} (h : isSafeCoordinateSegment segment = true) :
    SafeCoord segment ∧ segment.any isScriptSpace = false := by
  unfold isSafeCoordinateSegment at h
  simp only [Bool.and_eq_true, Bool.not_eq_true', List.isEmpty_eq_false_iff,
    decide_eq_false_iff_not, List.contains_eq_mem] at h
  exact ⟨⟨h.1.1.1.1.1, h.1.1.1.2, h.1.1.2, h.1.2, h.2⟩, h.1.1.1.1.2⟩

structure SafeCoordinate (coord : Coordinate) : Prop where
  group : SafeCoord coord.group
  artifact : SafeCoord coord.artifact
  version : SafeCoord coord.version

theorem safeCoordinate_of {coord : Coordinate} (h : isSafeCoordinate coord = true) :
    SafeCoordinate coord := by
  unfold isSafeCoordinate at h
  rw [Bool.and_eq_true, Bool.and_eq_true] at h
  constructor
  · exact (safeCoord_of_segment h.1.1).1
  · exact (safeCoord_of_segment h.1.2).1
  · exact (safeCoord_of_segment h.2).1

theorem plainPart_of_safeCoord (P : Platform) {segment : Text} (h : SafeCoord segment) :
    P.PlainPart segment :=
  ⟨h.no_sep P, h.no_colon⟩

theorem PlainPart.append {P : Platform} {xs ys : Text} (hxs : P.PlainPart xs)
    (hys : P.PlainPart ys) : P.PlainPart (xs ++ ys) := by
  constructor
  · intro c hc
    cases List.mem_append.mp hc with
    | inl hc => exact hxs.no_sep c hc
    | inr hc => exact hys.no_sep c hc
  · intro hc
    cases List.mem_append.mp hc with
    | inl hc => exact hxs.no_colon hc
    | inr hc => exact hys.no_colon hc

section

variable {coord : Coordinate}

theorem plainPart_fileName (P : Platform) (h : SafeCoordinate coord) (ext : ArtifactExt) :
    P.PlainPart (fileName coord ext) := by
  have hdash : P.PlainPart ['-'] := by
    apply Platform.plainPart_of_all
    cases P <;> decide
  have hext : P.PlainPart ('.' :: ext.text) := by
    apply Platform.plainPart_of_all
    cases P <;> cases ext <;> decide
  have hversion := PlainPart.append (plainPart_of_safeCoord P h.version) hext
  exact PlainPart.append (plainPart_of_safeCoord P h.artifact) (PlainPart.append hdash hversion)

def directoryParts (coord : Coordinate) : List Text :=
  coord.group.splitOn '.' ++ [coord.artifact, coord.version]

theorem plainPart_directoryParts (P : Platform) (h : SafeCoordinate coord) :
    forall part, part ∈ directoryParts coord -> P.PlainPart part := by
  intro part hpart
  unfold directoryParts at hpart
  cases List.mem_append.mp hpart with
  | inl hpiece =>
    have hgroup := plainPart_of_safeCoord P h.group
    have hmem := mem_of_mem_splitOnP hpiece
    constructor
    · intro c hc
      exact hgroup.no_sep c (hmem c hc).1
    · intro hc
      exact hgroup.no_colon (hmem ':' hc).1
  | inr hlast =>
    cases hlast with
    | head => exact plainPart_of_safeCoord P h.artifact
    | tail _ hlast =>
      cases List.mem_singleton.mp hlast
      exact plainPart_of_safeCoord P h.version

theorem nameOf_fileName (coord : Coordinate) (ext : ArtifactExt) :
    Platform.nameOf (fileName coord ext) = some (.normal (fileName coord ext)) := by
  have hdash : '-' ∈ fileName coord ext := by
    unfold fileName
    simp
  unfold Platform.nameOf
  rw [if_neg, if_neg]
  · intro hdots
    rw [hdots] at hdash
    exact absurd hdash (by decide)
  · intro hnone
    cases hnone with
    | inl hempty =>
      rw [hempty] at hdash
      cases hdash
    | inr hdot =>
      rw [hdot] at hdash
      exact absurd hdash (by decide)

theorem isNormal_directoryParts (h : SafeCoordinate coord) :
    forall c, c ∈ (directoryParts coord).filterMap Platform.nameOf -> c.isNormal = true := by
  intro c hc
  cases List.mem_filterMap.mp hc with
  | intro part hpart =>
    apply Platform.nameOf_normal _ hpart.2
    intro hdots
    cases List.mem_append.mp hpart.1 with
    | inl hpiece =>
      rw [hdots] at hpiece
      exact notMem_of_mem_splitOn hpiece (by decide)
    | inr hlast =>
      have hsegment : part = coord.artifact ∨ part = coord.version := by simpa using hlast
      cases hsegment with
      | inl hartifact =>
        apply h.artifact.no_dots
        rw [← hartifact, hdots]
      | inr hversion =>
        apply h.version.no_dots
        rw [← hversion, hdots]

def m2Directory (P : Platform) (m2Root : Text) (coord : Coordinate) : List Component :=
  Component.settle (P.components m2Root ++ (if P.BareDrive m2Root then [.root] else [])) ++
    (directoryParts coord).filterMap Platform.nameOf

theorem m2FilePath_eq (P : Platform) (m2Root : Text) (hsafe : isSafeCoordinate coord = true)
    (ext : ArtifactExt) :
    m2FilePath P m2Root coord ext =
      some (m2Directory P m2Root coord ++ [.normal (fileName coord ext)]) := by
  have hcoord := safeCoordinate_of hsafe
  have hplain : forall part, part ∈ directoryParts coord ++ [fileName coord ext] ->
      P.PlainPart part := by
    intro part hpart
    cases List.mem_append.mp hpart with
    | inl hdirectory => exact plainPart_directoryParts P hcoord part hdirectory
    | inr hfile =>
      cases List.mem_singleton.mp hfile
      exact plainPart_fileName P hcoord ext
  have hsome : (directoryParts coord ++ [fileName coord ext]).filter
      (fun part => !part.isEmpty) ≠ [] := by
    unfold fileName
    simp
  have hparts : (directoryParts coord ++ [fileName coord ext]).filterMap Platform.nameOf =
      (directoryParts coord).filterMap Platform.nameOf ++ [.normal (fileName coord ext)] := by
    rw [List.filterMap_append]
    simp [nameOf_fileName]
  have hnormal : forall c, c ∈ (directoryParts coord).filterMap Platform.nameOf ++
      [.normal (fileName coord ext)] -> c.isNormal = true := by
    intro c hc
    cases List.mem_append.mp hc with
    | inl hdirectory => exact isNormal_directoryParts hcoord c hdirectory
    | inr hfile =>
      cases List.mem_singleton.mp hfile
      rfl
  have hsegments : m2Root :: coord.group.splitOn '.' ++ [coord.artifact, coord.version] ++
      [fileName coord ext] = m2Root :: (directoryParts coord ++ [fileName coord ext]) := by
    unfold directoryParts
    simp
  unfold m2FilePath Platform.nodeJoin m2Directory
  simp only [hsafe, Bool.not_true, Bool.false_eq_true, if_false]
  rw [hsegments, Platform.components_joinedText hplain hsome, hparts,
    Component.settle_append_normal _ hnormal, List.append_assoc]

end

end Editor
end JavaVsixLite
