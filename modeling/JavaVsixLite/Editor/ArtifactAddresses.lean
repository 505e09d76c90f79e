import JavaVsixLite.Editor.MavenCoordinates
import JavaVsixLite.Foundation.WebUrls

/-!
# Where an artifact is fetched from and where it is looked for

The address of an artifact is put together as a text and parsed again when it is
fetched.  Its place in the local repository is computed twice, by the editor, which
writes the file, and by the resolver, which looks for it.
-/

namespace JavaVsixLite
namespace Editor

open Foundation
open Foundation.WebUrls
open Classpath (SafeCoord)

def centralHost : Text := "repo.maven.apache.org".toList

/-- `MAVEN_CENTRAL_BASE` -/
def mavenCentralBase : Text := address centralHost ["maven2".toList]

example : mavenCentralBase = "https://repo.maven.apache.org/maven2".toList := by decide

def scriptTrim (raw : Text) : Text :=
  (raw.dropWhile isScriptSpace).rdropWhile isScriptSpace

def search (url : HttpsUrl) : Text := url.query.getD []

def hash (url : HttpsUrl) : Text := url.fragment.getD []

/-- `none` for what is no clean address with the scheme `https`. -/
def normalizeRepositoryBase (parseHost : Text -> Option Text) (raw : Text) : Option Text :=
  let trimmed := scriptTrim raw
  if trimmed.isEmpty then some mavenCentralBase
  else
    match parseHttps parseHost trimmed with
    | none => none
    | some url =>
      if !url.username.isEmpty || !url.password.isEmpty || !(search url).isEmpty ||
          !(hash url).isEmpty then none
      else some (url.origin ++ stripSlashes url.pathname)

/-!
# The address
-/

def artifactNames (coord : Coordinate) (ext : ArtifactExt) : List Text :=
  directoryParts coord ++ [fileName coord ext]

/--
The address leads to the host of the base and to the names below its path, as they are
written in a path, and to nothing else.
-/
def AddressedExactly (parseHost : Text -> Option Text) (base : Text) (coord : Coordinate)
    (ext : ArtifactExt) : Prop :=
  exists b u, parseHttps parseHost base = some b ∧
    parseHttps parseHost (artifactFileUrl coord ext base) = some u ∧
    u.username = [] ∧ u.password = [] ∧ u.authority = b.authority ∧
    u.path = withoutTrailing b.path ++ (artifactNames coord ext).map percentEncode ∧
    u.query = none ∧ u.fragment = none

/-- No part ends a path, and no directory is a step of dots. -/
structure Addressable (coord : Coordinate) : Prop where
  no_end : forall part, part ∈ [coord.group, coord.artifact, coord.version] ->
    '?' ∉ part ∧ '#' ∉ part
  no_dots : forall name, name ∈ directoryParts coord -> ¬ IsDots name

structure CleanBase (parseHost : Text -> Option Text) (base host : Text)
    (segments : List Text) : Prop where
  text : base = address host segments
  host : parseHost host = some host
  settled : forall s, s ∈ segments -> Settled s
  trimmed : withoutTrailing segments = segments

section Base

variable {parseHost : Text -> Option Text} {raw base host : Text} {segments : List Text}

theorem cleanBase_of_normalize (hrules : HostRules parseHost)
    (hcentral : parseHost centralHost = some centralHost)
    (h : normalizeRepositoryBase parseHost raw = some base) :
    exists host segments, CleanBase parseHost base host segments := by
  unfold normalizeRepositoryBase at h
  simp only at h
  split at h
  · cases h
    refine ⟨centralHost, ["maven2".toList], rfl, hcentral, ?_, rfl⟩
    intro s hs
    rw [List.mem_singleton.mp hs]
    constructor
    · intro c hc
      have hall : "maven2".toList.all isPathChar = true := by decide
      exact List.all_eq_true.mp hall c hc
    · decide
  · split at h
    · cases h
    · rename_i url hurl
      split at h
      · cases h
      · cases h
        unfold parseHttps at hurl
        rcases Option.bind_eq_some_iff.mp hurl with ⟨rest, _, hrest⟩
        rcases Option.map_eq_some_iff.mp hrest with ⟨authority, hhost, heq⟩
        have hpath : exists pathText, url.path = addPieces [] (pathPieces pathText) := by
          rw [← heq]
          exact ⟨_, rfl⟩
        have hauthority : url.authority = authority := by rw [← heq]
        rcases hpath with ⟨pathText, hpath⟩
        have hsettled := settled_path pathText
        rw [← hpath] at hsettled
        refine ⟨authority, withoutTrailing url.path, ?_, hrules.stable _ _ hhost, ?_, ?_⟩
        · unfold HttpsUrl.origin HttpsUrl.pathname address
          rw [stripSlashes_slashed (fun s hs c hc => (hsettled s hs).isSlash hc), hauthority]
          simp
        · exact fun s hs => hsettled s ((List.rdropWhile_prefix _ _).subset hs)
        · exact List.rdropWhile_idempotent _ _

theorem CleanBase.parse (hrules : HostRules parseHost)
    (h : CleanBase parseHost base host segments) :
    exists b, parseHttps parseHost base = some b ∧ b.authority = host ∧
      withoutTrailing b.path = segments := by
  have hhost := hrules.plain host host h.host
  have hcontrol : forall c, c ∈ base -> isControlOrSpace c = false := by
    intro c hc
    rw [h.text] at hc
    rcases mem_address hc with hscheme | rfl | hmem | ⟨s, hs, hmem⟩
    · have hall : schemeText.all (fun c => !isControlOrSpace c) = true := by decide
      simpa using List.all_eq_true.mp hall c hscheme
    · decide
    · exact (hhost c hmem).1
    · exact not_control_of_notInPathSet ((h.settled s hs).inPathSet hmem)
  have hclean : cleaned (address host segments) = address host segments := by
    cases hlast : (address host segments).getLast? with
    | none => cases List.getLast?_eq_none_iff.mp hlast
    | some last =>
      apply cleaned_address (fun c hc => (hhost c hc).1) _ hlast
      · rw [← h.text] at hlast
        exact hcontrol last (List.mem_of_getLast? hlast)
      · intro s hs c hc
        exact isTabOrNewline_of_not_control
          (not_control_of_notInPathSet ((h.settled s hs).inPathSet hc))
  have hparse := parseHttps_of_plain hrules h.host hclean
    (fun s hs c hc => (h.settled s hs).isSlash hc)
    (fun s hs c hc => endsPath_of_notInPathSet ((h.settled s hs).inPathSet hc))
  rw [← h.text] at hparse
  refine ⟨_, hparse, rfl, ?_⟩
  by_cases hempty : segments = []
  · rw [hempty]
    show withoutTrailing (addPieces [] (if ([] : List Text) = [] then [[]] else [])) = []
    decide
  · show withoutTrailing (addPieces [] (if segments = [] then [[]] else segments)) = segments
    rw [if_neg hempty, addPieces_of_settled h.settled, List.nil_append, h.trimmed]

end Base

/-!
# The parts of an address
-/

section Parts

variable {coord : Coordinate} {ext : ArtifactExt}

theorem mem_or_mem_of_mem_intercalate {sep : Char} {pieces : List Text} {c : Char}
    (h : c ∈ [sep].intercalate pieces) : c = sep ∨ exists piece, piece ∈ pieces ∧ c ∈ piece := by
  induction pieces with
  | nil => cases h
  | cons piece rest ih =>
    cases rest with
    | nil =>
      rw [List.intercalate_singleton] at h
      exact Or.inr ⟨piece, List.mem_cons_self, h⟩
    | cons next rest =>
      rw [List.intercalate_cons_cons, List.mem_append, List.mem_append,
        List.mem_singleton] at h
      rcases h with (h | h) | h
      · exact Or.inr ⟨piece, List.mem_cons_self, h⟩
      · exact Or.inl h
      · cases ih h with
        | inl heq => exact Or.inl heq
        | inr hmore =>
          rcases hmore with ⟨other, hother, hc⟩
          exact Or.inr ⟨other, List.mem_cons_of_mem piece hother, hc⟩

theorem mem_part_of_mem_name {name : Text} (hname : name ∈ artifactNames coord ext) {c : Char}
    (hc : c ∈ name) :
    (exists part, part ∈ [coord.group, coord.artifact, coord.version] ∧ c ∈ part) ∨
      c ∈ '-' :: '.' :: ext.text := by
  unfold artifactNames directoryParts fileName at hname
  simp only [List.mem_append, List.mem_cons, List.not_mem_nil, or_false] at hname
  rcases hname with (hpiece | rfl | rfl) | rfl
  · have hgroup := mem_of_mem_splitOnP hpiece c hc
    exact Or.inl ⟨coord.group, by simp, hgroup.1⟩
  · exact Or.inl ⟨_, by simp, hc⟩
  · exact Or.inl ⟨_, by simp, hc⟩
  · simp only [List.mem_append, List.mem_cons] at hc ⊢
    rcases hc with hc | hc | hc | hc | hc
    · exact Or.inl ⟨coord.artifact, by simp, hc⟩
    · exact Or.inr (Or.inl hc)
    · exact Or.inl ⟨coord.version, by simp, hc⟩
    · exact Or.inr (Or.inr (Or.inl hc))
    · exact Or.inr (Or.inr (Or.inr hc))

theorem exists_name_of_mem_part {part : Text}
    (hpart : part ∈ [coord.group, coord.artifact, coord.version]) {c : Char} (hc : c ∈ part)
    (hdot : c ≠ '.') : exists name, name ∈ artifactNames coord ext ∧ c ∈ name := by
  unfold artifactNames directoryParts
  simp only [List.mem_cons, List.not_mem_nil, or_false] at hpart
  rcases hpart with rfl | rfl | rfl
  · have hgroup : c ∈ ['.'].intercalate (coord.group.splitOn '.') := by
      rw [List.intercalate_splitOn]
      exact hc
    cases mem_or_mem_of_mem_intercalate hgroup with
    | inl heq => exact absurd heq hdot
    | inr hmore =>
      rcases hmore with ⟨piece, hpiece, hmem⟩
      exact ⟨piece, by simp [hpiece], hmem⟩
  · exact ⟨coord.artifact, by simp, hc⟩
  · exact ⟨coord.version, by simp, hc⟩

theorem noEnd_iff (coord : Coordinate) (ext : ArtifactExt) :
    (forall name, name ∈ artifactNames coord ext -> forall c, c ∈ name -> endsPath c = false) <->
      forall part, part ∈ [coord.group, coord.artifact, coord.version] ->
        '?' ∉ part ∧ '#' ∉ part := by
  constructor
  · intro h part hpart
    have hnone : forall c, endsPath c = true -> c ≠ '.' -> c ∉ part := by
      intro c hend hdot hmem
      rcases exists_name_of_mem_part hpart hmem hdot with ⟨name, hname, hc⟩
      rw [h name hname c hc] at hend
      cases hend
    exact ⟨hnone '?' rfl (by decide), hnone '#' rfl (by decide)⟩
  · intro h name hname c hc
    cases mem_part_of_mem_name hname hc with
    | inl hpart =>
      rcases hpart with ⟨part, hpart, hmem⟩
      have hnone := h part hpart
      rw [Bool.eq_false_iff]
      intro hend
      unfold endsPath at hend
      simp only [Bool.or_eq_true, beq_iff_eq] at hend
      rcases hend with rfl | rfl
      · exact hnone.1 hmem
      · exact hnone.2 hmem
    | inr hfixed =>
      have hall : ('-' :: '.' :: ext.text).all (fun c => !endsPath c) = true := by
        cases ext <;> decide
      simpa using List.all_eq_true.mp hall c hfixed

theorem plain_of_mem_name (hsafe : isSafeCoordinate coord = true) {name : Text}
    (hname : name ∈ artifactNames coord ext) {c : Char} (hc : c ∈ name) :
    isSlash c = false ∧ isTabOrNewline c = false := by
  cases mem_part_of_mem_name hname hc with
  | inl hpart =>
    rcases hpart with ⟨part, hpart, hmem⟩
    have hsegment : isSafeCoordinateSegment part = true := by
      unfold isSafeCoordinate at hsafe
      rw [Bool.and_eq_true, Bool.and_eq_true] at hsafe
      simp only [List.mem_cons, List.not_mem_nil, or_false] at hpart
      rcases hpart with rfl | rfl | rfl
      · exact hsafe.1.1
      · exact hsafe.1.2
      · exact hsafe.2
    have hcoord := safeCoord_of_segment hsegment
    constructor
    · exact hcoord.1.no_sep .windows c hmem
    · rw [Bool.eq_false_iff]
      intro htab
      have hspace := List.any_eq_false.mp hcoord.2 c hmem
      unfold isTabOrNewline at htab
      simp only [Bool.or_eq_true, beq_iff_eq] at htab
      rcases htab with (rfl | rfl) | rfl
      · exact hspace (by decide)
      · exact hspace (by decide)
      · exact hspace (by decide)
  | inr hfixed =>
    have hall : ('-' :: '.' :: ext.text).all
        (fun c => !isSlash c && !isTabOrNewline c) = true := by
      cases ext <;> decide
    have hboth := List.all_eq_true.mp hall c hfixed
    rw [Bool.and_eq_true, Bool.not_eq_true', Bool.not_eq_true'] at hboth
    exact hboth

theorem not_isDots_fileName (coord : Coordinate) (ext : ArtifactExt) :
    ¬ IsDots (fileName coord ext) := by
  have hdash : '-' ∈ percentEncode (fileName coord ext) := by
    apply List.mem_flatMap.mpr
    refine ⟨'-', ?_, by decide⟩
    unfold fileName
    simp
  exact not_isDots_of_mem hdash (by decide)

theorem artifactFileUrl_address {host : Text} {segments : List Text} :
    artifactFileUrl coord ext (address host segments) =
      address host (segments ++ artifactNames coord ext) := by
  have hgroup : '/' :: groupPath coord.group = slashed (coord.group.splitOn '.') := by
    unfold groupPath
    exact cons_intercalate_eq_slashed
      (by rw [List.splitOn_eq_splitOnP]; exact List.splitOnP_ne_nil _ _)
  rw [address_append]
  unfold artifactFileUrl artifactNames directoryParts
  rw [slashed_append, slashed_append, ← hgroup]
  simp [List.intercalate_cons_cons, List.intercalate_singleton, slashed]

end Parts

section Agreement

variable {parseHost : Text -> Option Text} {base host : Text} {segments : List Text}
  {coord : Coordinate}

/-- The names that the address is to lead to are the settled ones of its path. -/
theorem addressedExactly_iff (hrules : HostRules parseHost)
    (hbase : CleanBase parseHost base host segments) (hsafe : isSafeCoordinate coord = true)
    (ext : ArtifactExt) :
    AddressedExactly parseHost base coord ext <-> Addressable coord := by
  let names := artifactNames coord ext
  have hhost := hrules.plain host host hbase.host
  have hplain : forall s, s ∈ segments ++ names -> forall c, c ∈ s ->
      isSlash c = false ∧ isTabOrNewline c = false := by
    intro s hs c hc
    cases List.mem_append.mp hs with
    | inl hs =>
      have hset := (hbase.settled s hs).inPathSet hc
      exact ⟨(hbase.settled s hs).isSlash hc,
        isTabOrNewline_of_not_control (not_control_of_notInPathSet hset)⟩
    | inr hs => exact plain_of_mem_name hsafe hs hc
  have hclean : cleaned (address host (segments ++ names)) = address host (segments ++ names) := by
    have hlast : exists last, (address host (segments ++ names)).getLast? = some last ∧
        isControlOrSpace last = false := by
      have htext : address host (segments ++ names) =
          (address host (segments ++ directoryParts coord) ++
            '/' :: (coord.artifact ++ '-' :: (coord.version ++ ['.']))) ++ ext.text := by
        show address host (segments ++ (directoryParts coord ++ [fileName coord ext])) = _
        rw [← List.append_assoc, address_append]
        simp [slashed, fileName]
      rw [htext, List.getLast?_append]
      cases ext with
      | pom => exact ⟨'m', rfl, by decide⟩
      | jar => exact ⟨'r', rfl, by decide⟩
    rcases hlast with ⟨last, hlast, hcontrol⟩
    exact cleaned_address (fun c hc => (hhost c hc).1) (fun s hs c hc => (hplain s hs c hc).2)
      hlast hcontrol
  rcases hbase.parse hrules with ⟨b, hb, hauthority, hpath⟩
  have hurl : artifactFileUrl coord ext base = address host (segments ++ names) := by
    rw [hbase.text]
    exact artifactFileUrl_address
  have hfinal : ¬ IsDots (fileName coord ext) := not_isDots_fileName coord ext
  have hsettled := map_percentEncode_settled hbase.settled
  have hpieces : addPieces [] (segments ++ names) = segments ++ names.map percentEncode <->
      forall name, name ∈ directoryParts coord -> ¬ IsDots name := by
    have hfront : addPieces [] ((segments ++ directoryParts coord) ++ [fileName coord ext]) =
        [] ++ ((segments ++ directoryParts coord) ++
          [fileName coord ext]).map percentEncode <-> _ :=
      addPieces_eq_iff hfinal []
    rw [List.nil_append, List.append_assoc, List.map_append, hsettled] at hfront
    rw [show names = directoryParts coord ++ [fileName coord ext] from rfl, hfront]
    constructor
    · exact fun h name hname => h name (List.mem_append_right segments hname)
    · intro h piece hpiece
      cases List.mem_append.mp hpiece with
      | inl hpiece => exact (hbase.settled piece hpiece).no_dots
      | inr hpiece => exact h piece hpiece
  by_cases hends : forall name, name ∈ names -> forall c, c ∈ name -> endsPath c = false
  · have hparse := parseHttps_of_plain hrules hbase.host hclean
      (fun s hs c hc => (hplain s hs c hc).1) (by
        intro s hs c hc
        cases List.mem_append.mp hs with
        | inl hs => exact endsPath_of_notInPathSet ((hbase.settled s hs).inPathSet hc)
        | inr hs => exact hends s hs c hc)
    have hne : segments ++ names ≠ [] := by
      show segments ++ (directoryParts coord ++ [fileName coord ext]) ≠ []
      simp
    rw [← hurl, if_neg hne] at hparse
    constructor
    · intro h
      rcases h with ⟨b', u, hb', hu, _, _, _, hupath, _, _⟩
      rw [hb] at hb'
      rw [hparse] at hu
      cases hb'
      cases hu
      rw [hpath] at hupath
      exact ⟨(noEnd_iff coord ext).mp hends, hpieces.mp hupath⟩
    · intro h
      refine ⟨b, _, hb, hparse, rfl, rfl, hauthority.symm, ?_, rfl, rfl⟩
      rw [hpath]
      exact hpieces.mpr h.no_dots
  · constructor
    · intro h
      rcases h with ⟨_, u, _, hu, _, _, _, _, hquery, hfragment⟩
      rw [hurl, parseHttps_address hrules hbase.host hclean] at hu
      cases hu
      exfalso
      apply hends
      intro name hname c hc
      rw [Bool.eq_false_iff]
      intro hend
      exact ending_of_mem (List.mem_append_right segments hname) hc hend ⟨hquery, hfragment⟩
    · intro h
      exact absurd ((noEnd_iff coord ext).mpr h.no_end) hends

end Agreement

/-!
# The place in the repository
-/

def LiesUnder (root place : List Component) : Prop :=
  root <+: place ∧ forall c, c ∈ place.drop root.length -> c.isNormal = true

/-- The editor writes the file under the root, at the place where the resolver looks. -/
def SamePlace (P : Platform) (m2Root : Text) (coord : Coordinate) (ext : ArtifactExt) : Prop :=
  exists place rel, m2FilePath P m2Root coord ext = some place ∧
    Classpath.m2RelativeExt coord.group coord.artifact coord.version ext.text = some rel ∧
    LiesUnder (Component.settle (P.components m2Root)) place ∧
    Component.settle (P.components (P.join m2Root rel)) = place

def topOf (P : Platform) (m2Root group : Text) : List Component :=
  if P.startsAtTwoSeps (Classpath.groupDirectory group ++ ['/']) then [.root]
  else
    (if (P.splitDrive m2Root).1 = [] then [] else [.drive (P.splitDrive m2Root).1]) ++ [.root]

/-- The root is no drive alone, and a group that starts over starts at the root. -/
structure Anchored (P : Platform) (m2Root : Text) (coord : Coordinate) : Prop where
  no_drive : ¬ P.BareDrive m2Root
  top : coord.group.head? = some '.' ->
    Component.settle (P.components m2Root) = topOf P m2Root coord.group

section Places

variable {P : Platform} {m2Root : Text} {coord : Coordinate}

theorem splitOnP_groupDirectory {group : Text} (h : forall c, c ∈ group -> P.isSep c = false) :
    (Classpath.groupDirectory group).splitOnP P.isSep = group.splitOn '.' := by
  rw [List.splitOn_eq_splitOnP]
  induction group with
  | nil => rfl
  | cons c rest ih =>
    have hrest := ih (fun d hd => h d (List.mem_cons_of_mem c hd))
    have hcons : Classpath.groupDirectory (c :: rest) =
        (if c = '.' then '/' else c) :: Classpath.groupDirectory rest := rfl
    rw [hcons, List.splitOnP_cons_eq_if_modifyHead, List.splitOnP_cons_eq_if_modifyHead, hrest]
    by_cases hdot : c = '.'
    · have hslash : P.isSep '/' = true := by cases P <;> decide
      simp [hdot, hslash]
    · have hc := h c List.mem_cons_self
      simp [hdot, hc]

theorem names_m2RelativeExt (h : SafeCoordinate coord) {ext : ArtifactExt} {rel : Text}
    (hrel : Classpath.m2RelativeExt coord.group coord.artifact coord.version ext.text = some rel) :
    P.names rel =
      (directoryParts coord).filterMap Platform.nameOf ++ [.normal (fileName coord ext)] := by
  have hslash : P.isSep '/' = true := by cases P <;> decide
  have hgroup : P.names (Classpath.groupDirectory coord.group) =
      (coord.group.splitOn '.').filterMap Platform.nameOf := by
    unfold Platform.names
    rw [splitOnP_groupDirectory (h.group.no_sep P)]
  have hfile : P.names (fileName coord ext) = [.normal (fileName coord ext)] := by
    rw [P.names_of_no_sep (plainPart_fileName P h ext).no_sep, nameOf_fileName]
    rfl
  rw [(Classpath.m2RelativeExt_eq_some hrel).2, P.names_append_sep _ _ hslash,
    P.names_append_sep _ _ hslash, P.names_append_sep _ _ hslash, hgroup,
    P.names_of_no_sep (h.artifact.no_sep P), P.names_of_no_sep (h.version.no_sep P)]
  show _ ++ (_ ++ (_ ++ P.names (fileName coord ext))) = _
  rw [hfile]
  unfold directoryParts
  cases hartifact : Platform.nameOf coord.artifact <;>
    cases hversion : Platform.nameOf coord.version <;> simp [hartifact, hversion]

theorem settle_topOf (P : Platform) (m2Root group : Text) :
    Component.settle (topOf P m2Root group) = topOf P m2Root group := by
  unfold topOf
  split
  · rfl
  · split
    · rfl
    · rfl

theorem splitDrive_slash (P : Platform) (rest : Text) :
    P.splitDrive ('/' :: rest) = ([], '/' :: rest) := by
  cases P with
  | unix => rfl
  | windows =>
    cases rest with
    | nil => rfl
    | cons d rest =>
      by_cases hd : d = ':'
      · have hletter : '/'.isAlpha = false := by decide
        rw [hd]
        simp [Platform.splitDrive, hletter]
      · simp [Platform.splitDrive, hd]

theorem components_join_startsOver {others rest : Text} :
    P.components (P.join m2Root (Classpath.groupDirectory ('.' :: others) ++ '/' :: rest)) =
      topOf P m2Root ('.' :: others) ++
        P.names (Classpath.groupDirectory ('.' :: others) ++ '/' :: rest) := by
  have hrel : Classpath.groupDirectory ('.' :: others) ++ '/' :: rest =
      '/' :: (Classpath.groupDirectory others ++ '/' :: rest) := rfl
  have htwo : P.startsAtTwoSeps (Classpath.groupDirectory ('.' :: others) ++ '/' :: rest) =
      P.startsAtTwoSeps (Classpath.groupDirectory ('.' :: others) ++ ['/']) := by
    cases others with
    | nil => rfl
    | cons d others => rfl
  have hsplit := splitDrive_slash P (Classpath.groupDirectory others ++ '/' :: rest)
  rw [← hrel] at hsplit
  generalize Classpath.groupDirectory ('.' :: others) ++ '/' :: rest = rel at *
  have hsep : P.startsAtSep rel = true := by
    rw [hrel]
    cases P <;> rfl
  have hdrive : P.hasDrive rel = false := by
    unfold Platform.hasDrive
    rw [hsplit]
    rfl
  have hroot : P.hasRoot rel = true := by
    unfold Platform.hasRoot
    rw [hsplit]
    exact hsep
  unfold Platform.join topOf
  rw [hdrive, Bool.false_or, htwo, hroot]
  split
  · rw [Platform.components_of_splitDrive hsplit, hsep]
    rfl
  · rw [if_pos rfl, Platform.components_of_splitDrive
      (Platform.splitDrive_bare_append (P.splitDrive_drive m2Root) hsplit), hsep]
    rfl

theorem exists_m2RelativeExt (hsafe : isSafeCoordinate coord = true) (ext : Text) :
    exists rel, Classpath.m2RelativeExt coord.group coord.artifact coord.version ext =
      some rel := by
  have hcoord := safeCoordinate_of hsafe
  have hnone : [coord.group, coord.artifact, coord.version].any Classpath.unsafeCoord = false := by
    simp [hcoord.group.unsafeCoord_eq_false, hcoord.artifact.unsafeCoord_eq_false,
      hcoord.version.unsafeCoord_eq_false]
  unfold Classpath.m2RelativeExt
  rw [hnone]
  exact ⟨_, rfl⟩

theorem settle_join (h : SafeCoordinate coord) {ext : ArtifactExt} {rel : Text}
    (hrel : Classpath.m2RelativeExt coord.group coord.artifact coord.version ext.text = some rel) :
    Component.settle (P.components (P.join m2Root rel)) =
      (if coord.group.head? = some '.' then topOf P m2Root coord.group
        else Component.settle (P.components m2Root)) ++
        ((directoryParts coord).filterMap Platform.nameOf ++ [.normal (fileName coord ext)]) := by
  have hnames := names_m2RelativeExt (P := P) h hrel
  have hnormal : forall c, c ∈ P.names rel -> c.isNormal = true := by
    rw [hnames]
    intro c hc
    cases List.mem_append.mp hc with
    | inl hc => exact isNormal_directoryParts h c hc
    | inr hc =>
      rw [List.mem_singleton.mp hc]
      rfl
  rw [← hnames]
  split
  · rename_i hdot
    have hjoin : P.components (P.join m2Root rel) = topOf P m2Root coord.group ++ P.names rel := by
      rw [(Classpath.m2RelativeExt_eq_some hrel).2]
      cases hgroup : coord.group with
      | nil =>
        rw [hgroup] at hdot
        cases hdot
      | cons c others =>
        rw [hgroup] at hdot
        cases hdot
        exact components_join_startsOver
    rw [hjoin, Component.settle_append_normal _ hnormal, settle_topOf]
  · rename_i hdot
    have hrelative : P.anchored rel = false := by
      rw [Classpath.m2RelativeExt_anchored P hrel]
      exact decide_eq_false hdot
    rw [Platform.components_join_relative hrelative, Component.settle_append_normal _ hnormal]

theorem components_of_bareDrive (h : P.BareDrive m2Root) :
    P.components m2Root = [.drive m2Root] := by
  have hwhole : P.splitDrive m2Root = (m2Root, []) := by
    have happend := P.splitDrive_append m2Root
    rw [h.2, List.append_nil] at happend
    exact Prod.ext happend h.2
  have hnone : P.startsAtSep [] = false := rfl
  rw [Platform.components_of_splitDrive hwhole, hnone, P.names_nil, if_neg h.1]
  rfl

theorem samePlace_iff (P : Platform) (m2Root : Text) (hsafe : isSafeCoordinate coord = true)
    (ext : ArtifactExt) : SamePlace P m2Root coord ext <-> Anchored P m2Root coord := by
  have hcoord := safeCoordinate_of hsafe
  have hplace := m2FilePath_eq P m2Root hsafe ext
  rcases exists_m2RelativeExt hsafe ext.text with ⟨rel, hrel⟩
  have hjoin : Component.settle (P.components (P.join m2Root rel)) = _ :=
    settle_join hcoord hrel
  generalize hnames : (directoryParts coord).filterMap Platform.nameOf ++
    [.normal (fileName coord ext)] = names at hjoin
  have hnormal : forall c, c ∈ names -> c.isNormal = true := by
    rw [← hnames]
    intro c hc
    cases List.mem_append.mp hc with
    | inl hc => exact isNormal_directoryParts hcoord c hc
    | inr hc =>
      rw [List.mem_singleton.mp hc]
      rfl
  have hfile : m2FilePath P m2Root coord ext =
      some (Component.settle (P.components m2Root ++
        (if P.BareDrive m2Root then [.root] else [])) ++ names) := by
    rw [hplace, ← hnames]
    unfold m2Directory
    rw [List.append_assoc]
  by_cases hbare : P.BareDrive m2Root
  · have hdrive := components_of_bareDrive hbare
    rw [if_pos hbare, hdrive] at hfile
    constructor
    · intro h
      rcases h with ⟨place, _, hplace', _, hunder, _⟩
      rw [hfile] at hplace'
      cases hplace'
      rw [hdrive] at hunder
      have hroot := hunder.2 .root List.mem_cons_self
      cases hroot
    · intro h
      exact absurd hbare h.no_drive
  · rw [if_neg hbare, List.append_nil] at hfile
    constructor
    · intro h
      rcases h with ⟨place, rel', hplace', hrel', _, hsame⟩
      rw [hfile] at hplace'
      rw [hrel] at hrel'
      cases hplace'
      cases hrel'
      rw [hjoin] at hsame
      refine ⟨hbare, ?_⟩
      intro hdot
      rw [if_pos hdot] at hsame
      exact (List.append_cancel_right hsame).symm
    · intro h
      refine ⟨_, rel, hfile, hrel, ?_, ?_⟩
      · constructor
        · exact List.prefix_append _ names
        · rw [List.drop_left]
          exact hnormal
      · rw [hjoin]
        split
        · rename_i hdot
          rw [h.top hdot]
        · rfl

end Places

/-!
# Both together
-/

/--
The editor fetches and installs the artifact that the resolver looks for exactly if the
root is no bare drive and the path does not start over elsewhere, no part of the
coordinate ends a path, and no directory is read as a step of dots.
-/
theorem artifact_agreement_iff {parseHost : Text -> Option Text} (hrules : HostRules parseHost)
    (hcentral : parseHost centralHost = some centralHost) {raw base : Text}
    (hbase : normalizeRepositoryBase parseHost raw = some base) {coord : Coordinate}
    (hsafe : isSafeCoordinate coord = true) (P : Platform) (m2Root : Text) (ext : ArtifactExt) :
    SamePlace P m2Root coord ext ∧ AddressedExactly parseHost base coord ext <->
      Anchored P m2Root coord ∧ Addressable coord := by
  rcases cleanBase_of_normalize hrules hcentral hbase with ⟨host, segments, hclean⟩
  rw [samePlace_iff P m2Root hsafe ext, addressedExactly_iff hrules hclean hsafe ext]

namespace Central

def parseHost (text : Text) : Option Text :=
  if text = centralHost then some text else none

theorem eq_of_parseHost {text host : Text} (h : parseHost text = some host) :
    text = centralHost ∧ host = centralHost := by
  unfold parseHost at h
  split at h
  · rename_i htext
    cases h
    exact ⟨htext, htext⟩
  · cases h

theorem hostRules : HostRules parseHost where
  stable text host h := by
    rw [(eq_of_parseHost h).2]
    exact if_pos rfl
  nonempty text host h := by
    rw [(eq_of_parseHost h).2]
    decide
  plain text host h c hc := by
    have hall : centralHost.all (fun c => !isControlOrSpace c && !endsAuthority c && c != '@') =
        true := by decide
    rw [(eq_of_parseHost h).2] at hc
    have hboth := List.all_eq_true.mp hall c hc
    simpa [Bool.and_eq_true, and_assoc] using hboth

def guava : Coordinate where
  group := "com.google.guava".toList
  artifact := "guava".toList
  version := "33.0.0-jre".toList

theorem artifact_agreement_guava :
    SamePlace .unix "/home/u/.m2/repository".toList guava .jar ∧
      AddressedExactly parseHost mavenCentralBase guava .jar := by
  have hsafe : isSafeCoordinate guava = true := by decide
  have hbase : normalizeRepositoryBase parseHost [] = some mavenCentralBase := rfl
  have hconditions : Anchored .unix "/home/u/.m2/repository".toList guava ∧ Addressable guava := by
    constructor
    · exact ⟨by decide, fun h => absurd h (by decide)⟩
    · exact ⟨by decide, by decide⟩
  exact (artifact_agreement_iff hostRules (if_pos rfl) hbase hsafe .unix _ .jar).mpr hconditions

def leadingDot : Coordinate where
  group := ".etc".toList
  artifact := "a".toList
  version := "1".toList

def questionMark : Coordinate where
  group := "g".toList
  artifact := "a".toList
  version := "1?x".toList

def encodedDots : Coordinate where
  group := "g".toList
  artifact := "a".toList
  version := "%2e%2e".toList

/-- The three coordinates are accepted, and each is fetched or looked for elsewhere. -/
theorem accepted_but_elsewhere :
    (isSafeCoordinate leadingDot = true ∧
        ¬ SamePlace .unix "/home/u/.m2/repository".toList leadingDot .pom) ∧
      (isSafeCoordinate questionMark = true ∧
        ¬ AddressedExactly parseHost mavenCentralBase questionMark .pom) ∧
      isSafeCoordinate encodedDots = true ∧
        ¬ AddressedExactly parseHost mavenCentralBase encodedDots .pom := by
  have hcentral : parseHost centralHost = some centralHost := if_pos rfl
  have hbase : normalizeRepositoryBase parseHost [] = some mavenCentralBase := rfl
  rcases cleanBase_of_normalize hostRules hcentral hbase with ⟨host, segments, hclean⟩
  have hdot : isSafeCoordinate leadingDot = true := by decide
  have hquestion : isSafeCoordinate questionMark = true := by decide
  have hdots : isSafeCoordinate encodedDots = true := by decide
  refine ⟨⟨hdot, ?_⟩, ⟨hquestion, ?_⟩, hdots, ?_⟩
  · rw [samePlace_iff .unix _ hdot .pom]
    intro h
    exact absurd (h.top rfl) (by decide)
  · rw [addressedExactly_iff hostRules hclean hquestion .pom]
    intro h
    exact absurd h.no_end (by decide)
  · rw [addressedExactly_iff hostRules hclean hdots .pom]
    intro h
    exact absurd h.no_dots (by decide)

end Central

end Editor
end JavaVsixLite
