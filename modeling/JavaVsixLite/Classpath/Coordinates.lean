import JavaVsixLite.Foundation.Pathnames

/-!
# Artifacts in the local Maven repository

The coordinates of an artifact come from the POM files of the project.  They are
checked before they are put together to a path under the repository.
-/

namespace JavaVsixLite
namespace Classpath

open Foundation

def unsafeCoord (s : Text) : Bool :=
  s.isEmpty || decide (['.', '.'] <:+: s) || s.contains '/' || s.contains '\\' ||
    s.contains ':'

def groupDirectory (group : Text) : Text :=
  group.map (fun c => if c = '.' then '/' else c)

def m2RelativeExt (group artifact version ext : Text) : Option Text :=
  if [group, artifact, version].any unsafeCoord then none
  else
    some (groupDirectory group ++ '/' :: (artifact ++ '/' :: (version ++ '/' ::
      (artifact ++ '-' :: (version ++ '.' :: ext)))))

def m2Relative (group artifact version : Text) : Option Text :=
  m2RelativeExt group artifact version ['j', 'a', 'r']

structure MavenLocator where
  m2Repo : Text

namespace MavenLocator

variable (P : Platform) (isFile : Text -> Bool) (locator : MavenLocator)

def located (rel : Option Text) : Option Text :=
  (rel.map (P.join locator.m2Repo)).filter isFile

def locatePom (group artifact version : Text) : Option Text :=
  locator.located P isFile (m2RelativeExt group artifact version ['p', 'o', 'm'])

def locateJar (group artifact version : Text) : Option Text :=
  locator.located P isFile (m2Relative group artifact version)

end MavenLocator

/-!
# Coordinates that pass the check
-/

structure SafeCoord (s : Text) : Prop where
  nonempty : s ≠ []
  no_dots : ¬ ['.', '.'] <:+: s
  no_slash : '/' ∉ s
  no_backslash : '\\' ∉ s
  no_colon : ':' ∉ s

theorem safeCoord_of {s : Text} (h : unsafeCoord s = false) : SafeCoord s := by
  unfold unsafeCoord at h
  simp only [Bool.or_eq_false_iff, List.isEmpty_eq_false_iff, decide_eq_false_iff_not,
    List.contains_eq_mem] at h
  exact ⟨h.1.1.1.1, h.1.1.1.2, h.1.1.2, h.1.2, h.2⟩

namespace SafeCoord

variable {s : Text}

theorem unsafeCoord_eq_false (h : SafeCoord s) : unsafeCoord s = false := by
  unfold unsafeCoord
  simp only [Bool.or_eq_false_iff, List.isEmpty_eq_false_iff, decide_eq_false_iff_not,
    List.contains_eq_mem]
  exact ⟨⟨⟨⟨h.nonempty, h.no_dots⟩, h.no_slash⟩, h.no_backslash⟩, h.no_colon⟩

theorem no_sep (h : SafeCoord s) (P : Platform) : forall c, c ∈ s -> P.isSep c = false := by
  intro c hc
  have hslash : c ≠ '/' := by
    rintro rfl
    exact h.no_slash hc
  have hbackslash : c ≠ '\\' := by
    rintro rfl
    exact h.no_backslash hc
  cases P with
  | unix => simpa [Platform.isSep] using hslash
  | windows => simp [Platform.isSep, hslash, hbackslash]

theorem names_normal (h : SafeCoord s) (P : Platform) :
    forall c, c ∈ P.names s -> c.isNormal = true := by
  intro c hc
  rw [P.names_of_no_sep (h.no_sep P)] at hc
  refine Platform.nameOf_normal ?_ (Option.mem_toList.mp hc)
  rintro rfl
  exact h.no_dots (List.infix_refl _)

end SafeCoord

theorem dot_not_mem_groupDirectory (group : Text) : '.' ∉ groupDirectory group := by
  intro h
  rcases List.mem_map.mp h with ⟨c, _, hc⟩
  split at hc
  · cases hc
  · rename_i hne
    exact hne hc

theorem hasDrive_eq_false {P : Platform} {c d : Char} (hd : d ≠ ':') (rest : Text) :
    P.hasDrive (c :: d :: rest) = false := by
  cases P with
  | unix => rfl
  | windows => simp [Platform.hasDrive, Platform.splitDrive, hd]

theorem anchored_groupDirectory (P : Platform) {group : Text} (h : SafeCoord group)
    (rest : Text) :
    P.anchored (groupDirectory group ++ '/' :: rest) = decide (group.head? = some '.') := by
  cases group with
  | nil => exact absurd rfl h.nonempty
  | cons c others =>
    have hdrive : P.hasDrive (groupDirectory (c :: others) ++ '/' :: rest) = false := by
      cases others with
      | nil => exact hasDrive_eq_false (by decide) rest
      | cons d others =>
        refine hasDrive_eq_false (c := if c = '.' then '/' else c)
          (d := if d = '.' then '/' else d) ?_ _
        split
        · decide
        · rintro rfl
          exact h.no_colon (List.mem_cons_of_mem c List.mem_cons_self)
    unfold Platform.anchored
    rw [hdrive, Bool.false_or]
    show P.isSep (if c = '.' then '/' else c) = decide (some c = some '.')
    by_cases hdot : c = '.'
    · rw [if_pos hdot, hdot]
      cases P <;> decide
    · rw [if_neg hdot, h.no_sep P c List.mem_cons_self]
      simp [hdot]

/-- A segment of the extension, after its first separator, goes up. -/
def Climbs (P : Platform) (ext : Text) : Prop :=
  ['.', '.'] ∈ (ext.splitOnP P.isSep).tail

instance (P : Platform) (ext : Text) : Decidable (Climbs P ext) :=
  inferInstanceAs (Decidable (_ ∈ _))

/-- The file name starts with `artifact-version.`, so only what follows can go up. -/
theorem fileName_normal_iff (P : Platform) {artifact version : Text} (ha : SafeCoord artifact)
    (hv : SafeCoord version) (ext : Text) :
    (forall c, c ∈ P.names (artifact ++ '-' :: (version ++ '.' :: ext)) -> c.isNormal = true) <->
      ¬ Climbs P ext := by
  have hstem : forall c, c ∈ artifact ++ '-' :: (version ++ ['.']) -> P.isSep c = false := by
    intro c hc
    simp only [List.mem_append, List.mem_cons, List.not_mem_nil, or_false] at hc
    rcases hc with hc | rfl | hc | rfl
    · exact ha.no_sep P c hc
    · cases P <;> decide
    · exact hv.no_sep P c hc
    · cases P <;> decide
  have hsplit := Platform.splitOnP_append_of_no_sep hstem ext
  have htext : artifact ++ '-' :: (version ++ '.' :: ext) =
      (artifact ++ '-' :: (version ++ ['.'])) ++ ext := by simp
  unfold Platform.names Climbs
  rw [Platform.filterMap_nameOf_normal_iff, htext, hsplit]
  cases hpieces : ext.splitOnP P.isSep with
  | nil => exact absurd hpieces (List.splitOnP_ne_nil P.isSep ext)
  | cons head tail =>
    rw [List.modifyHead_cons, List.tail_cons, List.mem_cons, not_or]
    constructor
    · intro hnone
      exact hnone.2
    · intro hnone
      refine ⟨?_, hnone⟩
      intro hdots
      have hdash : '-' ∈ ['.', '.'] := by
        rw [hdots]
        simp
      revert hdash
      decide

section Accepted

variable {group artifact version ext rel : Text}

theorem m2RelativeExt_eq_some (h : m2RelativeExt group artifact version ext = some rel) :
    (SafeCoord group ∧ SafeCoord artifact ∧ SafeCoord version) ∧
      rel = groupDirectory group ++ '/' :: (artifact ++ '/' :: (version ++ '/' ::
        (artifact ++ '-' :: (version ++ '.' :: ext)))) := by
  unfold m2RelativeExt at h
  split at h
  · cases h
  · rename_i hsafe
    have hcoords : forall s, s ∈ [group, artifact, version] -> SafeCoord s := by
      intro s hs
      refine safeCoord_of ?_
      cases hunsafe : unsafeCoord s with
      | false => rfl
      | true => exact absurd (List.any_eq_true.mpr ⟨s, hs, hunsafe⟩) hsafe
    exact ⟨⟨hcoords group (by simp), hcoords artifact (by simp), hcoords version (by simp)⟩,
      (Option.some.inj h).symm⟩

theorem m2RelativeExt_anchored (P : Platform)
    (h : m2RelativeExt group artifact version ext = some rel) :
    P.anchored rel = decide (group.head? = some '.') := by
  rcases m2RelativeExt_eq_some h with ⟨⟨hgroup, _, _⟩, rfl⟩
  exact anchored_groupDirectory P hgroup _

theorem m2RelativeExt_names_normal_iff (P : Platform)
    (h : m2RelativeExt group artifact version ext = some rel) :
    (forall c, c ∈ P.names rel -> c.isNormal = true) <-> ¬ Climbs P ext := by
  rcases m2RelativeExt_eq_some h with ⟨⟨_, hartifact, hversion⟩, rfl⟩
  have hslash : P.isSep '/' = true := by cases P <;> decide
  rw [P.names_append_sep _ _ hslash, P.names_append_sep _ _ hslash,
    P.names_append_sep _ _ hslash, ← fileName_normal_iff P hartifact hversion ext]
  constructor
  · intro hnormal c hc
    exact hnormal c (List.mem_append_right _ (List.mem_append_right _
      (List.mem_append_right _ hc)))
  · intro hnormal c hc
    simp only [List.mem_append] at hc
    rcases hc with hc | hc | hc | hc
    · exact P.names_normal_of_no_dot (dot_not_mem_groupDirectory group) c hc
    · exact hartifact.names_normal P c hc
    · exact hversion.names_normal P c hc
    · exact hnormal c hc

end Accepted

variable {isFile : Text -> Bool} {locator : MavenLocator} {group artifact version path : Text}

/-- What a locator finds is in its repository, unless the group starts with a dot. -/
theorem MavenLocator.located_staysUnder (P : Platform) {ext : Text}
    (h : locator.located P isFile (m2RelativeExt group artifact version ext) = some path)
    (hgroup : group.head? ≠ some '.') (hext : ¬ Climbs P ext) :
    P.StaysUnder locator.m2Repo path := by
  unfold MavenLocator.located at h
  have hpath := (Option.filter_eq_some_iff.mp h).1
  rcases Option.map_eq_some_iff.mp hpath with ⟨rel, hrel, rfl⟩
  refine (P.join_staysUnder_iff rel).mpr ⟨?_, ?_⟩ locator.m2Repo
  · rw [m2RelativeExt_anchored P hrel]
    simpa using hgroup
  · exact (m2RelativeExt_names_normal_iff P hrel).mpr hext

theorem MavenLocator.locatePom_staysUnder (P : Platform)
    (h : locator.locatePom P isFile group artifact version = some path)
    (hgroup : group.head? ≠ some '.') : P.StaysUnder locator.m2Repo path := by
  refine located_staysUnder P h hgroup ?_
  cases P <;> decide

theorem MavenLocator.locateJar_staysUnder (P : Platform)
    (h : locator.locateJar P isFile group artifact version = some path)
    (hgroup : group.head? ≠ some '.') : P.StaysUnder locator.m2Repo path := by
  refine located_staysUnder P h hgroup ?_
  cases P <;> decide

/--
The path of an artifact stays under every repository it is joined to exactly when
its group does not start with a dot and no segment of the extension goes up.
-/
theorem m2Relative_staysUnder_iff (P : Platform) (group artifact version ext rel : Text)
    (h : m2RelativeExt group artifact version ext = some rel) :
    (forall root, P.StaysUnder root (P.join root rel)) <->
      group.head? ≠ some '.' ∧ ¬ Climbs P ext := by
  rw [P.join_staysUnder_iff, m2RelativeExt_anchored P h, decide_eq_false_iff_not,
    m2RelativeExt_names_normal_iff P h]

theorem m2Relative_staysUnder_guava :
    m2RelativeExt "com.google.guava".toList "guava".toList "33.0.0-jre".toList "pom".toList =
        some "com/google/guava/guava/33.0.0-jre/guava-33.0.0-jre.pom".toList ∧
      forall root, Platform.unix.StaysUnder root (Platform.unix.join root
        "com/google/guava/guava/33.0.0-jre/guava-33.0.0-jre.pom".toList) := by
  have hrel : m2RelativeExt "com.google.guava".toList "guava".toList "33.0.0-jre".toList
      "pom".toList = some "com/google/guava/guava/33.0.0-jre/guava-33.0.0-jre.pom".toList := by
    decide +kernel
  refine ⟨hrel, ?_⟩
  exact (m2Relative_staysUnder_iff .unix _ _ _ _ _ hrel).mpr (by decide +kernel)

/-- The first dot of the group becomes the root directory. -/
theorem m2Relative_leading_dot :
    m2RelativeExt ".etc".toList "a".toList "1".toList "pom".toList =
        some "/etc/a/1/a-1.pom".toList ∧
      Platform.unix.join "/home/u/.m2/repository".toList "/etc/a/1/a-1.pom".toList =
        "/etc/a/1/a-1.pom".toList ∧
      ¬ Platform.unix.StaysUnder "/home/u/.m2/repository".toList
        "/etc/a/1/a-1.pom".toList := by
  decide

end Classpath
end JavaVsixLite
