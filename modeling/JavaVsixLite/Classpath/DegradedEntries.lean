import JavaVsixLite.Classpath.Resolution

/-!
# Records of missing artifacts

What could not be resolved is recorded as a line of text, and the lines are read back to
offer the missing artifacts for fetching.  A line is a coordinate, with a reason in
parentheses when the artifact is not to be fetched.
-/

namespace JavaVsixLite
namespace Classpath

open Foundation

/-!
# Reading a record
-/

structure DegradedCoordinate where
  group : Text
  artifact : Text
  version : Option Text
  reason : Option Text

def DegradedCoordinate.isFetchable (d : DegradedCoordinate) : Bool :=
  d.reason.isNone && d.version.isSome

def isPlainSegment (s : Text) : Bool :=
  !s.isEmpty && !s.any isWhitespace

/-- How a reason opens. -/
def reasonOpening : Text := [' ', '(']

@[grind =] def rsplitReason : Text -> Option (Text × Text)
  | [] => none
  | c :: rest =>
    match rsplitReason rest with
    | some (before, after) => some (c :: before, after)
    | none => if reasonOpening <+: c :: rest then some ([], rest.tail) else none

def splitReason (entry : Text) : Option (Text × Option Text) :=
  if entry.getLast? = some ')' then
    (rsplitReason entry.dropLast).map (fun halves => (halves.1, some halves.2))
  else some (entry, none)

def parseDegradedEntry (entry : Text) : Option DegradedCoordinate :=
  match splitReason entry with
  | none => none
  | some (base, reason) =>
    match base.splitOn ':' with
    | [g, a, v] =>
      if isPlainSegment g && isPlainSegment a && isPlainSegment v then
        some { group := g, artifact := a, version := some v, reason := reason }
      else none
    | [g, a] =>
      if reason.isSome && isPlainSegment g && isPlainSegment a then
        some { group := g, artifact := a, version := none, reason := reason }
      else none
    | _ => none

/-!
# Coordinates and records
-/

/-- A part of a coordinate as it is accepted from a POM. -/
structure CoordinateText (s : Text) : Prop where
  ne_nil : s ≠ []
  no_whitespace : forall c, c ∈ s -> isWhitespace c = false
  no_colon : ':' ∉ s

/-- A record with a reason not to go on with the coordinate. -/
def withReason (coordinate reason : Text) : Text :=
  coordinate ++ (reasonOpening ++ (reason ++ [')']))

theorem depthExceeded_eq (seed : Seed) :
    depthExceeded seed = withReason seed.coord "max depth exceeded".toList :=
  rfl

theorem classifierSkip_eq (dep : RawDep) (classifier : Text) :
    classifierSkip dep classifier =
      withReason (coordStr dep.group dep.artifact (dep.version.getD ['?']))
        ("classifier ".toList ++ (classifier ++ " unsupported".toList)) := by
  unfold classifierSkip withReason
  simp [reasonOpening]

/-- The record is read as the coordinate, which is or is not offered for fetching. -/
def ParsesTo (record : Text) (d : DegradedCoordinate) (fetchable : Bool) : Prop :=
  parseDegradedEntry record = some d ∧ d.isFetchable = fetchable

namespace CoordinateText

variable {s : Text}

theorem isPlainSegment (h : CoordinateText s) : isPlainSegment s = true := by
  have hany : s.any isWhitespace = false := by
    rw [List.any_eq_false]
    intro c hc
    simp [h.no_whitespace c hc]
  have hempty : s.isEmpty = false := by simpa using h.ne_nil
  unfold Classpath.isPlainSegment
  rw [hany, hempty]
  rfl

theorem no_space (h : CoordinateText s) : ' ' ∉ s := by
  intro hmem
  have hspace := h.no_whitespace ' ' hmem
  cases hspace

end CoordinateText

/-!
# The last opening
-/

theorem infix_cons_iff {c : Char} {rest : Text} :
    reasonOpening <:+: c :: rest <-> reasonOpening <+: c :: rest ∨ reasonOpening <:+: rest :=
  List.infix_cons_iff

theorem rsplitReason_eq_none_iff {text : Text} :
    rsplitReason text = none <-> ¬ reasonOpening <:+: text := by
  induction text with
  | nil => simp [rsplitReason, reasonOpening]
  | cons c rest ih =>
    rw [rsplitReason, infix_cons_iff]
    cases hrest : rsplitReason rest with
    | some halves =>
      have hinside : reasonOpening <:+: rest := by
        by_contra hno
        rw [ih.mpr hno] at hrest
        cases hrest
      simp [hinside]
    | none =>
      have hno := ih.mp hrest
      by_cases hopening : reasonOpening <+: c :: rest
      · simp [hopening]
      · simp [hopening, hno]

theorem not_infix_of_no_space {text : Text} (h : ' ' ∉ text) : ¬ reasonOpening <:+: text := by
  intro hinside
  exact h (hinside.subset List.mem_cons_self)

theorem rsplitReason_append {before after : Text} (h : ¬ reasonOpening <:+: after) :
    rsplitReason (before ++ (reasonOpening ++ after)) = some (before, after) := by
  induction before with
  | nil =>
    have hrest : rsplitReason ('(' :: after) = none := by
      rw [rsplitReason_eq_none_iff, infix_cons_iff]
      intro hinside
      rcases hinside with hopening | hinside
      · rcases hopening with ⟨tail, htail⟩
        cases htail
      · exact h hinside
    have hopening : reasonOpening <+: ' ' :: '(' :: after := ⟨after, rfl⟩
    show rsplitReason (' ' :: '(' :: after) = _
    rw [rsplitReason, hrest]
    simp only [if_pos hopening]
    rfl
  | cons c before ih =>
    rw [List.cons_append, rsplitReason, ih]

theorem not_infix_of_rsplitReason {text : Text} {halves : Text × Text}
    (h : rsplitReason text = some halves) : ¬ reasonOpening <:+: halves.2 := by
  induction text generalizing halves with
  | nil => cases h
  | cons c rest ih =>
    rw [rsplitReason] at h
    cases hrest : rsplitReason rest with
    | some inner =>
      rw [hrest, Option.some.injEq] at h
      rw [← h]
      exact @ih inner hrest
    | none =>
      simp only [hrest] at h
      have hno := rsplitReason_eq_none_iff.mp hrest
      by_cases hopening : reasonOpening <+: c :: rest
      · rw [if_pos hopening, Option.some.injEq] at h
        rw [← h]
        intro hinside
        exact hno (hinside.trans (List.tail_suffix rest).isInfix)
      · rw [if_neg hopening] at h
        cases h

/-!
# Reading records back
-/

section Coordinates

variable {group artifact version : Text}

theorem splitOn_coordStr (hg : CoordinateText group) (ha : CoordinateText artifact)
    (hv : CoordinateText version) :
    (coordStr group artifact version).splitOn ':' = [group, artifact, version] := by
  have hjoin : [':'].intercalate [group, artifact, version] =
      coordStr group artifact version := by
    simp [coordStr, List.intercalate]
  have hparts : forall part, part ∈ [group, artifact, version] -> ':' ∉ part := by
    intro part hpart
    simp only [List.mem_cons, List.not_mem_nil, or_false] at hpart
    rcases hpart with rfl | rfl | rfl
    · exact hg.no_colon
    · exact ha.no_colon
    · exact hv.no_colon
  rw [← hjoin]
  exact List.splitOn_intercalate ':' hparts (List.cons_ne_nil _ _)

theorem no_space_coordStr (hg : CoordinateText group) (ha : CoordinateText artifact)
    (hv : CoordinateText version) : ' ' ∉ coordStr group artifact version := by
  unfold coordStr
  simp [hg.no_space, ha.no_space, hv.no_space]

theorem getLast?_coordStr (hv : CoordinateText version) :
    (coordStr group artifact version).getLast? = version.getLast? := by
  unfold coordStr
  cases hlast : version.getLast? with
  | none => exact absurd (List.getLast?_eq_none_iff.mp hlast) hv.ne_nil
  | some last => simp [List.getLast?_append, List.getLast?_cons, hlast]

theorem parse_of_splitReason (hg : CoordinateText group) (ha : CoordinateText artifact)
    (hv : CoordinateText version) {entry : Text} {reason : Option Text}
    (h : splitReason entry = some (coordStr group artifact version, reason)) :
    parseDegradedEntry entry =
      some
        { group := group
          artifact := artifact
          version := some version
          reason := reason } := by
  unfold parseDegradedEntry
  simp [h, splitOn_coordStr hg ha hv, hg.isPlainSegment, ha.isPlainSegment, hv.isPlainSegment]

theorem splitReason_of_parse {entry : Text} {d : DegradedCoordinate}
    (h : parseDegradedEntry entry = some d) :
    exists base, splitReason entry = some (base, d.reason) := by
  unfold parseDegradedEntry at h
  cases hsplit : splitReason entry with
  | none =>
    rw [hsplit] at h
    cases h
  | some halves =>
    rcases halves with ⟨base, reason⟩
    simp only [hsplit] at h
    exists base
    split at h
    · split at h
      · rw [← Option.some.inj h]
      · cases h
    · split at h
      · rw [← Option.some.inj h]
      · cases h
    · cases h

theorem splitReason_withReason (coordinate reason : Text) :
    splitReason (withReason coordinate reason) =
      (rsplitReason (coordinate ++ (reasonOpening ++ reason))).map
        (fun halves => (halves.1, some halves.2)) := by
  have hsnoc : withReason coordinate reason =
      (coordinate ++ (reasonOpening ++ reason)) ++ [')'] := by
    unfold withReason
    simp only [List.append_assoc]
  unfold splitReason
  rw [hsnoc, List.getLast?_concat, if_pos rfl, List.dropLast_concat]

/-- The record of a missing artifact is read back unless its version ends like a reason. -/
theorem missing_parsesTo_iff (hg : CoordinateText group) (ha : CoordinateText artifact)
    (hv : CoordinateText version) :
    ParsesTo (coordStr group artifact version)
        { group := group, artifact := artifact, version := some version, reason := none } true <->
      version.getLast? ≠ some ')' := by
  have hlast : (coordStr group artifact version).getLast? = version.getLast? :=
    getLast?_coordStr hv
  constructor
  · intro h hclose
    have hnone : rsplitReason (coordStr group artifact version).dropLast = none := by
      apply rsplitReason_eq_none_iff.mpr
      apply not_infix_of_no_space
      intro hmem
      exact no_space_coordStr hg ha hv (List.mem_of_mem_dropLast hmem)
    have hsplit : splitReason (coordStr group artifact version) = none := by
      unfold splitReason
      rw [hlast, if_pos hclose, hnone]
      rfl
    have hparse := h.1
    unfold parseDegradedEntry at hparse
    rw [hsplit] at hparse
    cases hparse
  · intro hopen
    constructor
    · apply parse_of_splitReason hg ha hv
      unfold splitReason
      rw [hlast, if_neg hopen]
    · rfl

/-- A record with a reason is read back unless the reason has another opening in it. -/
theorem withReason_parsesTo_iff (hg : CoordinateText group) (ha : CoordinateText artifact)
    (hv : CoordinateText version) (reason : Text) :
    ParsesTo (withReason (coordStr group artifact version) reason)
        { group := group, artifact := artifact, version := some version, reason := some reason }
        false <->
      ¬ reasonOpening <:+: reason := by
  constructor
  · intro h
    rcases splitReason_of_parse h.1 with ⟨base, hsplit⟩
    rw [splitReason_withReason, Option.map_eq_some_iff] at hsplit
    rcases hsplit with ⟨halves, hhalves, heq⟩
    have hreason : halves.2 = reason := Option.some.inj (congrArg Prod.snd heq)
    rw [← hreason]
    exact not_infix_of_rsplitReason hhalves
  · intro hno
    constructor
    · apply parse_of_splitReason hg ha hv
      rw [splitReason_withReason, rsplitReason_append hno]
      rfl
    · rfl

theorem depthExceeded_parsesTo {seed : Seed} (hg : CoordinateText seed.group)
    (ha : CoordinateText seed.artifact) (hv : CoordinateText seed.version) :
    ParsesTo (depthExceeded seed)
      { group := seed.group
        artifact := seed.artifact
        version := some seed.version
        reason := some "max depth exceeded".toList } false := by
  rw [depthExceeded_eq]
  exact (withReason_parsesTo_iff hg ha hv _).mpr (by decide)

/-- A classifier is given as the reason it is, unless it brings an opening of its own. -/
theorem classifierSkip_parsesTo_iff {dep : RawDep} (hg : CoordinateText dep.group)
    (ha : CoordinateText dep.artifact) (hversion : dep.version = some version)
    (hv : CoordinateText version) (classifier : Text) :
    ParsesTo (classifierSkip dep classifier)
        { group := dep.group
          artifact := dep.artifact
          version := some version
          reason := some ("classifier ".toList ++ (classifier ++ " unsupported".toList)) } false <->
      ¬ reasonOpening <:+: "classifier ".toList ++ (classifier ++ " unsupported".toList) := by
  rw [classifierSkip_eq, hversion]
  exact withReason_parsesTo_iff hg ha hv _

/--
The record of a missing artifact is read back, and offered for fetching, exactly when
its version does not end in a closing parenthesis; a record with a reason, exactly when
the reason has no opening parenthesis behind a blank.
-/
theorem degraded_records_parse_back_iff (hg : CoordinateText group)
    (ha : CoordinateText artifact) (hv : CoordinateText version) (reason : Text) :
    (ParsesTo (coordStr group artifact version)
          { group := group, artifact := artifact, version := some version, reason := none }
          true ∧
        ParsesTo (withReason (coordStr group artifact version) reason)
          { group := group, artifact := artifact, version := some version, reason := some reason }
          false) <->
      version.getLast? ≠ some ')' ∧ ¬ reasonOpening <:+: reason := by
  rw [missing_parsesTo_iff hg ha hv, withReason_parsesTo_iff hg ha hv]

theorem coordinateText_iff {s : Text} :
    CoordinateText s <-> s ≠ [] ∧ s.all (fun c => !isWhitespace c) = true ∧ ':' ∉ s := by
  have hall : s.all (fun c => !isWhitespace c) = true <->
      forall c, c ∈ s -> isWhitespace c = false := by simp
  rw [hall]
  exact ⟨fun h => ⟨h.ne_nil, h.no_whitespace, h.no_colon⟩, fun h => ⟨h.1, h.2.1, h.2.2⟩⟩

instance (s : Text) : Decidable (CoordinateText s) :=
  decidable_of_iff _ coordinateText_iff.symm

end Coordinates

namespace VersionRange

def group : Text := ['g']
def artifact : Text := ['C']
def release : Text := "1.0".toList
def range : Text := "[1.0,2.0)".toList

theorem release_parses_back :
    (ParsesTo (coordStr group artifact release)
          { group := group, artifact := artifact, version := some release, reason := none }
          true ∧
        ParsesTo (withReason (coordStr group artifact release) "dynamic version unsupported".toList)
          { group := group
            artifact := artifact
            version := some release
            reason := some "dynamic version unsupported".toList } false) :=
  (degraded_records_parse_back_iff (by decide) (by decide) (by decide) _).mpr (by decide)

/-- The missing artifact of a half-open range of versions is not read back at all. -/
theorem half_open_range_lost :
    (CoordinateText group ∧ CoordinateText artifact ∧ CoordinateText range) ∧
      parseDegradedEntry (coordStr group artifact range) = none := by
  decide

end VersionRange

end Classpath
end JavaVsixLite
