import JavaVsixLite.Classpath.TypeIndex
import JavaVsixLite.Foundation.FirstSegments

/-!
# The children of a package

The packages that hold a type, with their ancestors, are kept in order.  Those below
a package stand together, and of their names the segments behind the package are
taken; a segment that was taken last is not taken again.
-/

namespace JavaVsixLite
namespace Classpath

open Foundation

def childStart (package : Text) : Text :=
  if package.isEmpty then [] else package ++ ['.']

def pushSegment (subpackages : List Text) (segment : Text) : List Text :=
  if subpackages.getLast? = some segment then subpackages else subpackages ++ [segment]

def childKey (e : TypeEntry) : Text ×ₗ Text :=
  toLex (e.simple, e.fqn)

namespace TypeIndex

/-- The packages from `childStart` on, as long as they start with it. -/
def packagesBelow (index : TypeIndex) (package : Text) : List Text :=
  (index.packages.dropWhile (fun q => decide (q < childStart package))).takeWhile
    (fun q => (childStart package).isPrefixOf q)

def subpackages (index : TypeIndex) (package : Text) : List Text :=
  ((index.packagesBelow package).map
    (fun q => firstSegment '.' (q.drop (childStart package).length))).foldl pushSegment []

/-- `none` stands for a panic of the index into the entries. -/
def packageChildren (index : TypeIndex) (package : Text) :
    Option (List Text × List TypeEntry) :=
  (((index.byPackage.lookup package).getD []).mapM (fun i => index.entries[i]?)).map
    (fun types =>
      (index.subpackages package,
        types.mergeSort (fun a b => decide (childKey a ≤ childKey b))))

end TypeIndex

/-!
# What the children are
-/

def AtOrAbove (q r : Text) : Prop :=
  q = r ∨ q ++ ['.'] <+: r

def HasSubpackage (names : List (Text × Bool)) (package segment : Text) : Prop :=
  exists r e, OfferedIn names r e ∧ r ≠ [] ∧ AtOrAbove (childStart package ++ segment) r

def HasDeeper (names : List (Text × Bool)) (package segment : Text) : Prop :=
  exists r e, OfferedIn names r e ∧ childStart package ++ segment ++ ['.'] <+: r

/-- The segments once each and in order, and the types of the package. -/
structure ChildrenOf (names : List (Text × Bool)) (package : Text)
    (answer : List Text × List TypeEntry) : Prop where
  increasing : answer.1.Pairwise (fun s t => s < t)
  segments : forall s, s ∈ answer.1 <-> '.' ∉ s ∧ HasSubpackage names package s
  types : forall e, e ∈ answer.2 <-> OfferedIn names package e

/--
A segment that goes on with a character below the dot has no brother that is its
first part and has packages below it.
-/
def SegmentsApart (names : List (Text × Bool)) (package : Text) : Prop :=
  forall s c t, '.' ∉ s ++ c :: t -> c < '.' -> HasSubpackage names package (s ++ c :: t) ->
    ¬ HasDeeper names package s

/-- The package of a type can be read off its qualified name. -/
def FiledUnder (names : List (Text × Bool)) (package : Text) : Prop :=
  forall r e, OfferedIn names r e -> (beforeLast '.' e.fqn = package <-> r = package)

/-!
# Packages and their ancestors
-/

theorem AtOrAbove.trans {p q r : Text} (hpq : AtOrAbove p q) (hqr : AtOrAbove q r) :
    AtOrAbove p r := by
  cases hpq with
  | inl heq =>
    rw [heq]
    exact hqr
  | inr hbelow =>
    cases hqr with
    | inl heq =>
      rw [← heq]
      exact Or.inr hbelow
    | inr hdeep =>
      exact Or.inr (hbelow.trans ((List.prefix_append q ['.']).trans hdeep))

variable {sep : Char} {q : Text} {packages : List Text}

theorem notMem_of_rsplitOnce_eq_none {text : Text} (h : rsplitOnce sep text = none) :
    sep ∉ text := by
  induction text with
  | nil => exact List.not_mem_nil
  | cons c rest ih =>
    rw [rsplitOnce] at h
    cases hrest : rsplitOnce sep rest with
    | some inner =>
      rw [hrest] at h
      cases h
    | none =>
      simp only [hrest] at h
      split at h
      · cases h
      · rename_i hc
        intro hmem
        cases hmem with
        | head => exact hc rfl
        | tail _ hmem => exact ih hrest hmem

theorem notMem_of_rsplitOnce {text : Text} {halves : Text × Text}
    (h : rsplitOnce sep text = some halves) : sep ∉ halves.2 := by
  induction text generalizing halves with
  | nil => cases h
  | cons c rest ih =>
    rw [rsplitOnce] at h
    cases hrest : rsplitOnce sep rest with
    | some inner =>
      have hinner := ih hrest
      rw [hrest] at h
      cases h
      exact hinner
    | none =>
      simp only [hrest] at h
      split at h
      · cases h
        exact notMem_of_rsplitOnce_eq_none hrest
      · cases h

theorem concat_prefix_iff {before after : Text} (h : sep ∉ after) :
    q ++ [sep] <+: before ++ sep :: after <-> q = before ∨ q ++ [sep] <+: before := by
  have hwhole : before ++ sep :: after = (before ++ [sep]) ++ after := by simp
  constructor
  · intro hstart
    rw [hwhole] at hstart
    cases List.prefix_or_prefix_of_prefix hstart (List.prefix_append _ after) with
    | inl hshort =>
      cases List.prefix_concat_iff.mp hshort with
      | inl heq => exact Or.inl (List.append_cancel_right heq)
      | inr hbefore => exact Or.inr hbefore
    | inr hlong =>
      cases List.prefix_concat_iff.mp hlong with
      | inl heq => exact Or.inl (List.append_cancel_right heq).symm
      | inr hq =>
        cases hq with
        | intro middle hmiddle =>
          rw [← hmiddle, List.append_assoc] at hstart
          have hafter := (List.prefix_append_right_inj (before ++ [sep])).mp hstart
          exact absurd (hafter.subset (List.mem_append_right middle List.mem_cons_self)) h
  · intro hparts
    cases hparts with
    | inl heq =>
      rw [heq, hwhole]
      exact List.prefix_append _ after
    | inr hbefore => exact hbefore.trans (List.prefix_append before _)

theorem atOrAbove_iff (hq : q ≠ []) (r : Text) :
    AtOrAbove q r <-> q = r ∨ AtOrAbove q (beforeLast '.' r) := by
  unfold AtOrAbove beforeLast
  cases hsplit : rsplitOnce '.' r with
  | none =>
    have hnone : ¬ q ++ ['.'] <+: r := by
      intro hstart
      apply notMem_of_rsplitOnce_eq_none hsplit
      exact hstart.subset (List.mem_append_right q List.mem_cons_self)
    simp [hnone, hq]
  | some halves =>
    have hwhole := eq_of_rsplitOnce hsplit
    have hafter := notMem_of_rsplitOnce hsplit
    have hstep : q ++ ['.'] <+: halves.1 ++ '.' :: halves.2 <->
        q = halves.1 ∨ q ++ ['.'] <+: halves.1 := concat_prefix_iff hafter
    rw [← hwhole] at hstep
    rw [hstep]
    rfl

theorem mem_registerPackage {pkg : Text}
    (h : forall r, r ∈ packages -> r.length ≤ pkg.length -> forall p, p ≠ [] -> AtOrAbove p r ->
      p ∈ packages) :
    q ∈ registerPackage packages pkg <-> q ∈ packages ∨ q ≠ [] ∧ AtOrAbove q pkg := by
  induction packages, pkg using registerPackage.induct with
  | case1 packages =>
    rw [registerPackage, dif_pos rfl]
    constructor
    · exact Or.inl
    · intro hq
      cases hq with
      | inl hold => exact hold
      | inr hnew =>
        cases hnew.2 with
        | inl heq => exact absurd heq hnew.1
        | inr hstart => simp at hstart
  | case2 packages pkg hne hmem =>
    rw [registerPackage, dif_neg hne, if_pos hmem]
    constructor
    · exact Or.inl
    · intro hq
      cases hq with
      | inl hold => exact hold
      | inr hnew => exact h pkg hmem (Nat.le_refl _) q hnew.1 hnew.2
  | case3 packages pkg hne hmem ih =>
    have hshorter := length_beforeLast_lt '.' hne
    have hclosed : forall r, r ∈ packages.orderedInsert (fun a b => a ≤ b) pkg ->
        r.length ≤ (beforeLast '.' pkg).length -> forall p, p ≠ [] -> AtOrAbove p r ->
          p ∈ packages.orderedInsert (fun a b => a ≤ b) pkg := by
      intro r hr hlength p hp hpr
      rw [List.mem_orderedInsert] at hr ⊢
      cases hr with
      | inl heq =>
        rw [heq] at hlength
        exact absurd hlength (Nat.not_le.mpr hshorter)
      | inr hold =>
        exact Or.inr (h r hold (Nat.le_of_lt (Nat.lt_of_le_of_lt hlength hshorter)) p hp hpr)
    rw [registerPackage, dif_neg hne, if_neg hmem, ih hclosed, List.mem_orderedInsert]
    constructor
    · intro hq
      cases hq with
      | inl hinsert =>
        cases hinsert with
        | inl heq =>
          rw [heq]
          exact Or.inr ⟨hne, Or.inl rfl⟩
        | inr hold => exact Or.inl hold
      | inr hnew => exact Or.inr ⟨hnew.1, (atOrAbove_iff hnew.1 pkg).mpr (Or.inr hnew.2)⟩
    · intro hq
      cases hq with
      | inl hold => exact Or.inl (Or.inr hold)
      | inr hnew =>
        cases (atOrAbove_iff hnew.1 pkg).mp hnew.2 with
        | inl heq => exact Or.inl (Or.inl heq)
        | inr habove => exact Or.inr ⟨hnew.1, habove⟩

theorem sorted_registerPackage {pkg : Text} (h : packages.Pairwise (fun a b => a < b)) :
    (registerPackage packages pkg).Pairwise (fun a b => a < b) := by
  induction packages, pkg using registerPackage.induct with
  | case1 packages =>
    rw [registerPackage, dif_pos rfl]
    exact h
  | case2 packages pkg hne hmem =>
    rw [registerPackage, dif_neg hne, if_pos hmem]
    exact h
  | case3 packages pkg hne hmem ih =>
    rw [registerPackage, dif_neg hne, if_neg hmem]
    apply ih
    have hsorted : (packages.orderedInsert (fun a b => a ≤ b) pkg).Pairwise
        (fun a b => a ≤ b) :=
      List.Pairwise.orderedInsert pkg packages (h.imp le_of_lt)
    have hnodup : (packages.orderedInsert (fun a b => a ≤ b) pkg).Nodup := by
      rw [(List.perm_orderedInsert (fun a b => a ≤ b) pkg packages).nodup_iff]
      exact List.nodup_cons.mpr ⟨hmem, h.imp ne_of_lt⟩
    exact (hsorted.and hnodup).imp (fun hab => lt_of_le_of_ne hab.1 hab.2)

/-!
# The packages of the index
-/

/-- What the loop has registered: the packages of the types so far and their ancestors. -/
structure Registers (names : List (Text × Bool)) (packages : List Text) : Prop where
  mem : forall q, q ∈ packages <->
    q ≠ [] ∧ exists r e, OfferedIn names r e ∧ AtOrAbove q r
  sorted : packages.Pairwise (fun a b => a < b)

theorem Registers.closed {names : List (Text × Bool)} (h : Registers names packages) {p r : Text}
    (hr : r ∈ packages) (hp : p ≠ []) (habove : AtOrAbove p r) : p ∈ packages := by
  rcases (h.mem r).mp hr with ⟨_, package, e, hoffered, hr⟩
  exact (h.mem p).mpr ⟨hp, package, e, hoffered, habove.trans hr⟩

theorem Registers.add {names : List (Text × Bool)} {collected : Collected}
    (hcollects : Collects names collected) (h : Registers names collected.packages)
    (name : Text × Bool) : Registers (names ++ [name]) (collected.add name).packages := by
  unfold Collected.add
  cases hentry : entryOf name.1 name.2 with
  | none =>
    constructor
    · intro q
      simp only [h.mem, offeredIn_append_iff, hentry, reduceCtorEq, false_and, or_false]
    · exact h.sorted
  | some found =>
    rcases found with ⟨package, entry⟩
    by_cases hseen : entry.fqn ∈ collected.seen
    · simp only [if_pos hseen]
      have hnamed := (hcollects.seen entry.fqn).mp hseen
      have hsame : forall r e, OfferedIn (names ++ [name]) r e <-> OfferedIn names r e := by
        intro r e
        rw [offeredIn_append_iff, hentry]
        constructor
        · intro hnew
          cases hnew with
          | inl hold => exact hold
          | inr hnew =>
            cases hnew.1
            exact absurd hnamed hnew.2
        · exact Or.inl
      constructor
      · intro q
        simp only [h.mem, hsame]
      · exact h.sorted
    · simp only [if_neg hseen]
      have hfresh : ¬ Named names entry.fqn := fun hnamed =>
        hseen ((hcollects.seen entry.fqn).mpr hnamed)
      have hnew : forall r e, OfferedIn (names ++ [name]) r e <->
          OfferedIn names r e ∨ r = package ∧ e = entry := by
        intro r e
        rw [offeredIn_append_iff, hentry]
        constructor
        · intro hboth
          cases hboth with
          | inl hold => exact Or.inl hold
          | inr hlast =>
            cases hlast.1
            exact Or.inr ⟨rfl, rfl⟩
        · intro hboth
          cases hboth with
          | inl hold => exact Or.inl hold
          | inr hlast =>
            rw [hlast.1, hlast.2]
            exact Or.inr ⟨rfl, hfresh⟩
      constructor
      · intro q
        rw [mem_registerPackage (fun r hr _ p hp habove => h.closed hr hp habove), h.mem]
        constructor
        · intro hq
          cases hq with
          | inl hold =>
            rcases hold with ⟨hne, r, e, hoffered, habove⟩
            exact ⟨hne, r, e, (hnew r e).mpr (Or.inl hoffered), habove⟩
          | inr hlast =>
            exact ⟨hlast.1, package, entry, (hnew _ _).mpr (Or.inr ⟨rfl, rfl⟩), hlast.2⟩
        · intro hq
          rcases hq with ⟨hne, r, e, hoffered, habove⟩
          cases (hnew r e).mp hoffered with
          | inl hold => exact Or.inl ⟨hne, r, e, hold, habove⟩
          | inr hlast =>
            rw [hlast.1] at habove
            exact Or.inr ⟨hne, habove⟩
      · exact sorted_registerPackage h.sorted

theorem registers_build (names : List (Text × Bool)) :
    Registers names (TypeIndex.build names).packages := by
  show Registers names (names.foldl Collected.add Collected.empty).packages
  induction names using List.reverseRecOn with
  | nil =>
    constructor
    · intro q
      simp [Collected.empty, OfferedIn]
    · exact List.Pairwise.nil
  | append_singleton names name ih =>
    rw [List.foldl_append]
    exact Registers.add (collects_foldl names) ih name

/-!
# The segments below a package
-/

theorem foldl_pushSegment_concat (segments before : List Text) (last : Text) :
    segments.foldl pushSegment (before ++ [last]) =
      before ++ last :: dedupAfter id last segments := by
  induction segments generalizing before last with
  | nil => rfl
  | cons segment segments ih =>
    rw [List.foldl_cons, pushSegment, List.getLast?_concat, dedupAfter]
    by_cases hsame : last = segment
    · have hkey : id segment = id last := hsame.symm
      rw [if_pos (congrArg some hsame), if_pos hkey, ih]
    · have hkey : id segment ≠ id last := Ne.symm hsame
      rw [if_neg (fun h => hsame (Option.some.inj h)), if_neg hkey, ih]
      simp

theorem foldl_pushSegment (segments : List Text) :
    segments.foldl pushSegment [] = dedupByKey id segments := by
  cases segments with
  | nil => rfl
  | cons segment segments => exact foldl_pushSegment_concat segments [] segment

def segmentBelow (package q : Text) : Text :=
  firstSegment '.' (q.drop (childStart package).length)

theorem segmentBelow_append (package rest : Text) :
    segmentBelow package (childStart package ++ rest) = firstSegment '.' rest := by
  rw [segmentBelow, List.drop_left]

section Segments

variable (names : List (Text × Bool)) (package : Text)

theorem packagesBelow_build :
    (TypeIndex.build names).packagesBelow package =
      (TypeIndex.build names).packages.filter (fun q => (childStart package).isPrefixOf q) := by
  have hsorted : (TypeIndex.build names).packages.Pairwise (fun a b => id a ≤ id b) :=
    (registers_build names).sorted.imp le_of_lt
  exact takeWhile_dropWhile_eq_filter hsorted (childStart package)

theorem subpackages_build :
    (TypeIndex.build names).subpackages package =
      dedupByKey id (((TypeIndex.build names).packagesBelow package).map (segmentBelow package)) :=
  foldl_pushSegment _

variable {names package}

theorem mem_packagesBelow_append {rest : Text} :
    childStart package ++ rest ∈ (TypeIndex.build names).packagesBelow package <->
      childStart package ++ rest ∈ (TypeIndex.build names).packages := by
  rw [packagesBelow_build, List.mem_filter, List.isPrefixOf_iff_prefix]
  exact and_iff_left (List.prefix_append _ rest)

theorem exists_of_mem_packagesBelow {q : Text}
    (h : q ∈ (TypeIndex.build names).packagesBelow package) :
    exists rest, q = childStart package ++ rest := by
  rw [packagesBelow_build, List.mem_filter, List.isPrefixOf_iff_prefix] at h
  cases h.2 with
  | intro rest hrest => exact ⟨rest, hrest.symm⟩

theorem AtOrAbove.ne_nil {q r : Text} (h : AtOrAbove q r) (hq : q ≠ []) : r ≠ [] := by
  intro hr
  rw [hr] at h
  cases h with
  | inl heq => exact hq heq
  | inr hstart => simp at hstart

theorem hasSubpackage_of_mem {rest : Text}
    (h : childStart package ++ rest ∈ (TypeIndex.build names).packages) :
    HasSubpackage names package (firstSegment '.' rest) := by
  rcases ((registers_build names).mem _).mp h with ⟨hne, r, e, hoffered, habove⟩
  refine ⟨r, e, hoffered, habove.ne_nil hne, ?_⟩
  apply AtOrAbove.trans _ habove
  cases firstSegment_split '.' rest with
  | inl hwhole => exact Or.inl (congrArg (childStart package ++ ·) hwhole.symm)
  | inr hmore =>
    rcases hmore with ⟨deeper, hdeeper⟩
    refine Or.inr ⟨deeper, ?_⟩
    conv_rhs => rw [hdeeper]
    simp

theorem HasSubpackage.exists_mem {s : Text} (h : HasSubpackage names package s)
    (hs : '.' ∉ s) :
    exists rest, childStart package ++ rest ∈ (TypeIndex.build names).packages ∧
      firstSegment '.' rest = s := by
  rcases h with ⟨r, e, hoffered, hne, habove⟩
  have hmem : r ∈ (TypeIndex.build names).packages :=
    ((registers_build names).mem r).mpr ⟨hne, r, e, hoffered, Or.inl rfl⟩
  cases habove with
  | inl heq =>
    rw [← heq] at hmem
    exact ⟨s, hmem, firstSegment_of_notMem hs⟩
  | inr hstart =>
    rcases hstart with ⟨deeper, rfl⟩
    refine ⟨s ++ '.' :: deeper, ?_, firstSegment_append hs deeper⟩
    simpa using hmem

theorem HasDeeper.exists_mem {s : Text} (h : HasDeeper names package s) :
    exists deeper, childStart package ++ (s ++ '.' :: deeper) ∈
      (TypeIndex.build names).packages := by
  rcases h with ⟨r, e, hoffered, deeper, rfl⟩
  exists deeper
  rw [(registers_build names).mem]
  constructor
  · simp
  · refine ⟨_, e, hoffered, Or.inl ?_⟩
    simp

theorem hasDeeper_of_mem {s deeper : Text}
    (h : childStart package ++ (s ++ '.' :: deeper) ∈ (TypeIndex.build names).packages) :
    HasDeeper names package s := by
  rcases ((registers_build names).mem _).mp h with ⟨_, r, e, hoffered, habove⟩
  refine ⟨r, e, hoffered, ?_⟩
  have hstart : childStart package ++ s ++ ['.'] <+: childStart package ++ (s ++ '.' :: deeper) :=
    ⟨deeper, by simp⟩
  cases habove with
  | inl heq =>
    rw [← heq]
    exact hstart
  | inr hbelow => exact hstart.trans ((List.prefix_append _ ['.']).trans hbelow)

theorem mem_subpackages {s : Text} :
    s ∈ (TypeIndex.build names).subpackages package <->
      '.' ∉ s ∧ HasSubpackage names package s := by
  rw [subpackages_build, mem_dedupByKey_id, List.mem_map]
  constructor
  · intro h
    rcases h with ⟨q, hq, rfl⟩
    rcases exists_of_mem_packagesBelow hq with ⟨rest, rfl⟩
    rw [segmentBelow_append]
    constructor
    · exact notMem_firstSegment '.' rest
    · exact hasSubpackage_of_mem (mem_packagesBelow_append.mp hq)
  · intro h
    rcases h.2.exists_mem h.1 with ⟨rest, hmem, hsegment⟩
    refine ⟨_, mem_packagesBelow_append.mpr hmem, ?_⟩
    rw [segmentBelow_append, hsegment]

/-- The longer segment stands between a package and what is below its first part. -/
theorem not_le_of_not_apart {s t : Text} {c : Char} (hc : c < '.') (deeper rest : Text) :
    s ++ c :: (t ++ rest) < s ++ '.' :: deeper ∧ ¬ s ++ c :: t ≤ s := by
  constructor
  · rw [append_lt_append_iff]
    exact List.cons_lt_cons_iff.mpr (Or.inl hc)
  · rw [not_le]
    have hmore : s ++ [] < s ++ c :: t := (append_lt_append_iff s).mpr (List.nil_lt_cons c t)
    rwa [List.append_nil] at hmore

theorem increasing_subpackages_iff :
    ((TypeIndex.build names).subpackages package).Pairwise (fun s t => s < t) <->
      SegmentsApart names package := by
  have hsorted : ((TypeIndex.build names).packagesBelow package).Pairwise (fun a b => a < b) := by
    rw [packagesBelow_build]
    exact (registers_build names).sorted.sublist List.filter_sublist
  rw [subpackages_build, pairwise_dedupByKey_id_iff, pairwise_map_le_iff hsorted]
  constructor
  · intro hmono s c t hdot hc hlonger hdeeper
    rcases hlonger.exists_mem hdot with ⟨rest, hrest, hsegment⟩
    rcases hdeeper.exists_mem with ⟨deeper, hbelow⟩
    have hs : '.' ∉ s := fun hmem => hdot (List.mem_append_left _ hmem)
    have hsplit : exists more, rest = s ++ c :: (t ++ more) := by
      cases firstSegment_split '.' rest with
      | inl hwhole =>
        rw [hsegment] at hwhole
        exact ⟨[], by simpa using hwhole⟩
      | inr hmore =>
        rcases hmore with ⟨more, hmore⟩
        rw [hsegment] at hmore
        exact ⟨'.' :: more, by simpa using hmore⟩
    rcases hsplit with ⟨more, rfl⟩
    have horder := not_le_of_not_apart (s := s) (t := t) hc deeper more
    have hle := hmono _ (mem_packagesBelow_append.mpr hrest) _
      (mem_packagesBelow_append.mpr hbelow) ((append_lt_append_iff _).mpr horder.1)
    rw [segmentBelow_append, segmentBelow_append, hsegment, firstSegment_append hs] at hle
    exact horder.2 hle
  · intro hapart x hx y hy hlt
    rcases exists_of_mem_packagesBelow hx with ⟨xs, rfl⟩
    rcases exists_of_mem_packagesBelow hy with ⟨ys, rfl⟩
    rw [segmentBelow_append, segmentBelow_append]
    rw [append_lt_append_iff] at hlt
    cases firstSegment_le_or '.' hlt with
    | inl hle => exact hle
    | inr htorn =>
      rcases htorn with ⟨s, c, t, deeper, hsegment, hc, rfl⟩
      have hlonger := hasSubpackage_of_mem (mem_packagesBelow_append.mp hx)
      have hdot := notMem_firstSegment '.' xs
      rw [hsegment] at hlonger hdot
      exact absurd (hasDeeper_of_mem (mem_packagesBelow_append.mp hy))
        (hapart s c t hdot hc hlonger)

end Segments

/-!
# The types of a package
-/

theorem lookup_addToPackage (byPackage : Table Text (List Nat)) (e : TypeEntry × Nat)
    (package : Text) :
    ((addToPackage byPackage e).lookup package).getD [] =
      (byPackage.lookup package).getD [] ++
        if beforeLast '.' e.1.fqn = package then [e.2] else [] := by
  unfold addToPackage
  by_cases hsame : beforeLast '.' e.1.fqn = package
  · rw [if_pos hsame, hsame, AList.lookup_insert]
    rfl
  · rw [if_neg hsame, AList.lookup_insert_ne (Ne.symm hsame), List.append_nil]

theorem lookup_foldl_addToPackage (entries : List (TypeEntry × Nat))
    (byPackage : Table Text (List Nat)) (package : Text) :
    ((entries.foldl addToPackage byPackage).lookup package).getD [] =
      (byPackage.lookup package).getD [] ++
        (entries.filter (fun e => beforeLast '.' e.1.fqn = package)).map Prod.snd := by
  induction entries generalizing byPackage with
  | nil => simp
  | cons e entries ih =>
    rw [List.foldl_cons, ih, lookup_addToPackage, List.filter_cons, List.append_assoc]
    by_cases hsame : beforeLast '.' e.1.fqn = package
    · simp [hsame]
    · simp [hsame]

theorem types_build (names : List (Text × Bool)) (package : Text) :
    (((TypeIndex.build names).byPackage.lookup package).getD []).mapM
        (fun i => (TypeIndex.build names).entries[i]?) =
      some ((TypeIndex.build names).entries.filter
        (fun e => beforeLast '.' e.fqn = package)) := by
  have hlookup := lookup_foldl_addToPackage (TypeIndex.build names).entries.zipIdx ∅ package
  rw [AList.lookup_empty, Option.getD_none, List.nil_append] at hlookup
  show (((((TypeIndex.build names).entries.zipIdx.foldl addToPackage ∅).lookup package).getD
    []).mapM _) = _
  rw [hlookup, mapM_getElem?_of_sublist_zipIdx List.filter_sublist]
  conv_rhs => rw [← List.zipIdx_map_fst 0 (TypeIndex.build names).entries, List.filter_map]
  rfl

theorem OfferedIn.package_eq {names : List (Text × Bool)} {p q : Text} {e : TypeEntry}
    (hp : OfferedIn names p e) (hq : OfferedIn names q e) : p = q := by
  induction names using List.reverseRecOn with
  | nil =>
    rcases hp with ⟨before, name, after, hnames, _⟩
    simp at hnames
  | append_singleton names name ih =>
    rw [offeredIn_append_iff] at hp hq
    have hnamed : forall package, OfferedIn names package e -> Named names e.fqn := by
      intro package hoffered
      exact (offered_iff.mpr ⟨package, hoffered⟩).named
    cases hp with
    | inl hold =>
      cases hq with
      | inl hold' => exact ih hold hold'
      | inr hnew => exact absurd (hnamed p hold) hnew.2
    | inr hnew =>
      cases hq with
      | inl hold => exact absurd (hnamed q hold) hnew.2
      | inr hnew' =>
        have hsame := hnew.1.symm.trans hnew'.1
        cases hsame
        rfl

theorem mem_types_iff {names : List (Text × Bool)} {package : Text} :
    (forall e, e ∈ (TypeIndex.build names).entries.filter
        (fun e => beforeLast '.' e.fqn = package) <-> OfferedIn names package e) <->
      FiledUnder names package := by
  simp only [List.mem_filter, TypeIndex.mem_entries_build, decide_eq_true_eq, offered_iff]
  constructor
  · intro h r e hoffered
    constructor
    · intro hfiled
      exact hoffered.package_eq ((h e).mp ⟨⟨r, hoffered⟩, hfiled⟩)
    · intro heq
      rw [heq] at hoffered
      exact ((h e).mpr hoffered).2
  · intro h e
    constructor
    · intro hfiled
      rcases hfiled with ⟨⟨r, hoffered⟩, hpackage⟩
      rw [← (h r e hoffered).mp hpackage]
      exact hoffered
    · intro hoffered
      exact ⟨⟨package, hoffered⟩, (h package e hoffered).mpr rfl⟩

theorem packageChildren_build (names : List (Text × Bool)) (package : Text) :
    (TypeIndex.build names).packageChildren package =
      some ((TypeIndex.build names).subpackages package,
        sortByKey childKey ((TypeIndex.build names).entries.filter
          (fun e => beforeLast '.' e.fqn = package))) := by
  rw [TypeIndex.packageChildren, types_build]
  rfl

/--
The children are complete, in order and without repetition exactly if no segment is
torn apart by one that goes on below the dot, and the types are filed under the
packages they are in.
-/
theorem package_children_iff (names : List (Text × Bool)) (package : Text) :
    (exists answer, (TypeIndex.build names).packageChildren package = some answer ∧
        ChildrenOf names package answer) <->
      SegmentsApart names package ∧ FiledUnder names package := by
  rw [packageChildren_build, ← increasing_subpackages_iff, ← mem_types_iff]
  constructor
  · intro h
    rcases h with ⟨answer, hanswer, hchildren⟩
    cases hanswer
    constructor
    · exact hchildren.increasing
    · intro e
      rw [← hchildren.types e]
      exact mem_sortByKey.symm
  · intro h
    refine ⟨_, rfl, ?_⟩
    constructor
    · exact h.1
    · intro s
      exact mem_subpackages
    · intro e
      rw [← h.2 e]
      exact mem_sortByKey

namespace Torn

def dashed : TypeEntry where
  simple := "D".toList
  fqn := "x.a-b.D".toList
  importPath := "x.a-b.D".toList

def deeper : TypeEntry where
  simple := "E".toList
  fqn := "x.a.c.E".toList
  importPath := "x.a.c.E".toList

def names : List (Text × Bool) :=
  [("x/a-b/D".toList, false), ("x/a/c/E".toList, false)]

theorem entryOf_dashed :
    entryOf "x/a-b/D".toList false = some ("x.a-b".toList, dashed) := by
  decide +kernel

theorem entryOf_deeper :
    entryOf "x/a/c/E".toList false = some ("x.a.c".toList, deeper) := by
  decide +kernel

/-- Below `x` the segment `a` is given before `a-b` and again behind it. -/
theorem not_children_of_x :
    ¬ exists answer, (TypeIndex.build names).packageChildren "x".toList = some answer ∧
        ChildrenOf names "x".toList answer := by
  intro h
  rcases h with ⟨answer, hanswer, hchildren⟩
  rw [packageChildren_build] at hanswer
  cases hanswer
  have hapart := increasing_subpackages_iff.mp hchildren.increasing
  have hlonger : HasSubpackage names "x".toList ("a".toList ++ '-' :: ['b']) := by
    refine ⟨"x.a-b".toList, dashed, ?_, by decide, Or.inl (by decide)⟩
    refine ⟨[], _, _, rfl, entryOf_dashed, ?_⟩
    intro earlier hearlier
    cases hearlier
  have hdeeper : HasDeeper names "x".toList "a".toList := by
    refine ⟨"x.a.c".toList, deeper, ?_, by decide⟩
    refine ⟨[("x/a-b/D".toList, false)], _, [], rfl, entryOf_deeper, ?_⟩
    intro earlier hearlier p other hother
    rw [List.mem_singleton.mp hearlier, entryOf_dashed] at hother
    cases hother
    decide
  exact hapart "a".toList '-' ['b'] (by decide) (by decide) hlonger hdeeper

end Torn

end Classpath
end JavaVsixLite
