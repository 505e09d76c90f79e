import Mathlib.Data.List.Induction
import Mathlib.Data.List.Infix
import Mathlib.Data.List.Sort
import Mathlib.Data.Prod.Lex
import JavaVsixLite.Foundation.SortedDedup
import JavaVsixLite.Foundation.SortedSearch
import JavaVsixLite.Foundation.Tables
import JavaVsixLite.Server.PrefixSearch

/-!
# The name index of the archives

The class files of the archives are listed by name, without reading them.  A type
is offered under its innermost simple name.  The index is sorted by the lower-cased
simple name, so that the types whose name starts with what was typed are found by
a binary search.
-/

namespace JavaVsixLite
namespace Classpath

open Foundation
open Server (toAsciiLowercase)

/-!
# Names of class files
-/

def rsplitOnce (sep : Char) : Text -> Option (Text × Text)
  | [] => none
  | c :: rest =>
    match rsplitOnce sep rest with
    | some (before, after) => some (c :: before, after)
    | none => if c = sep then some ([], rest) else none

theorem eq_of_rsplitOnce {sep : Char} {text : Text} {halves : Text × Text}
    (h : rsplitOnce sep text = some halves) : text = halves.1 ++ sep :: halves.2 := by
  induction text generalizing halves with
  | nil => cases h
  | cons c rest ih =>
    rw [rsplitOnce] at h
    cases hrest : rsplitOnce sep rest with
    | some inner =>
      rw [hrest] at h
      cases h
      rw [ih hrest]
      rfl
    | none =>
      simp only [hrest] at h
      by_cases hc : c = sep
      · rw [if_pos hc, Option.some.injEq] at h
        rw [← h, hc]
        rfl
      · rw [if_neg hc] at h
        cases h

theorem rsplitOnce_of_notMem {sep : Char} {text : Text} (h : sep ∉ text) :
    rsplitOnce sep text = none := by
  cases hsplit : rsplitOnce sep text with
  | none => rfl
  | some halves =>
    rw [eq_of_rsplitOnce hsplit] at h
    exact absurd (List.mem_append_right halves.1 List.mem_cons_self) h

theorem rsplitOnce_append {sep : Char} (before : Text) {after : Text} (h : sep ∉ after) :
    rsplitOnce sep (before ++ sep :: after) = some (before, after) := by
  induction before with
  | nil => simp [rsplitOnce, rsplitOnce_of_notMem h]
  | cons c rest ih => rw [List.cons_append, rsplitOnce, ih]

def lastPiece (sep : Char) (text : Text) : Text :=
  (rsplitOnce sep text).elim text Prod.snd

def beforeLast (sep : Char) (text : Text) : Text :=
  (rsplitOnce sep text).elim [] Prod.fst

theorem length_beforeLast_lt (sep : Char) {text : Text} (h : text ≠ []) :
    (beforeLast sep text).length < text.length := by
  unfold beforeLast
  cases hsplit : rsplitOnce sep text with
  | none => exact List.length_pos_of_ne_nil h
  | some halves =>
    rw [eq_of_rsplitOnce hsplit, List.length_append, List.length_cons]
    exact Nat.lt_add_of_pos_right (Nat.succ_pos _)

def replaceChar (old new : Char) (text : Text) : Text :=
  text.map (fun c => if c = old then new else c)

structure TypeEntry where
  simple : Text
  fqn : Text
  importPath : Text
deriving DecidableEq

def hiddenJdkNamespaces : List Text :=
  ["sun", "com.sun", "jdk.internal", "oracle", "netscape", "apple", "com.apple"].map String.toList

/-- The package of an internal class path, with dots, and its last segment. -/
def splitInternal (internal : Text) : Option (Text × Text) :=
  if internal.isEmpty then none
  else
    match rsplitOnce '/' internal with
    | some (pkg, last) => some (replaceChar '/' '.' pkg, last)
    | none => some ([], internal)

/-- Descriptors, synthetic and local classes are not offered, nor the internals of the JDK. -/
def offerable (package last : Text) (fromJdk : Bool) : Bool :=
  if last = "module-info".toList ∨ last = "package-info".toList then false
  else if "$$".toList <:+: last then false
  else
    let simple := lastPiece '$' last
    if simple.isEmpty || simple.head?.any Char.isDigit then false
    else
      !fromJdk ||
        !hiddenJdkNamespaces.any (fun ns => package == ns || (ns ++ ['.']).isPrefixOf package)

def qualify (package last : Text) : Text :=
  if package.isEmpty then last else package ++ '.' :: last

/-- The entry for a class file, with its package, if it is offered at all. -/
def entryOf (internal : Text) (fromJdk : Bool) : Option (Text × TypeEntry) :=
  match splitInternal internal with
  | none => none
  | some (package, last) =>
    if offerable package last fromJdk then
      let fqn := qualify package last
      some (package,
        { simple := lastPiece '$' last
          fqn := fqn
          importPath := replaceChar '$' '.' fqn })
    else none

/-!
# The index
-/

structure TypeIndex where
  entries : List TypeEntry
  lower : List Text
  byPackage : Table Text (List Nat)
  packages : List Text

/-- What `build` has collected so far. -/
structure Collected where
  seen : List Text
  entries : List TypeEntry
  packages : List Text

def Collected.empty : Collected where
  seen := []
  entries := []
  packages := []

def registerPackage (packages : List Text) (pkg : Text) : List Text :=
  if _hempty : pkg = [] then packages
  else if pkg ∈ packages then packages
  else registerPackage (packages.orderedInsert (fun a b => a ≤ b) pkg) (beforeLast '.' pkg)
termination_by pkg.length
decreasing_by exact length_beforeLast_lt '.' _hempty

def Collected.add (collected : Collected) (name : Text × Bool) : Collected :=
  match entryOf name.1 name.2 with
  | none => collected
  | some (package, entry) =>
    if entry.fqn ∈ collected.seen then collected
    else
      { seen := entry.fqn :: collected.seen
        entries := collected.entries ++ [entry]
        packages := registerPackage collected.packages package }

/-- The key that `build` sorts by. -/
def indexKey (e : TypeEntry) : Text ×ₗ Text :=
  toLex (toAsciiLowercase e.simple, e.fqn)

def hitKey (e : TypeEntry) : Nat ×ₗ Text ×ₗ Text :=
  toLex (e.simple.byteLen, toLex (e.simple, e.fqn))

def addToPackage (byPackage : Table Text (List Nat)) (e : TypeEntry × Nat) :
    Table Text (List Nat) :=
  let pkg := beforeLast '.' e.1.fqn
  byPackage.insert pkg ((byPackage.lookup pkg).getD [] ++ [e.2])

namespace TypeIndex

def build (names : List (Text × Bool)) : TypeIndex :=
  let collected := names.foldl Collected.add Collected.empty
  let entries := collected.entries.mergeSort (fun a b => decide (indexKey a ≤ indexKey b))
  { entries := entries
    lower := entries.map (fun e => toAsciiLowercase e.simple)
    byPackage := entries.zipIdx.foldl addToPackage ∅
    packages := collected.packages }

/-- `none` stands for a panic of the index into the entries. -/
def typesWithPrefix (index : TypeIndex) (typed : Text) (limit : Nat) :
    Option (List TypeEntry × Bool) :=
  if typed.isEmpty || limit == 0 then some ([], false)
  else
    let needle := toAsciiLowercase typed
    let start := partitionPoint (fun s => decide (s < needle)) index.lower
    let run := (index.lower.drop start).takeWhile (fun s => needle.isPrefixOf s)
    ((List.range run.length).mapM (fun i => index.entries[start + i]?)).map (fun hits =>
      let truncated := decide (hits.length > limit)
      ((hits.mergeSort (fun a b => decide (hitKey a ≤ hitKey b))).take limit, truncated))

end TypeIndex

/-!
# What the index holds
-/

/-- The type is that of the first name on the list that stands for its qualified name. -/
def Offered (names : List (Text × Bool)) (e : TypeEntry) : Prop :=
  exists before name after package, names = before ++ name :: after ∧
    entryOf name.1 name.2 = some (package, e) ∧
      forall earlier, earlier ∈ before -> forall p other,
        entryOf earlier.1 earlier.2 = some (p, other) -> other.fqn ≠ e.fqn

/-- As `Offered`, with the package of the class file. -/
def OfferedIn (names : List (Text × Bool)) (package : Text) (e : TypeEntry) : Prop :=
  exists before name after, names = before ++ name :: after ∧
    entryOf name.1 name.2 = some (package, e) ∧
      forall earlier, earlier ∈ before -> forall p other,
        entryOf earlier.1 earlier.2 = some (p, other) -> other.fqn ≠ e.fqn

/-- The offered types whose simple name starts with the typed text, shortest first. -/
def PrefixAnswer (names : List (Text × Bool)) (typed : Text) (limit : Nat)
    (answer : List TypeEntry × Bool) : Prop :=
  exists hits : List TypeEntry,
    (forall e, e ∈ hits <-> Offered names e ∧ Server.StartsWith e.simple typed) ∧
      hits.Pairwise (fun a b => hitKey a < hitKey b) ∧
      (hits.map TypeEntry.fqn).Nodup ∧
      answer = (hits.take limit, decide (limit < hits.length))

/-!
# Collecting the names
-/

def Named (names : List (Text × Bool)) (fqn : Text) : Prop :=
  exists name, name ∈ names ∧ exists p e, entryOf name.1 name.2 = some (p, e) ∧ e.fqn = fqn

theorem named_append_iff {names : List (Text × Bool)} {name : Text × Bool} {fqn : Text} :
    Named (names ++ [name]) fqn <->
      Named names fqn ∨ exists p e, entryOf name.1 name.2 = some (p, e) ∧ e.fqn = fqn := by
  unfold Named
  constructor
  · intro h
    rcases h with ⟨other, hother, hentry⟩
    rcases List.mem_append.mp hother with hold | hnew
    · exact .inl ⟨other, hold, hentry⟩
    · rw [List.mem_singleton] at hnew
      rw [hnew] at hentry
      exact .inr hentry
  · intro h
    rcases h with ⟨other, hother, hentry⟩ | hentry
    · exact ⟨other, List.mem_append_left _ hother, hentry⟩
    · exact ⟨name, List.mem_append_right _ List.mem_cons_self, hentry⟩

theorem Offered.named {names : List (Text × Bool)} {e : TypeEntry} (h : Offered names e) :
    Named names e.fqn := by
  rcases h with ⟨before, name, after, package, rfl, hentry, _⟩
  exists name
  constructor
  · exact List.mem_append_right _ List.mem_cons_self
  · exact ⟨package, e, hentry, rfl⟩

theorem offered_iff {names : List (Text × Bool)} {e : TypeEntry} :
    Offered names e <-> exists package, OfferedIn names package e := by
  constructor
  · intro h
    rcases h with ⟨before, name, after, package, hnames, hentry, hfirst⟩
    exact ⟨package, before, name, after, hnames, hentry, hfirst⟩
  · intro h
    rcases h with ⟨package, before, name, after, hnames, hentry, hfirst⟩
    exact ⟨before, name, after, package, hnames, hentry, hfirst⟩

theorem offeredIn_append_iff {names : List (Text × Bool)} {name : Text × Bool} {package : Text}
    {e : TypeEntry} :
    OfferedIn (names ++ [name]) package e <->
      OfferedIn names package e ∨
        entryOf name.1 name.2 = some (package, e) ∧ ¬ Named names e.fqn := by
  constructor
  · intro h
    rcases h with ⟨before, first, after, hnames, hentry, hfirst⟩
    rcases List.eq_nil_or_concat after with rfl | ⟨after, last, rfl⟩
    · rcases List.append_inj' hnames rfl with ⟨rfl, hlast⟩
      cases hlast
      right
      constructor
      · exact hentry
      · intro hnamed
        rcases hnamed with ⟨earlier, hearlier, p, other, hother, hsame⟩
        exact hfirst earlier hearlier p other hother hsame
    · rw [List.concat_eq_append, ← List.cons_append, ← List.append_assoc] at hnames
      rcases List.append_inj' hnames rfl with ⟨hnames, _⟩
      exact .inl ⟨before, first, after, hnames, hentry, hfirst⟩
  · intro h
    rcases h with ⟨before, first, after, rfl, hentry, hfirst⟩ | ⟨hentry, hfirst⟩
    · exists before, first, after ++ [name]
      constructor
      · simp
      · exact ⟨hentry, hfirst⟩
    · exists names, name, []
      constructor
      · rfl
      · constructor
        · exact hentry
        · intro earlier hearlier p other hother hsame
          exact hfirst ⟨earlier, hearlier, p, other, hother, hsame⟩

theorem offered_append_iff {names : List (Text × Bool)} {name : Text × Bool} {e : TypeEntry} :
    Offered (names ++ [name]) e <->
      Offered names e ∨
        (exists package, entryOf name.1 name.2 = some (package, e)) ∧ ¬ Named names e.fqn := by
  simp only [offered_iff, offeredIn_append_iff, exists_or, exists_and_right]

/-- What the loop has collected: the first entry of each type among the names so far. -/
structure Collects (names : List (Text × Bool)) (collected : Collected) : Prop where
  seen : forall fqn, fqn ∈ collected.seen <-> Named names fqn
  offered : forall e, e ∈ collected.entries <-> Offered names e
  nodup : (collected.entries.map TypeEntry.fqn).Nodup

theorem collects_empty : Collects [] Collected.empty where
  seen fqn := by simp [Collected.empty, Named]
  offered e := by simp [Collected.empty, Offered]
  nodup := List.nodup_nil

theorem Collects.add {names : List (Text × Bool)} {collected : Collected}
    (h : Collects names collected) (name : Text × Bool) :
    Collects (names ++ [name]) (collected.add name) := by
  unfold Collected.add
  cases hentry : entryOf name.1 name.2 with
  | none =>
    constructor
    · intro fqn
      simp [named_append_iff, hentry, h.seen]
    · intro e
      simp [offered_append_iff, hentry, h.offered]
    · exact h.nodup
  | some found =>
    rcases found with ⟨package, entry⟩
    by_cases hseen : entry.fqn ∈ collected.seen
    · simp only [if_pos hseen]
      have hnamed := (h.seen entry.fqn).mp hseen
      constructor
      · intro fqn
        rw [named_append_iff, h.seen, hentry]
        constructor
        · exact .inl
        · intro hnew
          rcases hnew with hold | ⟨p, e, he, rfl⟩
          · exact hold
          · cases he
            exact hnamed
      · intro e
        rw [offered_append_iff, h.offered, hentry]
        constructor
        · exact .inl
        · intro hnew
          rcases hnew with hold | ⟨⟨p, he⟩, hfresh⟩
          · exact hold
          · cases he
            exact absurd hnamed hfresh
      · exact h.nodup
    · simp only [if_neg hseen]
      have hfresh : ¬ Named names entry.fqn := fun hnamed => hseen ((h.seen _).mpr hnamed)
      constructor
      · intro fqn
        rw [List.mem_cons, named_append_iff, h.seen, hentry]
        constructor
        · intro hnew
          rcases hnew with rfl | hold
          · exact .inr ⟨package, entry, rfl, rfl⟩
          · exact .inl hold
        · intro hnew
          rcases hnew with hold | ⟨p, e, he, rfl⟩
          · exact .inr hold
          · cases he
            exact .inl rfl
      · intro e
        rw [List.mem_append, List.mem_singleton, offered_append_iff, h.offered, hentry]
        constructor
        · intro hnew
          rcases hnew with hold | rfl
          · exact .inl hold
          · exact .inr ⟨⟨package, rfl⟩, hfresh⟩
        · intro hnew
          rcases hnew with hold | ⟨⟨p, he⟩, _⟩
          · exact .inl hold
          · cases he
            exact .inr rfl
      · rw [List.map_append, List.nodup_append]
        constructor
        · exact h.nodup
        · constructor
          · simp
          · intro a ha b hb
            rcases List.mem_map.mp ha with ⟨e, he, rfl⟩
            rw [List.map_singleton, List.mem_singleton] at hb
            rw [hb]
            intro hsame
            have hnamed := ((h.offered e).mp he).named
            rw [hsame] at hnamed
            exact hfresh hnamed

theorem collects_foldl (names : List (Text × Bool)) :
    Collects names (names.foldl Collected.add Collected.empty) := by
  induction names using List.reverseRecOn with
  | nil => exact collects_empty
  | append_singleton names name ih =>
    rw [List.foldl_append]
    exact ih.add name

/-!
# The sorted index
-/

namespace TypeIndex

theorem mem_entries_build {names : List (Text × Bool)} {e : TypeEntry} :
    e ∈ (build names).entries <-> Offered names e := by
  rw [← (collects_foldl names).offered]
  exact (List.mergeSort_perm _ _).mem_iff

theorem nodup_entries_build (names : List (Text × Bool)) :
    ((build names).entries.map TypeEntry.fqn).Nodup := by
  have hperm := List.mergeSort_perm (names.foldl Collected.add Collected.empty).entries
    (fun a b => decide (indexKey a ≤ indexKey b))
  exact (hperm.map TypeEntry.fqn).nodup_iff.mpr (collects_foldl names).nodup

theorem sorted_lower_build (names : List (Text × Bool)) :
    (build names).entries.Pairwise
      (fun a b => toAsciiLowercase a.simple ≤ toAsciiLowercase b.simple) := by
  have hsorted : (build names).entries.Pairwise (fun a b => indexKey a ≤ indexKey b) :=
    pairwise_sortByKey _
  apply hsorted.imp
  intro a b hab
  exact Prod.Lex.monotone_fst _ _ hab

theorem typesWithPrefix_of_gate (index : TypeIndex) {typed : Text} {limit : Nat}
    (h : typed = [] ∨ limit = 0) : index.typesWithPrefix typed limit = some ([], false) := by
  unfold typesWithPrefix
  rw [if_pos (by simpa using h)]

/-- An entry is found by the lower-cased text exactly when its name starts like the text. -/
theorem isPrefixOf_lowercase_iff (typed name : Text) :
    (toAsciiLowercase typed).isPrefixOf (toAsciiLowercase name) = true <->
      Server.StartsWith name typed := by
  rw [List.isPrefixOf_iff_prefix, Server.startsWith_iff]

/--
The search gives the types that the names stand for, one for each qualified name,
whose simple name starts with the typed text.  Nothing is searched without a text
to look for or without a limit to fill.
-/
theorem types_with_prefix_answers (names : List (Text × Bool)) (typed : Text) (limit : Nat) :
    exists answer, (build names).typesWithPrefix typed limit = some answer ∧
      (if typed = [] ∨ limit = 0 then answer = ([], false)
        else PrefixAnswer names typed limit answer) := by
  by_cases hgate : typed = [] ∨ limit = 0
  · exists ([], false)
    rw [if_pos hgate]
    constructor
    · exact typesWithPrefix_of_gate _ hgate
    · rfl
  · let entries := (build names).entries
    let found := entries.filter
      (fun e => (toAsciiLowercase typed).isPrefixOf (toAsciiLowercase e.simple))
    let hits := found.mergeSort (fun a b => decide (hitKey a ≤ hitKey b))
    have hperm : hits.Perm found := List.mergeSort_perm _ _
    have hnodup : (hits.map TypeEntry.fqn).Nodup := by
      rw [(hperm.map TypeEntry.fqn).nodup_iff]
      exact (nodup_entries_build names).sublist (List.filter_sublist.map TypeEntry.fqn)
    exists (hits.take limit, decide (limit < hits.length))
    rw [if_neg hgate]
    constructor
    · unfold typesWithPrefix
      rw [if_neg (by simpa using hgate)]
      have hread := read_prefix_run (sorted_lower_build names) (toAsciiLowercase typed)
      simp only at hread ⊢
      rw [show (build names).lower = entries.map (fun e => toAsciiLowercase e.simple) from rfl,
        hread, Option.map_some, hperm.length_eq]
    · exists hits
      constructor
      · intro e
        rw [hperm.mem_iff, List.mem_filter, mem_entries_build, isPrefixOf_lowercase_iff]
      · constructor
        · have hsorted : hits.Pairwise (fun a b => hitKey a ≤ hitKey b) :=
            pairwise_sortByKey found
          have hdistinct : hits.Pairwise (fun a b => a.fqn ≠ b.fqn) :=
            List.pairwise_map.mp hnodup
          apply (hsorted.and hdistinct).imp
          intro a b hab
          apply lt_of_le_of_ne hab.1
          intro hkey
          have hparts := congrArg (fun key => (ofLex (ofLex key).2).2) hkey
          exact hab.2 hparts
        · exact ⟨hnodup, rfl⟩

namespace Widget

def names : List (Text × Bool) := [("demo/Widget".toList, false)]

def entry : TypeEntry where
  simple := "Widget".toList
  fqn := "demo.Widget".toList
  importPath := "demo.Widget".toList

theorem offered : Offered names entry := by
  have hentry : entryOf "demo/Widget".toList false = some ("demo".toList, entry) := by
    decide +kernel
  have hnone : forall earlier, earlier ∈ ([] : List (Text × Bool)) -> forall p other,
      entryOf earlier.1 earlier.2 = some (p, other) -> other.fqn ≠ entry.fqn := by
    intro earlier hearlier
    cases hearlier
  exact ⟨[], ("demo/Widget".toList, false), [], "demo".toList, rfl, hentry, hnone⟩

/-- A class of the internals of the JDK. -/
def internals : List (Text × Bool) := [("sun/misc/Unsafe".toList, true)]

theorem entries_internals : (build internals).entries = [] := by
  have hnone : entryOf "sun/misc/Unsafe".toList true = none := by decide +kernel
  apply List.eq_nil_iff_forall_not_mem.mpr
  intro e he
  rcases mem_entries_build.mp he with ⟨before, name, after, package, hnames, hentry, _⟩
  have hname : name ∈ internals := by
    rw [hnames]
    exact List.mem_append_right before List.mem_cons_self
  rw [List.mem_singleton.mp hname, hnone] at hentry
  cases hentry

theorem no_type_of_internals :
    (build internals).typesWithPrefix ['u'] 10 = some ([], false) := by
  have hlower : (build internals).lower = [] := by
    show (build internals).entries.map (fun e => toAsciiLowercase e.simple) = []
    rw [entries_internals, List.map_nil]
  unfold typesWithPrefix
  simp [hlower]

/--
One type is offered, but no text to look for or no limit to fill finds nothing, and
neither does the name of a class that is not offered.
-/
theorem empty_text_or_limit_finds_nothing :
    ((build names).typesWithPrefix [] 10 = some ([], false) ∧
        ¬ PrefixAnswer names [] 10 ([], false)) ∧
      ((build names).typesWithPrefix ['w'] 0 = some ([], false) ∧
        ¬ PrefixAnswer names ['w'] 0 ([], false)) ∧
      splitInternal "sun/misc/Unsafe".toList = some ("sun.misc".toList, "Unsafe".toList) ∧
        Server.StartsWith "Unsafe".toList ['u'] ∧
        (build internals).typesWithPrefix ['u'] 10 = some ([], false) := by
  refine ⟨?_, ?_, by decide +kernel, by decide, ?_⟩
  · constructor
    · exact typesWithPrefix_of_gate _ (.inl rfl)
    · intro h
      rcases h with ⟨hits, hmem, _, _, hanswer⟩
      have hhit := (hmem entry).mpr ⟨offered, by decide⟩
      injection hanswer with hcut _
      have hempty : hits = [] := by simpa using hcut.symm
      rw [hempty] at hhit
      cases hhit
  · constructor
    · exact typesWithPrefix_of_gate _ (.inr rfl)
    · intro h
      rcases h with ⟨hits, hmem, _, _, hanswer⟩
      have hhit := (hmem entry).mpr ⟨offered, by decide⟩
      injection hanswer with _ hmore
      have hpos := List.length_pos_of_mem hhit
      exact absurd hpos (of_decide_eq_false hmore.symm)
  · exact no_type_of_internals

end Widget

end TypeIndex

end Classpath
end JavaVsixLite
