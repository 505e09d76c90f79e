import Mathlib.Data.List.Nodup
import Mathlib.Data.List.TakeDrop
import Mathlib.Data.List.TakeWhile
import JavaVsixLite.Source.NameScopes

/-!
# Where the resolver agrees with the language

The resolver skips local classes and inherited member types, reads an import of
a nested type among the open files only, takes an open type imported on demand
before a closed type of the package, and reads qualified text without regard to
the types in scope.  Outside these cases its answers are those of the language.
-/

namespace JavaVsixLite

/-!
# Readings of a dotted path
-/

theorem replaceLastDot_eq_some {path next : String}
    (h : replaceLastDot path = some next) :
    exists front suffix, path.toList = front ++ '.' :: suffix ∧
      '.' ∉ suffix ∧ next.toList = front ++ '$' :: suffix := by
  unfold replaceLastDot at h
  rw [List.span_eq_takeWhile_dropWhile] at h
  split at h
  · rename_i suffix dot rest hspan
    rw [Prod.mk.injEq] at hspan
    rcases hspan with ⟨htake, hdrop⟩
    have hdot : dot = '.' := by
      have := List.head?_dropWhile_not (fun c => c != '.') path.toList.reverse
      simpa [hdrop] using this
    have hpath : path.toList.reverse = suffix ++ '.' :: rest := by
      rw [← List.takeWhile_append_dropWhile (p := fun c => c != '.')
        (l := path.toList.reverse), htake, hdrop, hdot]
    refine ⟨rest.reverse, suffix.reverse, ?_, ?_, ?_⟩
    · rw [← List.reverse_reverse path.toList, hpath]
      simp
    · intro hmem
      rw [List.mem_reverse, ← htake] at hmem
      simpa using List.mem_takeWhile_imp hmem
    · rw [← Option.some.inj h]
      simp
  · cases h

theorem count_replaceLastDot {path next : String}
    (h : replaceLastDot path = some next) :
    next.toList.count '.' + 1 = path.toList.count '.' := by
  rcases replaceLastDot_eq_some h with ⟨front, suffix, hpath, hsuffix, hnext⟩
  rw [hpath, hnext]
  simp [List.count_append, List.count_eq_zero.mpr hsuffix]

theorem pathToBinary_eq_find (known : String -> Bool) (attempts : Nat) :
    forall path, pathToBinary known attempts path =
      ((readings path).take attempts).find? known := by
  induction attempts with
  | zero => intro path; simp [pathToBinary]
  | succ attempts ih =>
    intro path
    cases hnext : replaceLastDot path with
    | none =>
      have hreadings : readings path = [path] := by
        unfold readings
        cases path.toList.count '.' <;> simp [readingsFrom, hnext]
      rw [hreadings]
      simp only [pathToBinary, hnext]
      split <;> simp_all
    | some next =>
      have hreadings : readings path = path :: readings next := by
        unfold readings
        rw [← count_replaceLastDot hnext]
        simp [readingsFrom, hnext]
      rw [hreadings]
      simp only [pathToBinary, hnext, ih next, List.take_succ_cons,
        List.find?_cons]
      split <;> simp_all

theorem nested_suffix_kept {suffix : List Char} (hsuffix : '.' ∉ suffix)
    (dots : Nat) : forall {path t : String},
      ('$' :: suffix) <:+ path.toList -> t ∈ readingsFrom dots path ->
      ('$' :: suffix) <:+ t.toList := by
  induction dots with
  | zero =>
    intro path t hpath hmem
    rcases List.mem_singleton.mp hmem with rfl
    exact hpath
  | succ dots ih =>
    intro path t hpath hmem
    rcases List.mem_cons.mp hmem with rfl | hrest
    · exact hpath
    · cases hnext : replaceLastDot path with
      | none => simp [hnext] at hrest
      | some next =>
        rw [hnext] at hrest
        refine ih ?_ hrest
        rcases replaceLastDot_eq_some hnext with ⟨front, tail, hp, -, hn⟩
        have htail : ('.' :: tail) <:+ path.toList := ⟨front, hp.symm⟩
        rw [hn]
        rcases List.suffix_or_suffix_of_suffix hpath htail with hin | hin
        · rcases List.suffix_cons_iff.mp hin with heq | hin
          · cases heq
          · exact hin.trans (List.suffix_cons '$' tail |>.trans
              (List.suffix_append front _))
        · have : '.' ∈ '$' :: suffix := hin.subset List.mem_cons_self
          simp [hsuffix] at this

theorem nested_reading_suffix {path t : String} (hmem : t ∈ readings path)
    (hne : t ≠ path) : ('$' :: (lastSegment path).toList) <:+ t.toList := by
  cases hnext : replaceLastDot path with
  | none =>
    unfold readings at hmem
    cases hcount : path.toList.count '.' <;>
      simp [hcount, readingsFrom, hnext] at hmem <;> exact absurd hmem hne
  | some next =>
    have hrest : t ∈ readingsFrom (next.toList.count '.') next := by
      unfold readings at hmem
      rw [← count_replaceLastDot hnext] at hmem
      simpa [readingsFrom, hnext, hne] using hmem
    rcases replaceLastDot_eq_some hnext with ⟨front, suffix, hp, hs, hn⟩
    have hlast : (lastSegment path).toList = suffix := by
      have hpath : path = String.ofList front ++ "." ++ String.ofList suffix := by
        apply String.toList_injective
        simp [hp]
      rw [hpath, lastSegment_append (by simpa using hs)]
      simp
    rw [hlast]
    exact nested_suffix_kept hs _ ⟨front, hn.symm⟩ hrest

theorem candidate_not_nested {imports : Imports} {name c : String}
    (hc : c ∈ qualify imports.package name ::
      TypeTable.onDemand imports name) : ¬ ('$' :: name.toList) <:+ c.toList := by
  have dotted : forall front : String,
      ¬ ('$' :: name.toList) <:+ (front ++ "." ++ name).toList := by
    intro front hsuffix
    have hdot : ('.' :: name.toList) <:+ (front ++ "." ++ name).toList :=
      ⟨front.toList, by simp [String.toList_append]⟩
    have heq := List.IsSuffix.eq_of_length
      (List.suffix_of_suffix_length_le hsuffix hdot (by simp)) (by simp)
    cases heq
  intro hsuffix
  rcases List.mem_cons.mp hc with rfl | hdemand
  · unfold qualify at hsuffix
    split at hsuffix
    · exact dotted _ hsuffix
    · have hlength := hsuffix.length_le
      rw [List.length_cons] at hlength
      omega
  · rcases List.mem_append.mp hdemand with hwild | hlang
    · rcases List.mem_map.mp hwild with ⟨w, -, rfl⟩
      exact dotted w hsuffix
    · rcases List.mem_singleton.mp hlang with rfl
      exact dotted "java.lang" hsuffix

namespace NameSite

variable {P : Project} {site : NameSite} {name : String}

/-!
# The bodies around a name
-/

/-- The resolver stops at this body: it has the name or declares it. -/
def stops (table : TypeTable) (name : String) (level : Level) : Bool :=
  (table.lexical name [level]).isSome

/--
The first type of that name that the resolver passes before it stops: a local or
inherited one, or a member type that the table does not have once.
-/
@[grind =] def skipped (P : Project) (table : TypeTable) (name : String) :
    List Level -> Option Meaning
  | [] => none
  | level :: outer =>
    if level.locals.contains name then some .unnamed
    else
      match declares P level name with
      | some binary =>
        if stops table name level then none else some (.binary binary)
      | none =>
        match level.inherited.lookup name with
        | some binary => some (.binary binary)
        | none =>
          if stops table name level then none else skipped P table name outer

theorem lexical_cons (table : TypeTable) (level : Level) (outer : List Level) :
    table.lexical name (level :: outer) =
      (table.lexical name [level]).or (table.lexical name outer) := by
  simp only [TypeTable.lexical]
  split
  · rfl
  · split
    · rfl
    · split
      · rfl
      · split <;> simp

variable {b : String} {level : Level} {path : String}

theorem getNamed_eq_some {table : TypeTable} {found : String} (h : table.getNamed b = some found) :
    found = b ∧ b ∈ table.binaries := by
  unfold TypeTable.getNamed at h
  split at h
  · rename_i hcount
    exact ⟨(Option.some.inj h).symm, List.count_pos_iff.mp (by omega)⟩
  · cases h

theorem isType_of_declares (h : declares P level name = some b) : P.isType b = true := by
  unfold declares at h
  split at h
  · split at h
    · rename_i htype
      cases h
      exact htype
    · cases h
  · cases h

theorem lexicalMeaning_of_skipped {m : Meaning} {levels : List Level}
    (h : skipped P site.table name levels = some m) :
    lexicalMeaning P name levels = some m := by
  induction levels with
  | nil => cases h
  | cons level outer ih =>
    simp only [skipped] at h
    simp only [lexicalMeaning]
    split at h
    · rename_i hlocal
      rw [if_pos hlocal, h]
    · rename_i hlocal
      rw [if_neg hlocal]
      cases hdeclares : declares P level name with
      | some binary =>
        rw [hdeclares] at h
        simp only at h
        split at h
        · cases h
        · exact h
      | none =>
        rw [hdeclares] at h
        cases hlookup : level.inherited.lookup name with
        | some binary =>
          rw [hlookup] at h
          exact h
        | none =>
          rw [hlookup] at h
          simp only at h ⊢
          split at h
          · cases h
          · exact ih h

theorem lexicalMeaning_eq_none {levels : List Level}
    (hskipped : skipped P site.table name levels = none)
    (hlexical : site.table.lexical name levels = none) :
    lexicalMeaning P name levels = none := by
  induction levels with
  | nil => rfl
  | cons level outer ih =>
    rw [lexical_cons, Option.or_eq_none_iff] at hlexical
    have hstops : stops site.table name level = false := by
      simp [stops, hlexical.1]
    simp only [skipped, hstops] at hskipped
    simp only [lexicalMeaning]
    split at hskipped
    · cases hskipped
    · rename_i hlocal
      rw [if_neg hlocal]
      cases hdeclares : declares P level name with
      | some binary =>
        rw [hdeclares] at hskipped
        cases hskipped
      | none =>
        rw [hdeclares] at hskipped
        cases hlookup : level.inherited.lookup name with
        | some binary =>
          rw [hlookup] at hskipped
          cases hskipped
        | none =>
          rw [hlookup] at hskipped
          exact ih hskipped hlexical.2

theorem Nested.tail {package : Option String} {outer : List Level}
    (h : Nested P package (level :: outer)) :
    Nested P package outer := by
  cases outer with
  | nil => trivial
  | cons next rest => exact h.2

theorem meaning_of_own {outer : List Level}
    (nested : Nested P site.imports.package (level :: outer))
    (hdecl : level.decl = some (name, some b))
    (unit : level.decl = some (name, some (qualify site.imports.package name)) ->
      unitMeaning P site name =
        some (.binary (qualify site.imports.package name))) :
    (lexicalMeaning P name outer).or (unitMeaning P site name) =
      some (.binary b) := by
  cases outer with
  | nil =>
    rcases nested with ⟨top, htop, -⟩
    rw [hdecl] at htop
    simp only [Option.some.injEq, Prod.mk.injEq] at htop
    rcases htop with ⟨rfl, rfl⟩
    simp only [lexicalMeaning, Option.none_or]
    exact unit hdecl
  | cons around rest =>
    have hnested := nested.1
    rw [hdecl] at hnested
    rcases hnested with ⟨hlocals, htype, own, front, haround, rfl⟩
    simp [lexicalMeaning, hlocals, declares, haround, htype]

theorem lexical_single_cases {table : TypeTable} {found : Option String}
    (h : table.lexical name [level] = some found) :
    level.decl = some (name, found) ∨
      exists own front, level.decl = some (own, some front) ∧
        front ++ "$" ++ name ∈ table.binaries ∧
        found = some (front ++ "$" ++ name) := by
  simp only [TypeTable.lexical] at h
  split at h
  · cases h
  · rename_i own binary hdecl
    split at h
    · rename_i hown
      cases h
      exact .inl (hown ▸ hdecl)
    · split at h
      · cases h
      · rename_i front
        split at h
        · rename_i binary hnamed
          cases h
          rcases getNamed_eq_some hnamed with ⟨rfl, hmem⟩
          exact .inr ⟨own, front, hdecl, hmem, rfl⟩
        · cases h

theorem Valid.meaning_of_lexical (valid : Valid P site) (validName : ValidName P site name)
    (htype : P.isType b = true) :
    forall {levels : List Level}, levels ⊆ site.levels ->
      Nested P site.imports.package levels ->
      skipped P site.table name levels = none ->
      site.table.lexical name levels = some (some b) ->
      (lexicalMeaning P name levels).or (unitMeaning P site name) =
        some (.binary b) := by
  intro levels
  induction levels with
  | nil => intro _ _ _ h; cases h
  | cons level outer ih =>
    intro hsub nested hskipped hlexical
    have hlevel : level ∈ site.levels := hsub List.mem_cons_self
    have houter : outer ⊆ site.levels :=
      fun _ hmem => hsub (List.mem_cons_of_mem _ hmem)
    simp only [skipped] at hskipped
    split at hskipped
    · cases hskipped
    rename_i hlocal
    rw [lexical_cons] at hlexical
    cases hhere : site.table.lexical name [level] with
    | none =>
      have hstops : stops site.table name level = false := by
        simp [stops, hhere]
      rw [hhere, Option.none_or] at hlexical
      simp only [hstops] at hskipped
      split at hskipped
      · cases hskipped
      rename_i hdeclares
      split at hskipped
      · cases hskipped
      rename_i hlookup
      simp only [lexicalMeaning, if_neg hlocal, hdeclares, hlookup]
      exact ih houter nested.tail hskipped hlexical
    | some found =>
      have hstops : stops site.table name level = true := by
        simp [stops, hhere]
      rw [hhere, Option.some_or] at hlexical
      cases hlexical
      simp only [hstops] at hskipped
      rcases lexical_single_cases hhere with
        hown | ⟨own, front, hdecl, hmem, hfound⟩
      · have hdeclares := (valid.ownName level hlevel name _ hown).2
        rw [hdeclares] at hskipped
        cases hlookup : level.inherited.lookup name with
        | some binary =>
          rw [hlookup] at hskipped
          cases hskipped
        | none =>
          simp only [lexicalMeaning, if_neg hlocal, hdeclares, hlookup]
          exact meaning_of_own nested hown (validName.ownUnit level hlevel)
      · cases hfound
        simp only [lexicalMeaning, if_neg hlocal, declares, hdecl, htype,
          if_true, Option.some_or]

theorem Valid.isType_of_lexicalMeaning (valid : Valid P site) :
    forall {levels : List Level}, levels ⊆ site.levels ->
      lexicalMeaning P name levels = some (.binary b) -> P.isType b = true := by
  intro levels
  induction levels with
  | nil => intro _ h; cases h
  | cons level outer ih =>
    intro hsub h
    simp only [lexicalMeaning] at h
    split at h
    · cases h
    · split at h
      · rename_i hdeclares
        cases h
        exact isType_of_declares hdeclares
      · split at h
        · rename_i hlookup
          cases h
          exact valid.inheritedTypes level (hsub List.mem_cons_self) name b hlookup
        · exact ih (fun _ hmem => hsub (List.mem_cons_of_mem _ hmem)) h

theorem isType_of_unitMeaning (validName : ValidName P site name)
    (h : unitMeaning P site name = some (.binary b)) : P.isType b = true := by
  unfold unitMeaning at h
  split at h
  · rcases Option.map_eq_some_iff.mp h with ⟨t, hfind, ht⟩
    cases ht
    exact List.find?_some hfind
  · split at h
    · rename_i hstatic
      cases h
      exact (validName.staticNested b hstatic).left
    · split at h
      · rename_i htype
        cases h
        exact htype
      · rcases Option.map_eq_some_iff.mp h with ⟨t, hhead, ht⟩
        cases ht
        rcases List.mem_append.mp (List.mem_of_mem_head? hhead) with hdemand | hnested
        · have hkept := (List.mem_filter.mp hdemand).2
          exact (Bool.and_eq_true_iff.mp hkept).left
        · exact (validName.nestedDemanded b hnested).left

/-- What a name means is a type. -/
theorem Valid.isType_of_simpleMeaning (valid : Valid P site)
    (validName : ValidName P site name)
    (h : simpleMeaning P site name = some (.binary b)) : P.isType b = true := by
  rcases Option.or_eq_some_iff.mp h with hlexical | ⟨-, hunit⟩
  · exact valid.isType_of_lexicalMeaning (List.Subset.refl _) hlexical
  · exact isType_of_unitMeaning validName hunit

/-!
# Imports and packages
-/

def openDemand (site : NameSite) (name : String) : List String :=
  (TypeTable.onDemand site.imports name).filter site.table.containsKey

/-- The open type that the path of an import is read as. -/
def importedOpen (site : NameSite) (path : String) : Option String :=
  (importPathToBinary path site.table.containsKey).bind site.table.getNamed

/-- The open type of the package, or the only open one imported on demand. -/
def takenOpen (site : NameSite) (name : String) : Option String :=
  if site.table.containsKey (qualify site.imports.package name) then
    site.table.getNamed (qualify site.imports.package name)
  else
    match openDemand site name with
    | [first] => site.table.getNamed first
    | _ => none

def unitAnswer (site : NameSite) (name : String) : Option String :=
  match site.imports.singleImport name with
  | some path =>
    (importedOpen site path).or ((path :: packageNames site name).find? site.source)
  | none => (takenOpen site name).or ((packageNames site name).find? site.source)

theorem namedResolver_of_lexical (site : NameSite) {found : Option String}
    (h : site.table.lexical name site.levels = some found) :
    namedResolver site name false = found := by
  simp [namedResolver, TypeTable.resolveTypeNameAt, h]

theorem namedResolver_of_unit (site : NameSite)
    (h : site.table.lexical name site.levels = none) :
    namedResolver site name false = unitAnswer site name := by
  simp only [namedResolver, TypeTable.resolveTypeNameAt, h, unitAnswer,
    Bool.false_eq_true, if_false, Imports.candidates, pickFqn]
  cases himport : site.imports.singleImport name with
  | some path =>
    have hopen : (importPathToBinary path site.table.containsKey).bind
        site.table.getNamed = importedOpen site path := rfl
    simp only [hopen]
    cases importedOpen site path with
    | some b => rfl
    | none => simp [packageNames, TypeTable.onDemand]
  | none =>
    have hfilter : (TypeTable.onDemand site.imports name).filter
        site.table.containsKey = openDemand site name := rfl
    simp only [hfilter, takenOpen]
    cases site.table.containsKey (qualify site.imports.package name) with
    | true =>
      simp only [if_true]
      cases site.table.getNamed (qualify site.imports.package name) with
      | some b => rfl
      | none => simp [packageNames, TypeTable.onDemand]
    | false =>
      simp only [Bool.false_eq_true, if_false]
      rcases openDemand site name with _ | ⟨first, _ | ⟨second, rest⟩⟩
      · simp [packageNames, TypeTable.onDemand]
      · simp only
        cases site.table.getNamed first with
        | some b => rfl
        | none => simp [packageNames, TypeTable.onDemand]
      · simp [packageNames, TypeTable.onDemand]

/-- Neither the package nor an import on demand gives the resolver a type. -/
def NothingKnown (site : NameSite) (name : String) : Prop :=
  takenOpen site name = none ∧
    forall c, c ∈ packageNames site name -> site.source c = false

/--
The type of the package is open, or it is not overtaken by an open type
imported on demand, and the type taken on demand is accessible.
-/
def PackageSound (P : Project) (site : NameSite) (name : String) : Prop :=
  qualify site.imports.package name ∈ site.table.binaries ∨
    (exists first, openDemand site name = [first] ∧
      P.isType (qualify site.imports.package name) = false ∧
      P.accessible first = true) ∨
    ((openDemand site name).length ≠ 1 ∧
      (P.isType (qualify site.imports.package name) = true ∨
        forall c, (TypeTable.onDemand site.imports name).find? site.source =
          some c -> P.accessible c = true))

/--
An import is read as an open type or as a top-level type of the source, or
nothing takes its place; a static import leaves nothing to be found; and without
an import the package decides.
-/
def UnitSound (P : Project) (site : NameSite) (name : String) : Prop :=
  match site.imports.singleImport name with
  | some path =>
    match importedOpen site path with
    | some b => P.isType b = true
    | none => site.source path = true ∨
      forall c, c ∈ packageNames site name -> site.source c = false
  | none =>
    match P.staticTypes.lookup name with
    | some _ => NothingKnown site name
    | none => PackageSound P site name

def UnitFaithful (P : Project) (site : NameSite) (name : String) : Prop :=
  forall b, unitAnswer site name = some b ->
    unitMeaning P site name = some (.binary b)

theorem Valid.isType_of_not_open (valid : Valid P site) (h : b ∉ site.table.binaries) :
    P.isType b = true <-> site.source b = true := by
  constructor
  · intro htype
    exact (valid.answered b htype).resolve_left h
  · exact valid.truthful b

theorem Valid.find_reading (valid : Valid P site) (hmem : b ∈ readings path)
    (htype : P.isType b = true) :
    (readings path).find? P.isType = some b := by
  cases hfind : (readings path).find? P.isType with
  | none => exact absurd htype (List.find?_eq_none.mp hfind b hmem)
  | some t =>
    have ht := List.mem_of_find?_eq_some hfind
    rw [valid.oneReading path t b ht hmem (List.find?_some hfind) htype]

theorem head_mem_take_readings (path : String) :
    path ∈ (readings path).take 8 := by
  unfold readings
  cases path.toList.count '.' <;> simp [readingsFrom]

theorem readings_head (path : String) : path ∈ readings path :=
  List.mem_of_mem_take (head_mem_take_readings path)

theorem find_differs_iff {known : String -> Bool} {names : List String}
    {t : String} (h : forall b, b ∈ names -> t ≠ b) :
    (forall b, names.find? known = some b -> t = b) <->
      forall c, c ∈ names -> known c = false := by
  constructor
  · intro hall c hc
    cases hfind : names.find? known with
    | none => simpa using List.find?_eq_none.mp hfind c hc
    | some b =>
      exact absurd (hall b hfind) (h b (List.mem_of_find?_eq_some hfind))
  · intro hnone b hb
    have := hnone b (List.mem_of_find?_eq_some hb)
    rw [List.find?_some hb] at this
    cases this

theorem mem_of_importedOpen (h : importedOpen site path = some b) :
    b ∈ (readings path).take 8 ∧ b ∈ site.table.binaries := by
  unfold importedOpen importPathToBinary at h
  split at h
  · cases h
  · rw [pathToBinary_eq_find] at h
    rcases Option.bind_eq_some_iff.mp h with ⟨found, hfind, hnamed⟩
    rcases getNamed_eq_some hnamed with ⟨rfl, hmem⟩
    exact ⟨List.mem_of_find?_eq_some hfind, hmem⟩

theorem getNamed_of_topLevel (validName : ValidName P site name)
    (hname : b ∈ (site.imports.singleImport name).toList ++ packageNames site name)
    (hmem : b ∈ site.table.binaries) : site.table.getNamed b = some b := by
  rw [TypeTable.getNamed, if_pos (validName.topLevel b hname hmem).right]

theorem source_of_import (valid : Valid P site) (validName : ValidName P site name)
    (himport : site.imports.singleImport name = some path)
    (htype : P.isType path = true) (hnone : importedOpen site path = none) :
    site.source path = true := by
  refine (valid.answered path htype).resolve_left ?_
  intro hopen
  have hnonempty : path.isEmpty = false := by
    cases hempty : path.isEmpty with
    | false => rfl
    | true =>
      rw [String.isEmpty_iff] at hempty
      subst hempty
      have hlast := (validName.imported "" himport).left
      exact absurd (hlast.symm.trans (by decide)) validName.nonempty
  have hkey : site.table.containsKey path = true := List.contains_iff_mem.mpr hopen
  have hfound : importPathToBinary path site.table.containsKey = some path := by
    simp only [importPathToBinary, hnonempty, Bool.false_eq_true, if_false,
      pathToBinary, hkey, if_true]
  have hnamed := getNamed_of_topLevel validName
    (List.mem_append_left _ (by rw [himport]; exact List.mem_cons_self)) hopen
  rw [importedOpen, hfound, Option.bind_some, hnamed] at hnone
  cases hnone

theorem Valid.import_faithful_iff (valid : Valid P site) (validName : ValidName P site name)
    (himport : site.imports.singleImport name = some path) :
    UnitFaithful P site name <-> UnitSound P site name := by
  rcases (validName.imported path himport).right with ⟨t, hreading, htype⟩
  have hmeaning : unitMeaning P site name = some (.binary t) := by
    simp [unitMeaning, himport, valid.find_reading hreading htype]
  simp only [UnitFaithful, UnitSound, hmeaning, unitAnswer, himport,
    Option.some.injEq, Meaning.binary.injEq]
  cases hopen : importedOpen site path with
  | some b =>
    have hmem := (mem_of_importedOpen hopen).left
    simp only [Option.some_or, Option.some.injEq, forall_eq']
    constructor
    · rintro rfl
      exact htype
    · intro hb
      exact valid.oneReading path t b hreading (List.mem_of_mem_take hmem) htype hb
  | none =>
    simp only [Option.none_or, List.find?_cons]
    cases hpath : site.source path with
    | true =>
      have hsame := valid.oneReading path t path hreading
        (readings_head path) htype (valid.truthful path hpath)
      simp [hsame]
    | false =>
      simp only [Bool.false_eq_true, false_or]
      have hne : t ≠ path := by
        rintro rfl
        rw [source_of_import valid validName himport htype hopen] at hpath
        cases hpath
      have hsuffix := nested_reading_suffix hreading hne
      rw [(validName.imported path himport).left] at hsuffix
      exact find_differs_iff (fun b hb hsame =>
        candidate_not_nested hb (hsame ▸ hsuffix))

theorem demanded_iff (validName : ValidName P site name) {c : String}
    (hc : c ∈ TypeTable.onDemand site.imports name)
    (htype : P.isType c = true) :
    (demanded P site name).head? = some c <-> P.accessible c = true := by
  constructor
  · intro hhead
    have hmem := List.mem_of_mem_head? hhead
    rcases List.mem_append.mp hmem with hfilter | hnested
    · simp only [List.mem_filter, Bool.and_eq_true] at hfilter
      exact hfilter.2.2
    · exact (validName.nestedDemanded c hnested).right
  · intro haccessible
    have hmem : c ∈ demanded P site name := by
      refine List.mem_append_left _ (List.mem_filter.mpr ⟨hc, ?_⟩)
      simp [htype, haccessible]
    cases hlist : demanded P site name with
    | nil => simp [hlist] at hmem
    | cons first rest =>
      have hfirst : first ∈ demanded P site name := by simp [hlist]
      rw [List.head?_cons, validName.demandedOnce first c hfirst hmem]

theorem demanded_meaning_iff (validName : ValidName P site name) {c : String}
    (hc : c ∈ TypeTable.onDemand site.imports name)
    (htype : P.isType c = true) :
    (demanded P site name).head?.map Meaning.binary = some (.binary c) <->
      P.accessible c = true := by
  rw [← demanded_iff validName hc htype]
  cases (demanded P site name).head? <;> simp

theorem openDemand_faithful_iff (validName : ValidName P site name)
    (hpackage : qualify site.imports.package name ∉ site.table.binaries)
    {first : String} (hdemand : openDemand site name = [first]) :
    (if P.isType (qualify site.imports.package name) then
        some (Meaning.binary (qualify site.imports.package name))
      else (demanded P site name).head?.map .binary) = some (.binary first) <->
      P.isType (qualify site.imports.package name) = false ∧
        P.accessible first = true := by
  have hmem : first ∈ openDemand site name := by simp [hdemand]
  rcases List.mem_filter.mp hmem with ⟨hname, hkey⟩
  have hopen := List.contains_iff_mem.mp hkey
  cases htype : P.isType (qualify site.imports.package name) with
  | true =>
    have hne : qualify site.imports.package name ≠ first := by
      rintro rfl
      exact hpackage hopen
    simp [hne]
  | false =>
    have hfirst := (validName.topLevel first
      (List.mem_append_right _ (List.mem_cons_of_mem _ hname)) hopen).left
    simpa using demanded_meaning_iff validName hname hfirst

theorem Valid.source_faithful_iff (valid : Valid P site)
    (validName : ValidName P site name)
    (hpackage : qualify site.imports.package name ∉ site.table.binaries) :
    (forall b, (packageNames site name).find? site.source = some b ->
      (if P.isType (qualify site.imports.package name) then
          some (Meaning.binary (qualify site.imports.package name))
        else (demanded P site name).head?.map .binary) = some (.binary b)) <->
      (P.isType (qualify site.imports.package name) = true ∨
        forall c, (TypeTable.onDemand site.imports name).find? site.source =
          some c -> P.accessible c = true) := by
  cases htype : P.isType (qualify site.imports.package name) with
  | true =>
    have hsource := (valid.isType_of_not_open hpackage).mp htype
    simp [packageNames, hsource]
  | false =>
    have hsource : site.source (qualify site.imports.package name) = false := by
      cases h : site.source (qualify site.imports.package name) with
      | false => rfl
      | true =>
        rw [valid.truthful _ h] at htype
        cases htype
    simp only [packageNames, List.find?_cons, hsource, Bool.false_eq_true,
      if_false, false_or]
    refine forall_congr' (fun c => imp_congr_right (fun hc => ?_))
    exact demanded_meaning_iff validName (List.mem_of_find?_eq_some hc)
      (valid.truthful c (List.find?_some hc))

theorem takenOpen_eq (validName : ValidName P site name) :
    takenOpen site name =
      if site.table.containsKey (qualify site.imports.package name) then
        some (qualify site.imports.package name)
      else
        match openDemand site name with
        | [first] => some first
        | _ => none := by
  unfold takenOpen
  split
  · rename_i hkey
    exact getNamed_of_topLevel validName
      (List.mem_append_right _ List.mem_cons_self) (List.contains_iff_mem.mp hkey)
  · split
    · rename_i first hdemand
      have hmem : first ∈ openDemand site name := by simp [hdemand]
      rcases List.mem_filter.mp hmem with ⟨hname, hkey⟩
      exact getNamed_of_topLevel validName
        (List.mem_append_right _ (List.mem_cons_of_mem _ hname))
        (List.contains_iff_mem.mp hkey)
    · rfl

theorem Valid.package_faithful_iff (valid : Valid P site)
    (validName : ValidName P site name)
    (himport : site.imports.singleImport name = none)
    (hstatic : P.staticTypes.lookup name = none) :
    UnitFaithful P site name <-> PackageSound P site name := by
  simp only [UnitFaithful, unitAnswer, unitMeaning, himport, hstatic,
    PackageSound, takenOpen_eq validName]
  by_cases hpackage :
      qualify site.imports.package name ∈ site.table.binaries
  · have htype := (validName.topLevel _
      (List.mem_append_right _ List.mem_cons_self) hpackage).left
    simp [TypeTable.containsKey, hpackage, htype]
  · have hkey : site.table.containsKey
        (qualify site.imports.package name) = false := by
      simpa [TypeTable.containsKey] using hpackage
    simp only [hpackage, hkey, false_or, Bool.false_eq_true, if_false]
    have hsource := valid.source_faithful_iff validName hpackage
    match hdemand : openDemand site name with
    | [] => simpa using hsource
    | [first] =>
      have hfirst := openDemand_faithful_iff validName hpackage hdemand
      simpa using hfirst
    | a :: b :: rest => simpa using hsource

def unitNames (site : NameSite) (name : String) : List String :=
  (site.imports.singleImport name).toList.flatMap readings ++
    packageNames site name

theorem mem_of_takenOpen (h : takenOpen site name = some b) :
    b ∈ packageNames site name ∧ b ∈ site.table.binaries := by
  unfold takenOpen at h
  split at h
  · rcases getNamed_eq_some h with ⟨rfl, hmem⟩
    exact ⟨List.mem_cons_self, hmem⟩
  · split at h
    · rename_i first hdemand
      rcases getNamed_eq_some h with ⟨rfl, hmem⟩
      have hopen : b ∈ openDemand site name := by simp [hdemand]
      exact ⟨List.mem_cons_of_mem _ (List.mem_filter.mp hopen).left, hmem⟩
    · cases h

/-- What the file and package answer is known under one of their names. -/
theorem unitAnswer_mem (h : unitAnswer site name = some b) :
    b ∈ unitNames site name ∧
      (b ∈ site.table.binaries ∨ site.source b = true) := by
  have hnames : forall c, c ∈ packageNames site name ->
      c ∈ unitNames site name := fun c hc => List.mem_append_right _ hc
  unfold unitAnswer at h
  split at h
  · rename_i path himport
    have hreadings : forall c, c ∈ readings path -> c ∈ unitNames site name := by
      intro c hc
      simp [unitNames, himport, hc]
    rcases Option.or_eq_some_iff.mp h with hopen | ⟨-, hsource⟩
    · rcases mem_of_importedOpen hopen with ⟨hmem, hbinary⟩
      exact ⟨hreadings b (List.mem_of_mem_take hmem), .inl hbinary⟩
    · refine ⟨?_, .inr (List.find?_some hsource)⟩
      rcases List.mem_cons.mp (List.mem_of_find?_eq_some hsource) with
        rfl | hpackage
      · exact hreadings b (readings_head b)
      · exact hnames b hpackage
  · rcases Option.or_eq_some_iff.mp h with hopen | ⟨-, hsource⟩
    · rcases mem_of_takenOpen hopen with ⟨hmem, hbinary⟩
      exact ⟨hnames b hmem, .inl hbinary⟩
    · exact ⟨hnames b (List.mem_of_find?_eq_some hsource),
        .inr (List.find?_some hsource)⟩

def NothingAnswered (site : NameSite) (name : String) : Prop :=
  match site.imports.singleImport name with
  | some path =>
    importedOpen site path = none ∧
      forall c, c ∈ path :: packageNames site name -> site.source c = false
  | none => NothingKnown site name

theorem unitAnswer_none_iff :
    unitAnswer site name = none <-> NothingAnswered site name := by
  unfold NothingAnswered
  split
  · rename_i path himport
    simp only [unitAnswer, himport, Option.or_eq_none_iff, List.find?_eq_none,
      Bool.not_eq_true]
  · rename_i himport
    simp only [unitAnswer, himport, NothingKnown, Option.or_eq_none_iff,
      List.find?_eq_none, Bool.not_eq_true]

theorem static_faithful_iff (validName : ValidName P site name)
    (himport : site.imports.singleImport name = none) {t : String}
    (hstatic : P.staticTypes.lookup name = some t) :
    UnitFaithful P site name <-> NothingKnown site name := by
  have hnone : NothingAnswered site name <-> NothingKnown site name := by
    simp only [NothingAnswered, himport]
  rw [← hnone, ← unitAnswer_none_iff]
  simp only [UnitFaithful, unitMeaning, himport, hstatic, Option.some.injEq,
    Meaning.binary.injEq]
  constructor
  · intro hall
    cases hanswer : unitAnswer site name with
    | none => rfl
    | some b =>
      have hmem := (unitAnswer_mem hanswer).1
      rw [unitNames, himport] at hmem
      exact absurd (hall b hanswer ▸ hmem) (validName.staticNested t hstatic).right
  · intro hnone b hb
    rw [hnone] at hb
    cases hb

theorem Valid.unit_faithful_iff (valid : Valid P site)
    (validName : ValidName P site name) :
    UnitFaithful P site name <-> UnitSound P site name := by
  cases himport : site.imports.singleImport name with
  | some path => exact valid.import_faithful_iff validName himport
  | none =>
    cases hstatic : P.staticTypes.lookup name with
    | some t =>
      simp only [UnitSound, himport, hstatic]
      exact static_faithful_iff validName himport hstatic
    | none =>
      simp only [UnitSound, himport, hstatic]
      exact valid.package_faithful_iff validName himport hstatic

/-!
# Simple names
-/

/-- The imports that decide the name are read as they are declared. -/
structure ReadAsWritten (file : FileSite) (name : String) : Prop where
  single : file.read.imports.singleImport name =
    file.written.imports.singleImport name
  package : file.read.imports.package = file.written.imports.package
  onDemand : TypeTable.onDemand file.read.imports name =
    TypeTable.onDemand file.written.imports name

/-- The file and package give the resolver no type, or no other than this one. -/
def OnlyAnswers (site : NameSite) (name : String) (m : Option Meaning) : Prop :=
  NothingAnswered site name ∨
    forall c, c ∈ unitNames site name ->
      c ∈ site.table.binaries ∨ site.source c = true -> m = some (.binary c)

/--
No type of the name is passed on the way to the enclosing declaration that
decides it, unless it is that declaration; if none does, the file and package
decide, and where a type was passed or the imports are misread they have nothing
else to answer.
-/
def Sound (P : Project) (file : FileSite) (name : String) : Prop :=
  match file.table.lexical name file.levels,
      skipped P file.table name file.levels with
  | some none, _ => True
  | some (some b), passed =>
    passed = some (.binary b) ∨ (passed = none ∧ P.isType b = true)
  | none, some m => OnlyAnswers file.read name (some m)
  | none, none =>
    (ReadAsWritten file name -> UnitSound P file.written name) ∧
      (¬ ReadAsWritten file name ->
        OnlyAnswers file.read name (unitMeaning P file.written name))

variable {file : FileSite}

theorem unitAnswer_written (h : ReadAsWritten file name) :
    unitAnswer file.read name = unitAnswer file.written name := by
  have hpackage : packageNames file.read name = packageNames file.written name := by
    simp only [packageNames, h.package, h.onDemand]
  have htaken : takenOpen file.read name = takenOpen file.written name := by
    simp only [takenOpen, openDemand, h.package, h.onDemand]
    rfl
  simp only [unitAnswer, h.single, hpackage, htaken]
  rfl

theorem meant_of_onlyAnswers {m : Option Meaning}
    (h : OnlyAnswers site name m) (hb : unitAnswer site name = some b) :
    m = some (.binary b) := by
  rcases h with hnothing | hsame
  · rw [unitAnswer_none_iff.mpr hnothing] at hb
    cases hb
  · rcases unitAnswer_mem hb with ⟨hmem, hknown⟩
    exact hsame b hmem hknown

theorem simpleMeaning_of_skipped (site : NameSite) {m : Meaning}
    (h : skipped P site.table name site.levels = some m) :
    simpleMeaning P site name = some m := by
  rw [simpleMeaning, lexicalMeaning_of_skipped h, Option.some_or]

theorem simpleMeaning_of_unit (site : NameSite)
    (hskipped : skipped P site.table name site.levels = none)
    (hlexical : site.table.lexical name site.levels = none) :
    simpleMeaning P site name = unitMeaning P site name := by
  rw [simpleMeaning, lexicalMeaning_eq_none hskipped hlexical, Option.none_or]

theorem Valid.faithful_of_sound (valid : Valid P file.written)
    (validName : ValidName P file.written name)
    (sound : Sound P file name) : SimpleFaithful P file name := by
  intro b hb
  unfold Sound at sound
  split at sound
  · rename_i hlexical
    rw [namedResolver_of_lexical file.read hlexical] at hb
    cases hb
  · rename_i found hlexical
    rw [namedResolver_of_lexical file.read hlexical] at hb
    cases hb
    rcases sound with hsame | ⟨hnone, htype⟩
    · exact simpleMeaning_of_skipped _ hsame
    · exact valid.meaning_of_lexical validName htype
        (List.Subset.refl _) valid.nested hnone hlexical
  · rename_i m hlexical hskipped
    rw [namedResolver_of_unit file.read hlexical] at hb
    rw [simpleMeaning_of_skipped file.written hskipped]
    exact meant_of_onlyAnswers sound hb
  · rename_i hlexical hskipped
    rw [namedResolver_of_unit file.read hlexical] at hb
    rw [simpleMeaning_of_unit file.written hskipped hlexical]
    by_cases hread : ReadAsWritten file name
    · rw [unitAnswer_written hread] at hb
      exact (valid.unit_faithful_iff validName).mpr (sound.left hread) b hb
    · exact meant_of_onlyAnswers (sound.right hread) hb

/-- Where the converse is open: another type may be found, or by chance the same. -/
def ByChance (P : Project) (file : FileSite) (name : String) : Prop :=
  file.table.lexical name file.levels = none ∧
    ((exists b, skipped P file.table name file.levels = some (.binary b)) ∨
      ¬ ReadAsWritten file name)

/--
The converse, except where the resolver passes a type and then finds some type in
the file or package, or misreads the imports: there it may find the same one.
-/
theorem Valid.sound_of_faithful (valid : Valid P file.written)
    (validName : ValidName P file.written name)
    (hchance : ¬ ByChance P file name)
    (faithful : SimpleFaithful P file name) : Sound P file name := by
  unfold Sound
  split
  · trivial
  · rename_i b hlexical
    have hmeaning := faithful b (namedResolver_of_lexical file.read hlexical)
    cases hpassed : skipped P file.table name file.levels with
    | none => exact .inr ⟨rfl, valid.isType_of_simpleMeaning validName hmeaning⟩
    | some m =>
      rw [simpleMeaning_of_skipped file.written hpassed] at hmeaning
      exact .inl hmeaning
  · rename_i m hlexical hpassed
    refine .inl (unitAnswer_none_iff.mp ?_)
    cases hanswer : unitAnswer file.read name with
    | none => rfl
    | some b =>
      have hmeaning := faithful b
        ((namedResolver_of_unit file.read hlexical).trans hanswer)
      rw [simpleMeaning_of_skipped file.written hpassed] at hmeaning
      exact absurd ⟨hlexical, .inl ⟨b, hpassed.trans hmeaning⟩⟩ hchance
  · rename_i hlexical hpassed
    have hread : ReadAsWritten file name := by
      by_contra hmisread
      exact hchance ⟨hlexical, .inr hmisread⟩
    refine ⟨fun _ => ?_, fun hmisread => absurd hread hmisread⟩
    refine (valid.unit_faithful_iff validName).mp (fun b hb => ?_)
    rw [← unitAnswer_written hread] at hb
    have hmeaning := faithful b
      ((namedResolver_of_unit file.read hlexical).trans hb)
    rwa [simpleMeaning_of_unit file.written hpassed hlexical] at hmeaning

/-!
# Qualified names
-/

def Reads (site : NameSite) (path r : String) : Prop :=
  r ∈ (readings path).take 8 ∧ site.table.getNamed r = some r ∨
    r = path ∧ site.source path = true

/-- What the open files have under a reading of the path is a type. -/
def PathRegistered (P : Project) (file : FileSite) (path : String) : Prop :=
  forall r, r ∈ (readings path).take 8 -> file.table.getNamed r = some r ->
    P.isType r = true

/--
The first identifier is no type in scope, or the text selects the same type
from it that it names as a qualified name.
-/
def QualifiedSound (P : Project) (file : FileSite) (path : String) : Prop :=
  match simpleMeaning P file.written (splitFirst path).1 with
  | none => True
  | some first => forall r, Reads file.read path r ->
      P.select first (splitFirst path).2 = some (.binary r)

theorem namedResolver_qualified (site : NameSite) (path : String) :
    namedResolver site path true =
      (((readings path).take 8).find? (fun b => (site.table.getNamed b).isSome)).or
        (if site.source path then some path else none) := by
  simp only [namedResolver, TypeTable.resolveTypeNameAt, if_true, pathToBinary_eq_find]
  cases ((readings path).take 8).find? (fun b => (site.table.getNamed b).isSome) <;>
    simp

theorem Valid.reading_of_reads (valid : Valid P file.written)
    (registered : PathRegistered P file path) {r : String}
    (h : Reads file.read path r) : r ∈ readings path ∧ P.isType r = true := by
  rcases h with ⟨hmem, hopen⟩ | ⟨rfl, hsource⟩
  · exact ⟨List.mem_of_mem_take hmem, registered r hmem hopen⟩
  · exact ⟨readings_head r, valid.truthful r hsource⟩

theorem getNamed_of_isSome {table : TypeTable} (h : (table.getNamed b).isSome = true) :
    table.getNamed b = some b := by
  rcases Option.isSome_iff_exists.mp h with ⟨found, hfound⟩
  rw [hfound, (getNamed_eq_some hfound).left]

theorem Valid.namedResolver_eq_some_iff (valid : Valid P file.written)
    (registered : PathRegistered P file path) {r : String} :
    namedResolver file.read path true = some r <-> Reads file.read path r := by
  rw [namedResolver_qualified, Option.or_eq_some_iff]
  constructor
  · rintro (hopen | ⟨-, hsource⟩)
    · have hnamed : (file.read.table.getNamed r).isSome = true := by
        simpa using List.find?_some hopen
      exact .inl ⟨List.mem_of_find?_eq_some hopen, getNamed_of_isSome hnamed⟩
    · split at hsource
      · rename_i hpath
        cases hsource
        exact .inr ⟨rfl, hpath⟩
      · cases hsource
  · intro hreads
    have hreading := valid.reading_of_reads registered hreads
    cases hfind : ((readings path).take 8).find?
        (fun b => (file.read.table.getNamed b).isSome) with
    | some b =>
      have hmem := List.mem_of_find?_eq_some hfind
      have hnamed : (file.read.table.getNamed b).isSome = true := by
        simpa using List.find?_some hfind
      have htype := registered b hmem (getNamed_of_isSome hnamed)
      left
      rw [valid.oneReading path b r (List.mem_of_mem_take hmem) hreading.1 htype
        hreading.2]
    | none =>
      right
      rcases hreads with ⟨hmem, hopen⟩ | ⟨rfl, hsource⟩
      · have hnone := List.find?_eq_none.mp hfind r hmem
        simp [hopen] at hnone
      · exact ⟨rfl, if_pos hsource⟩

theorem Valid.qualified_faithful_iff (valid : Valid P file.written)
    (registered : PathRegistered P file path) :
    QualifiedFaithful P file path <-> QualifiedSound P file path := by
  simp only [QualifiedFaithful, valid.namedResolver_eq_some_iff registered,
    QualifiedSound, qualifiedMeaning]
  cases simpleMeaning P file.written (splitFirst path).1 with
  | some first => exact Iff.rfl
  | none =>
    refine iff_of_true (fun r hreads => ?_) trivial
    rcases valid.reading_of_reads registered hreads with ⟨hmem, htype⟩
    simp only [valid.find_reading hmem htype, Option.map_some]

/-!
# Names resolve as in the language
-/

def separatorsDropped (name : String) : List Char :=
  name.toList.map (fun c => if c = '$' then '.' else c)

theorem separatorsDropped_reading {dots : Nat} : forall {path t : String},
    t ∈ readingsFrom dots path ->
      separatorsDropped t = separatorsDropped path := by
  induction dots with
  | zero =>
    intro path t h
    rw [List.mem_singleton.mp h]
  | succ dots ih =>
    intro path t h
    rcases List.mem_cons.mp h with rfl | hrest
    · rfl
    · cases hnext : replaceLastDot path with
      | none => simp [hnext] at hrest
      | some next =>
        rw [hnext] at hrest
        rcases replaceLastDot_eq_some hnext with ⟨front, tail, hp, -, hn⟩
        rw [ih hrest, separatorsDropped, separatorsDropped, hp, hn]
        simp

namespace ImportedNested

open Source (SpacedName FileHeader)

/-- `p.C` imports `a.Outer.Inner`; the package has an `Inner` of its own. -/
def types : List String := ["p.C", "p.Inner", "a.Outer", "a.Outer$Inner"]

def project : Project where
  isType := fun b => types.contains b
  accessible := fun _ => true
  staticTypes := []
  nestedDemand := fun _ => []
  select := fun first rest =>
    match first with
    | .unnamed => none
    | .binary t =>
      if types.contains (t ++ "$" ++ rest) then some (.binary (t ++ "$" ++ rest))
      else none

/-- `package p;` and `import a.Outer.Inner;`, with a text before the semicolon. -/
def headerWith (comment : String) : FileHeader where
  package := some
    { before := "", behindKeyword := " ", name := ⟨"p", []⟩, beforeSemicolon := "" }
  imports :=
    [ { behindKeyword := " ", behindStatic := none
        name := ⟨"a", [("", "", "Outer"), ("", "", "Inner")]⟩
        onDemand := none, beforeSemicolon := comment } ]

/-- A field of `C` with these types open, the others known to the source. -/
def fileWith (comment : String) (opened : List String) : FileSite where
  header := headerWith comment
  levels := [⟨some ("C", some "p.C"), [], []⟩]
  table := ⟨opened⟩
  source := fun b => types.contains b && !opened.contains b

def siteWith (opened : List String) : NameSite where
  levels := [⟨some ("C", some "p.C"), [], []⟩]
  imports := ⟨some "p", [("Inner", "a.Outer.Inner")], []⟩
  table := ⟨opened⟩
  source := fun b => types.contains b && !opened.contains b

theorem lastSegment_eq : lastSegment "a.Outer.Inner" = "Inner" := by
  decide +kernel

theorem declared_eq (comment : String) :
    (headerWith comment).declared = ⟨some "p", [("Inner", "a.Outer.Inner")], []⟩ := by
  simp [headerWith, FileHeader.declared, Source.ImportDeclaration.declare,
    lastSegment_eq, SpacedName.path]

theorem written_eq (comment : String) (opened : List String) :
    (fileWith comment opened).written = siteWith opened := by
  simp only [FileSite.written, fileWith, declared_eq, siteWith]

theorem declares_none (name : String) :
    declares project ⟨some ("C", some "p.C"), [], []⟩ name = none := by
  have hfree : ("p.C" ++ "$" ++ name) ∉ types := by
    intro hmem
    simp only [types, List.mem_cons, List.not_mem_nil, or_false] at hmem
    rcases hmem with h | h | h | h <;>
      · have := congrArg (fun s : String => s.toList.take 4) h
        simp [String.toList_append] at this
  show (if types.contains ("p.C" ++ "$" ++ name) then
    some ("p.C" ++ "$" ++ name) else none) = none
  rw [if_neg]
  simpa using hfree

theorem site_valid (opened : List String) : Valid project (siteWith opened) where
  answered := by
    intro b hb
    by_cases hopen : b ∈ opened
    · exact .inl hopen
    · right
      simpa [siteWith, hopen, project] using hb
  truthful := by
    intro b hb
    simp only [siteWith, Bool.and_eq_true] at hb
    exact hb.1
  nested := ⟨"C", rfl, rfl⟩
  ownName := by
    intro level hlevel name binary hdecl
    rcases List.mem_singleton.mp hlevel with rfl
    exact ⟨List.not_mem_nil, declares_none name⟩
  inheritedTypes := by
    intro level hlevel name b hlookup
    rcases List.mem_singleton.mp hlevel with rfl
    cases hlookup
  oneReading := by
    intro path a b ha hb hta htb
    have hsame : separatorsDropped a = separatorsDropped b :=
      (separatorsDropped_reading ha).trans (separatorsDropped_reading hb).symm
    have hdistinct : forall x, x ∈ types -> forall y, y ∈ types ->
        separatorsDropped x = separatorsDropped y -> x = y := by decide
    exact hdistinct a (List.contains_iff_mem.mp hta) b
      (List.contains_iff_mem.mp htb) hsame

theorem inner_valid {opened : List String}
    (hopened : forall c, c ∈ ["a.Outer.Inner", "p.Inner", "java.lang.Inner"] ->
      c ∉ opened) :
    ValidName project (siteWith opened) "Inner" where
  nonempty := by decide
  imported := by
    intro path hpath
    cases hpath
    exact ⟨by decide, "a.Outer$Inner", by decide, by decide⟩
  ownUnit := by
    intro level hlevel hdecl
    rcases List.mem_singleton.mp hlevel with rfl
    simp at hdecl
  staticNested := by
    intro b hb
    cases hb
  nestedDemanded := by
    intro b hb
    cases hb
  demandedOnce := by
    intro a b ha
    have hnone : demanded project (siteWith opened) "Inner" = [] := rfl
    rw [hnone] at ha
    cases ha
  topLevel := by
    intro c hc hmem
    exact absurd hmem (hopened c hc)

theorem file_valid (comment : String) (opened : List String) :
    Valid project (fileWith comment opened).written := by
  rw [written_eq]
  exact site_valid opened

/-- A comment in the import: even with `Outer` open its path is misread. -/
example :
    namedResolver (fileWith " /* nested */" ["p.C", "a.Outer", "a.Outer$Inner"]).read
        "Inner" false = some "p.Inner" := by
  decide +kernel

end ImportedNested

end NameSite

end JavaVsixLite
