import Mathlib.Order.Lattice.Nat
import Mathlib.Order.Bounds.Basic
import JavaVsixLite.Debug.Control

/-!
# Binding a line breakpoint, class by class

A line is bound in the first class shown to the session that has code at the
line or after it, and is then left alone.  The line it is bound at is compared
with the least line, from the requested one on, over all classes of the file.
-/

namespace JavaVsixLite
namespace Debug

/-!
# Choosing an entry
-/

/-- The least line from `line` on. -/
def leastFrom (line : Nat) (lines : List Nat) : Option Nat :=
  (lines.filter (fun l => decide (line ≤ l))).min?

theorem leastFrom_eq_some_iff {line l : Nat} {lines : List Nat} :
    leastFrom line lines = some l <->
      (l ∈ lines ∧ line ≤ l) ∧ forall other, other ∈ lines -> line ≤ other -> l ≤ other := by
  unfold leastFrom
  rw [List.min?_eq_some_iff]
  simp only [List.mem_filter, decide_eq_true_eq]
  constructor
  · intro h
    exact ⟨h.1, fun other hmem hle => h.2 other ⟨hmem, hle⟩⟩
  · intro h
    exact ⟨h.1, fun other hmem => h.2 other hmem.1 hmem.2⟩

theorem leastFrom_eq_none_iff {line : Nat} {lines : List Nat} :
    leastFrom line lines = none <-> forall l, l ∈ lines -> ¬ line ≤ l := by
  unfold leastFrom
  rw [List.min?_eq_none_iff, List.filter_eq_nil_iff]
  simp

theorem nextEntry_fold (line : Nat) (entries : List (MethodId × Nat × Nat))
    (chosen : Option (MethodId × Nat × Nat))
    (habove : forall e, chosen = some e -> line < e.2.2) :
    (entries.foldl (fun chosen entry =>
        if line < entry.2.2 && chosen.all (fun best => entry.2.2 < best.2.2) then some entry
        else chosen) chosen).map (fun e => e.2.2) =
      ((chosen.map (fun e => e.2.2)).toList ++
        (entries.map (fun e => e.2.2)).filter (fun l => decide (line < l))).min? := by
  induction entries generalizing chosen with
  | nil => cases chosen <;> simp [List.min?]
  | cons entry rest ih =>
    rw [List.foldl_cons]
    by_cases hline : line < entry.2.2
    · cases chosen with
      | none =>
        rw [ih _ (by simp [hline])]
        simp [hline]
      | some best =>
        by_cases hbetter : entry.2.2 < best.2.2
        · rw [ih _ (by simp [hline, hbetter])]
          have hmin : min best.2.2 entry.2.2 = entry.2.2 := by omega
          simp [hline, hbetter, List.min?, hmin]
        · rw [ih _ (by simp [hline, hbetter, habove best rfl])]
          have hmin : min best.2.2 entry.2.2 = best.2.2 := by omega
          simp [hline, hbetter, List.min?, hmin]
    · rw [ih _ (by simpa [hline] using habove)]
      simp [hline]

theorem chooseEntry_line (line : Nat) (entries : List (MethodId × Nat × Nat)) :
    (chooseEntry line entries).map (fun e => e.2.2) =
      leastFrom line (entries.map (fun e => e.2.2)) := by
  unfold chooseEntry
  cases hexact : entries.find? (fun entry => entry.2.2 == line) with
  | some entry =>
    have hline : entry.2.2 = line := by
      have := List.find?_some hexact
      simpa using this
    have hmem : line ∈ entries.map (fun e => e.2.2) :=
      List.mem_map.mpr ⟨entry, List.mem_of_find?_eq_some hexact, hline⟩
    show some entry.2.2 = _
    rw [hline]
    exact (leastFrom_eq_some_iff.mpr ⟨⟨hmem, le_refl line⟩, fun _ _ hle => hle⟩).symm
  | none =>
    have hnone : forall l, l ∈ entries.map (fun e => e.2.2) -> l ≠ line := by
      intro l hl heq
      rcases List.mem_map.mp hl with ⟨entry, hentry, rfl⟩
      have := List.find?_eq_none.mp hexact entry hentry
      exact this (by simpa using heq)
    show (nextEntry line entries).map _ = _
    unfold nextEntry leastFrom
    rw [nextEntry_fold line entries none (by simp)]
    congr 1
    refine List.filter_congr ?_
    intro l hl
    have hne := hnone l hl
    by_cases hlt : line < l
    · simp [hlt, hlt.le]
    · have hle : ¬ line ≤ l := by omega
      simp [hlt, hle]

/-!
# Binding the lines of a file in one class
-/

def LineBp.BoundTo (bp : LineBp) (bound : Option Nat) : Prop :=
  bp.verified = bound.isSome ∧ bp.actualLine = bound

theorem bindLine_bound (classId : ClassId) (entries : List (MethodId × Nat × Nat))
    {bp : LineBp} {vm : Debuggee} (hfaults : vm.faults = fun _ => none)
    (hbp : bp.BoundTo none) :
    (bindLine classId entries bp vm).1.line = bp.line ∧
      (bindLine classId entries bp vm).1.BoundTo
        (leastFrom bp.line (entries.map (fun e => e.2.2))) := by
  rw [← chooseEntry_line]
  unfold bindLine
  cases chooseEntry bp.line entries with
  | none => exact ⟨rfl, hbp.1, hbp.2⟩
  | some entry =>
    simp only [Debuggee.eventRequestSet, Debuggee.answer, hfaults]
    exact ⟨trivial, rfl, rfl⟩

theorem bindLines_bound (classId : ClassId) (entries : List (MethodId × Nat × Nat))
    {bps : List LineBp} {vm : Debuggee} (hfaults : vm.faults = fun _ => none)
    (bound : Nat -> Option Nat)
    (hbps : forall bp, bp ∈ bps -> bp.BoundTo (bound bp.line)) :
    (bindLines classId entries bps vm).1.map LineBp.line = bps.map LineBp.line ∧
      forall bp, bp ∈ (bindLines classId entries bps vm).1 ->
        bp.BoundTo ((bound bp.line).or
          (leastFrom bp.line (entries.map (fun e => e.2.2)))) := by
  induction bps generalizing vm with
  | nil => exact ⟨rfl, by simp [bindLines]⟩
  | cons bp rest ih =>
    have hfirst := hbps bp List.mem_cons_self
    have hrest : forall other, other ∈ rest -> other.BoundTo (bound other.line) :=
      fun other ho => hbps other (List.mem_cons_of_mem _ ho)
    unfold bindLines
    cases hverified : bp.verified with
    | true =>
      rcases ih hfaults hrest with ⟨hlines, hall⟩
      refine ⟨by simp [hlines], ?_⟩
      intro other ho
      rcases List.mem_cons.mp ho with rfl | ho
      · have hsome : (bound other.line).isSome = true := hfirst.1.symm.trans hverified
        rcases Option.isSome_iff_exists.mp hsome with ⟨l, hl⟩
        rw [hl] at hfirst ⊢
        exact hfirst
      · exact hall other ho
    | false =>
      have hnone : bound bp.line = none := by
        have hflag := hfirst.1.symm.trans hverified
        simpa using hflag
      rw [hnone] at hfirst
      rcases bindLine_bound classId entries hfaults hfirst with
        ⟨hline, hbound⟩
      have hquiet := bindLine_quiet classId entries bp vm
      have hfaults' : (bindLine classId entries bp vm).2.faults = fun _ => none :=
        hquiet.faults.trans hfaults
      rcases ih hfaults' hrest with ⟨hlines, hall⟩
      refine ⟨by simp [hlines, hline], ?_⟩
      intro other ho
      rcases List.mem_cons.mp ho with rfl | ho
      · rw [hline, hnone]
        exact hbound
      · exact hall other ho

def prepareRequestsOf (vm : Debuggee) : List EventRequest :=
  vm.requests.filter (fun r => r.kind == .classPrepare)

theorem bindLine_tables (classId : ClassId) (entries : List (MethodId × Nat × Nat))
    (bp : LineBp) (vm : Debuggee) :
    (bindLine classId entries bp vm).2.methodsOf = vm.methodsOf ∧
      (bindLine classId entries bp vm).2.lineTableOf = vm.lineTableOf ∧
      prepareRequestsOf (bindLine classId entries bp vm).2 = prepareRequestsOf vm := by
  unfold bindLine
  cases chooseEntry bp.line entries with
  | none => exact ⟨rfl, rfl, rfl⟩
  | some entry =>
    simp only [Debuggee.eventRequestSet, Debuggee.answer]
    cases vm.faults vm.sent.length with
    | some e => exact ⟨rfl, rfl, rfl⟩
    | none =>
      refine ⟨rfl, rfl, ?_⟩
      simp [prepareRequestsOf]

theorem bindLines_tables (classId : ClassId) (entries : List (MethodId × Nat × Nat))
    (bps : List LineBp) (vm : Debuggee) :
    (bindLines classId entries bps vm).2.2.methodsOf = vm.methodsOf ∧
      (bindLines classId entries bps vm).2.2.lineTableOf = vm.lineTableOf ∧
      prepareRequestsOf (bindLines classId entries bps vm).2.2 = prepareRequestsOf vm := by
  induction bps generalizing vm with
  | nil => exact ⟨rfl, rfl, rfl⟩
  | cons bp rest ih =>
    unfold bindLines
    cases bp.verified with
    | true => exact ih vm
    | false =>
      have hfirst := bindLine_tables classId entries bp vm
      have hrest := ih (bindLine classId entries bp vm).2
      exact ⟨hrest.1.trans hfirst.1, hrest.2.1.trans hfirst.2.1,
        hrest.2.2.trans hfirst.2.2⟩

/-!
# Line tables
-/

namespace World

def tableOf (world : World) (classId : ClassId) (methodId : MethodId) : Option LineTable :=
  (world.lineTableOf classId methodId).toOption.filter (fun t => decide (0 ≤ t.start))

def classTables (world : World) (classId : ClassId) : List MethodEntry ->
    List (MethodId × LineTable)
  | [] => []
  | method :: rest =>
    match world.tableOf classId method.id with
    | some table => (method.id, table) :: world.classTables classId rest
    | none => world.classTables classId rest

/-- The lines a class has code at. -/
def codeLines (world : World) (classId : ClassId) : List Nat :=
  (tableEntries (world.classTables classId (world.methodsOf classId))).map (fun e => e.2.2)

end World

namespace Adapter

/-- The debuggee answers as `world` says, and so does what the session has cached. -/
structure Consistent (world : World) (a : Adapter) : Prop where
  connected : a.session.connected = true
  faults : a.vm.faults = fun _ => none
  methodsOf : a.vm.methodsOf = world.methodsOf
  lineTableOf : a.vm.lineTableOf = world.lineTableOf
  methods : forall classId found, (a.classMeta classId).methods = some found ->
    found = world.methodsOf classId
  tables : forall classId methodId found,
    (a.classMeta classId).lineTables.lookup methodId = some found ->
      found = world.tableOf classId methodId

structure SameFiles (a b : Adapter) : Prop where
  files : b.session.files = a.session.files
  entry : b.session.entry = a.session.entry
  requests : b.vm.requests = a.vm.requests

theorem SameFiles.trans {a b c : Adapter} (h : SameFiles a b) (k : SameFiles b c) :
    SameFiles a c :=
  ⟨k.files.trans h.files, k.entry.trans h.entry, k.requests.trans h.requests⟩

theorem classMeta_setClassMeta (a : Adapter) (classId other : ClassId) (cached : ClassMeta) :
    (a.setClassMeta classId cached).classMeta other =
      if other = classId then cached else a.classMeta other := by
  unfold classMeta setClassMeta
  by_cases h : other = classId
  · subst h
    simp
  · simp [h, AList.lookup_insert_ne h]

variable {world : World} {a : Adapter}

theorem classMethods_spec (h : Consistent world a) (classId : ClassId) :
    (a.classMethods classId).1 = some (world.methodsOf classId) ∧
      Consistent world (a.classMethods classId).2 ∧
      SameFiles a (a.classMethods classId).2 := by
  unfold classMethods
  cases hcached : (a.classMeta classId).methods with
  | some found => exact ⟨by rw [h.methods classId found hcached], h, rfl, rfl, rfl⟩
  | none =>
    simp only [h.connected, if_true, call, Debuggee.methods, Debuggee.answer, h.faults,
      h.methodsOf]
    refine ⟨trivial, ⟨h.connected, rfl, rfl, h.lineTableOf, ?_, ?_⟩, rfl, rfl, rfl⟩
    · intro other found hfound
      rw [classMeta_setClassMeta] at hfound
      split at hfound
      · rename_i heq
        rw [heq]
        exact (Option.some.inj hfound).symm
      · exact h.methods other found hfound
    · intro other methodId found hfound
      rw [classMeta_setClassMeta] at hfound
      split at hfound
      · rename_i heq
        rw [heq]
        exact h.tables classId methodId found hfound
      · exact h.tables other methodId found hfound

theorem methodLineTable_spec (h : Consistent world a) (classId : ClassId) (methodId : MethodId) :
    (a.methodLineTable classId methodId).1 = world.tableOf classId methodId ∧
      Consistent world (a.methodLineTable classId methodId).2 ∧
      SameFiles a (a.methodLineTable classId methodId).2 := by
  unfold methodLineTable
  cases hcached : (a.classMeta classId).lineTables.lookup methodId with
  | some found => exact ⟨h.tables classId methodId found hcached, h, rfl, rfl, rfl⟩
  | none =>
    simp only [h.connected, if_true, call, Debuggee.lineTable, Debuggee.answer, h.faults,
      h.lineTableOf]
    refine ⟨rfl, ⟨h.connected, rfl, h.methodsOf, rfl, ?_, ?_⟩, rfl, rfl, rfl⟩
    · intro other found hfound
      rw [classMeta_setClassMeta] at hfound
      split at hfound
      · rename_i heq
        rw [heq]
        exact h.methods classId found hfound
      · exact h.methods other found hfound
    · intro other otherMethod found hfound
      rw [classMeta_setClassMeta] at hfound
      split at hfound
      · rename_i heq
        rw [heq]
        by_cases hmethod : otherMethod = methodId
        · subst hmethod
          rw [AList.lookup_insert] at hfound
          exact (Option.some.inj hfound).symm
        · rw [AList.lookup_insert_ne hmethod] at hfound
          exact h.tables classId otherMethod found hfound
      · exact h.tables other otherMethod found hfound

theorem lineTables_spec (classId : ClassId) (methods : List MethodEntry) (h : Consistent world a) :
    (lineTables classId methods a).1 = world.classTables classId methods ∧
      Consistent world (lineTables classId methods a).2 ∧
      SameFiles a (lineTables classId methods a).2 := by
  induction methods generalizing a with
  | nil => exact ⟨rfl, h, rfl, rfl, rfl⟩
  | cons method rest ih =>
    rcases methodLineTable_spec h classId method.id with ⟨htable, hconsistent, hsame⟩
    rcases ih hconsistent with ⟨hrest, hrestConsistent, hrestSame⟩
    unfold lineTables World.classTables
    simp only [htable]
    cases world.tableOf classId method.id with
    | none => exact ⟨hrest, hrestConsistent, hsame.trans hrestSame⟩
    | some table =>
      exact ⟨congrArg (List.cons _) hrest, hrestConsistent, hsame.trans hrestSame⟩

/-!
# The file of the breakpoints
-/

def boundIn (world : World) (shown : List ClassEntry) (line : Nat) : Option Nat :=
  shown.findSome? (fun cls => leastFrom line (world.codeLines cls.typeId))

theorem boundIn_append (world : World) (xs ys : List ClassEntry) (line : Nat) :
    boundIn world (xs ++ ys) line = (boundIn world xs line).or (boundIn world ys line) := by
  unfold boundIn
  exact List.findSome?_append

/--
The lines of the only registered file, bound by the classes in `shown`;
`prepares` are the CLASS_PREPARE requests, all of them of this file.
-/
structure BoundBy (world : World) (path className : String) (prepares : List EventRequest)
    (lines : List Nat) (shown : List ClassEntry) (a : Adapter) : Prop where
  consistent : Consistent world a
  entry : a.session.entry = none
  requests : prepareRequestsOf a.vm = prepares
  file : exists bps, a.session.files =
      AList.singleton path
        { className, prepareRequestIds := prepares.map EventRequest.id, bps } ∧
    (forall line, line ∈ bps.map LineBp.line <-> line ∈ lines) ∧
    forall bp, bp ∈ bps -> bp.BoundTo (boundIn world shown bp.line)

theorem BoundBy.congr {path className : String} {prepares : List EventRequest} {lines : List Nat}
    {xs ys : List ClassEntry} (h : BoundBy world path className prepares lines xs a)
    (heq : forall line, boundIn world xs line = boundIn world ys line) :
    BoundBy world path className prepares lines ys a := by
  rcases h.file with ⟨bps, hfiles, hlines, hbound⟩
  refine ⟨h.consistent, h.entry, h.requests, bps, hfiles, hlines, ?_⟩
  intro bp hbp
  rw [← heq]
  exact hbound bp hbp

theorem lookup_singleton {α : Type} {β : α -> Type} [DecidableEq α] (key : α)
    (value : β key) : (AList.singleton key value).lookup key = some value := by
  rw [← AList.insert_empty]
  exact AList.lookup_insert _

theorem bindLinesInClass_boundBy {path className : String} {prepares : List EventRequest}
    {lines : List Nat} {shown : List ClassEntry}
    (h : BoundBy world path className prepares lines shown a) (cls : ClassEntry) :
    BoundBy world path className prepares lines (shown ++ [cls])
      (a.bindLinesInClass path cls.typeId).2 := by
  rcases classMethods_spec h.consistent cls.typeId with ⟨hmethods, hconsistent, hsame⟩
  rcases h.file with ⟨bps, hfiles, hlines, hbound⟩
  unfold bindLinesInClass
  rw [if_pos h.consistent.connected]
  cases hfetched : a.classMethods cls.typeId with
  | mk result a' =>
    rw [hfetched] at hmethods hconsistent hsame
    cases hmethods
    rcases lineTables_spec cls.typeId (world.methodsOf cls.typeId) hconsistent with
      ⟨htables, htablesConsistent, htablesSame⟩
    have hsame' := hsame.trans htablesSame
    simp only [htables]
    rw [hsame'.files, hfiles, lookup_singleton]
    simp only
    have hmore := bindLines_bound cls.typeId
      (tableEntries (world.classTables cls.typeId (world.methodsOf cls.typeId)))
      htablesConsistent.faults (boundIn world shown) hbound
    have hquiet := bindLines_quiet cls.typeId
      (tableEntries (world.classTables cls.typeId (world.methodsOf cls.typeId))) bps
      (lineTables cls.typeId (world.methodsOf cls.typeId) a').2.vm
    have htables' := bindLines_tables cls.typeId
      (tableEntries (world.classTables cls.typeId (world.methodsOf cls.typeId))) bps
      (lineTables cls.typeId (world.methodsOf cls.typeId) a').2.vm
    refine ⟨⟨htablesConsistent.connected, hquiet.faults.trans htablesConsistent.faults,
      htables'.1.trans htablesConsistent.methodsOf,
      htables'.2.1.trans htablesConsistent.lineTableOf, htablesConsistent.methods,
      htablesConsistent.tables⟩, hsame'.entry.trans h.entry, ?_, ?_⟩
    · refine htables'.2.2.trans ?_
      rw [← h.requests]
      exact congrArg (List.filter _) hsame'.requests
    refine ⟨_, ?_, fun line => by rw [hmore.1]; exact hlines line, ?_⟩
    · show AList.insert path _ _ = _
      rw [hsame'.files, hfiles, AList.insert_singleton_eq]
    · intro bp hbp
      have hbp' := hmore.2 bp hbp
      rw [boundIn_append]
      simpa [boundIn, World.codeLines] using hbp'

section Shown

variable {world : World} {path className : String} {prepares : List EventRequest}
  {lines : List Nat} {shown : List ClassEntry} {a : Adapter}

/-- Messages, the depth and the debuggee's own state are not what binding rests on. -/
theorem BoundBy.of_same {b : Adapter}
    (h : BoundBy world path className prepares lines shown a)
    (hconnected : b.session.connected = a.session.connected)
    (hclasses : b.session.classes = a.session.classes)
    (hfiles : b.session.files = a.session.files)
    (hentry : b.session.entry = a.session.entry) (hfaults : b.vm.faults = a.vm.faults)
    (hmethods : b.vm.methodsOf = a.vm.methodsOf)
    (htables : b.vm.lineTableOf = a.vm.lineTableOf)
    (hrequests : prepareRequestsOf b.vm = prepareRequestsOf a.vm) :
    BoundBy world path className prepares lines shown b := by
  have hmeta : forall classId, b.classMeta classId = a.classMeta classId := by
    intro classId
    unfold classMeta
    rw [hclasses]
  refine ⟨⟨hconnected.trans h.consistent.connected, hfaults.trans h.consistent.faults,
    hmethods.trans h.consistent.methodsOf, htables.trans h.consistent.lineTableOf, ?_, ?_⟩,
    hentry.trans h.entry, hrequests.trans h.requests, ?_⟩
  · intro classId found
    rw [hmeta]
    exact h.consistent.methods classId found
  · intro classId methodId found
    rw [hmeta]
    exact h.consistent.tables classId methodId found
  · rcases h.file with ⟨bps, hfile, hrest⟩
    exact ⟨bps, hfiles.trans hfile, hrest⟩

theorem BoundBy.write (h : BoundBy world path className prepares lines shown a)
    (message : DapMessage) :
    BoundBy world path className prepares lines shown (a.write message) :=
  h.of_same rfl rfl rfl rfl rfl rfl rfl rfl

theorem bindLoadedClasses_boundBy (classes : List ClassEntry)
    (h : BoundBy world path className prepares lines shown a) :
    BoundBy world path className prepares lines
      (shown ++ classes.filter (fun cls => classOfFile className cls.signature))
      (bindLoadedClasses path className classes a) := by
  induction classes generalizing a shown with
  | nil => simpa [bindLoadedClasses] using h
  | cons cls rest ih =>
    unfold bindLoadedClasses
    cases hcls : classOfFile className cls.signature with
    | false => simpa [hcls] using ih h
    | true => simpa [hcls] using ih (bindLinesInClass_boundBy h cls)

theorem onClassPrepare_boundBy (h : BoundBy world path className prepares lines shown a)
    (cls : ClassEntry) {id : RequestId} (hid : id ∈ prepares.map EventRequest.id) :
    BoundBy world path className prepares lines (shown ++ [cls])
      (a.onClassPrepare id cls.typeId) := by
  have howner : a.prepareOwner id = some path := by
    rcases h.file with ⟨bps, hfiles, _⟩
    unfold prepareOwner
    rw [hfiles, AList.singleton_entries]
    simp [List.find?, hid]
  have hreport : forall (infos : List BreakpointInfo) (b : Adapter),
      BoundBy world path className prepares lines (shown ++ [cls]) b ->
      BoundBy world path className prepares lines (shown ++ [cls])
        (infos.foldl (fun b info => b.write (.breakpointChanged info)) b) := by
    intro infos
    induction infos with
    | nil => exact fun b hb => hb
    | cons info rest ih => exact fun b hb => ih _ (hb.write _)
  have hbound := bindLinesInClass_boundBy h cls
  unfold onClassPrepare
  rw [h.entry, howner]
  simp only [Option.any_none, Bool.false_eq_true, if_false]
  cases (a.bindLinesInClass path cls.typeId).2.session.files.lookup path with
  | none => exact hbound
  | some file => exact hreport _ _ hbound

theorem onEvents_boundBy (cls : ClassEntry) (ids : List RequestId) (resume : Bool)
    (h : BoundBy world path className prepares lines shown a)
    (hids : forall id, id ∈ ids -> id ∈ prepares.map EventRequest.id) :
    BoundBy world path className prepares lines
      (shown ++ if ids.isEmpty then [] else [cls])
      (onEvents (ids.map (fun id => .classPrepare id cls.typeId)) resume a).2 := by
  induction ids generalizing a shown with
  | nil => simpa [onEvents] using h
  | cons id rest ih =>
    have hfirst := onClassPrepare_boundBy h cls (hids id List.mem_cons_self)
    have hrest := ih hfirst (fun other ho => hids other (List.mem_cons_of_mem _ ho))
    refine BoundBy.congr hrest ?_
    intro line
    cases hempty : rest.isEmpty with
    | true => simp
    | false =>
      simp only [boundIn_append, List.isEmpty_cons, Bool.false_eq_true, if_false]
      cases boundIn world shown line <;> cases boundIn world [cls] line <;> rfl

end Shown

end Adapter

/-!
# Loading classes
-/

/-- JDWP's ClassMatch, on a signature: a name, or a beginning of it and `*`. -/
def classMatches (pattern signature : String) : Bool :=
  if pattern.toList.getLast? = some '*' then
    ("L" ++ Adapter.signaturePath
      (String.ofList pattern.toList.dropLast)).toList.isPrefixOf signature.toList
  else signature == "L" ++ Adapter.signaturePath pattern ++ ";"

def EventRequest.admits (request : EventRequest) (cls : ClassEntry) : Bool :=
  request.kind == .classPrepare &&
    request.modifiers.all (fun modifier =>
      match modifier with
      | .classMatch pattern => classMatches pattern cls.signature
      | _ => true)

def Debuggee.prepareEvents (d : Debuggee) (cls : ClassEntry) : List Event :=
  ((d.requests.filter (fun r => r.admits cls)).map EventRequest.id).map
    (fun id => .classPrepare id cls.typeId)

namespace Adapter

/-- A class is prepared, and the session handles what the debuggee reports of it. -/
def prepare (a : Adapter) (cls : ClassEntry) : Adapter :=
  let loaded := { a with vm := a.vm.load cls }
  if (loaded.vm.prepareEvents cls).isEmpty then loaded
  else
    let set := { suspendPolicy := .all, events := loaded.vm.prepareEvents cls }
    { loaded with vm := loaded.vm.emit set }.handleEventSet set

def reported (className : String) (cls : ClassEntry) : Bool :=
  classMatches className cls.signature || classMatches (className ++ "$*") cls.signature

def filePrepares (className : String) (first : RequestId) : List EventRequest :=
  [{ id := first, kind := .classPrepare, suspendPolicy := .all
     modifiers := [.classMatch className] },
   { id := first + 1, kind := .classPrepare, suspendPolicy := .all
     modifiers := [.classMatch (className ++ "$*")] }]

theorem filter_admits (vm : Debuggee) (cls : ClassEntry) :
    vm.requests.filter (fun r => r.admits cls) =
      (prepareRequestsOf vm).filter (fun r => r.admits cls) := by
  unfold prepareRequestsOf
  rw [List.filter_filter]
  refine List.filter_congr ?_
  intro r _
  unfold EventRequest.admits
  cases r.kind == EventKind.classPrepare <;> simp

theorem reported_iff (className : String) (first : RequestId) (cls : ClassEntry) :
    ((filePrepares className first).filter (fun r => r.admits cls)).isEmpty =
      !reported className cls := by
  unfold filePrepares reported EventRequest.admits
  cases h1 : classMatches className cls.signature <;>
    cases h2 : classMatches (className ++ "$*") cls.signature <;>
    simp [h1, h2]

variable {className : String} {first : RequestId} {world : World} {path : String} {lines : List Nat}
  {shown : List ClassEntry} {a : Adapter}

theorem prepareRequestsOf_emit (vm : Debuggee)
    (h : prepareRequestsOf vm = filePrepares className first) (set : EventSet) :
    prepareRequestsOf (vm.emit set) = filePrepares className first := by
  have hkept : forall r, r ∈ prepareRequestsOf vm -> Debuggee.expired set r = false := by
    intro r hr
    rw [h] at hr
    unfold Debuggee.expired
    rcases List.mem_cons.mp hr with rfl | hr
    · rfl
    · rw [List.mem_singleton.mp hr]
      rfl
  rw [← h]
  unfold prepareRequestsOf Debuggee.emit
  rw [List.filter_filter]
  refine List.filter_congr ?_
  intro r hr
  cases hkind : r.kind == EventKind.classPrepare with
  | false => rfl
  | true =>
    have hmem : r ∈ prepareRequestsOf vm := List.mem_filter.mpr ⟨hr, hkind⟩
    simp [hkept r hmem]

theorem handleEventSet_prepared (a : Adapter) (ids : List RequestId) (classId : ClassId) :
    a.handleEventSet
        { suspendPolicy := .all, events := ids.map (fun id => .classPrepare id classId) } =
      (onEvents (ids.map (fun id => .classPrepare id classId)) true
        (a.setSuspendDepth (a.session.suspendDepth + 1))).2.autoResume := by
  have hcounted : counted
      { suspendPolicy := .all, events := ids.map (fun id => .classPrepare id classId) } =
        true := by
    simp [counted]
  have hholds : holds (ids.map (fun id => Event.classPrepare id classId)) = false := by
    simp [holds, Event.isStop]
  rw [handleEventSet_eq]
  simp only [countSuspension, hcounted, hholds, Bool.not_false, Bool.and_self, if_true]

theorem autoResume_boundBy {prepares : List EventRequest}
    (h : BoundBy world path className prepares lines shown a) :
    BoundBy world path className prepares lines shown a.autoResume := by
  unfold autoResume
  simp only [h.consistent.connected, if_true, call, Debuggee.resume, Debuggee.answer,
    h.consistent.faults]
  exact h.of_same rfl rfl rfl rfl h.consistent.faults.symm rfl rfl rfl

theorem prepare_boundBy
    (h : BoundBy world path className (filePrepares className first) lines shown a)
    (cls : ClassEntry) :
    BoundBy world path className (filePrepares className first) lines
      (shown ++ if reported className cls then [cls] else []) (a.prepare cls) := by
  have hevents : (a.vm.load cls).prepareEvents cls =
      (((filePrepares className first).filter (fun r => r.admits cls)).map
        EventRequest.id).map (fun id => .classPrepare id cls.typeId) := by
    unfold Debuggee.prepareEvents
    rw [filter_admits]
    rw [show prepareRequestsOf (a.vm.load cls) = filePrepares className first from h.requests]
  have hloaded : BoundBy world path className (filePrepares className first) lines shown
      { a with vm := a.vm.load cls } := h.of_same rfl rfl rfl rfl rfl rfl rfl rfl
  have hempty := reported_iff className first cls
  unfold prepare
  simp only [hevents, List.isEmpty_map, hempty]
  cases hreported : reported className cls with
  | false => simpa using hloaded
  | true =>
    simp only [Bool.not_true, Bool.false_eq_true, if_false, if_true]
    rw [handleEventSet_prepared]
    refine autoResume_boundBy ?_
    have hnonempty : (((filePrepares className first).filter
        (fun r => r.admits cls)).map EventRequest.id).isEmpty = false := by
      rw [List.isEmpty_map, hempty, hreported]
      rfl
    have hbegun : forall set, BoundBy world path className (filePrepares className first)
        lines shown (Adapter.setSuspendDepth { a with vm := (a.vm.load cls).emit set }
          (a.session.suspendDepth + 1)) := by
      intro set
      exact h.of_same rfl rfl rfl rfl rfl rfl rfl
        ((prepareRequestsOf_emit (a.vm.load cls) h.requests set).trans
          h.requests.symm)
    have hids : forall id, id ∈ ((filePrepares className first).filter
        (fun r => r.admits cls)).map EventRequest.id ->
          id ∈ (filePrepares className first).map EventRequest.id := by
      intro id hid
      rcases List.mem_map.mp hid with ⟨r, hr, rfl⟩
      exact List.mem_map.mpr ⟨r, (List.mem_filter.mp hr).1, rfl⟩
    have hhandled := fun set => onEvents_boundBy cls _ true (hbegun set) hids
    simp only [hnonempty, Bool.false_eq_true, if_false] at hhandled
    exact hhandled _

/-!
# A breakpoint request and the classes loaded after it
-/

/-- The classes shown to the session: listed as loaded, or reported when prepared. -/
def shownClasses (className : String) (loaded prepared : List ClassEntry) :
    List ClassEntry :=
  loaded.filter (fun cls => classOfFile className cls.signature) ++
    prepared.filter (reported className)

theorem foldl_prepare_boundBy (prepared : List ClassEntry)
    (h : BoundBy world path className (filePrepares className first) lines shown a) :
    BoundBy world path className (filePrepares className first) lines
      (shown ++ prepared.filter (reported className)) (prepared.foldl prepare a) := by
  induction prepared generalizing a shown with
  | nil => simpa using h
  | cons cls rest ih =>
    have hnext := ih (prepare_boundBy h cls)
    cases hcls : reported className cls with
    | false => simpa [hcls] using hnext
    | true => simpa [hcls] using hnext

theorem addLines_spec (requested : List Nat) (kept : List LineBp) (nextId : Nat)
    (hkept : forall bp, bp ∈ kept -> bp.BoundTo none) :
    (forall line, line ∈ (addLines requested kept nextId).1.map LineBp.line <->
        (line ∈ kept.map LineBp.line ∨ line ∈ requested)) ∧
      forall bp, bp ∈ (addLines requested kept nextId).1 -> bp.BoundTo none := by
  induction requested generalizing kept nextId with
  | nil => exact ⟨by simp [addLines], hkept⟩
  | cons first rest ih =>
    unfold addLines
    cases hthere : kept.any (fun bp => bp.line == first) with
    | true =>
      rcases ih kept nextId hkept with ⟨hlines, hbound⟩
      refine ⟨?_, by simpa using hbound⟩
      intro line
      have hmem : first ∈ kept.map LineBp.line := by
        rcases List.any_eq_true.mp hthere with ⟨bp, hbp, hline⟩
        exact List.mem_map.mpr ⟨bp, hbp, by simpa using hline⟩
      simp only [if_true, hlines, List.mem_cons]
      constructor
      · rintro (hold | hnew)
        · exact Or.inl hold
        · exact Or.inr (Or.inr hnew)
      · rintro (hold | rfl | hnew)
        · exact Or.inl hold
        · exact Or.inl hmem
        · exact Or.inr hnew
    | false =>
      have hnext : forall bp, bp ∈ kept ++
          [{ id := nextId, line := first, verified := false, actualLine := none
             message := none, requestIds := [] }] -> LineBp.BoundTo bp none := by
        intro bp hbp
        rcases List.mem_append.mp hbp with hold | hnew
        · exact hkept bp hold
        · rw [List.mem_singleton.mp hnew]
          exact ⟨rfl, rfl⟩
      rcases ih _ (nextId + 1) hnext with ⟨hlines, hbound⟩
      refine ⟨?_, by simpa using hbound⟩
      intro line
      simp only [Bool.false_eq_true, if_false, hlines, List.map_append, List.map_cons,
        List.map_nil, List.mem_append, List.mem_cons, List.not_mem_nil, or_false]
      exact or_assoc

/-- A session in which the file's breakpoints are the first to be requested. -/
def requestLines (world : World) (start : Start) (path : String) (requested : List Nat) :
    Adapter :=
  (System.initial world start).adapter.handle world.fqcnForSource
    (.request (.setBreakpoints (.ok { path := some path, breakpoints := requested, lines := [] })))

/-- The file as `registerFile` leaves it. -/
def newFile (className : String) : FileBps where
  className := className
  prepareRequestIds := [1, 2]
  bps := []

theorem registerFile_initial (start : Start) (hfaults : world.faults = fun _ => none)
    (hclass : world.fqcnForSource path = some className) :
    exists b, (System.initial world start).adapter.registerFile world.fqcnForSource path =
        .ok (newFile className, b) ∧
      b.vm.loaded = world.loaded ∧
      b.session.files = AList.singleton path (newFile className) ∧
      BoundBy world path className (filePrepares className 1) [] [] b := by
  refine ⟨(prepareRequests [className, className ++ "$*"]
    (System.initial world start).adapter).2.setFile path (newFile className), ?_, ?_, ?_, ?_⟩
  · simp [registerFile, System.initial, Session.started, hclass, prepareRequests, call,
      Debuggee.eventRequestSet, Debuggee.answer, Debuggee.started, hfaults, newFile]
  · simp [System.initial, prepareRequests, call, Debuggee.eventRequestSet, Debuggee.answer,
      Debuggee.started, hfaults, setFile]
  · simp [System.initial, prepareRequests, call, Debuggee.eventRequestSet, Debuggee.answer,
      Debuggee.started, Session.started, hfaults, setFile]
  · refine ⟨⟨?_, ?_, ?_, ?_, ?_, ?_⟩, ?_, ?_, [], ?_, by simp, by simp⟩
    all_goals
      simp [System.initial, prepareRequests, call, Debuggee.eventRequestSet, Debuggee.answer,
        Debuggee.started, Session.started, hfaults, setFile, classMeta, ClassMeta.default,
        prepareRequestsOf, filePrepares, newFile]

theorem replaceLines_boundBy (hfiles : a.session.files = AList.singleton path (newFile className))
    (h : BoundBy world path className (filePrepares className 1) [] [] a) (requested : List Nat) :
    BoundBy world path className (filePrepares className 1) requested []
      (a.replaceLines path (newFile className) requested) := by
  rcases addLines_spec requested [] a.session.nextBpId (by simp) with ⟨hlines, hbound⟩
  refine ⟨⟨h.consistent.connected, h.consistent.faults, h.consistent.methodsOf,
    h.consistent.lineTableOf, h.consistent.methods, h.consistent.tables⟩, h.entry,
    h.requests, (addLines requested [] a.session.nextBpId).1, ?_, ?_, ?_⟩
  · show AList.insert path _ a.session.files = _
    rw [hfiles, AList.insert_singleton_eq]
    rfl
  · intro line
    rw [hlines]
    simp
  · exact hbound

theorem requestLines_boundBy (start : Start) (hfaults : world.faults = fun _ => none)
    (hclass : world.fqcnForSource path = some className) (requested : List Nat) :
    BoundBy world path className (filePrepares className 1) requested
      (world.loaded.filter (fun cls => classOfFile className cls.signature))
      (requestLines world start path requested) := by
  rcases registerFile_initial start hfaults hclass with ⟨b, hregistered, hloaded, hfiles, hb⟩
  have hreplaced := replaceLines_boundBy hfiles hb requested
  have hrequested : (if requested.isEmpty then ([] : List Nat) else requested) = requested := by
    cases requested <;> rfl
  have hlisted : (b.replaceLines path (newFile className) requested).vm.loaded =
      world.loaded := hloaded
  have hbound : BoundBy world path className (filePrepares className 1) requested
      (world.loaded.filter (fun cls => classOfFile className cls.signature))
      ((b.replaceLines path (newFile className) requested).bindLoaded path className) := by
    unfold bindLoaded
    simp only [call, Debuggee.allClasses, Debuggee.answer, hreplaced.consistent.faults,
      hlisted]
    have hanswered : BoundBy world path className (filePrepares className 1) requested []
        { session := (b.replaceLines path (newFile className) requested).session
          vm :=
            { (b.replaceLines path (newFile className) requested).vm with
              sent := (b.replaceLines path (newFile className) requested).vm.sent ++
                [.allClasses] }
          out := (b.replaceLines path (newFile className) requested).out } :=
      hreplaced.of_same rfl rfl rfl rfl rfl rfl rfl rfl
    have hclasses := bindLoadedClasses_boundBy world.loaded hanswered
    simpa [hlisted, hreplaced.consistent.faults] using hclasses
  have hconnected : (System.initial world start).adapter.session.connected = true := rfl
  unfold requestLines handle handleRequest dispatch setBreakpoints
  simp only [hconnected, if_true, hrequested, hregistered]
  exact BoundBy.write hbound _

/-- Where a requested line is bound. -/
def boundLine (a : Adapter) (path : String) (line : Nat) : Option Nat :=
  (a.session.files.lookup path).bind (fun file =>
    (file.bps.find? (fun bp => bp.line == line)).bind (fun bp =>
      if bp.verified then bp.actualLine else none))

theorem boundLine_eq {prepares : List EventRequest}
    (h : BoundBy world path className prepares lines shown a) {line : Nat} (hline : line ∈ lines) :
    a.boundLine path line = boundIn world shown line := by
  rcases h.file with ⟨bps, hfiles, hlines, hbound⟩
  rcases List.mem_map.mp ((hlines line).mpr hline) with ⟨some_bp, hmem, hsome⟩
  unfold boundLine
  rw [hfiles, lookup_singleton]
  simp only [Option.bind_some]
  cases hfind : bps.find? (fun bp => bp.line == line) with
  | none =>
    have := List.find?_eq_none.mp hfind some_bp hmem
    exact absurd (by simpa using hsome) this
  | some bp =>
    have hbp : bp.line = line := by
      have := List.find?_some hfind
      simpa using this
    have hbound' := hbound bp (List.mem_of_find?_eq_some hfind)
    rw [hbp] at hbound'
    simp only [Option.bind_some, hbound'.1, hbound'.2]
    cases boundIn world shown line <;> rfl

/-- The session after the request, and after every later class has been prepared. -/
def afterLoading (world : World) (start : Start) (path : String) (requested : List Nat)
    (prepared : List ClassEntry) : Adapter :=
  prepared.foldl prepare (requestLines world start path requested)

/-- The lines from `line` on at which one of the classes has code. -/
def codeFrom (world : World) (classes : List ClassEntry) (line : Nat) : Set Nat :=
  { l | line ≤ l ∧ exists cls, cls ∈ classes ∧ l ∈ world.codeLines cls.typeId }

theorem exists_isLeast_of_nonempty {lines : Set Nat} (h : lines.Nonempty) :
    exists l, IsLeast lines l :=
  ⟨sInf lines, Nat.sInf_mem h, fun _ hl => Nat.sInf_le hl⟩

/--
Once all classes are loaded, a line is bound at the least line of code from it on
over the whole file, exactly when there is no such line or the first class shown
to the session that has code from the line on has it.
-/
theorem breakpoint_bound_at_least_iff (world : World) (start : Start)
    (path className : String) (requested : List Nat) (prepared : List ClassEntry)
    (fromSource : ClassEntry -> Bool) (line : Nat)
    (hfaults : world.faults = fun _ => none)
    (hclass : world.fqcnForSource path = some className) (hline : line ∈ requested)
    (hsource : forall cls, cls ∈ shownClasses className world.loaded prepared ->
      fromSource cls = true) :
    (forall l, (afterLoading world start path requested prepared).boundLine path line =
        some l <-> IsLeast
          (codeFrom world ((world.loaded ++ prepared).filter fromSource) line) l) <->
      (codeFrom world ((world.loaded ++ prepared).filter fromSource) line = ∅ ∨
        exists before cls after,
          shownClasses className world.loaded prepared = before ++ cls :: after ∧
          (forall other, other ∈ before ->
            forall l, l ∈ world.codeLines other.typeId -> ¬ line ≤ l) ∧
          exists l, l ∈ world.codeLines cls.typeId ∧ IsLeast
            (codeFrom world ((world.loaded ++ prepared).filter fromSource) line) l) := by
  have hbound : (afterLoading world start path requested prepared).boundLine path line =
      boundIn world (shownClasses className world.loaded prepared) line :=
    boundLine_eq (foldl_prepare_boundBy prepared
      (requestLines_boundBy start hfaults hclass requested)) hline
  have hshown : forall cls, cls ∈ shownClasses className world.loaded prepared ->
      cls ∈ (world.loaded ++ prepared).filter fromSource := by
    intro cls hcls
    refine List.mem_filter.mpr ⟨?_, hsource cls hcls⟩
    rcases List.mem_append.mp hcls with hold | hnew
    · exact List.mem_append_left _ (List.mem_filter.mp hold).1
    · exact List.mem_append_right _ (List.mem_filter.mp hnew).1
  rw [hbound]
  unfold boundIn
  constructor
  · intro hcorrect
    by_cases hempty : codeFrom world ((world.loaded ++ prepared).filter fromSource) line = ∅
    · exact Or.inl hempty
    · rcases exists_isLeast_of_nonempty (Set.nonempty_iff_ne_empty.mpr hempty) with ⟨l, hl⟩
      rcases List.findSome?_eq_some_iff.mp ((hcorrect l).mpr hl) with
        ⟨before, cls, after, hsplit, hleast, hnone⟩
      refine Or.inr ⟨before, cls, after, hsplit, ?_, l, ?_, hl⟩
      · intro other hother
        exact leastFrom_eq_none_iff.mp (hnone other hother)
      · exact (leastFrom_eq_some_iff.mp hleast).1.1
  · rintro (hempty | ⟨before, cls, after, hsplit, hbefore, least, hmem, hleast⟩)
    · have hnone : forall l, ¬ l ∈ codeFrom world
          ((world.loaded ++ prepared).filter fromSource) line := by
        intro l hl
        rw [hempty] at hl
        exact hl
      intro l
      constructor
      · intro hsome
        rcases List.exists_of_findSome?_eq_some hsome with ⟨cls, hcls, hl⟩
        have hl' := (leastFrom_eq_some_iff.mp hl).1
        exact absurd ⟨hl'.2, cls, hshown cls hcls, hl'.1⟩ (hnone l)
      · intro hl
        exact absurd hl.1 (hnone l)
    · have hcls : cls ∈ shownClasses className world.loaded prepared := by
        rw [hsplit]
        simp
      have hfound : (shownClasses className world.loaded prepared).findSome?
          (fun cls => leastFrom line (world.codeLines cls.typeId)) = some least := by
        refine List.findSome?_eq_some_iff.mpr ⟨before, cls, after, hsplit, ?_, ?_⟩
        · refine leastFrom_eq_some_iff.mpr ⟨⟨hmem, hleast.1.1⟩, ?_⟩
          intro other hother hle
          exact hleast.2 ⟨hle, cls, hshown cls hcls, hother⟩
        · intro other hother
          exact leastFrom_eq_none_iff.mpr (hbefore other hother)
      intro l
      rw [hfound]
      constructor
      · intro heq
        rw [← Option.some.inj heq]
        exact hleast
      · intro hl
        rw [hleast.unique hl]

/-- `Main` has code at lines 10 and 20, the class nested in it at line 15. -/
def nestedWorld : World where
  fqcnForSource := fun _ => some "Main"
  loaded := []
  methodsOf := fun _ => [{ id := 1, name := "run", signature := "()V" }]
  lineTableOf := fun classId _ =>
    .ok { start := 0, lines := if classId = 1 then [(0, 10), (8, 20)] else [(0, 15)] }
  faults := fun _ => none

def mainClass : ClassEntry where
  typeId := 1
  signature := "LMain;"

def nestedClass : ClassEntry where
  typeId := 2
  signature := "LMain$Inner;"

theorem breakpoint_bound_at_least_nested_first :
    IsLeast (codeFrom nestedWorld [nestedClass, mainClass] 15) 15 ∧
      (afterLoading nestedWorld (.attach false) "Main.java" [15]
        [nestedClass, mainClass]).boundLine "Main.java" 15 = some 15 := by
  have hleast : IsLeast (codeFrom nestedWorld [nestedClass, mainClass] 15) 15 := by
    refine ⟨⟨le_refl 15, nestedClass, by simp, ?_⟩, fun l hl => hl.1⟩
    decide
  refine ⟨hleast, ?_⟩
  refine ((breakpoint_bound_at_least_iff nestedWorld (.attach false) "Main.java" "Main" [15]
    [nestedClass, mainClass] (fun _ => true) 15 rfl rfl (by decide)
    (fun _ _ => rfl)).mpr (Or.inr ?_) 15).mpr hleast
  refine ⟨[], nestedClass, [mainClass], by decide, by simp, 15, by decide, hleast⟩

/-- Loaded first, `Main` takes the breakpoint to its own next line. -/
theorem breakpoint_depends_on_load_order :
    (afterLoading nestedWorld (.attach false) "Main.java" [15]
        [mainClass, nestedClass]).boundLine "Main.java" 15 = some 20 ∧
      IsLeast (codeFrom nestedWorld [mainClass, nestedClass] 15) 15 := by
  constructor
  · decide
  · refine ⟨⟨le_refl 15, nestedClass, by simp, ?_⟩, fun l hl => hl.1⟩
    decide

end Adapter

end Debug
end JavaVsixLite
