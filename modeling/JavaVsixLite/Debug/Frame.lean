import JavaVsixLite.Debug.System

/-!
# What the handlers leave alone

Most of what the session does is bookkeeping: registering files, reading class
metadata, binding breakpoints.  None of it suspends, resumes or steps the
debuggee, reports a stop, or touches the fields the suspension accounting lives
in.  `Quiet` states this once; the few handlers that are not quiet have a
specification of their own.

What such a handler does is put together from a few commands and writes.  `Frame`
collects them: a relation that holds across each of them holds across the handler.
-/

namespace JavaVsixLite
namespace Debug

namespace Debuggee

/-- Between `d` and `d'` nothing was suspended, resumed or asked to step. -/
structure Quiet (d d' : Debuggee) : Prop where
  suspendCount : d'.suspendCount = d.suspendCount
  faults : d'.faults = d.faults
  outstandingSteps : d'.outstandingSteps = d.outstandingSteps
  resumesSent : d'.resumesSent = d.resumesSent

namespace Quiet

theorem refl (d : Debuggee) : Quiet d d :=
  ⟨rfl, rfl, rfl, rfl⟩

theorem trans {d e f : Debuggee} (h : Quiet d e) (k : Quiet e f) : Quiet d f :=
  ⟨k.suspendCount.trans h.suspendCount, k.faults.trans h.faults,
    k.outstandingSteps.trans h.outstandingSteps, k.resumesSent.trans h.resumesSent⟩

theorem answer {β : Type} {command : Command}
    {perform : Debuggee -> Except JdwpError β × Debuggee}
    (hcommand : command ≠ .resume) (hperform : forall d, Quiet d (perform d).2)
    (d : Debuggee) : Quiet d (d.answer command perform).2 := by
  have hlogged : Quiet d { d with sent := d.sent ++ [command] } := by
    refine ⟨rfl, rfl, rfl, ?_⟩
    simp [Debuggee.resumesSent, hcommand]
  unfold Debuggee.answer
  cases d.faults d.sent.length with
  | some e => exact hlogged
  | none => exact hlogged.trans (hperform _)

theorem eventRequestSet (kind : EventKind) (hkind : kind ≠ .singleStep)
    (policy : SuspendPolicy) (modifiers : List Modifier) (d : Debuggee) :
    Quiet d (d.eventRequestSet kind policy modifiers).2 := by
  refine answer (by simp) ?_ d
  intro d
  refine ⟨rfl, rfl, ?_, rfl⟩
  simp [Debuggee.outstandingSteps, hkind]

theorem eventRequestClear (kind : EventKind) (hkind : kind ≠ .singleStep)
    (id : RequestId) (d : Debuggee) :
    Quiet d (d.eventRequestClear kind id).2 := by
  refine answer (by simp) ?_ d
  intro d
  refine ⟨rfl, rfl, ?_, rfl⟩
  simp only [Debuggee.outstandingSteps, List.filter_filter]
  refine List.filter_congr ?_
  intro r _hr
  cases hr : r.kind == EventKind.singleStep with
  | false => rfl
  | true =>
    have hne : (r.kind == kind) = false := by
      rw [beq_iff_eq.mp hr]
      simpa using hkind.symm
    simp [hne]

theorem allClasses (d : Debuggee) : Quiet d d.allClasses.2 :=
  answer (by simp) refl d

theorem methods (classId : ClassId) (d : Debuggee) : Quiet d (d.methods classId).2 :=
  answer (by simp) refl d

theorem lineTable (classId : ClassId) (methodId : MethodId) (d : Debuggee) :
    Quiet d (d.lineTable classId methodId).2 :=
  answer (by simp) refl d

end Quiet

end Debuggee

structure Session.Kept (s s' : Session) : Prop where
  connected : s'.connected = s.connected
  launchMode : s'.launchMode = s.launchMode
  suspendDepth : s'.suspendDepth = s.suspendDepth
  vmStartPending : s'.vmStartPending = s.vmStartPending
  files : s'.files = s.files
  nextBpId : s'.nextBpId = s.nextBpId

namespace Adapter

/-- Nothing that the suspension accounting or the client's view rests on changes. -/
structure Quiet (a b : Adapter) : Prop where
  connected : b.session.connected = a.session.connected
  launchMode : b.session.launchMode = a.session.launchMode
  suspendDepth : b.session.suspendDepth = a.session.suspendDepth
  vmStartPending : b.session.vmStartPending = a.session.vmStartPending
  stops : stops b.out = stops a.out
  toldStopped : toldStopped b.out = toldStopped a.out
  vm : a.vm.Quiet b.vm

/-- A message that neither reports a stop nor answers a resume request. -/
def Unremarkable (message : DapMessage) : Prop :=
  message.stopReason? = none ∧ forall before, message.told before = before

@[simp] theorem stops_append (out : List DapMessage) (message : DapMessage) :
    stops (out ++ [message]) = stops out ++ message.stopReason?.toList := by
  cases h : message.stopReason? <;> simp [Debug.stops, h]

@[simp] theorem toldStopped_append (out : List DapMessage) (message : DapMessage) :
    toldStopped (out ++ [message]) = message.told (toldStopped out) := by
  simp [Debug.toldStopped]

namespace Quiet

theorem refl (a : Adapter) : Quiet a a :=
  ⟨rfl, rfl, rfl, rfl, rfl, rfl, Debuggee.Quiet.refl a.vm⟩

theorem trans {a b c : Adapter} (h : Quiet a b) (k : Quiet b c) : Quiet a c where
  connected := k.connected.trans h.connected
  launchMode := k.launchMode.trans h.launchMode
  suspendDepth := k.suspendDepth.trans h.suspendDepth
  vmStartPending := k.vmStartPending.trans h.vmStartPending
  stops := k.stops.trans h.stops
  toldStopped := k.toldStopped.trans h.toldStopped
  vm := h.vm.trans k.vm

theorem call {β : Type} {command : Debuggee -> Except JdwpError β × Debuggee}
    (h : forall d : Debuggee, d.Quiet (command d).2) (a : Adapter) : Quiet a (a.call command).2 :=
  ⟨rfl, rfl, rfl, rfl, rfl, rfl, h a.vm⟩

theorem write {message : DapMessage} (h : Unremarkable message) (a : Adapter) :
    Quiet a (a.write message) := by
  refine ⟨rfl, rfl, rfl, rfl, ?_, ?_, Debuggee.Quiet.refl a.vm⟩
  · simp [Adapter.write, h.1]
  · simp [Adapter.write, h.2]

theorem session {a : Adapter} {s : Session} (hconnected : s.connected = a.session.connected)
    (hlaunch : s.launchMode = a.session.launchMode)
    (hdepth : s.suspendDepth = a.session.suspendDepth)
    (hpending : s.vmStartPending = a.session.vmStartPending) :
    Quiet a { a with session := s } :=
  ⟨hconnected, hlaunch, hdepth, hpending, rfl, rfl, Debuggee.Quiet.refl a.vm⟩

end Quiet

/-!
# Relations that the handlers keep
-/

/--
A relation that holds across reading class data, across the requests and clears that
are neither of a step nor of a line breakpoint, and across the writes beside them.
-/
structure Frame (R : Adapter -> Adapter -> Prop) : Prop where
  refl : forall a, R a a
  trans : forall {a b c}, R a b -> R b c -> R a c
  methods : forall classId a, R a (a.call (Debuggee.methods classId)).2
  lineTable : forall classId methodId a, R a (a.call (Debuggee.lineTable classId methodId)).2
  request : forall {kind : EventKind} (modifiers : List Modifier) (a : Adapter),
    kind ≠ .singleStep -> (kind = .breakpoint -> .count 1 ∈ modifiers) ->
      R a (a.call (Debuggee.eventRequestSet kind .all modifiers)).2
  clear : forall {kind : EventKind} (id : RequestId) (a : Adapter),
    kind ≠ .singleStep -> kind ≠ .breakpoint ->
      R a (a.call (Debuggee.eventRequestClear kind id)).2
  session : forall {a : Adapter} {s : Session}, a.session.Kept s -> R a { a with session := s }
  write : forall {message : DapMessage} (a : Adapter), Unremarkable message ->
    R a (a.write message)

theorem Quiet.frame : Frame Quiet where
  refl := Quiet.refl
  trans := Quiet.trans
  methods := fun classId => Quiet.call (Debuggee.Quiet.methods classId)
  lineTable := fun classId methodId => Quiet.call (Debuggee.Quiet.lineTable classId methodId)
  request := fun _ a hkind _ => Quiet.call (Debuggee.Quiet.eventRequestSet _ hkind _ _) a
  clear := fun id a hkind _ => Quiet.call (Debuggee.Quiet.eventRequestClear _ hkind id) a
  session := fun h => Quiet.session h.connected h.launchMode h.suspendDepth h.vmStartPending
  write := fun a h => Quiet.write h a

namespace Frame

variable {R : Adapter -> Adapter -> Prop}

theorem setClassMeta (hR : Frame R) (a : Adapter) (classId : ClassId) (cached : ClassMeta) :
    R a (a.setClassMeta classId cached) :=
  hR.session ⟨rfl, rfl, rfl, rfl, rfl, rfl⟩

theorem clearEntry (hR : Frame R) (a : Adapter) : R a a.clearEntry :=
  hR.session ⟨rfl, rfl, rfl, rfl, rfl, rfl⟩

theorem sendTerminated (hR : Frame R) (a : Adapter) : R a a.sendTerminated := by
  unfold Adapter.sendTerminated
  cases a.session.terminatedSent with
  | true => exact hR.refl a
  | false =>
    refine hR.trans ?_ (hR.write _ ⟨rfl, fun _ => rfl⟩)
    exact hR.session ⟨rfl, rfl, rfl, rfl, rfl, rfl⟩

/-!
# Class metadata
-/

theorem classMethods (hR : Frame R) (a : Adapter) (classId : ClassId) :
    R a (a.classMethods classId).2 := by
  unfold Adapter.classMethods
  cases (a.classMeta classId).methods with
  | some methods => exact hR.refl a
  | none =>
    cases a.session.connected with
    | false => exact hR.refl a
    | true =>
      have hcall := hR.methods classId a
      simp only [if_true]
      cases hanswer : a.call (Debuggee.methods classId) with
      | mk result a' =>
        rw [hanswer] at hcall
        cases result with
        | error e => exact hcall
        | ok methods => exact hR.trans hcall (hR.setClassMeta a' classId _)

theorem methodLineTable (hR : Frame R) (a : Adapter) (classId : ClassId)
    (methodId : MethodId) : R a (a.methodLineTable classId methodId).2 := by
  unfold Adapter.methodLineTable
  cases (a.classMeta classId).lineTables.lookup methodId with
  | some cached => exact hR.refl a
  | none =>
    cases a.session.connected with
    | false => exact hR.refl a
    | true =>
      exact hR.trans (hR.lineTable classId methodId a) (hR.setClassMeta _ classId _)

theorem lineTables (hR : Frame R) (classId : ClassId) (methods : List MethodEntry)
    (a : Adapter) : R a (Adapter.lineTables classId methods a).2 := by
  induction methods generalizing a with
  | nil => exact hR.refl a
  | cons method rest ih =>
    have htail := hR.trans (hR.methodLineTable a classId method.id) (ih _)
    unfold Adapter.lineTables
    cases hfetched : (a.methodLineTable classId method.id).1 with
    | none => simpa [hfetched] using htail
    | some table => simpa [hfetched] using htail

theorem eventRequestClearAll (hR : Frame R) {kind : EventKind}
    (hclear : forall id a, R a (a.call (Debuggee.eventRequestClear kind id)).2)
    (ids : List RequestId) (a : Adapter) :
    R a (Adapter.eventRequestClearAll kind ids a) := by
  induction ids generalizing a with
  | nil => exact hR.refl a
  | cons id rest ih => exact hR.trans (hclear id a) (ih _)

theorem prepareRequests (hR : Frame R) (patterns : List String) (a : Adapter) :
    R a (Adapter.prepareRequests patterns a).2 := by
  induction patterns generalizing a with
  | nil => exact hR.refl a
  | cons pattern rest ih =>
    have hset : R a (a.call (Debuggee.eventRequestSet .classPrepare .all
        [.classMatch pattern])).2 :=
      hR.request _ a (fun h => nomatch h) (fun h => nomatch h)
    have htail := hR.trans hset (ih _)
    unfold Adapter.prepareRequests
    cases hanswer : (a.call (Debuggee.eventRequestSet .classPrepare .all
        [.classMatch pattern])).1 with
    | ok id => simpa [hanswer] using htail
    | error e => simpa [hanswer] using htail

theorem setExceptionBreakpoints (hR : Frame R) (a : Adapter)
    (args : Except String (List String)) : R a (a.setExceptionBreakpoints args).2 := by
  unfold Adapter.setExceptionBreakpoints
  cases args with
  | error e => exact hR.refl a
  | ok filters =>
    cases a.session.connected with
    | false => exact hR.refl a
    | true =>
      have hbegin : R a { a with session := { a.session with exceptionRequestIds := [] } } :=
        hR.session ⟨rfl, rfl, rfl, rfl, rfl, rfl⟩
      have hclear : forall id b, R b
          (b.call (Debuggee.eventRequestClear .exception id)).2 :=
        fun id b => hR.clear id b (fun h => nomatch h) (fun h => nomatch h)
      have hcleared := hR.trans hbegin
        (hR.eventRequestClearAll hclear a.session.exceptionRequestIds _)
      simp only [if_true]
      split
      · have hrequest : forall b, R b (b.call (Debuggee.eventRequestSet .exception .all
            [.exceptionOnly (filters.contains "caught") (filters.contains "uncaught")])).2 :=
          fun b => hR.request _ b (fun h => nomatch h) (fun h => nomatch h)
        have hset := hR.trans hcleared (hrequest _)
        split <;> rename_i hanswer <;> rw [hanswer] at hset
        · exact hset
        · exact hR.trans hset (hR.session ⟨rfl, rfl, rfl, rfl, rfl, rfl⟩)
      · exact hcleared

/-!
# Entry
-/

theorem requestEntry (hR : Frame R) (a : Adapter) : R a a.requestEntry := by
  unfold Adapter.requestEntry
  cases a.session.mainClass with
  | none => exact hR.refl a
  | some mainClass =>
    have hset : R a (a.call (Debuggee.eventRequestSet .classPrepare .all
        [.classMatch mainClass])).2 :=
      hR.request _ a (fun h => nomatch h) (fun h => nomatch h)
    simp only
    cases hanswer : a.call (Debuggee.eventRequestSet .classPrepare .all
        [.classMatch mainClass]) with
    | mk result a' =>
      rw [hanswer] at hset
      cases result with
      | ok id => exact hR.trans hset (hR.session ⟨rfl, rfl, rfl, rfl, rfl, rfl⟩)
      | error e => exact hR.trans hset (hR.write a' ⟨rfl, fun _ => rfl⟩)

theorem entryLocation (hR : Frame R) (a : Adapter) (typeId : ClassId) :
    R a (a.entryLocation typeId).2 := by
  unfold Adapter.entryLocation
  have hmethods := hR.classMethods a typeId
  simp only
  split
  · exact hmethods
  · exact hR.trans hmethods (hR.methodLineTable _ typeId _)

theorem clearEntryPrepare (hR : Frame R) (a : Adapter) : R a a.clearEntryPrepare := by
  unfold Adapter.clearEntryPrepare
  cases a.session.entry with
  | none => exact hR.refl a
  | some entry =>
    exact hR.clear entry.prepareRequestId a (fun h => nomatch h) (fun h => nomatch h)

theorem armEntryBreakpoint (hR : Frame R) (a : Adapter) (typeId : ClassId) :
    R a (a.armEntryBreakpoint typeId) := by
  unfold Adapter.armEntryBreakpoint
  cases a.session.connected with
  | false => exact hR.refl a
  | true =>
    have hlocated := hR.trans (hR.clearEntryPrepare a) (hR.entryLocation _ typeId)
    simp only [if_true]
    cases hlocation : a.clearEntryPrepare.entryLocation typeId with
    | mk location b =>
      rw [hlocation] at hlocated
      cases location with
      | none =>
        exact hR.trans (hR.trans hlocated (hR.clearEntry b))
          (hR.write _ ⟨rfl, fun _ => rfl⟩)
      | some location =>
        have hentry : R b (b.call (Debuggee.eventRequestSet .breakpoint .all
            [.locationOnly location, .count 1])).2 :=
          hR.request _ b (fun h => nomatch h)
            (fun _ => List.mem_cons_of_mem _ List.mem_cons_self)
        have hset := hR.trans hlocated hentry
        simp only
        cases hanswer : b.call (Debuggee.eventRequestSet .breakpoint .all
            [.locationOnly location, .count 1]) with
        | mk result c =>
          rw [hanswer] at hset
          cases result with
          | ok id =>
            exact hR.trans hset (hR.session ⟨rfl, rfl, rfl, rfl, rfl, rfl⟩)
          | error e => exact hR.trans hset (hR.clearEntry c)

/-- A prepared class: what a relation keeps of the binding, it keeps of the whole. -/
theorem onClassPrepare (hR : Frame R) (a : Adapter) (requestId : RequestId)
    (typeId : ClassId) (hbind : forall path, R a (a.bindLinesInClass path typeId).2) :
    R a (a.onClassPrepare requestId typeId) := by
  have hreport : forall (infos : List BreakpointInfo) (b : Adapter),
      R b (infos.foldl (fun b info => b.write (.breakpointChanged info)) b) := by
    intro infos
    induction infos with
    | nil => exact hR.refl
    | cons info rest ih => exact fun b => hR.trans (hR.write b ⟨rfl, fun _ => rfl⟩) (ih _)
  unfold Adapter.onClassPrepare
  split
  · exact hR.armEntryBreakpoint a typeId
  · cases a.prepareOwner requestId with
    | none => exact hR.refl a
    | some path =>
      simp only
      cases (a.bindLinesInClass path typeId).2.session.files.lookup path with
      | none => exact hbind path
      | some file => exact hR.trans (hbind path) (hreport _ _)

theorem bindLinesInClass (hR : Frame R) (a : Adapter) (path : String) (classId : ClassId)
    (hlines : forall (b : Adapter) (file : FileBps) (entries : List (MethodId × Nat × Nat)),
      b.session.files.lookup path = some file ->
        R b ({ b with vm := (bindLines classId entries file.bps b.vm).2.2 }.setFile path
          { file with bps := (bindLines classId entries file.bps b.vm).1 })) :
    R a (a.bindLinesInClass path classId).2 := by
  unfold Adapter.bindLinesInClass
  cases a.session.connected with
  | false => exact hR.refl a
  | true =>
    have hmethods := hR.classMethods a classId
    simp only [if_true]
    cases hfetched : a.classMethods classId with
    | mk result a' =>
      rw [hfetched] at hmethods
      cases result with
      | none => exact hmethods
      | some methods =>
        have htables := hR.trans hmethods (hR.lineTables classId methods a')
        simp only
        cases hfile : (Adapter.lineTables classId methods a').2.session.files.lookup
            path with
        | none => exact htables
        | some file => exact hR.trans htables (hlines _ file _ hfile)

theorem bindLoadedClasses (hR : Frame R) {path : String}
    (hbind : forall a classId, R a (a.bindLinesInClass path classId).2) (className : String)
    (classes : List ClassEntry) (a : Adapter) :
    R a (Adapter.bindLoadedClasses path className classes a) := by
  induction classes generalizing a with
  | nil => exact hR.refl a
  | cons cls rest ih =>
    unfold Adapter.bindLoadedClasses
    refine hR.trans ?_ (ih _)
    split
    · exact hbind a cls.typeId
    · exact hR.refl a

theorem bindLoaded (hR : Frame R) {path : String}
    (hbind : forall a classId, R a (a.bindLinesInClass path classId).2)
    (hlisted : forall a : Adapter, R a (a.call Debuggee.allClasses).2) (a : Adapter)
    (className : String) : R a (a.bindLoaded path className) := by
  have hcall := hlisted a
  unfold Adapter.bindLoaded
  cases hanswer : a.call Debuggee.allClasses with
  | mk result a' =>
    rw [hanswer] at hcall
    cases result with
    | error e => exact hcall
    | ok classes => exact hR.trans hcall (hR.bindLoadedClasses hbind className classes a')

theorem prepareRequests_session (patterns : List String) (a : Adapter) :
    (Adapter.prepareRequests patterns a).2.session = a.session := by
  induction patterns generalizing a with
  | nil => rfl
  | cons pattern rest ih =>
    unfold Adapter.prepareRequests
    simp only
    split <;> exact ih _

theorem registerFile (hR : Frame R) {fqcnForSource : String -> Option String}
    {a b : Adapter} {path : String} {file : FileBps}
    (hnew : forall (b : Adapter) (file : FileBps), b.session.files.lookup path = none ->
      file.bps = [] -> R b (b.setFile path file))
    (h : a.registerFile fqcnForSource path = .ok (file, b)) :
    R a b ∧ b.session.files.lookup path = some file := by
  unfold Adapter.registerFile at h
  cases hlookup : a.session.files.lookup path with
  | some found =>
    simp only [hlookup] at h
    cases h
    exact ⟨hR.refl a, hlookup⟩
  | none =>
    simp only [hlookup] at h
    cases hclass : fqcnForSource path with
    | none =>
      simp only [hclass] at h
      cases h
    | some className =>
      simp only [hclass] at h
      cases h
      refine ⟨?_, AList.lookup_insert _⟩
      apply hR.trans (hR.prepareRequests [className, className ++ "$*"] a)
      apply hnew _ _ _ rfl
      rw [prepareRequests_session]
      exact hlookup

theorem setBreakpoints (hR : Frame R)
    (hnew : forall (b : Adapter) (path : String) (file : FileBps),
      b.session.files.lookup path = none -> file.bps = [] -> R b (b.setFile path file))
    (hreplace : forall (b : Adapter) (path : String) (file : FileBps) (requested : List Nat),
      b.session.files.lookup path = some file -> R b (b.replaceLines path file requested))
    (hbind : forall (path : String) (b : Adapter) (classId : ClassId),
      R b (b.bindLinesInClass path classId).2)
    (hlisted : forall b : Adapter, R b (b.call Debuggee.allClasses).2)
    (fqcnForSource : String -> Option String) (a : Adapter)
    (args : Except String SetBreakpointsArgs) :
    R a (a.setBreakpoints fqcnForSource args).2 := by
  unfold Adapter.setBreakpoints
  cases args with
  | error e => exact hR.refl a
  | ok args =>
    cases hpath : args.path with
    | none => simpa [hpath] using hR.refl a
    | some path =>
      cases hconnected : a.session.connected with
      | false => simpa [hpath] using hR.refl a
      | true =>
        cases hfile : a.registerFile fqcnForSource path with
        | error e => simpa [hpath, hfile] using hR.refl a
        | ok registered =>
          rcases hR.registerFile (fun b file => hnew b path file) hfile with
            ⟨hregistered, hlookup⟩
          simp only [hpath, hfile, if_true]
          exact hR.trans (hR.trans hregistered (hreplace _ path _ _ hlookup))
            (hR.bindLoaded (hbind path) hlisted _ _)

end Frame

end Adapter

theorem bindLine_quiet (classId : ClassId) (entries : List (MethodId × Nat × Nat))
    (bp : LineBp) (vm : Debuggee) : vm.Quiet (bindLine classId entries bp vm).2 := by
  unfold bindLine
  cases chooseEntry bp.line entries with
  | none => exact Debuggee.Quiet.refl vm
  | some entry =>
    have hset := Debuggee.Quiet.eventRequestSet .breakpoint (by simp) .all
      [.locationOnly ⟨1, classId, entry.1, entry.2.1⟩] vm
    simp only
    cases hanswer : vm.eventRequestSet .breakpoint .all
        [.locationOnly ⟨1, classId, entry.1, entry.2.1⟩] with
    | mk result vm' =>
      rw [hanswer] at hset
      cases result <;> exact hset

theorem bindLines_quiet (classId : ClassId) (entries : List (MethodId × Nat × Nat))
    (bps : List LineBp) (vm : Debuggee) :
    vm.Quiet (bindLines classId entries bps vm).2.2 := by
  induction bps generalizing vm with
  | nil => exact Debuggee.Quiet.refl vm
  | cons bp rest ih =>
    unfold bindLines
    cases bp.verified with
    | true => exact ih vm
    | false => exact (bindLine_quiet classId entries bp vm).trans (ih _)

namespace Adapter
namespace Quiet

theorem bindLinesInClass (a : Adapter) (path : String) (classId : ClassId) :
    Quiet a (a.bindLinesInClass path classId).2 := by
  apply frame.bindLinesInClass
  intro b file entries _
  exact ⟨rfl, rfl, rfl, rfl, rfl, rfl, bindLines_quiet classId entries file.bps b.vm⟩

theorem replaceLines (a : Adapter) (path : String) (file : FileBps)
    (requested : List Nat) : Quiet a (a.replaceLines path file requested) := by
  have hclear : forall id b, Quiet b (b.call (Debuggee.eventRequestClear .breakpoint id)).2 :=
    fun id => call (Debuggee.Quiet.eventRequestClear .breakpoint (by simp) id)
  unfold Adapter.replaceLines
  refine trans ?_ (frame.eventRequestClearAll hclear _ _)
  exact session rfl rfl rfl rfl


theorem setBreakpoints (fqcnForSource : String -> Option String) (a : Adapter)
    (args : Except String SetBreakpointsArgs) :
    Quiet a (a.setBreakpoints fqcnForSource args).2 := by
  apply frame.setBreakpoints
  · intro b path file _ _
    exact session rfl rfl rfl rfl
  · intro b path file requested _
    exact replaceLines b path file requested
  · intro path b classId
    exact bindLinesInClass b path classId
  · exact call Debuggee.Quiet.allClasses

theorem onClassPrepare (a : Adapter) (requestId : RequestId) (typeId : ClassId) :
    Quiet a (a.onClassPrepare requestId typeId) :=
  frame.onClassPrepare a requestId typeId (fun path => bindLinesInClass a path typeId)

end Quiet

end Adapter

end Debug
end JavaVsixLite
