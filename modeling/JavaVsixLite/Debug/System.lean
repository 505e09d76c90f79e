import JavaVsixLite.Debug.Session
import JavaVsixLite.Foundation.Runs

/-!
# The adapter between its client and its debuggee

The debuggee emits composites and the client issues requests at any time; both
reach the session through one channel, each source in its own order.  A run of
the system is any interleaving of the two with the turns of the event loop.

A composite counts as a suspension from the moment it is emitted, and a
suspension held since VM_START exists from the start.
-/

namespace JavaVsixLite
namespace Debug

open Foundation

inductive Start where
  | launch (stopOnEntry : Bool) (mainClass : String)
  | attach (suspended : Bool)

namespace Start

def launchMode : Start -> Bool
  | .launch _ _ => true
  | .attach _ => false

/-- A launched debuggee is started with `suspend=y`. -/
def suspended : Start -> Bool
  | .launch _ _ => true
  | .attach s => s

def stopOnEntry : Start -> Bool
  | .launch s _ => s
  | .attach _ => false

def mainClass : Start -> Option String
  | .launch _ c => some c
  | .attach _ => none

end Start

/-- What the debuggee's answers depend on besides its own state. -/
structure World where
  fqcnForSource : String -> Option String
  loaded : List ClassEntry
  methodsOf : ClassId -> List MethodEntry
  lineTableOf : ClassId -> MethodId -> Except JdwpError LineTable
  faults : Nat -> Option JdwpError

/-- The session after a successful `launch` or `attach`. -/
def Session.started (start : Start) : Session where
  connected := true
  launchMode := start.launchMode
  stopOnEntry := start.stopOnEntry
  mainClass := start.mainClass
  suspendDepth := 0
  terminatedSent := false
  vmStartPending := false
  threadToDap := ∅
  dapToThread := ∅
  nextThreadId := 1
  classes := ∅
  files := ∅
  nextBpId := 1
  exceptionRequestIds := []
  entry := none
  stepRequestIds := ∅
  lastException := ∅

def Debuggee.started (world : World) (start : Start) : Debuggee where
  suspendCount := if start.suspended then 1 else 0
  requests := []
  nextRequestId := 1
  loaded := world.loaded
  methodsOf := world.methodsOf
  lineTableOf := world.lineTableOf
  sent := []
  faults := world.faults

def vmStartSet : EventSet where
  suspendPolicy := .all
  events := [.vmStart]

/-!
# What is observed
-/

def DapMessage.stopReason? : DapMessage -> Option StopReason
  | .stopped reason _ => some reason
  | _ => none

/-- The reasons of the stops reported so far. -/
def stops (out : List DapMessage) : List StopReason :=
  out.filterMap DapMessage.stopReason?

def Request.isResume : Request -> Bool
  | .continueAll => true
  | .step _ _ => true
  | _ => false

def DapMessage.told (before : Bool) : DapMessage -> Bool
  | .stopped _ _ => true
  | .response request (.ok _) => before && !request.isResume
  | _ => before

/-- The client was last told that the debuggee is stopped. -/
def toldStopped (out : List DapMessage) : Bool :=
  out.foldl DapMessage.told false

def Event.requestId? : Event -> Option RequestId
  | .classPrepare id _ => some id
  | .breakpoint id _ => some id
  | .singleStep id _ => some id
  | _ => none

def EventSet.stepIds (set : EventSet) : List RequestId :=
  set.events.filterMap (fun event =>
    match event with
    | .singleStep id _ => some id
    | _ => none)

/--
A composite the debuggee can emit: its requested events suspend all threads, as
every request of the adapter asks for, and a step event reports a set request.
-/
def EventSet.Emittable (set : EventSet) (vm : Debuggee) : Prop :=
  set.events.contains .vmStart = false ∧
  (set.suspendPolicy = .all ∨ forall event, event ∈ set.events -> event = .vmDeath) ∧
  set.stepIds.Nodup ∧
  forall id, id ∈ set.stepIds -> id ∈ vm.outstandingSteps.map EventRequest.id

instance (set : EventSet) (vm : Debuggee) : Decidable (set.Emittable vm) :=
  inferInstanceAs (Decidable (
    set.events.contains .vmStart = false ∧
    (set.suspendPolicy = .all ∨ forall event, event ∈ set.events -> event = .vmDeath) ∧
    set.stepIds.Nodup ∧
    forall id, id ∈ set.stepIds -> id ∈ vm.outstandingSteps.map EventRequest.id))

namespace Debuggee

/-- A request with `Count(1)` is gone once its event is reported. -/
def expired (set : EventSet) (request : EventRequest) : Bool :=
  request.modifiers.contains (.count 1) &&
    set.events.any (fun event => event.requestId? == some request.id)

def emit (d : Debuggee) (set : EventSet) : Debuggee :=
  { d with
    suspendCount := d.suspendCount + if set.suspendPolicy = .all then 1 else 0
    requests := d.requests.filter (fun request => !expired set request) }

def load (d : Debuggee) (cls : ClassEntry) : Debuggee :=
  { d with loaded := d.loaded ++ [cls] }

end Debuggee

/-!
# The system
-/

structure System where
  adapter : Adapter
  /-- Emitted composites and issued requests that are not handled yet. -/
  events : List EventSet
  requests : List Request
  /-- The last stop reported is not yet followed by a resume request. -/
  mayResume : Bool
  configured : Bool
  /-- The resumes sent for the suspension held since VM_START. -/
  vmStartReleases : Nat

inductive Action where
  | load (cls : ClassEntry)
  | emit (set : EventSet)
  | issue (request : Request)
  | deliverEvent (set : EventSet)
  | deliverRequest (request : Request)
deriving DecidableEq

namespace System

def initial (world : World) (start : Start) : System where
  adapter :=
    { session := Session.started start
      vm := Debuggee.started world start
      out := [] }
  events := if start.suspended then [vmStartSet] else []
  requests := []
  mayResume := false
  configured := false
  vmStartReleases := 0

/-- The client resumes only what it was told to be stopped, and configures once. -/
def allows (s : System) (request : Request) : Bool :=
  (!request.isResume || s.mayResume) &&
    (!(request == .configurationDone) || !s.configured)

def issued (s : System) (request : Request) : System :=
  { s with
    requests := s.requests ++ [request]
    mayResume := s.mayResume && !request.isResume
    configured := s.configured || request == .configurationDone }

def deliver (world : World) (s : System) (message : Adapter.Inbound) : System :=
  let adapter := s.adapter.handle world.fqcnForSource message
  { s with
    adapter
    mayResume :=
      s.mayResume || decide ((stops s.adapter.out).length < (stops adapter.out).length)
    vmStartReleases := s.vmStartReleases +
      if message = .request .configurationDone then
        adapter.vm.resumesSent - s.adapter.vm.resumesSent
      else 0 }

def onVm (s : System) (change : Debuggee -> Debuggee) : System :=
  { s with adapter := { s.adapter with vm := change s.adapter.vm } }

def perform (world : World) (s : System) : Action -> Option System
  | .load cls => some (s.onVm (fun vm => vm.load cls))
  | .emit set =>
    if set.Emittable s.adapter.vm then
      some { s.onVm (fun vm => vm.emit set) with events := s.events ++ [set] }
    else none
  | .issue request => if s.allows request then some (s.issued request) else none
  | .deliverEvent set =>
    match s.events with
    | [] => none
    | next :: rest =>
      if next = set then
        some ({ s with events := rest }.deliver world (.jdwpEvent (.ok set)))
      else none
  | .deliverRequest request =>
    match s.requests with
    | [] => none
    | next :: rest =>
      if next = request then
        some ({ s with requests := rest }.deliver world (.request request))
      else none

/-- Suspensions of composites that wait in the channel. -/
def queued (s : System) : Nat :=
  s.events.countP Adapter.counted

/-- The suspension held since VM_START, while it is not released. -/
def vmStartHeld (start : Start) (s : System) : Nat :=
  if start.suspended then 1 - s.vmStartReleases else 0

theorem perform_cases {world : World} {s t : System} {a : Action}
    (h : s.perform world a = some t) :
    (exists cls : ClassEntry, a = .load cls ∧ t = s.onVm (fun vm => vm.load cls)) ∨
    (exists set : EventSet, a = .emit set ∧ set.Emittable s.adapter.vm ∧
      t = { s.onVm (fun vm => vm.emit set) with events := s.events ++ [set] }) ∨
    (exists request : Request, a = .issue request ∧ s.allows request = true ∧
      t = s.issued request) ∨
    (exists (set : EventSet) (rest : List EventSet), a = .deliverEvent set ∧
      s.events = set :: rest ∧
      t = { s with events := rest }.deliver world (.jdwpEvent (.ok set))) ∨
    (exists (request : Request) (rest : List Request), a = .deliverRequest request ∧
      s.requests = request :: rest ∧
      t = { s with requests := rest }.deliver world (.request request)) := by
  cases a with
  | load cls =>
    left
    refine ⟨cls, rfl, ?_⟩
    simpa [perform] using h.symm
  | emit set =>
    right; left
    by_cases hset : set.Emittable s.adapter.vm
    · refine ⟨set, rfl, hset, ?_⟩
      rw [perform, if_pos hset] at h
      exact (Option.some.inj h).symm
    · rw [perform, if_neg hset] at h
      cases h
  | issue request =>
    right; right; left
    by_cases hallowed : s.allows request = true
    · refine ⟨request, rfl, hallowed, ?_⟩
      rw [perform, if_pos hallowed] at h
      exact (Option.some.inj h).symm
    · rw [perform, if_neg hallowed] at h
      cases h
  | deliverEvent set =>
    right; right; right; left
    cases hevents : s.events with
    | nil => simp [perform, hevents] at h
    | cons next rest =>
      by_cases hnext : next = set
      · refine ⟨set, rest, rfl, by rw [hnext], ?_⟩
        simp only [perform, hevents, if_pos hnext] at h
        exact (Option.some.inj h).symm
      · simp [perform, hevents, hnext] at h
  | deliverRequest request =>
    right; right; right; right
    cases hrequests : s.requests with
    | nil => simp [perform, hrequests] at h
    | cons next rest =>
      by_cases hnext : next = request
      · refine ⟨request, rest, rfl, by rw [hnext], ?_⟩
        simp only [perform, hrequests, if_pos hnext] at h
        exact (Option.some.inj h).symm
      · simp [perform, hrequests, hnext] at h

section Turns

variable {world : World} {s : System}

theorem deliver_event_adapter (hconnected : s.adapter.session.connected = true)
    (set : EventSet) :
    (s.deliver world (.jdwpEvent (.ok set))).adapter = s.adapter.handleEventSet set := by
  simp [deliver, Adapter.handle, hconnected]

theorem deliver_request_adapter (request : Request) :
    (s.deliver world (.request request)).adapter =
      (s.adapter.dispatch world.fqcnForSource request).2.write
        (.response request (s.adapter.dispatch world.fqcnForSource request).1) :=
  rfl

theorem deliver_releases {request : Request} (h : request ≠ .configurationDone) :
    (s.deliver world (.request request)).vmStartReleases = s.vmStartReleases := by
  simp [deliver, h]

end Turns

/-!
# A debuggee for small runs
-/

def quietWorld : World where
  fqcnForSource := fun _ => none
  loaded := []
  methodsOf := fun _ => []
  lineTableOf := fun _ _ => .error .closed
  faults := fun _ => none

def breakpointSet : EventSet where
  suspendPolicy := .all
  events := [.breakpoint 1 7]

end System

end Debug
end JavaVsixLite
