import Mathlib.Data.List.Basic

/-!
# The debuggee, as the adapter sees it over JDWP

The adapter talks to the virtual machine by commands only, so the machine is
modelled by what its answers depend on: the SUSPEND_ALL count, the event
requests that are set, the loaded classes with their line tables, and a log of
the commands received.  `faults` decides which commands are answered by an
error; a refused command changes nothing.
-/

namespace JavaVsixLite
namespace Debug

abbrev RequestId := Nat
abbrev ThreadId := Nat
abbrev ClassId := Nat
abbrev MethodId := Nat

inductive JdwpError where
  | io (message : String)
  | decode (message : String)
  | code (errorCode : Nat)
  | closed
deriving DecidableEq

def JdwpError.display : JdwpError -> String
  | .io e => "JDWP I/O error: " ++ e
  | .decode e => e
  | .code c => "JDWP error code " ++ toString c
  | .closed => "JDWP connection closed"

inductive EventKind where
  | singleStep
  | breakpoint
  | exception
  | classPrepare
  | vmStart
  | vmDeath
deriving DecidableEq

inductive SuspendPolicy where
  | none
  | eventThread
  | all
deriving DecidableEq

structure Location where
  typeTag : Nat
  classId : ClassId
  methodId : MethodId
  index : Nat
deriving DecidableEq

inductive StepDepth where
  | into
  | over
  | out
deriving DecidableEq

inductive Modifier where
  | count (n : Nat)
  | classMatch (pattern : String)
  | locationOnly (location : Location)
  | exceptionOnly (caught uncaught : Bool)
  | step (thread : ThreadId) (depth : StepDepth)
deriving DecidableEq

/-- The events of a composite packet, with the data the session reads. -/
inductive Event where
  | vmStart
  | classPrepare (requestId : RequestId) (typeId : ClassId)
  | breakpoint (requestId : RequestId) (thread : ThreadId)
  | singleStep (requestId : RequestId) (thread : ThreadId)
  | exception (thread : ThreadId) (exception : Nat)
      (catchLocation : Option Location)
  | vmDeath
deriving DecidableEq

structure EventSet where
  suspendPolicy : SuspendPolicy
  events : List Event
deriving DecidableEq

structure EventRequest where
  id : RequestId
  kind : EventKind
  suspendPolicy : SuspendPolicy
  modifiers : List Modifier

structure MethodEntry where
  id : MethodId
  name : String
  signature : String

/-- `lines` are pairs of a code index and a line number. -/
structure LineTable where
  start : Int
  lines : List (Nat × Nat)

structure ClassEntry where
  typeId : ClassId
  signature : String
deriving DecidableEq

inductive Command where
  | resume
  | suspend
  | eventRequestSet (kind : EventKind) (modifiers : List Modifier)
  | eventRequestClear (kind : EventKind) (id : RequestId)
  | allClasses
  | methods (classId : ClassId)
  | lineTable (classId : ClassId) (methodId : MethodId)
deriving DecidableEq

structure Debuggee where
  suspendCount : Nat
  requests : List EventRequest
  nextRequestId : RequestId
  loaded : List ClassEntry
  methodsOf : ClassId -> List MethodEntry
  lineTableOf : ClassId -> MethodId -> Except JdwpError LineTable
  sent : List Command
  faults : Nat -> Option JdwpError

namespace Debuggee

def answer {β : Type} (d : Debuggee) (command : Command)
    (perform : Debuggee -> Except JdwpError β × Debuggee) :
    Except JdwpError β × Debuggee :=
  let logged := { d with sent := d.sent ++ [command] }
  match d.faults d.sent.length with
  | some e => (.error e, logged)
  | none => perform logged

def resume (d : Debuggee) : Except JdwpError Unit × Debuggee :=
  d.answer .resume (fun d =>
    (.ok (), { d with suspendCount := d.suspendCount - 1 }))

def suspend (d : Debuggee) : Except JdwpError Unit × Debuggee :=
  d.answer .suspend (fun d =>
    (.ok (), { d with suspendCount := d.suspendCount + 1 }))

def eventRequestSet (kind : EventKind) (suspendPolicy : SuspendPolicy)
    (modifiers : List Modifier) (d : Debuggee) :
    Except JdwpError RequestId × Debuggee :=
  d.answer (.eventRequestSet kind modifiers) (fun d =>
    (.ok d.nextRequestId,
      { d with
        requests := d.requests ++
          [{ id := d.nextRequestId, kind, suspendPolicy, modifiers }]
        nextRequestId := d.nextRequestId + 1 }))

def eventRequestClear (kind : EventKind) (id : RequestId) (d : Debuggee) :
    Except JdwpError Unit × Debuggee :=
  d.answer (.eventRequestClear kind id) (fun d =>
    (.ok (), { d with
      requests := d.requests.filter (fun r => !(r.kind == kind && r.id == id)) }))

def allClasses (d : Debuggee) : Except JdwpError (List ClassEntry) × Debuggee :=
  d.answer .allClasses (fun d => (.ok d.loaded, d))

def methods (classId : ClassId) (d : Debuggee) :
    Except JdwpError (List MethodEntry) × Debuggee :=
  d.answer (.methods classId) (fun d => (.ok (d.methodsOf classId), d))

def lineTable (classId : ClassId) (methodId : MethodId) (d : Debuggee) :
    Except JdwpError LineTable × Debuggee :=
  d.answer (.lineTable classId methodId) (fun d =>
    (d.lineTableOf classId methodId, d))

/-- The SINGLE_STEP requests that are still set. -/
def outstandingSteps (d : Debuggee) : List EventRequest :=
  d.requests.filter (fun r => r.kind == .singleStep)

def resumesSent (d : Debuggee) : Nat :=
  d.sent.count .resume

end Debuggee

end Debug
end JavaVsixLite
