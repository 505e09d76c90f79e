import Mathlib.Data.Finset.Erase
import Mathlib.Data.Finset.Insert
import Mathlib.Data.List.AList
import JavaVsixLite.Debug.Debuggee

/-!
# The debug session

The event loop of the adapter takes one message at a time, a DAP request or a
composite of JDWP events, and answers it before it takes the next.  Every
handler works on the session, the debuggee and the DAP messages written so far.

The requests that only inspect a stopped debuggee, and the handles they use, are
left out; so is the child process of a launched debuggee.
-/

namespace JavaVsixLite
namespace Debug

inductive StopReason where
  | entry
  | breakpoint
  | step
  | exception
  | pause
deriving DecidableEq

structure BreakpointInfo where
  id : Nat
  verified : Bool
  line : Nat
  message : Option String

inductive Body where
  | empty
  | allThreadsContinued
  | breakpoints (infos : List BreakpointInfo)

structure SetBreakpointsArgs where
  path : Option String
  breakpoints : List Nat
  lines : List Nat
deriving DecidableEq

/-- The arguments of a request are given as they deserialise, or as the error. -/
inductive Request where
  | setBreakpoints (args : Except String SetBreakpointsArgs)
  | setExceptionBreakpoints (args : Except String (List String))
  | configurationDone
  | continueAll
  | step (depth : StepDepth) (args : Except String Nat)
  | pause (args : Except String Nat)
deriving DecidableEq

inductive DapMessage where
  | response (request : Request) (result : Except String Body)
  | stopped (reason : StopReason) (threadId : Nat)
  | breakpointChanged (info : BreakpointInfo)
  | output (category text : String)
  | terminated

structure LineBp where
  id : Nat
  line : Nat
  verified : Bool
  actualLine : Option Nat
  message : Option String
  requestIds : List RequestId

structure FileBps where
  className : String
  prepareRequestIds : List RequestId
  bps : List LineBp

/-- Cached per-class metadata; `none` under a method is absent information. -/
structure ClassMeta where
  methods : Option (List MethodEntry)
  lineTables : AList (fun _ : MethodId => Option LineTable)

def ClassMeta.default : ClassMeta where
  methods := none
  lineTables := ∅

structure EntryState where
  prepareRequestId : RequestId
  bpRequestId : Option RequestId

structure Session where
  connected : Bool
  launchMode : Bool
  stopOnEntry : Bool
  mainClass : Option String
  suspendDepth : Nat
  terminatedSent : Bool
  vmStartPending : Bool
  threadToDap : AList (fun _ : ThreadId => Nat)
  dapToThread : AList (fun _ : Nat => ThreadId)
  nextThreadId : Nat
  classes : AList (fun _ : ClassId => ClassMeta)
  files : AList (fun _ : String => FileBps)
  nextBpId : Nat
  exceptionRequestIds : List RequestId
  entry : Option EntryState
  stepRequestIds : Finset RequestId
  lastException : AList (fun _ : ThreadId => Nat × Bool)

structure Adapter where
  session : Session
  vm : Debuggee
  out : List DapMessage

namespace Adapter

def write (a : Adapter) (message : DapMessage) : Adapter :=
  { a with out := a.out ++ [message] }

def call {β : Type} (a : Adapter)
    (command : Debuggee -> Except JdwpError β × Debuggee) :
    Except JdwpError β × Adapter :=
  ((command a.vm).1, { a with vm := (command a.vm).2 })

def noDebugSession : String := "No debug session"

def sendTerminated (a : Adapter) : Adapter :=
  if a.session.terminatedSent then a
  else
    { a with session := { a.session with terminatedSent := true } }.write .terminated

/-!
# Stops
-/

def dapThreadId (a : Adapter) (thread : ThreadId) : Nat × Adapter :=
  match a.session.threadToDap.lookup thread with
  | some id => (id, a)
  | none =>
    (a.session.nextThreadId,
      { a with session :=
        { a.session with
          nextThreadId := a.session.nextThreadId + 1
          threadToDap := a.session.threadToDap.insert thread a.session.nextThreadId
          dapToThread := a.session.dapToThread.insert a.session.nextThreadId thread } })

def onStop (a : Adapter) (thread : ThreadId) (reason : StopReason) : Adapter :=
  (a.dapThreadId thread).2.write (.stopped reason (a.dapThreadId thread).1)

def jdwpThread (a : Adapter) (dapId : Nat) : Except String ThreadId :=
  match a.session.dapToThread.lookup dapId with
  | some thread => .ok thread
  | none => .error ("Unknown thread " ++ toString dapId)

/-!
# Class metadata
-/

def classMeta (a : Adapter) (classId : ClassId) : ClassMeta :=
  (a.session.classes.lookup classId).getD ClassMeta.default

def setClassMeta (a : Adapter) (classId : ClassId) (cached : ClassMeta) : Adapter :=
  { a with session :=
    { a.session with classes := a.session.classes.insert classId cached } }

def classMethods (a : Adapter) (classId : ClassId) :
    Option (List MethodEntry) × Adapter :=
  match (a.classMeta classId).methods with
  | some methods => (some methods, a)
  | none =>
    if a.session.connected then
      match a.call (Debuggee.methods classId) with
      | (.error _, a') => (none, a')
      | (.ok methods, a') =>
        (some methods,
          a'.setClassMeta classId { a'.classMeta classId with methods := some methods })
    else (none, a)

def methodLineTable (a : Adapter) (classId : ClassId) (methodId : MethodId) :
    Option LineTable × Adapter :=
  match (a.classMeta classId).lineTables.lookup methodId with
  | some cached => (cached, a)
  | none =>
    if a.session.connected then
      let answered := a.call (Debuggee.lineTable classId methodId)
      let table := answered.1.toOption.filter (fun t => decide (0 ≤ t.start))
      let a' := answered.2
      (table,
        a'.setClassMeta classId
          { a'.classMeta classId with
            lineTables := (a'.classMeta classId).lineTables.insert methodId table })
    else (none, a)

def lineTables (classId : ClassId) :
    List MethodEntry -> Adapter -> List (MethodId × LineTable) × Adapter
  | [], a => ([], a)
  | method :: rest, a =>
    let fetched := a.methodLineTable classId method.id
    let others := lineTables classId rest fetched.2
    match fetched.1 with
    | some table => ((method.id, table) :: others.1, others.2)
    | none => others

end Adapter

/-!
# Binding breakpoints
-/

/-- The table entries of a class in table order: method, code index, line. -/
def tableEntries (tables : List (MethodId × LineTable)) :
    List (MethodId × Nat × Nat) :=
  tables.flatMap (fun table =>
    table.2.lines.map (fun entry => (table.1, entry.1, entry.2)))

/-- The entry with the smallest line above `line`, the first of them on a tie. -/
def nextEntry (line : Nat) (entries : List (MethodId × Nat × Nat)) :
    Option (MethodId × Nat × Nat) :=
  entries.foldl (fun chosen entry =>
    if line < entry.2.2 && chosen.all (fun best => entry.2.2 < best.2.2) then some entry
    else chosen) none

/-- The first entry with the exact line, else the next greater line of the class. -/
def chooseEntry (line : Nat) (entries : List (MethodId × Nat × Nat)) :
    Option (MethodId × Nat × Nat) :=
  match entries.find? (fun entry => entry.2.2 == line) with
  | some entry => some entry
  | none => nextEntry line entries

def bindLine (classId : ClassId) (entries : List (MethodId × Nat × Nat))
    (bp : LineBp) (vm : Debuggee) : LineBp × Debuggee :=
  match chooseEntry bp.line entries with
  | none =>
    ({ bp with
      message := some (bp.message.getD "No executable code at this line") }, vm)
  | some (methodId, index, line) =>
    match vm.eventRequestSet .breakpoint .all
        [.locationOnly { typeTag := 1, classId, methodId, index }] with
    | (.ok requestId, vm') =>
      ({ bp with
        requestIds := bp.requestIds ++ [requestId]
        verified := true
        actualLine := some line
        message := none }, vm')
    | (.error _, vm') => (bp, vm')

/-- Bind the unverified ones; the identifiers of those that became verified. -/
def bindLines (classId : ClassId) (entries : List (MethodId × Nat × Nat)) :
    List LineBp -> Debuggee -> List LineBp × List Nat × Debuggee
  | [], vm => ([], [], vm)
  | bp :: rest, vm =>
    if bp.verified then
      let others := bindLines classId entries rest vm
      (bp :: others.1, others.2.1, others.2.2)
    else
      let bound := bindLine classId entries bp vm
      let others := bindLines classId entries rest bound.2
      (bound.1 :: others.1,
        if bound.1.verified then bp.id :: others.2.1 else others.2.1,
        others.2.2)

namespace Adapter

def setFile (a : Adapter) (path : String) (file : FileBps) : Adapter :=
  { a with session := { a.session with files := a.session.files.insert path file } }

def bindLinesInClass (a : Adapter) (path : String) (classId : ClassId) :
    List Nat × Adapter :=
  if a.session.connected then
    match a.classMethods classId with
    | (none, a') => ([], a')
    | (some methods, a') =>
      let fetched := lineTables classId methods a'
      let a'' := fetched.2
      match a''.session.files.lookup path with
      | none => ([], a'')
      | some file =>
        let bound := bindLines classId (tableEntries fetched.1) file.bps a''.vm
        (bound.2.1,
          { a'' with vm := bound.2.2 }.setFile path { file with bps := bound.1 })
  else ([], a)

def breakpointJson (bp : LineBp) : BreakpointInfo where
  id := bp.id
  verified := bp.verified
  line := bp.actualLine.getD bp.line
  message := bp.message

def eventRequestClearAll (kind : EventKind) :
    List RequestId -> Adapter -> Adapter
  | [], a => a
  | id :: rest, a =>
    eventRequestClearAll kind rest (a.call (Debuggee.eventRequestClear kind id)).2

/-- The two CLASS_PREPARE requests of a file; a refused one is left out. -/
def prepareRequests : List String -> Adapter -> List RequestId × Adapter
  | [], a => ([], a)
  | pattern :: rest, a =>
    let answered :=
      a.call (Debuggee.eventRequestSet .classPrepare .all [.classMatch pattern])
    let others := prepareRequests rest answered.2
    match answered.1 with
    | .ok id => (id :: others.1, others.2)
    | .error _ => others

def registerFile (fqcnForSource : String -> Option String) (a : Adapter)
    (path : String) : Except String (FileBps × Adapter) :=
  match a.session.files.lookup path with
  | some file => .ok (file, a)
  | none =>
    match fqcnForSource path with
    | none => .error ("Could not determine the class declared in " ++ path)
    | some className =>
      let prepared := prepareRequests [className, className ++ "$*"] a
      let file := { className, prepareRequestIds := prepared.1, bps := [] }
      .ok (file, prepared.2.setFile path file)

def addLines : List Nat -> List LineBp -> Nat -> List LineBp × Nat
  | [], kept, nextId => (kept, nextId)
  | line :: rest, kept, nextId =>
    if kept.any (fun bp => bp.line == line) then addLines rest kept nextId
    else
      addLines rest
        (kept ++ [{
          id := nextId
          line
          verified := false
          actualLine := none
          message := none
          requestIds := [] }])
        (nextId + 1)

def signaturePath (className : String) : String :=
  String.ofList (className.toList.map (fun c => if c = '.' then '/' else c))

def classOfFile (className signature : String) : Bool :=
  signature == "L" ++ signaturePath className ++ ";" ||
    ("L" ++ signaturePath className ++ "$").toList.isPrefixOf signature.toList

def bindLoadedClasses (path className : String) : List ClassEntry -> Adapter -> Adapter
  | [], a => a
  | cls :: rest, a =>
    bindLoadedClasses path className rest
      (if classOfFile className cls.signature then
        (a.bindLinesInClass path cls.typeId).2
      else a)

/-- Replace the lines of a file: drop, keep and add, then clear what was dropped. -/
def replaceLines (a : Adapter) (path : String) (file : FileBps) (requested : List Nat) :
    Adapter :=
  let kept := file.bps.filter (fun bp => decide (bp.line ∈ requested))
  let dropped := file.bps.filter (fun bp => !decide (bp.line ∈ requested))
  let added := addLines requested kept a.session.nextBpId
  let a' := a.setFile path { file with bps := added.1 }
  eventRequestClearAll .breakpoint (dropped.flatMap (fun bp => bp.requestIds))
    { a' with session := { a'.session with nextBpId := added.2 } }

/-- Bind the lines of a registered file in the classes that are already loaded. -/
def bindLoaded (a : Adapter) (path className : String) : Adapter :=
  match a.call Debuggee.allClasses with
  | (.ok classes, a') => bindLoadedClasses path className classes a'
  | (.error _, a') => a'

def breakpointsReply (a : Adapter) (path : String) (requested : List Nat) : Body :=
  let bps := (a.session.files.lookup path).elim [] FileBps.bps
  .breakpoints ((requested.filterMap (fun line =>
    bps.find? (fun bp => bp.line == line))).map breakpointJson)

def setBreakpoints (fqcnForSource : String -> Option String) (a : Adapter)
    (args : Except String SetBreakpointsArgs) : Except String Body × Adapter :=
  match args with
  | .error e => (.error ("Bad setBreakpoints arguments: " ++ e), a)
  | .ok args =>
    match args.path with
    | none => (.error "setBreakpoints without a source path", a)
    | some path =>
      let requested := if args.breakpoints.isEmpty then args.lines else args.breakpoints
      if a.session.connected then
        match a.registerFile fqcnForSource path with
        | .error e => (.error e, a)
        | .ok (file, a') =>
          let bound := (a'.replaceLines path file requested).bindLoaded path file.className
          (.ok (bound.breakpointsReply path requested), bound)
      else (.error noDebugSession, a)

def setExceptionBreakpoints (a : Adapter) (args : Except String (List String)) :
    Except String Body × Adapter :=
  match args with
  | .error e => (.error ("Bad setExceptionBreakpoints arguments: " ++ e), a)
  | .ok filters =>
    if a.session.connected then
      let a' := eventRequestClearAll .exception a.session.exceptionRequestIds
        { a with session := { a.session with exceptionRequestIds := [] } }
      let caught := filters.contains "caught"
      let uncaught := filters.contains "uncaught"
      if caught || uncaught then
        match a'.call (Debuggee.eventRequestSet .exception .all
            [.exceptionOnly caught uncaught]) with
        | (.error e, a'') => (.error ("EXCEPTION request failed: " ++ e.display), a'')
        | (.ok id, a'') =>
          (.ok .empty,
            { a'' with session :=
              { a''.session with
                exceptionRequestIds := a''.session.exceptionRequestIds ++ [id] } })
      else (.ok .empty, a')
    else (.error noDebugSession, a)

/-!
# Execution control
-/

def resumeTimes : Nat -> Adapter -> Except JdwpError Unit × Adapter
  | 0, a => (.ok (), a)
  | n + 1, a =>
    match a.call Debuggee.resume with
    | (.ok _, a') => resumeTimes n a'
    | (.error e, a') => (.error e, a')

def setSuspendDepth (a : Adapter) (depth : Nat) : Adapter :=
  { a with session := { a.session with suspendDepth := depth } }

def clearExceptions (a : Adapter) : Adapter :=
  { a with session := { a.session with lastException := ∅ } }

/-- One resume per outstanding SUSPEND_ALL, at least one. -/
def continueAll (a : Adapter) : Except String Body × Adapter :=
  if a.session.connected then
    match resumeTimes (max a.session.suspendDepth 1) a.clearExceptions with
    | (.error e, a') => (.error ("resume failed: " ++ e.display), a')
    | (.ok _, a') => (.ok .allThreadsContinued, a'.setSuspendDepth 0)
  else (.error noDebugSession, a)

def step (a : Adapter) (depth : StepDepth) (args : Except String Nat) :
    Except String Body × Adapter :=
  match args with
  | .error e => (.error ("Bad step arguments: " ++ e), a)
  | .ok threadId =>
    match a.jdwpThread threadId with
    | .error e => (.error e, a)
    | .ok thread =>
      if a.session.connected then
        match a.call (Debuggee.eventRequestSet .singleStep .all
            [.step thread depth, .count 1]) with
        | (.error e, a') => (.error ("step request failed: " ++ e.display), a')
        | (.ok id, a') =>
          match continueAll { a' with session :=
              { a'.session with
                stepRequestIds := insert id a'.session.stepRequestIds } } with
          | (.error e, a'') => (.error e, a'')
          | (.ok _, a'') => (.ok .empty, a'')
      else (.error noDebugSession, a)

def pause (a : Adapter) (args : Except String Nat) : Except String Body × Adapter :=
  match args with
  | .error e => (.error ("Bad pause arguments: " ++ e), a)
  | .ok threadId =>
    if a.session.connected then
      match a.call Debuggee.suspend with
      | (.error e, a') => (.error ("suspend failed: " ++ e.display), a')
      | (.ok _, a') =>
        (.ok .empty,
          (a'.setSuspendDepth (a'.session.suspendDepth + 1)).write
            (.stopped .pause threadId))
    else (.error noDebugSession, a)

def requestEntry (a : Adapter) : Adapter :=
  match a.session.mainClass with
  | none => a
  | some mainClass =>
    match a.call (Debuggee.eventRequestSet .classPrepare .all [.classMatch mainClass]) with
    | (.ok id, a') =>
      { a' with session :=
        { a'.session with
          entry := some { prepareRequestId := id, bpRequestId := none } } }
    | (.error e, a') =>
      a'.write (.output "console" ("stopOnEntry unavailable: " ++ e.display ++ "\n"))

def configurationDone (a : Adapter) : Except String Body × Adapter :=
  if a.session.launchMode && a.session.stopOnEntry && !a.session.connected then
    (.error noDebugSession, a)
  else
    let a' := if a.session.launchMode && a.session.stopOnEntry then a.requestEntry else a
    if a'.session.launchMode || a'.session.vmStartPending then
      let a'' := { a' with session := { a'.session with vmStartPending := false } }
      if a''.session.connected then
        match a''.call Debuggee.resume with
        | (.error e, b) => (.error ("resume failed: " ++ e.display), b)
        | (.ok _, b) => (.ok .empty, b)
      else (.error noDebugSession, a'')
    else (.ok .empty, a')

/-!
# JDWP events
-/

def clearEntry (a : Adapter) : Adapter :=
  { a with session := { a.session with entry := none } }

/-- The first location of `main`, where stop-on-entry sets its breakpoint. -/
def entryLocation (a : Adapter) (typeId : ClassId) : Option Location × Adapter :=
  let fetched := a.classMethods typeId
  match fetched.1.bind (fun methods => methods.find? (fun m =>
      m.name == "main" && m.signature == "([Ljava/lang/String;)V")) with
  | none => (none, fetched.2)
  | some main =>
    let table := fetched.2.methodLineTable typeId main.id
    ((table.1.bind (fun t => t.lines.head?)).map (fun entry =>
      { typeTag := 1, classId := typeId, methodId := main.id, index := entry.1 }),
      table.2)

def clearEntryPrepare (a : Adapter) : Adapter :=
  match a.session.entry with
  | some entry =>
    (a.call (Debuggee.eventRequestClear .classPrepare entry.prepareRequestId)).2
  | none => a

def armEntryBreakpoint (a : Adapter) (typeId : ClassId) : Adapter :=
  if a.session.connected then
    match a.clearEntryPrepare.entryLocation typeId with
    | (none, a'') =>
      a''.clearEntry.write (.output "console"
        "stopOnEntry skipped: no line info for the main method (compiled without -g)\n")
    | (some location, a'') =>
      match a''.call (Debuggee.eventRequestSet .breakpoint .all
          [.locationOnly location, .count 1]) with
      | (.ok id, b) =>
        { b with session :=
          { b.session with
            entry := b.session.entry.map (fun entry =>
              { entry with bpRequestId := some id }) } }
      | (.error _, b) => b.clearEntry
  else a

def prepareOwner (a : Adapter) (requestId : RequestId) : Option String :=
  (a.session.files.entries.find? (fun file =>
    file.2.prepareRequestIds.contains requestId)).map Sigma.fst

/-- A prepared class binds the breakpoints of the file that asked for it. -/
def onClassPrepare (a : Adapter) (requestId : RequestId) (typeId : ClassId) : Adapter :=
  if a.session.entry.any (fun entry => entry.prepareRequestId == requestId) then
    a.armEntryBreakpoint typeId
  else
    match a.prepareOwner requestId with
    | none => a
    | some path =>
      let bound := a.bindLinesInClass path typeId
      match bound.2.session.files.lookup path with
      | none => bound.2
      | some file =>
        ((file.bps.filter (fun bp => bound.1.contains bp.id)).map breakpointJson).foldl
          (fun b info => b.write (.breakpointChanged info)) bound.2

/-- One event of a composite, and whether the composite is still to be resumed. -/
def onEvent (a : Adapter) (autoResume : Bool) : Event -> Bool × Adapter
  | .vmStart =>
    (autoResume, { a with session := { a.session with vmStartPending := true } })
  | .classPrepare requestId typeId => (autoResume, a.onClassPrepare requestId typeId)
  | .breakpoint requestId thread =>
    if a.session.entry.any (fun entry => entry.bpRequestId == some requestId) then
      (false, a.clearEntry.onStop thread .entry)
    else (false, a.onStop thread .breakpoint)
  | .singleStep requestId thread =>
    let a' :=
      if requestId ∈ a.session.stepRequestIds then
        let b := { a with session :=
          { a.session with stepRequestIds := a.session.stepRequestIds.erase requestId } }
        if b.session.connected then
          (b.call (Debuggee.eventRequestClear .singleStep requestId)).2
        else b
      else a
    (false, a'.onStop thread .step)
  | .exception thread exception catchLocation =>
    let a' := { a with session :=
      { a.session with
        lastException :=
          a.session.lastException.insert thread (exception, catchLocation.isSome) } }
    (false, a'.onStop thread .exception)
  | .vmDeath => (false, a.sendTerminated)

def onEvents : List Event -> Bool -> Adapter -> Bool × Adapter
  | [], autoResume, a => (autoResume, a)
  | event :: rest, autoResume, a =>
    onEvents rest (a.onEvent autoResume event).1 (a.onEvent autoResume event).2

/-- A suspension of the whole machine that the session counts: not VM_START's. -/
def counted (set : EventSet) : Bool :=
  set.suspendPolicy == .all && !set.events.contains .vmStart

def autoResume (a : Adapter) : Adapter :=
  if a.session.connected then
    match a.call Debuggee.resume with
    | (.ok _, a') => a'.setSuspendDepth (a'.session.suspendDepth - 1)
    | (.error _, a') => a'
  else a

def handleEventSet (a : Adapter) (set : EventSet) : Adapter :=
  let a' := if counted set then a.setSuspendDepth (a.session.suspendDepth + 1) else a
  let handled := onEvents set.events (counted set) a'
  if handled.1 then handled.2.autoResume else handled.2

/-!
# The event loop
-/

inductive Inbound where
  | request (request : Request)
  | jdwpEvent (composite : Except String EventSet)
  | jdwpClosed
deriving DecidableEq

def dispatch (fqcnForSource : String -> Option String) (a : Adapter) :
    Request -> Except String Body × Adapter
  | .setBreakpoints args => a.setBreakpoints fqcnForSource args
  | .setExceptionBreakpoints args => a.setExceptionBreakpoints args
  | .configurationDone => a.configurationDone
  | .continueAll => a.continueAll
  | .step depth args => a.step depth args
  | .pause args => a.pause args

def handleRequest (fqcnForSource : String -> Option String) (a : Adapter)
    (request : Request) : Adapter :=
  (a.dispatch fqcnForSource request).2.write
    (.response request (a.dispatch fqcnForSource request).1)

def handle (fqcnForSource : String -> Option String) (a : Adapter) : Inbound -> Adapter
  | .request request => a.handleRequest fqcnForSource request
  | .jdwpEvent composite =>
    if a.session.connected then
      match composite with
      | .ok set => a.handleEventSet set
      | .error _ => a.sendTerminated
    else a
  | .jdwpClosed =>
    { a with session := { a.session with connected := false } }.sendTerminated

end Adapter

end Debug
end JavaVsixLite
