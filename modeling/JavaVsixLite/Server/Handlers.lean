import JavaVsixLite.Server.Backend
import JavaVsixLite.Foundation.Runs

/-!
# The handlers, segment by segment

A notification starts a handler and performs its first segment.  The later
segments are actions of their own, in any order with those of other handlers.
Orders that the source takes from hash maps are chosen by the action.
-/

namespace JavaVsixLite
namespace Server

open Foundation Documents

variable {Uri Classpath Project Diag Fingerprint : Type}

inductive Action (Uri Classpath Project Diag : Type) where
  | openDocument (uri : Uri) (version : Int) (text : Text)
  | didChange (uri : Uri) (version : Int) (changes : List ContentChange)
  | didClose (uri : Uri)
  /-- `project` is the view of the closed files after the eviction. -/
  | didSave (project : Project)
  | onJavaSourceEvents (events : List Uri)
  | installClasspath (classpath : Classpath)
  | checkProject (scope : JavacCheckScope Uri)
  /-- A file on disk changes. -/
  | writeFile (uri : Uri) (text : Text)
  /-- The next segment of a handler that has no choice. -/
  | proceed (task : Nat)
  | snapshot (task : Nat) (order : List Uri)
  | sourceEvent (task : Nat) (project : Project)
  | readFile (task : Nat) (uri : Uri)
  /-- javac has exited, with these diagnostics. -/
  | completed (task : Nat) (results : Table Uri (JavacResult Diag))
  /-- The check ends without diagnostics. -/
  | terminal (task : Nat)
  /-- The JDK is too old: a notice for the build file instead of a run. -/
  | jdkTooOld (task : Nat) (buildFile : Uri) (notice : Diag)
  | storeResults (task : Nat) (order : List Uri)

section Notifications

variable [DecidableEq Uri] [DecidableEq Fingerprint]
  (A : Analysis Uri Classpath Project Diag Fingerprint)

def Backend.openDocument (s : Backend Uri Classpath Project Diag) (uri : Uri) (version : Int)
    (text : Text) : Backend Uri Classpath Project Diag :=
  let inserted :=
    { s with documents := s.documents.insert uri { text := text, version := version } }
  inserted.bumpSemantic.spawn (.refresh .none)

/-- The loop of `did_change` over the changes of one notification. -/
def applyChanges (encoding : PositionEncoding) : Text -> List ContentChange -> Option Text
  | text, [] => some text
  | text, change :: rest =>
    match change.range with
    | some range =>
      match applyContentChange text encoding range change.text with
      | some applied => applyChanges encoding applied.newText rest
      | none => none
    | none => applyChanges encoding change.text rest

/-- What `did_change` does under the lock. -/
def Backend.edited (s : Backend Uri Classpath Project Diag) (uri : Uri) (version : Int)
    (text : Text) : Backend Uri Classpath Project Diag :=
  let changed :=
    { s with
      documents := s.documents.insert uri { text := text, version := version }
      javacDiagnostics := s.javacDiagnostics.erase uri }
  changed.bumpSemantic

def Backend.didChange (s : Backend Uri Classpath Project Diag) (uri : Uri) (version : Int)
    (changes : List ContentChange) : Option (Backend Uri Classpath Project Diag) :=
  match s.documents.lookup uri with
  | none => some s
  | some doc =>
    match applyChanges A.encoding doc.text changes with
    | none => none
    | some text =>
      if A.declarationFingerprint doc.text = A.declarationFingerprint text then
        some ((s.edited uri version text).spawn (.fastPath uri version))
      else
        some ((s.edited uri version text).bumpProvider.spawn (.refresh .allOpen))

def Backend.didClose (s : Backend Uri Classpath Project Diag) (uri : Uri) :
    Backend Uri Classpath Project Diag :=
  let cleared : Publication Uri Diag :=
    { uri := uri, diagnostics := A.noDiagnostics, version := none, number := s.computed }
  let closed := { s with documents := s.documents.erase uri, computed := s.computed + 1 }
  closed.bumpSemantic.bumpProvider.spawn (.closing cleared)

def Backend.didSave (s : Backend Uri Classpath Project Diag) (project : Project) :
    Backend Uri Classpath Project Diag :=
  { s with project := project }.bumpSemantic

def Backend.installClasspath (s : Backend Uri Classpath Project Diag) (classpath : Classpath) :
    Backend Uri Classpath Project Diag :=
  { s with classpath := classpath }.spawn (.refresh .none)

def Backend.checkProject (s : Backend Uri Classpath Project Diag) (scope : JavacCheckScope Uri) :
    Backend Uri Classpath Project Diag :=
  if s.javacRunning then s
  else { s with javacRunning := true }.spawn (.starting scope)

end Notifications

section Segments

variable [DecidableEq Uri] (A : Analysis Uri Classpath Project Diag Fingerprint)

def Backend.versions (s : Backend Uri Classpath Project Diag) (uri : Uri) : Option Int :=
  (s.documents.lookup uri).map Document.version

def Backend.startRun (s : Backend Uri Classpath Project Diag) (scope : JavacCheckScope Uri) :
    JavacRun Uri :=
  { scope := scope
    startVersions := s.versions
    startGeneration := s.providerGeneration
    compiled := fun _ => none }

def Backend.release (s : Backend Uri Classpath Project Diag) (i : Nat) :
    Backend Uri Classpath Project Diag :=
  { s with javacRunning := false }.moveTo i .done

def Backend.computeOwn (s : Backend Uri Classpath Project Diag) (i : Nat) (uri : Uri)
    (version : Int) : Backend Uri Classpath Project Diag :=
  let result : Publication Uri Diag :=
    { uri := uri
      diagnostics := s.computeDiagnostics A s.classpath uri
      version := some version
      number := s.computed }
  { s with computed := s.computed + 1 }.moveTo i (.ownResult result)

def Backend.proceed (s : Backend Uri Classpath Project Diag) (i : Nat) :
    Task Uri Classpath Diag -> Option (Backend Uri Classpath Project Diag)
  | .fastPath uri version => some (s.computeOwn A i uri version)
  | .ownResult publication => some ((s.deliver publication).moveTo i .done)
  | .refresh stale => some (s.moveTo i (.refreshWith stale s.classpath))
  | .publishing _ [] => some (s.moveTo i .done)
  | .publishing generation (publication :: rest) =>
    if s.semanticGeneration = generation then
      some (s.moveTo i (.sending publication generation rest))
    else some (s.moveTo i .done)
  | .sending publication generation rest =>
    some ((s.deliver publication).moveTo i (.publishing generation rest))
  | .closing publication => some ((s.deliver publication).moveTo i (.refresh .allOpen))
  | .sourceEvents [] true => some (s.bumpSemantic.bumpProvider.moveTo i (.refresh .allOpen))
  | .sourceEvents [] false => some (s.moveTo i .done)
  | .starting scope => some (s.moveTo i (.compiling (s.startRun scope)))
  | .storing run results => some (s.moveTo i (.storingWith run results s.classpath))
  | .javacResults [] => some (s.release i)
  | .javacResults (publication :: rest) =>
    some ((s.deliver publication).moveTo i (.javacResults rest))
  | _ => none

def Backend.dropStale (s : Backend Uri Classpath Project Diag) :
    StaleJavac -> Backend Uri Classpath Project Diag
  | .none => s
  | .allOpen =>
    { s with
      javacDiagnostics :=
        Table.keep (fun uri _ => (s.documents.lookup uri).isNone) s.javacDiagnostics }

def Backend.takeSnapshot (s : Backend Uri Classpath Project Diag) (i : Nat) (stale : StaleJavac)
    (classpath : Classpath) (order : List Uri) : Backend Uri Classpath Project Diag :=
  let dropped := s.dropStale stale
  { dropped with computed := s.computed + 1 }.moveTo i
    (.publishing s.semanticGeneration
      (order.map (dropped.snapshotOf A classpath s.computed)))

def Backend.sourceEvent (s : Backend Uri Classpath Project Diag) (i : Nat) (project : Project)
    (uri : Uri) (events : List Uri) (accepted : Bool) : Backend Uri Classpath Project Diag :=
  if (s.documents.lookup uri).isSome then s.moveTo i (.sourceEvents events accepted)
  else { s with project := project }.moveTo i (.sourceEvents events true)

def Backend.readFile (s : Backend Uri Classpath Project Diag) (i : Nat) (run : JavacRun Uri)
    (uri : Uri) : Backend Uri Classpath Project Diag :=
  s.moveTo i
    (.compiling { run with compiled := Function.update run.compiled uri (s.disk uri) })

def reportsRead (run : JavacRun Uri) (results : Table Uri (JavacResult Diag)) : Bool :=
  results.entries.all (fun entry =>
    entry.2.compiled.isSome && decide (run.compiled entry.1 = entry.2.compiled))

def reportsOutside (scope : JavacCheckScope Uri) (results : Table Uri (JavacResult Diag)) :
    Bool :=
  match scope with
  | .project => false
  | .modules under => results.keys.any (fun uri => !under uri)

def Backend.completed (s : Backend Uri Classpath Project Diag) (i : Nat) (run : JavacRun Uri)
    (results : Table Uri (JavacResult Diag)) : Backend Uri Classpath Project Diag :=
  if s.providerGeneration = run.startGeneration then
    if reportsOutside run.scope results then s.moveTo i (.starting .project)
    else s.moveTo i (.storing run results)
  else s.release i

/-- The results of documents that are still at the version of the start. -/
def Backend.currentResults (s : Backend Uri Classpath Project Diag) (run : JavacRun Uri)
    (results : Table Uri (JavacResult Diag)) : Table Uri (JavacResult Diag) :=
  Table.keep
    (fun uri _ =>
      match s.documents.lookup uri with
      | some doc => decide (run.startVersions uri = some doc.version)
      | none => true)
    results

def Backend.otherResults (s : Backend Uri Classpath Project Diag) :
    JavacCheckScope Uri -> Table Uri (JavacResult Diag)
  | .project => ∅
  | .modules under => Table.keep (fun uri _ => !under uri) s.javacDiagnostics

def Backend.replacedUris (s : Backend Uri Classpath Project Diag) :
    JavacCheckScope Uri -> List Uri
  | .project => s.javacDiagnostics.keys
  | .modules under => s.javacDiagnostics.keys.filter under

def Backend.store (s : Backend Uri Classpath Project Diag) (i : Nat) (run : JavacRun Uri)
    (results : Table Uri (JavacResult Diag)) (classpath : Classpath) (order : List Uri) :
    Backend Uri Classpath Project Diag :=
  let stored :=
    { s with javacDiagnostics := s.currentResults run results ∪ s.otherResults run.scope }
  { stored with computed := s.computed + 1 }.moveTo i
    (.javacResults (order.map (stored.snapshotOf A classpath s.computed)))

end Segments

/-!
# Steps
-/

section Step

variable [DecidableEq Uri] [DecidableEq Fingerprint]
  (A : Analysis Uri Classpath Project Diag Fingerprint)

def step (s : Backend Uri Classpath Project Diag) :
    Action Uri Classpath Project Diag -> Option (Backend Uri Classpath Project Diag)
  | .openDocument uri version text => some (s.openDocument uri version text)
  | .didChange uri version changes => s.didChange A uri version changes
  | .didClose uri => some (s.didClose A uri)
  | .didSave project => some (s.didSave project)
  | .onJavaSourceEvents events => some (s.spawn (.sourceEvents events false))
  | .installClasspath classpath => some (s.installClasspath classpath)
  | .checkProject scope => some (s.checkProject scope)
  | .writeFile uri text => some { s with disk := Function.update s.disk uri (some text) }
  | .proceed i =>
    match s.tasks[i]? with
    | some task => s.proceed A i task
    | none => none
  | .snapshot i order =>
    match s.tasks[i]? with
    | some (.refreshWith stale classpath) =>
      if order.Perm s.documents.keys then some (s.takeSnapshot A i stale classpath order)
      else none
    | _ => none
  | .sourceEvent i project =>
    match s.tasks[i]? with
    | some (.sourceEvents (uri :: events) accepted) =>
      some (s.sourceEvent i project uri events accepted)
    | _ => none
  | .readFile i uri =>
    match s.tasks[i]? with
    | some (.compiling run) => some (s.readFile i run uri)
    | _ => none
  | .completed i results =>
    match s.tasks[i]? with
    | some (.compiling run) =>
      if reportsRead run results then some (s.completed i run results) else none
    | _ => none
  | .terminal i =>
    match s.tasks[i]? with
    | some (.starting _) => some (s.release i)
    | some (.compiling _) => some (s.release i)
    | _ => none
  | .jdkTooOld i buildFile notice =>
    match s.tasks[i]? with
    | some (.compiling _) =>
      some (s.moveTo i
        (.storing (s.startRun .project)
          (AList.singleton buildFile { diagnostics := notice, compiled := none })))
    | _ => none
  | .storeResults i order =>
    match s.tasks[i]? with
    | some (.storingWith run results classpath) =>
      if order.Perm
          (s.replacedUris run.scope ∪ (s.currentResults run results).keys) then
        some (s.store A i run results classpath order)
      else none
    | _ => none

inductive Segment (s : Backend Uri Classpath Project Diag) :
    Action Uri Classpath Project Diag -> Backend Uri Classpath Project Diag -> Prop where
  | openDocument (uri version text) :
      Segment s (.openDocument uri version text) (s.openDocument uri version text)
  | changeUnopened {uri version changes} (hdoc : s.documents.lookup uri = none) :
      Segment s (.didChange uri version changes) s
  | changeBody {uri version changes doc text} (hdoc : s.documents.lookup uri = some doc)
      (htext : applyChanges A.encoding doc.text changes = some text)
      (hsame : A.declarationFingerprint doc.text = A.declarationFingerprint text) :
      Segment s (.didChange uri version changes)
        ((s.edited uri version text).spawn (.fastPath uri version))
  | changeDeclarations {uri version changes doc text} (hdoc : s.documents.lookup uri = some doc)
      (htext : applyChanges A.encoding doc.text changes = some text)
      (hchanged : A.declarationFingerprint doc.text ≠ A.declarationFingerprint text) :
      Segment s (.didChange uri version changes)
        ((s.edited uri version text).bumpProvider.spawn (.refresh .allOpen))
  | didClose (uri) : Segment s (.didClose uri) (s.didClose A uri)
  | didSave (project) : Segment s (.didSave project) (s.didSave project)
  | onJavaSourceEvents (events) :
      Segment s (.onJavaSourceEvents events) (s.spawn (.sourceEvents events false))
  | installClasspath (classpath) :
      Segment s (.installClasspath classpath) (s.installClasspath classpath)
  | checkBusy (scope) : Segment s (.checkProject scope) s
  | checkProject (scope) :
      Segment s (.checkProject scope) ({ s with javacRunning := true }.spawn (.starting scope))
  | writeFile (uri text) :
      Segment s (.writeFile uri text) { s with disk := Function.update s.disk uri (some text) }
  | fastPath {i uri version} (htask : s.tasks[i]? = some (.fastPath uri version)) :
      Segment s (.proceed i) (s.computeOwn A i uri version)
  | ownResult {i publication} (htask : s.tasks[i]? = some (.ownResult publication)) :
      Segment s (.proceed i) ((s.deliver publication).moveTo i .done)
  | refresh {i stale} (htask : s.tasks[i]? = some (.refresh stale)) :
      Segment s (.proceed i) (s.moveTo i (.refreshWith stale s.classpath))
  | refreshed {i generation} (htask : s.tasks[i]? = some (.publishing generation [])) :
      Segment s (.proceed i) (s.moveTo i .done)
  | publish {i generation publication rest}
      (htask : s.tasks[i]? = some (.publishing generation (publication :: rest)))
      (hgeneration : s.semanticGeneration = generation) :
      Segment s (.proceed i) (s.moveTo i (.sending publication generation rest))
  | abort {i generation publication rest}
      (htask : s.tasks[i]? = some (.publishing generation (publication :: rest)))
      (hgeneration : s.semanticGeneration ≠ generation) :
      Segment s (.proceed i) (s.moveTo i .done)
  | sent {i publication generation rest}
      (htask : s.tasks[i]? = some (.sending publication generation rest)) :
      Segment s (.proceed i) ((s.deliver publication).moveTo i (.publishing generation rest))
  | closed {i publication} (htask : s.tasks[i]? = some (.closing publication)) :
      Segment s (.proceed i) ((s.deliver publication).moveTo i (.refresh .allOpen))
  | eventsAccepted {i} (htask : s.tasks[i]? = some (.sourceEvents [] true)) :
      Segment s (.proceed i) (s.bumpSemantic.bumpProvider.moveTo i (.refresh .allOpen))
  | eventsIgnored {i} (htask : s.tasks[i]? = some (.sourceEvents [] false)) :
      Segment s (.proceed i) (s.moveTo i .done)
  | startRun {i scope} (htask : s.tasks[i]? = some (.starting scope)) :
      Segment s (.proceed i) (s.moveTo i (.compiling (s.startRun scope)))
  | storing {i run results} (htask : s.tasks[i]? = some (.storing run results)) :
      Segment s (.proceed i) (s.moveTo i (.storingWith run results s.classpath))
  | javacDone {i} (htask : s.tasks[i]? = some (.javacResults [])) :
      Segment s (.proceed i) (s.release i)
  | javacSent {i publication rest}
      (htask : s.tasks[i]? = some (.javacResults (publication :: rest))) :
      Segment s (.proceed i) ((s.deliver publication).moveTo i (.javacResults rest))
  | snapshot {i stale classpath order}
      (htask : s.tasks[i]? = some (.refreshWith stale classpath))
      (horder : order.Perm s.documents.keys) :
      Segment s (.snapshot i order) (s.takeSnapshot A i stale classpath order)
  | eventOpen {i project uri events accepted}
      (htask : s.tasks[i]? = some (.sourceEvents (uri :: events) accepted)) :
      Segment s (.sourceEvent i project) (s.moveTo i (.sourceEvents events accepted))
  | eventEvicts {i project uri events accepted}
      (htask : s.tasks[i]? = some (.sourceEvents (uri :: events) accepted)) :
      Segment s (.sourceEvent i project)
        ({ s with project := project }.moveTo i (.sourceEvents events true))
  | readFile {i run uri} (htask : s.tasks[i]? = some (.compiling run)) :
      Segment s (.readFile i uri) (s.readFile i run uri)
  | completedStale {i run results} (htask : s.tasks[i]? = some (.compiling run)) :
      Segment s (.completed i results) (s.release i)
  | completedOutside {i run results} (htask : s.tasks[i]? = some (.compiling run)) :
      Segment s (.completed i results) (s.moveTo i (.starting .project))
  | completed {i run results} (htask : s.tasks[i]? = some (.compiling run))
      (hread : reportsRead run results = true)
      (hgeneration : s.providerGeneration = run.startGeneration) :
      Segment s (.completed i results) (s.moveTo i (.storing run results))
  | terminalStarting {i scope} (htask : s.tasks[i]? = some (.starting scope)) :
      Segment s (.terminal i) (s.release i)
  | terminalCompiling {i run} (htask : s.tasks[i]? = some (.compiling run)) :
      Segment s (.terminal i) (s.release i)
  | jdkTooOld {i run buildFile notice} (htask : s.tasks[i]? = some (.compiling run)) :
      Segment s (.jdkTooOld i buildFile notice)
        (s.moveTo i
          (.storing (s.startRun .project)
            (AList.singleton buildFile { diagnostics := notice, compiled := none })))
  | storeResults {i run results classpath order}
      (htask : s.tasks[i]? = some (.storingWith run results classpath))
      (horder : order.Perm (s.replacedUris run.scope ∪ (s.currentResults run results).keys)) :
      Segment s (.storeResults i order) (s.store A i run results classpath order)

theorem didChange_segment {s t : Backend Uri Classpath Project Diag} {uri : Uri} {version : Int}
    {changes : List ContentChange} (h : s.didChange A uri version changes = some t) :
    Segment A s (.didChange uri version changes) t := by
  unfold Backend.didChange at h
  cases hdoc : s.documents.lookup uri with
  | none =>
    rw [hdoc] at h
    cases h
    exact .changeUnopened hdoc
  | some doc =>
    rw [hdoc] at h
    simp only at h
    cases htext : applyChanges A.encoding doc.text changes with
    | none =>
      rw [htext] at h
      cases h
    | some text =>
      rw [htext] at h
      simp only at h
      by_cases hsame : A.declarationFingerprint doc.text = A.declarationFingerprint text
      · rw [if_pos hsame] at h
        cases h
        exact .changeBody hdoc htext hsame
      · rw [if_neg hsame] at h
        cases h
        exact .changeDeclarations hdoc htext hsame

omit [DecidableEq Fingerprint] in
theorem proceed_segment {s t : Backend Uri Classpath Project Diag} {i : Nat}
    {task : Task Uri Classpath Diag} (htask : s.tasks[i]? = some task)
    (h : s.proceed A i task = some t) : Segment A s (.proceed i) t := by
  unfold Backend.proceed at h
  split at h
  case h_1 => cases h; exact .fastPath htask
  case h_2 => cases h; exact .ownResult htask
  case h_3 => cases h; exact .refresh htask
  case h_4 => cases h; exact .refreshed htask
  case h_5 generation publication rest =>
    by_cases hgeneration : s.semanticGeneration = generation
    · rw [if_pos hgeneration] at h
      cases h
      exact .publish htask hgeneration
    · rw [if_neg hgeneration] at h
      cases h
      exact .abort htask hgeneration
  case h_6 => cases h; exact .sent htask
  case h_7 => cases h; exact .closed htask
  case h_8 => cases h; exact .eventsAccepted htask
  case h_9 => cases h; exact .eventsIgnored htask
  case h_10 => cases h; exact .startRun htask
  case h_11 => cases h; exact .storing htask
  case h_12 => cases h; exact .javacDone htask
  case h_13 => cases h; exact .javacSent htask
  case h_14 => cases h

omit [DecidableEq Fingerprint] in
theorem completed_segment {s : Backend Uri Classpath Project Diag} {i : Nat} {run : JavacRun Uri}
    {results : Table Uri (JavacResult Diag)} (htask : s.tasks[i]? = some (.compiling run))
    (hread : reportsRead run results = true) :
    Segment A s (.completed i results) (s.completed i run results) := by
  unfold Backend.completed
  by_cases hgeneration : s.providerGeneration = run.startGeneration
  · rw [if_pos hgeneration]
    by_cases houtside : reportsOutside run.scope results = true
    · rw [if_pos houtside]
      exact .completedOutside htask
    · rw [if_neg houtside]
      exact .completed htask hread hgeneration
  · rw [if_neg hgeneration]
    exact .completedStale htask

omit [DecidableEq Fingerprint] in
theorem sourceEvent_segment {s : Backend Uri Classpath Project Diag} {i : Nat} {project : Project}
    {uri : Uri} {events : List Uri} {accepted : Bool}
    (htask : s.tasks[i]? = some (.sourceEvents (uri :: events) accepted)) :
    Segment A s (.sourceEvent i project) (s.sourceEvent i project uri events accepted) := by
  unfold Backend.sourceEvent
  by_cases hopen : (s.documents.lookup uri).isSome = true
  · rw [if_pos hopen]
    exact .eventOpen htask
  · rw [if_neg hopen]
    exact .eventEvicts htask

theorem step_segment {s t : Backend Uri Classpath Project Diag}
    {a : Action Uri Classpath Project Diag} (h : step A s a = some t) : Segment A s a t := by
  cases a with
  | openDocument uri version text =>
    cases h
    exact .openDocument uri version text
  | didChange uri version changes => exact didChange_segment A h
  | didClose uri =>
    cases h
    exact .didClose uri
  | didSave project =>
    cases h
    exact .didSave project
  | onJavaSourceEvents events =>
    cases h
    exact .onJavaSourceEvents events
  | installClasspath classpath =>
    cases h
    exact .installClasspath classpath
  | checkProject scope =>
    have ht := Option.some.inj h
    rw [← ht]
    unfold Backend.checkProject
    cases s.javacRunning with
    | true => exact .checkBusy scope
    | false => exact .checkProject scope
  | writeFile uri text =>
    cases h
    exact .writeFile uri text
  | proceed i =>
    simp only [step] at h
    cases htask : s.tasks[i]? with
    | none =>
      rw [htask] at h
      cases h
    | some task =>
      rw [htask] at h
      exact proceed_segment A htask h
  | snapshot i order =>
    simp only [step] at h
    split at h
    case h_1 stale classpath htask =>
      by_cases horder : order.Perm s.documents.keys
      · rw [if_pos horder] at h
        cases h
        exact .snapshot htask horder
      · rw [if_neg horder] at h
        cases h
    case h_2 => cases h
  | sourceEvent i project =>
    simp only [step] at h
    split at h
    case h_1 uri events accepted htask =>
      cases h
      exact sourceEvent_segment A htask
    case h_2 => cases h
  | readFile i uri =>
    simp only [step] at h
    split at h
    case h_1 run htask =>
      cases h
      exact .readFile htask
    case h_2 => cases h
  | completed i results =>
    simp only [step] at h
    split at h
    case h_1 run htask =>
      by_cases hread : reportsRead run results = true
      · rw [if_pos hread] at h
        cases h
        exact completed_segment A htask hread
      · rw [if_neg hread] at h
        cases h
    case h_2 => cases h
  | terminal i =>
    simp only [step] at h
    split at h
    case h_1 scope htask =>
      cases h
      exact .terminalStarting htask
    case h_2 run htask =>
      cases h
      exact .terminalCompiling htask
    case h_3 => cases h
  | jdkTooOld i buildFile notice =>
    simp only [step] at h
    split at h
    case h_1 run htask =>
      cases h
      exact .jdkTooOld htask
    case h_2 => cases h
  | storeResults i order =>
    simp only [step] at h
    split at h
    case h_1 run results classpath htask =>
      by_cases horder : order.Perm
          (s.replacedUris run.scope ∪ (s.currentResults run results).keys)
      · rw [if_pos horder] at h
        cases h
        exact .storeResults htask horder
      · rw [if_neg horder] at h
        cases h
    case h_2 => cases h

end Step

end Server
end JavaVsixLite
