import JavaVsixLite.Server.Handlers

/-!
# Stored javac results and the buffers they decorate

A javac run compiles the files on disk.  It takes the versions of the open
documents and the provider generation when it starts; when it ends, it is
dropped as a whole if the generation has moved on, and for a document whose
version has.  Nothing compares the buffers with the files.
-/

namespace JavaVsixLite
namespace Server

open Foundation Documents

variable {Uri Classpath Project Diag Fingerprint : Type} [DecidableEq Uri]

def Task.passed : Task Uri Classpath Diag -> Option (JavacRun Uri × Table Uri (JavacResult Diag))
  | .storing run results => some (run, results)
  | .storingWith run results _ => some (run, results)
  | _ => none

/-- The steps that keep stored results and buffers together: a file that javac
reads is the buffer of its document, unless the document has been edited since
the run started; edits raise the version; a document is opened once at a time,
with the text of the results that are stored, or about to be stored, for it;
the build file with a notice on it is not open. -/
def KeepsResults (s : Backend Uri Classpath Project Diag) :
    Action Uri Classpath Project Diag -> Prop
  | .openDocument uri version text =>
    s.documents.lookup uri = none ∧
    (forall result, s.javacDiagnostics.lookup uri = some result ->
      result.compiled = some text) ∧
    forall task, task ∈ s.tasks -> forall run results, task.passed = some (run, results) ->
      forall recorded result, run.startVersions uri = some recorded ->
        results.lookup uri = some result ->
        recorded ≤ version ∧ (recorded = version -> result.compiled = some text)
  | .didChange uri version _ =>
    forall doc, s.documents.lookup uri = some doc -> doc.version < version
  | .readFile i uri =>
    forall run doc, s.tasks[i]? = some (.compiling run) -> s.documents.lookup uri = some doc ->
      run.startVersions uri = some doc.version -> s.disk uri = some doc.text
  | .jdkTooOld _ buildFile _ => s.documents.lookup buildFile = none
  | _ => True

/-!
# The invariant
-/

/-- A run whose generation is current has all its documents open, and has read
their buffers as far as they are still at the recorded version. -/
def CompilingMatches (docs : Table Uri Document) (generation : Nat) (run : JavacRun Uri) : Prop :=
  run.startGeneration ≤ generation ∧
  (run.startGeneration = generation -> forall uri recorded, run.startVersions uri = some recorded ->
    exists doc, docs.lookup uri = some doc ∧ recorded ≤ doc.version ∧
      (recorded = doc.version -> forall text, run.compiled uri = some text -> text = doc.text))

def StoringMatches (docs : Table Uri Document) (run : JavacRun Uri)
    (results : Table Uri (JavacResult Diag)) : Prop :=
  forall uri recorded doc result, run.startVersions uri = some recorded ->
    docs.lookup uri = some doc -> results.lookup uri = some result ->
    recorded ≤ doc.version ∧ (recorded = doc.version -> result.compiled = some doc.text)

def TaskMatches (docs : Table Uri Document) (generation : Nat) :
    Task Uri Classpath Diag -> Prop
  | .compiling run => CompilingMatches docs generation run
  | .storing run results => StoringMatches docs run results
  | .storingWith run results _ => StoringMatches docs run results
  | _ => True

structure ResultsMatch (s : Backend Uri Classpath Project Diag) : Prop where
  stored : forall uri doc result, s.documents.lookup uri = some doc ->
    s.javacDiagnostics.lookup uri = some result -> result.compiled = some doc.text
  tasks : forall task, task ∈ s.tasks -> TaskMatches s.documents s.providerGeneration task

variable {docs : Table Uri Document} {generation : Nat} {task : Task Uri Classpath Diag} {uri : Uri}
  {s : Backend Uri Classpath Project Diag}

theorem taskMatches_of {docs' : Table Uri Document} {generation' : Nat}
    (hcompiling : forall run, task = .compiling run -> CompilingMatches docs generation run ->
      CompilingMatches docs' generation' run)
    (hstoring : forall run results, task.passed = some (run, results) ->
      StoringMatches docs run results -> StoringMatches docs' run results)
    (h : TaskMatches docs generation task) : TaskMatches docs' generation' task := by
  cases task with
  | compiling run => exact hcompiling run rfl h
  | storing run results => exact hstoring run results rfl h
  | storingWith run results classpath => exact hstoring run results rfl h
  | _ => trivial

theorem taskMatches_bump (h : TaskMatches docs generation task) :
    TaskMatches docs (generation + 1) task := by
  apply taskMatches_of _ _ h
  · intro run _ hrun
    have hle := hrun.1
    exact ⟨by omega, by omega⟩
  · intro run results _ hrun
    exact hrun

theorem taskMatches_insert {doc : Document}
    (hcompiling : forall run : JavacRun Uri, forall recorded found, docs.lookup uri = some found ->
      recorded ≤ found.version -> recorded ≤ doc.version ∧
      (recorded = doc.version -> forall text, run.compiled uri = some text -> text = doc.text))
    (hstoring : forall run results, task.passed = some (run, results) ->
      StoringMatches docs run results -> forall recorded result,
      run.startVersions uri = some recorded -> results.lookup uri = some result ->
      recorded ≤ doc.version ∧ (recorded = doc.version -> result.compiled = some doc.text))
    (h : TaskMatches docs generation task) :
    TaskMatches (docs.insert uri doc) generation task := by
  apply taskMatches_of _ _ h
  · intro run _ hrun
    refine ⟨hrun.1, ?_⟩
    intro hgeneration other recorded hrecorded
    rcases hrun.2 hgeneration other recorded hrecorded with ⟨found, hfound, hle, htext⟩
    by_cases hother : other = uri
    · subst hother
      exact ⟨doc, AList.lookup_insert docs, hcompiling run recorded found hfound hle⟩
    · exact ⟨found, by rw [AList.lookup_insert_ne hother, hfound], hle, htext⟩
  · intro run results hpassed hrun other recorded found result hrecorded hfound hresult
    by_cases hother : other = uri
    · subst hother
      rw [AList.lookup_insert] at hfound
      cases hfound
      exact hstoring run results hpassed hrun recorded result hrecorded hresult
    · rw [AList.lookup_insert_ne hother] at hfound
      exact hrun other recorded found result hrecorded hfound hresult

theorem taskMatches_edit {doc : Document} {version : Int} {text : Text}
    (hdoc : docs.lookup uri = some doc) (hversion : doc.version < version)
    (h : TaskMatches docs generation task) :
    TaskMatches (docs.insert uri { text := text, version := version }) generation task := by
  -- What a task recorded is older than the edit, so no text has to agree.
  have holder : forall {recorded : Int} {P : Prop}, recorded ≤ doc.version ->
      recorded ≤ version ∧ (recorded = version -> P) := by
    intro recorded P hle
    constructor
    · omega
    · intro heq
      omega
  apply taskMatches_insert _ _ h
  · intro run recorded found hfound hle
    rw [hdoc] at hfound
    cases hfound
    exact holder hle
  · intro run results _ hrun recorded result hrecorded hresult
    exact holder (hrun uri recorded doc result hrecorded hdoc hresult).1

theorem taskMatches_close (uri : Uri) (h : TaskMatches docs generation task) :
    TaskMatches (docs.erase uri) (generation + 1) task := by
  apply taskMatches_of _ _ h
  · intro run _ hrun
    have hle := hrun.1
    exact ⟨by omega, by omega⟩
  · intro run results _ hrun other recorded found result hrecorded hfound hresult
    by_cases hother : other = uri
    · subst hother
      rw [AList.lookup_erase] at hfound
      cases hfound
    · rw [AList.lookup_erase_ne hother] at hfound
      exact hrun other recorded found result hrecorded hfound hresult

theorem taskMatches_open {version : Int} {text : Text} (hclosed : docs.lookup uri = none)
    (hpassed : forall run results, task.passed = some (run, results) -> forall recorded result,
      run.startVersions uri = some recorded -> results.lookup uri = some result ->
      recorded ≤ version ∧ (recorded = version -> result.compiled = some text))
    (h : TaskMatches docs generation task) :
    TaskMatches (docs.insert uri { text := text, version := version }) generation task := by
  apply taskMatches_insert _ _ h
  · intro run recorded found hfound _
    rw [hclosed] at hfound
    cases hfound
  · intro run results hfinished _
    exact hpassed run results hfinished

/-!
# Steps
-/

/-- A segment that leaves the documents alone, stores nothing new, and moves on
to tasks that match. -/
theorem ResultsMatch.frame {t : Backend Uri Classpath Project Diag} (h : ResultsMatch s)
    (hdocs : t.documents = s.documents) (hgeneration : t.providerGeneration = s.providerGeneration)
    (hjavac : forall uri result, t.javacDiagnostics.lookup uri = some result ->
      s.javacDiagnostics.lookup uri = some result)
    (htasks : forall task, task ∈ t.tasks -> task ∈ s.tasks ∨
      TaskMatches s.documents s.providerGeneration task) :
    ResultsMatch t where
  stored := by
    intro uri doc result hdoc hresult
    rw [hdocs] at hdoc
    exact h.stored uri doc result hdoc (hjavac uri result hresult)
  tasks := by
    intro task hmem
    rw [hdocs, hgeneration]
    rcases htasks task hmem with hold | hnew
    · exact h.tasks task hold
    · exact hnew

theorem ResultsMatch.move {u : Backend Uri Classpath Project Diag} (h : ResultsMatch s) {i : Nat}
    (hdocs : u.documents = s.documents) (hgeneration : u.providerGeneration = s.providerGeneration)
    (hjavac : u.javacDiagnostics = s.javacDiagnostics) (htasks : u.tasks = s.tasks)
    (hmatch : TaskMatches s.documents s.providerGeneration task) :
    ResultsMatch (u.moveTo i task) := by
  apply h.frame
  · exact hdocs
  · exact hgeneration
  · intro uri result hresult
    rw [← hjavac]
    exact hresult
  · intro other hother
    have hset : other ∈ s.tasks.set i task := by
      rw [← htasks]
      exact hother
    rcases List.mem_or_eq_of_mem_set hset with hold | hnew
    · exact Or.inl hold
    · rw [hnew]
      exact Or.inr hmatch

theorem ResultsMatch.spawn {s u : Backend Uri Classpath Project Diag} (h : ResultsMatch s)
    {task : Task Uri Classpath Diag} (hdocs : u.documents = s.documents)
    (hgeneration : u.providerGeneration = s.providerGeneration)
    (hjavac : u.javacDiagnostics = s.javacDiagnostics) (htasks : u.tasks = s.tasks)
    (hmatch : TaskMatches s.documents s.providerGeneration task) :
    ResultsMatch (u.spawn task) := by
  apply h.frame
  · exact hdocs
  · exact hgeneration
  · intro uri result hresult
    rw [← hjavac]
    exact hresult
  · intro other hother
    have happend : other ∈ s.tasks ++ [task] := by
      rw [← htasks]
      exact hother
    rcases List.mem_append.mp happend with hold | hnew
    · exact Or.inl hold
    · rw [List.mem_singleton.mp hnew]
      exact Or.inr hmatch

theorem ResultsMatch.openDocument {s : Backend Uri Classpath Project Diag} (h : ResultsMatch s)
    {uri : Uri} {version : Int} {text : Text}
    (hok : KeepsResults s (.openDocument uri version text)) :
    ResultsMatch (s.openDocument uri version text) := by
  obtain ⟨hclosed, hstored, hpassed⟩ := hok
  constructor
  · intro other doc result hdoc hresult
    by_cases hother : other = uri
    · subst hother
      rw [Backend.openDocument, Backend.spawn, Backend.bumpSemantic, AList.lookup_insert] at hdoc
      cases hdoc
      exact hstored result hresult
    · have hdoc' : s.documents.lookup other = some doc := by
        rw [← hdoc]
        exact (AList.lookup_insert_ne hother).symm
      exact h.stored other doc result hdoc' hresult
  · intro task hmem
    rcases List.mem_append.mp hmem with hold | hnew
    · exact taskMatches_open hclosed (hpassed task hold) (h.tasks task hold)
    · rw [List.mem_singleton.mp hnew]
      trivial

theorem ResultsMatch.edited {s : Backend Uri Classpath Project Diag} (h : ResultsMatch s)
    {uri : Uri} {doc : Document} {version : Int} {text : Text}
    (hdoc : s.documents.lookup uri = some doc) (hversion : doc.version < version) :
    ResultsMatch (s.edited uri version text) := by
  constructor
  · intro other found result hfound hresult
    by_cases hother : other = uri
    · subst hother
      rw [Backend.edited, Backend.bumpSemantic, AList.lookup_erase] at hresult
      cases hresult
    · have hfound' : s.documents.lookup other = some found := by
        rw [← hfound]
        exact (AList.lookup_insert_ne hother).symm
      have hresult' : s.javacDiagnostics.lookup other = some result := by
        rw [← hresult]
        exact (AList.lookup_erase_ne hother).symm
      exact h.stored other found result hfound' hresult'
  · intro task hmem
    exact taskMatches_edit hdoc hversion (h.tasks task hmem)

theorem ResultsMatch.bumpProvider {s : Backend Uri Classpath Project Diag} (h : ResultsMatch s) :
    ResultsMatch s.bumpProvider where
  stored := h.stored
  tasks := fun task hmem => taskMatches_bump (h.tasks task hmem)

theorem ResultsMatch.bumpSemantic {s : Backend Uri Classpath Project Diag} (h : ResultsMatch s) :
    ResultsMatch s.bumpSemantic where
  stored := h.stored
  tasks := h.tasks

theorem ResultsMatch.didClose {s : Backend Uri Classpath Project Diag}
    (A : Analysis Uri Classpath Project Diag Fingerprint) (h : ResultsMatch s) (uri : Uri) :
    ResultsMatch (s.didClose A uri) := by
  constructor
  · intro other doc result hdoc hresult
    by_cases hother : other = uri
    · subst hother
      have hnone : (s.didClose A other).documents.lookup other = none :=
        AList.lookup_erase other s.documents
      rw [hnone] at hdoc
      cases hdoc
    · have hdoc' : s.documents.lookup other = some doc := by
        rw [← hdoc]
        exact (AList.lookup_erase_ne hother).symm
      exact h.stored other doc result hdoc' hresult
  · intro task hmem
    rcases List.mem_append.mp hmem with hold | hnew
    · exact taskMatches_close uri (h.tasks task hold)
    · rw [List.mem_singleton.mp hnew]
      trivial

theorem ResultsMatch.takeSnapshot {s : Backend Uri Classpath Project Diag}
    (A : Analysis Uri Classpath Project Diag Fingerprint) (h : ResultsMatch s) (i : Nat)
    (stale : StaleJavac) (classpath : Classpath) (order : List Uri) :
    ResultsMatch (s.takeSnapshot A i stale classpath order) := by
  apply h.frame
  · cases stale <;> rfl
  · cases stale <;> rfl
  · intro uri result hresult
    cases stale with
    | none => exact hresult
    | allOpen => exact (Table.lookup_keep_eq_some_iff.mp hresult).1
  · intro task hmem
    have hset : task ∈ s.tasks.set i (.publishing s.semanticGeneration
        (order.map ((s.dropStale stale).snapshotOf A classpath s.computed))) := by
      cases stale <;> exact hmem
    rcases List.mem_or_eq_of_mem_set hset with hold | hnew
    · exact Or.inl hold
    · rw [hnew]
      exact Or.inr trivial

theorem compilingMatches_startRun (s : Backend Uri Classpath Project Diag)
    (scope : JavacCheckScope Uri) :
    CompilingMatches s.documents s.providerGeneration (s.startRun scope) := by
  constructor
  · exact Nat.le_refl _
  · intro _ uri recorded hrecorded
    have hversions : (s.documents.lookup uri).map Document.version = some recorded := hrecorded
    cases hdoc : s.documents.lookup uri with
    | none =>
      rw [hdoc] at hversions
      cases hversions
    | some doc =>
      rw [hdoc] at hversions
      cases hversions
      refine ⟨doc, rfl, Int.le_refl _, ?_⟩
      intro _ text htext
      cases htext

theorem compilingMatches_readFile {run : JavacRun Uri}
    (h : CompilingMatches s.documents s.providerGeneration run)
    (hok : forall doc, s.documents.lookup uri = some doc ->
      run.startVersions uri = some doc.version -> s.disk uri = some doc.text) :
    CompilingMatches s.documents s.providerGeneration
      { run with compiled := Function.update run.compiled uri (s.disk uri) } := by
  refine ⟨h.1, ?_⟩
  intro hgeneration other recorded hrecorded
  rcases h.2 hgeneration other recorded hrecorded with ⟨doc, hdoc, hle, htext⟩
  refine ⟨doc, hdoc, hle, ?_⟩
  intro heq text hcompiled
  by_cases hother : other = uri
  · subst hother
    subst heq
    simp only [Function.update_self] at hcompiled
    rw [hok doc hdoc hrecorded] at hcompiled
    exact (Option.some.inj hcompiled).symm
  · simp only [Function.update_of_ne hother] at hcompiled
    exact htext heq text hcompiled

theorem storingMatches_completed {run : JavacRun Uri} {results : Table Uri (JavacResult Diag)}
    (h : CompilingMatches s.documents s.providerGeneration run)
    (hread : reportsRead run results = true)
    (hgeneration : s.providerGeneration = run.startGeneration) :
    StoringMatches s.documents run results := by
  intro uri recorded doc result hrecorded hdoc hresult
  rcases h.2 hgeneration.symm uri recorded hrecorded with ⟨found, hfound, hle, htext⟩
  rw [hdoc] at hfound
  cases hfound
  refine ⟨hle, ?_⟩
  intro heq
  have hentry := List.all_eq_true.mp hread _ (Table.lookup_eq_some_iff.mp hresult)
  simp only [Bool.and_eq_true, decide_eq_true_eq] at hentry
  obtain ⟨hsome, hcompiled⟩ := hentry
  obtain ⟨text, hresultText⟩ := Option.isSome_iff_exists.mp hsome
  rw [hresultText] at hcompiled
  rw [hresultText, htext heq text hcompiled]

theorem storingMatches_notice {buildFile : Uri} {notice : Diag}
    (hclosed : s.documents.lookup buildFile = none) :
    StoringMatches s.documents (s.startRun .project)
      (AList.singleton buildFile { diagnostics := notice, compiled := none }) := by
  intro uri recorded doc result _ hdoc hresult
  have hmem := Table.lookup_eq_some_iff.mp hresult
  simp only [AList.singleton_entries, List.mem_singleton, Sigma.mk.injEq] at hmem
  rw [hmem.1, hclosed] at hdoc
  cases hdoc

theorem ResultsMatch.store {s : Backend Uri Classpath Project Diag}
    (A : Analysis Uri Classpath Project Diag Fingerprint) (h : ResultsMatch s) {i : Nat}
    {run : JavacRun Uri} {results : Table Uri (JavacResult Diag)} (classpath : Classpath)
    (order : List Uri) (hstoring : StoringMatches s.documents run results) :
    ResultsMatch (s.store A i run results classpath order) := by
  constructor
  · intro uri doc result hdoc hresult
    have hdoc' : s.documents.lookup uri = some doc := hdoc
    have hunion : (s.currentResults run results ∪ s.otherResults run.scope).lookup uri =
        some result := hresult
    rcases AList.mem_lookup_union.mp hunion with hcurrent | ⟨_, hother⟩
    · rcases Table.lookup_keep_eq_some_iff.mp hcurrent with ⟨hreported, hversion⟩
      rw [hdoc'] at hversion
      have hrecorded := of_decide_eq_true hversion
      exact (hstoring uri doc.version doc result hrecorded hdoc' hreported).2 rfl
    · have hold : s.javacDiagnostics.lookup uri = some result := by
        unfold Backend.otherResults at hother
        cases hscope : run.scope with
        | project =>
          rw [hscope] at hother
          cases hother
        | modules under =>
          rw [hscope] at hother
          exact (Table.lookup_keep_eq_some_iff.mp hother).1
      exact h.stored uri doc result hdoc' hold
  · intro task hmem
    rcases List.mem_or_eq_of_mem_set hmem with hold | hnew
    · exact h.tasks task hold
    · rw [hnew]
      trivial

theorem ResultsMatch.step [DecidableEq Fingerprint]
    (A : Analysis Uri Classpath Project Diag Fingerprint)
    (s : Backend Uri Classpath Project Diag) (a : Action Uri Classpath Project Diag)
    (t : Backend Uri Classpath Project Diag) (h : ResultsMatch s) (hok : KeepsResults s a)
    (hstep : step A s a = some t) : ResultsMatch t := by
  have htask : forall {i : Nat} {task : Task Uri Classpath Diag}, s.tasks[i]? = some task ->
      TaskMatches s.documents s.providerGeneration task := by
    intro i task hget
    exact h.tasks task (List.mem_of_getElem? hget)
  cases step_segment A hstep with
  | openDocument uri version text => exact h.openDocument hok
  | changeUnopened hdoc => exact h
  | changeBody hdoc htext hsame =>
    exact (h.edited hdoc (hok _ hdoc)).spawn rfl rfl rfl rfl trivial
  | changeDeclarations hdoc htext hchanged =>
    exact (h.edited hdoc (hok _ hdoc)).bumpProvider.spawn rfl rfl rfl rfl trivial
  | didClose uri => exact h.didClose A uri
  | didSave project => exact ⟨h.stored, h.tasks⟩
  | onJavaSourceEvents events => exact h.spawn rfl rfl rfl rfl trivial
  | installClasspath classpath => exact h.spawn rfl rfl rfl rfl trivial
  | checkBusy scope => exact h
  | checkProject scope => exact h.spawn rfl rfl rfl rfl trivial
  | writeFile uri text => exact ⟨h.stored, h.tasks⟩
  | fastPath hget => exact h.move rfl rfl rfl rfl trivial
  | ownResult hget => exact h.move rfl rfl rfl rfl trivial
  | refresh hget => exact h.move rfl rfl rfl rfl trivial
  | refreshed hget => exact h.move rfl rfl rfl rfl trivial
  | publish hget hgeneration => exact h.move rfl rfl rfl rfl trivial
  | abort hget hgeneration => exact h.move rfl rfl rfl rfl trivial
  | sent hget => exact h.move rfl rfl rfl rfl trivial
  | closed hget => exact h.move rfl rfl rfl rfl trivial
  | eventsAccepted hget => exact h.bumpSemantic.bumpProvider.move rfl rfl rfl rfl trivial
  | eventsIgnored hget => exact h.move rfl rfl rfl rfl trivial
  | startRun hget => exact h.move rfl rfl rfl rfl (compilingMatches_startRun s _)
  | storing hget =>
    have hstoring := htask hget
    exact h.move rfl rfl rfl rfl hstoring
  | javacDone hget => exact h.move rfl rfl rfl rfl trivial
  | javacSent hget => exact h.move rfl rfl rfl rfl trivial
  | snapshot hget horder => exact h.takeSnapshot A _ _ _ _
  | eventOpen hget => exact h.move rfl rfl rfl rfl trivial
  | eventEvicts hget => exact h.move rfl rfl rfl rfl trivial
  | readFile hget =>
    have hcompiling := htask hget
    exact h.move rfl rfl rfl rfl
      (compilingMatches_readFile hcompiling (fun doc hdoc => hok _ doc hget hdoc))
  | completedStale hget => exact h.move rfl rfl rfl rfl trivial
  | completedOutside hget => exact h.move rfl rfl rfl rfl trivial
  | completed hget hread hgeneration =>
    have hcompiling := htask hget
    exact h.move rfl rfl rfl rfl (storingMatches_completed hcompiling hread hgeneration)
  | terminalStarting hget => exact h.move rfl rfl rfl rfl trivial
  | terminalCompiling hget => exact h.move rfl rfl rfl rfl trivial
  | jdkTooOld hget => exact h.move rfl rfl rfl rfl (storingMatches_notice hok)
  | storeResults hget horder =>
    have hstoring := htask hget
    exact h.store A _ _ hstoring

theorem resultsMatch_start (classpath : Classpath) (project : Project)
    (disk : Uri -> Option Text) :
    ResultsMatch (Backend.start classpath project disk : Backend Uri Classpath Project Diag) where
  stored := by
    intro uri doc result hdoc
    cases hdoc
  tasks := by
    intro task hmem
    cases hmem

/-!
# Every reachable state
-/

/-- In a run whose steps keep results and buffers together, every stored javac
result of an open document was compiled from the text of its buffer. -/
theorem javac_results_match_buffers [DecidableEq Fingerprint]
    (A : Analysis Uri Classpath Project Diag Fingerprint) (classpath : Classpath)
    (project : Project) (disk : Uri -> Option Text)
    (actions : List (Action Uri Classpath Project Diag))
    (s : Backend Uri Classpath Project Diag)
    (hok : Guarded (step A) KeepsResults (Backend.start classpath project disk) actions)
    (hrun : run (step A) (Backend.start classpath project disk) actions = some s)
    (uri : Uri) (doc : Document) (result : JavacResult Diag)
    (hdoc : s.documents.lookup uri = some doc)
    (hresult : s.javacDiagnostics.lookup uri = some result) :
    result.compiled = some doc.text := by
  have hinv := Run.guarded_invariant ResultsMatch (ResultsMatch.step A)
    (resultsMatch_start classpath project disk) hok hrun
  exact hinv.stored uri doc result hdoc hresult

namespace OneFile

/-- `class A{int x}` -/
def broken : Text := ['c', 'l', 'a', 's', 's', ' ', 'A', '\x7b', 'i', 'n', 't', ' ', 'x', '\x7d']

/-- `class A{int x;}` -/
def fixed : Text :=
  ['c', 'l', 'a', 's', 's', ' ', 'A', '\x7b', 'i', 'n', 't', ' ', 'x', ';', '\x7d']

def analysis : Analysis Unit Unit Unit (List String) Text where
  encoding := .utf16
  declarationFingerprint := fun text => text
  nativeDiagnostics := fun _ _ _ _ _ doc => if doc.text = broken then ["missing ;"] else []
  mergeJavacDiagnostics := fun native javac => native ++ javac
  noDiagnostics := []

def report : Table Unit (JavacResult (List String)) :=
  AList.singleton () { diagnostics := ["';' expected"], compiled := some broken }

/-- The check of the saved file, from its start to the stored results. -/
def check (i : Nat) : List (Action Unit Unit Unit (List String)) :=
  [ .checkProject .project,
    .proceed i,
    .readFile i (),
    .completed i report,
    .proceed i,
    .storeResults i [()] ]

def disk : Unit -> Option Text := fun _ => some broken

/-- The file is opened as it is on disk and checked. -/
theorem checked_as_saved :
    exists s doc result,
      run (step analysis) (Backend.start () () disk)
        (.openDocument () 1 broken :: check 1) = some s ∧
      s.documents.lookup () = some doc ∧
      s.javacDiagnostics.lookup () = some result ∧
      result.compiled = some doc.text := by
  refine ⟨_, _, _, rfl, rfl, rfl, ?_⟩
  refine javac_results_match_buffers analysis () () disk (.openDocument () 1 broken :: check 1) _
    ?_ rfl () _ _ rfl rfl
  have hopen : KeepsResults (Backend.start () () disk : Backend Unit Unit Unit (List String))
      (.openDocument () 1 broken) := by
    refine ⟨rfl, ?_, ?_⟩
    · intro result hresult
      cases hresult
    · intro task hmem
      cases hmem
  refine Run.guarded_step hopen rfl (Run.guarded_step trivial rfl (Run.guarded_step trivial rfl
    (Run.guarded_step ?_ rfl (Run.guarded_step trivial rfl (Run.guarded_step trivial rfl
    (Run.guarded_step trivial rfl trivial))))))
  intro run doc _ hdoc _
  cases hdoc
  rfl

/-- The missing semicolon is typed and not saved; the check then stores what
javac says of the file for the corrected buffer. -/
theorem check_of_unsaved_buffer :
    exists s doc result,
      run (step analysis) (Backend.start () () disk)
        ([.openDocument () 1 broken, .didChange () 2 [{ range := none, text := fixed }]] ++
          check 2) = some s ∧
      s.documents.lookup () = some doc ∧
      s.javacDiagnostics.lookup () = some result ∧
      doc.text = fixed ∧
      result.compiled = some broken ∧
      result.compiled ≠ some doc.text := by
  refine ⟨_, _, _, rfl, rfl, rfl, rfl, rfl, ?_⟩
  decide

end OneFile

end Server
end JavaVsixLite
