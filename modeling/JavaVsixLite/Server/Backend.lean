import JavaVsixLite.Documents.Edits
import JavaVsixLite.Foundation.Tables

/-!
# The state of the language server

The handlers of the server run concurrently and give way to each other at their
await points.  The state has what they share (the open documents, the stored
javac results, the classpath, the two generations), the handlers under way, each
at the await point it has reached, and the last publication the client got for
each document.

The classpath, what lookups of closed files answer, and the diagnostics are of
arbitrary types; the analysis of the syntax crate enters through the functions
the handlers call.
-/

namespace JavaVsixLite
namespace Server

open Foundation Documents

structure Document where
  text : Text
  version : Int

/-- The diagnostics of a javac run for one file.  `compiled` is the text that
the compiler read, `none` when nothing was compiled. -/
structure JavacResult (Diag : Type) where
  diagnostics : Diag
  compiled : Option Text

inductive StaleJavac where
  | none
  | allOpen

structure ContentChange where
  range : Option Range
  text : Text

/-- `number` counts the computations of diagnostics, in their order. -/
structure Publication (Uri Diag : Type) where
  uri : Uri
  diagnostics : Diag
  version : Option Int
  number : Nat

/-- A check of the whole project, or of the modules that `under` describes. -/
inductive JavacCheckScope (Uri : Type) where
  | project
  | modules (under : Uri -> Bool)

structure JavacRun (Uri : Type) where
  scope : JavacCheckScope Uri
  startVersions : Uri -> Option Int
  startGeneration : Nat
  compiled : Uri -> Option Text

/-- A handler at one of its await points. -/
inductive Task (Uri Classpath Diag : Type) where
  | done
  /-- `did_change` without a declaration change, before the second lock. -/
  | fastPath (uri : Uri) (version : Int)
  /-- Its result on the way to the client. -/
  | ownResult (publication : Publication Uri Diag)
  /-- `refresh_open_diagnostics` in `ensure_workspace_index`. -/
  | refresh (stale : StaleJavac)
  /-- With the classpath read, before the lock. -/
  | refreshWith (stale : StaleJavac) (classpath : Classpath)
  /-- Between two publications of its snapshot. -/
  | publishing (generation : Nat) (rest : List (Publication Uri Diag))
  /-- With a publication on the way to the client. -/
  | sending (publication : Publication Uri Diag) (generation : Nat)
      (rest : List (Publication Uri Diag))
  /-- `did_close` with its empty publication on the way. -/
  | closing (publication : Publication Uri Diag)
  /-- `on_java_source_events` before its next event. -/
  | sourceEvents (events : List Uri) (accepted : Bool)
  /-- A javac check before it takes the versions of the open documents. -/
  | starting (scope : JavacCheckScope Uri)
  | compiling (run : JavacRun Uri)
  /-- A run past its generation check, in `ensure_workspace_index`. -/
  | storing (run : JavacRun Uri) (results : Table Uri (JavacResult Diag))
  /-- With the classpath read, before the lock. -/
  | storingWith (run : JavacRun Uri) (results : Table Uri (JavacResult Diag))
      (classpath : Classpath)
  | javacResults (rest : List (Publication Uri Diag))

structure Backend (Uri Classpath Project Diag : Type) where
  documents : Table Uri Document
  javacDiagnostics : Table Uri (JavacResult Diag)
  classpath : Classpath
  /-- What the workspace index and the file cache say of closed files. -/
  project : Project
  semanticGeneration : Nat
  providerGeneration : Nat
  javacRunning : Bool
  disk : Uri -> Option Text
  tasks : List (Task Uri Classpath Diag)
  published : Uri -> Option (Publication Uri Diag)
  computed : Nat

/-- What the handlers call of the analysis.  Native diagnostics are computed
with the classpath read before the lock; the choice among import candidates
reads the installed one. -/
structure Analysis (Uri Classpath Project Diag Fingerprint : Type) where
  encoding : PositionEncoding
  declarationFingerprint : Text -> Fingerprint
  nativeDiagnostics : Table Uri Document -> Classpath -> Classpath -> Project -> Uri ->
    Document -> Diag
  mergeJavacDiagnostics : Diag -> Diag -> Diag
  noDiagnostics : Diag

variable {Uri Classpath Project Diag Fingerprint : Type}

section Compute

variable [DecidableEq Uri] (A : Analysis Uri Classpath Project Diag Fingerprint)

def Backend.nativeOf (s : Backend Uri Classpath Project Diag) (classpath : Classpath)
    (uri : Uri) : Diag :=
  match s.documents.lookup uri with
  | some doc => A.nativeDiagnostics s.documents classpath s.classpath s.project uri doc
  | none => A.noDiagnostics

def Backend.computeDiagnostics (s : Backend Uri Classpath Project Diag) (classpath : Classpath)
    (uri : Uri) : Diag :=
  match s.javacDiagnostics.lookup uri with
  | some result => A.mergeJavacDiagnostics (s.nativeOf A classpath uri) result.diagnostics
  | none => s.nativeOf A classpath uri

def Backend.snapshotOf (s : Backend Uri Classpath Project Diag) (classpath : Classpath)
    (number : Nat) (uri : Uri) : Publication Uri Diag :=
  { uri := uri
    diagnostics := s.computeDiagnostics A classpath uri
    version := (s.documents.lookup uri).map Document.version
    number := number }

/-- The diagnostics of a document are a function of what the state says of it. -/
theorem computeDiagnostics_congr {s t : Backend Uri Classpath Project Diag} {cp cp' : Classpath}
    {uri : Uri} (hnative : s.nativeOf A cp uri = t.nativeOf A cp' uri)
    (hjavac : s.javacDiagnostics.lookup uri = t.javacDiagnostics.lookup uri) :
    s.computeDiagnostics A cp uri = t.computeDiagnostics A cp' uri := by
  unfold Backend.computeDiagnostics
  rw [hnative, hjavac]

end Compute

/-!
# Tasks
-/

namespace Backend

def spawn (s : Backend Uri Classpath Project Diag) (task : Task Uri Classpath Diag) :
    Backend Uri Classpath Project Diag :=
  { s with tasks := s.tasks ++ [task] }

def moveTo (s : Backend Uri Classpath Project Diag) (i : Nat) (task : Task Uri Classpath Diag) :
    Backend Uri Classpath Project Diag :=
  { s with tasks := s.tasks.set i task }

def deliver [DecidableEq Uri] (s : Backend Uri Classpath Project Diag)
    (publication : Publication Uri Diag) : Backend Uri Classpath Project Diag :=
  { s with published := Function.update s.published publication.uri (some publication) }

def bumpSemantic (s : Backend Uri Classpath Project Diag) : Backend Uri Classpath Project Diag :=
  { s with semanticGeneration := s.semanticGeneration + 1 }

def bumpProvider (s : Backend Uri Classpath Project Diag) : Backend Uri Classpath Project Diag :=
  { s with providerGeneration := s.providerGeneration + 1 }

/-- The server before its first document. -/
def start (classpath : Classpath) (project : Project) (disk : Uri -> Option Text) :
    Backend Uri Classpath Project Diag :=
  { documents := ∅
    javacDiagnostics := ∅
    classpath := classpath
    project := project
    semanticGeneration := 0
    providerGeneration := 0
    javacRunning := false
    disk := disk
    tasks := []
    published := fun _ => none
    computed := 0 }

end Backend

end Server
end JavaVsixLite
