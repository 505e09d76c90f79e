import JavaVsixLite.Server.Handlers

/-!
# Which refreshes are lost

Every handler that changes what the diagnostics of a document are has to see to
it that the client gets the new ones.  Most of them start a refresh of all open
documents; a refresh gives up when the semantic generation has moved on, on the
understanding that whoever moved it publishes the rest.
-/

namespace JavaVsixLite
namespace Server

open Foundation Documents

variable {Uri Classpath Project Diag Fingerprint : Type}

/-!
# What a task still publishes
-/

/-- Publications that reach the client whatever else happens. -/
def Task.inFlight : Task Uri Classpath Diag -> List (Publication Uri Diag)
  | .ownResult publication => [publication]
  | .sending publication _ _ => [publication]
  | .closing publication => [publication]
  | .javacResults rest => rest
  | _ => []

/-- The rest of a snapshot, whatever its generation. -/
def Task.remaining : Task Uri Classpath Diag -> List (Publication Uri Diag)
  | .publishing _ rest => rest
  | .sending _ _ rest => rest
  | _ => []

def Task.awaiting (generation : Nat) : Task Uri Classpath Diag -> List (Publication Uri Diag)
  | .publishing taken rest => if taken = generation then rest else []
  | .sending _ taken rest => if taken = generation then rest else []
  | _ => []

/-- The fast path has still to compute the diagnostics of its document. -/
def Task.computes (uri : Uri) : Task Uri Classpath Diag -> Prop
  | .fastPath own _ => own = uri
  | _ => False

/-- A refresh of every open document from the installed classpath is ahead. -/
def Task.refreshesAll (classpath : Classpath) : Task Uri Classpath Diag -> Prop
  | .refresh _ => True
  | .refreshWith _ read => read = classpath
  | .closing _ => True
  | .sourceEvents _ accepted => accepted = true
  | _ => False

/-- The task has the publication still to send, or an old snapshot to leave out. -/
def Task.Holds (task : Task Uri Classpath Diag) (publication : Publication Uri Diag) : Prop :=
  publication ∈ task.inFlight ∨ publication ∈ task.remaining

theorem Task.not_holds {task : Task Uri Classpath Diag} (hflight : task.inFlight = [])
    (hremaining : task.remaining = []) (publication : Publication Uri Diag) :
    ¬ task.Holds publication := by
  rw [Holds, hflight, hremaining]
  rintro (hnil | hnil) <;> cases hnil

theorem mem_remaining_of_mem_awaiting {generation : Nat} {task : Task Uri Classpath Diag}
    {publication : Publication Uri Diag} (h : publication ∈ task.awaiting generation) :
    publication ∈ task.remaining := by
  cases task with
  | publishing taken rest =>
    simp only [Task.awaiting] at h
    split at h
    · exact h
    · cases h
  | sending sent taken rest =>
    simp only [Task.awaiting] at h
    split at h
    · exact h
    · cases h
  | _ => cases h

theorem Task.holds_of_awaiting {generation : Nat} {task : Task Uri Classpath Diag}
    {publication : Publication Uri Diag}
    (h : publication ∈ task.inFlight ∨ publication ∈ task.awaiting generation) :
    task.Holds publication := by
  rcases h with hflight | hawaiting
  · exact Or.inl hflight
  · exact Or.inr (mem_remaining_of_mem_awaiting hawaiting)

section Conditions

variable [DecidableEq Uri] (A : Analysis Uri Classpath Project Diag Fingerprint)

/-- The client has the diagnostics that the state gives the document. -/
def UpToDate (s : Backend Uri Classpath Project Diag) (uri : Uri) : Prop :=
  exists publication, s.published uri = some publication ∧
    publication.diagnostics = s.computeDiagnostics A s.classpath uri

/-- The task will send the client what the state gives the document, or will
compute it. -/
def StillPublishes (s : Backend Uri Classpath Project Diag) (uri : Uri)
    (task : Task Uri Classpath Diag) : Prop :=
  task.refreshesAll s.classpath ∨ task.computes uri ∨
    exists publication,
      (publication ∈ task.inFlight ∨ publication ∈ task.awaiting s.semanticGeneration) ∧
      publication.uri = uri ∧
      publication.diagnostics = s.computeDiagnostics A s.classpath uri

def RefreshAhead (s : Backend Uri Classpath Project Diag) : Prop :=
  exists task, task ∈ s.tasks ∧ task.refreshesAll s.classpath

/-- A refresh of the current generation has the document still to publish. -/
def Unpublished (s : Backend Uri Classpath Project Diag) (uri : Uri) : Prop :=
  exists task, task ∈ s.tasks ∧
    exists publication, publication ∈ task.awaiting s.semanticGeneration ∧ publication.uri = uri

def Task.delivers : Task Uri Classpath Diag -> Option (Publication Uri Diag)
  | .ownResult publication => some publication
  | .sending publication _ _ => some publication
  | .closing publication => some publication
  | .javacResults (publication :: _) => some publication
  | _ => none

/-- The steps that lose no refresh.  Unless a refresh of everything is ahead
anyway: an edit of a body and a save do not move the generation under a refresh
that has other documents to publish, and leave the native diagnostics of other
documents as they are; what is computed is computed from the installed
classpath.  And the publications of a document reach the client in the order in
which they were computed. -/
def LosesNoRefresh (s : Backend Uri Classpath Project Diag) :
    Action Uri Classpath Project Diag -> Prop
  | .didChange uri version changes =>
    RefreshAhead s ∨
    forall doc text, s.documents.lookup uri = some doc ->
      applyChanges A.encoding doc.text changes = some text ->
      A.declarationFingerprint doc.text = A.declarationFingerprint text ->
      (forall other, Unpublished s other -> other = uri) ∧
      forall other, other ≠ uri ->
        (s.edited uri version text).nativeOf A s.classpath other =
          s.nativeOf A s.classpath other
  | .didSave project =>
    RefreshAhead s ∨
    ((forall uri, ¬ Unpublished s uri) ∧
      forall uri, (s.didSave project).nativeOf A s.classpath uri = s.nativeOf A s.classpath uri)
  | .snapshot i _ =>
    RefreshAhead s ∨
    forall stale classpath, s.tasks[i]? = some (.refreshWith stale classpath) ->
      classpath = s.classpath
  | .storeResults i _ =>
    RefreshAhead s ∨
    forall run results classpath, s.tasks[i]? = some (.storingWith run results classpath) ->
      classpath = s.classpath
  | .proceed i =>
    forall task publication last, s.tasks[i]? = some task ->
      task.delivers = some publication -> s.published publication.uri = some last ->
      last.number ≤ publication.number
  | _ => True

end Conditions

/-!
# The invariant

`since` gives, for each document, how many computations had been made when its
diagnostics last changed.  What was computed from then on is up to date.
-/

section Invariant

variable [DecidableEq Uri] (A : Analysis Uri Classpath Project Diag Fingerprint)

/-- A computed result is up to date if it is not older than the last change. -/
def Current (since : Uri -> Nat) (s : Backend Uri Classpath Project Diag)
    (publication : Publication Uri Diag) : Prop :=
  publication.number < s.computed ∧
  (since publication.uri ≤ publication.number ->
    publication.diagnostics = s.computeDiagnostics A s.classpath publication.uri)

/-- The task owes the document a publication from after the last change. -/
def Owes (since : Uri -> Nat) (s : Backend Uri Classpath Project Diag) (uri : Uri)
    (task : Task Uri Classpath Diag) : Prop :=
  task.refreshesAll s.classpath ∨ task.computes uri ∨
    exists publication,
      (publication ∈ task.inFlight ∨ publication ∈ task.awaiting s.semanticGeneration) ∧
      publication.uri = uri ∧ since uri ≤ publication.number

structure Fresh (since : Uri -> Nat) (s : Backend Uri Classpath Project Diag) : Prop where
  bound : forall uri, since uri ≤ s.computed
  results : forall task, task ∈ s.tasks -> forall publication,
    publication ∈ task.inFlight ∨ publication ∈ task.remaining -> Current A since s publication
  published : forall uri publication, s.published uri = some publication ->
    publication.uri = uri ∧ Current A since s publication
  owed : forall uri, (exists doc, s.documents.lookup uri = some doc) ->
    (exists publication, s.published uri = some publication ∧ since uri ≤ publication.number) ∨
    exists task, task ∈ s.tasks ∧ Owes since s uri task

structure Numbered (s : Backend Uri Classpath Project Diag) : Prop where
  results : forall task, task ∈ s.tasks -> forall publication,
    publication ∈ task.inFlight ∨ publication ∈ task.remaining -> publication.number < s.computed
  published : forall uri publication, s.published uri = some publication ->
    publication.uri = uri ∧ publication.number < s.computed

variable {A}

theorem Fresh.numbered {since : Uri -> Nat} {s : Backend Uri Classpath Project Diag}
    (h : Fresh A since s) : Numbered s where
  results := fun task hmem publication hresult => (h.results task hmem publication hresult).1
  published := by
    intro uri publication hpublished
    rcases h.published uri publication hpublished with ⟨huri, hcurrent⟩
    exact ⟨huri, hcurrent.1⟩

theorem fresh_of_refreshAhead {s : Backend Uri Classpath Project Diag} (h : Numbered s)
    (hahead : RefreshAhead s) : Fresh A (fun _ => s.computed) s where
  bound := fun _ => Nat.le_refl _
  results := by
    intro task hmem publication hresult
    have hnumber := h.results task hmem publication hresult
    exact ⟨hnumber, fun hle => absurd hle (Nat.not_le_of_lt hnumber)⟩
  published := by
    intro uri publication hpublished
    rcases h.published uri publication hpublished with ⟨huri, hnumber⟩
    exact ⟨huri, hnumber, fun hle => absurd hle (Nat.not_le_of_lt hnumber)⟩
  owed := by
    intro uri _
    rcases hahead with ⟨task, hmem, hall⟩
    exact Or.inr ⟨task, hmem, Or.inl hall⟩

theorem Fresh.nothing_lost {since : Uri -> Nat} {s : Backend Uri Classpath Project Diag}
    (h : Fresh A since s) {uri : Uri} {doc : Document} (hdoc : s.documents.lookup uri = some doc) :
    UpToDate A s uri ∨ exists task, task ∈ s.tasks ∧ StillPublishes A s uri task := by
  rcases h.owed uri ⟨doc, hdoc⟩ with ⟨publication, hpublished, hsince⟩ | ⟨task, hmem, howes⟩
  · rcases h.published uri publication hpublished with ⟨huri, hcurrent⟩
    subst huri
    exact Or.inl ⟨publication, hpublished, hcurrent.2 hsince⟩
  · right
    refine ⟨task, hmem, ?_⟩
    rcases howes with hall | hcomputes | ⟨publication, hresult, huri, hsince⟩
    · exact Or.inl hall
    · exact Or.inr (Or.inl hcomputes)
    · have hcurrent := h.results task hmem publication (Task.holds_of_awaiting hresult)
      subst huri
      exact Or.inr (Or.inr ⟨publication, hresult, rfl, hcurrent.2 hsince⟩)

end Invariant

/-!
# Moving on
-/

section Moves

variable [DecidableEq Uri] {A : Analysis Uri Classpath Project Diag Fingerprint}

theorem mem_set_or_eq {α : Type} {l : List α} {i : Nat} {x y z : α} (hget : l[i]? = some y)
    (hmem : x ∈ l) : x = y ∨ x ∈ l.set i z := by
  rcases List.mem_iff_getElem?.mp hmem with ⟨j, hj⟩
  by_cases hij : i = j
  · subst hij
    rw [hget] at hj
    exact Or.inl (Option.some.inj hj).symm
  · right
    apply List.mem_iff_getElem?.mpr
    exact ⟨j, by rw [List.getElem?_set_ne hij, hj]⟩

structure SameView (s t : Backend Uri Classpath Project Diag) : Prop where
  documents : t.documents = s.documents
  javac : t.javacDiagnostics = s.javacDiagnostics
  classpath : t.classpath = s.classpath
  project : t.project = s.project
  semanticGeneration : t.semanticGeneration = s.semanticGeneration

theorem SameView.computeDiagnostics {s t : Backend Uri Classpath Project Diag}
    (h : SameView s t) (classpath : Classpath) (uri : Uri) :
    t.computeDiagnostics A classpath uri = s.computeDiagnostics A classpath uri := by
  unfold Backend.computeDiagnostics Backend.nativeOf
  rw [h.documents, h.javac, h.classpath, h.project]

theorem Current.frame {since : Uri -> Nat} {s t : Backend Uri Classpath Project Diag}
    {publication : Publication Uri Diag} (h : Current A since s publication)
    (hview : SameView s t) (hcomputed : s.computed ≤ t.computed) :
    Current A since t publication := by
  refine ⟨Nat.lt_of_lt_of_le h.1 hcomputed, ?_⟩
  intro hsince
  rw [hview.classpath, hview.computeDiagnostics]
  exact h.2 hsince

/-- One task moves on and may deliver a publication.  What it owed it owes
still, or has delivered. -/
theorem Fresh.move {since : Uri -> Nat} {s t : Backend Uri Classpath Project Diag}
    (h : Fresh A since s) (hview : SameView s t) (hcomputed : s.computed ≤ t.computed)
    (hresults : forall task, task ∈ t.tasks -> task ∈ s.tasks ∨
      forall publication, task.Holds publication ->
        Current A since t publication)
    (hpublished : forall uri publication, t.published uri = some publication ->
      s.published uri = some publication ∨
        (publication.uri = uri ∧ Current A since t publication))
    (howed : forall uri,
      ((exists publication, s.published uri = some publication ∧
          since uri ≤ publication.number) ∨
        exists task, task ∈ s.tasks ∧ Owes since s uri task) ->
      (exists publication, t.published uri = some publication ∧
          since uri ≤ publication.number) ∨
        exists task, task ∈ t.tasks ∧ Owes since t uri task) :
    Fresh A since t := by
  constructor
  · intro uri
    exact Nat.le_trans (h.bound uri) hcomputed
  · intro task hmem publication hresult
    rcases hresults task hmem with hold | hnew
    · exact (h.results task hold publication hresult).frame hview hcomputed
    · exact hnew publication hresult
  · intro uri publication hget
    rcases hpublished uri publication hget with hold | hnew
    · rcases h.published uri publication hold with ⟨huri, hc⟩
      exact ⟨huri, hc.frame hview hcomputed⟩
    · exact hnew
  · intro uri hopen
    rw [hview.documents] at hopen
    exact howed uri (h.owed uri hopen)

omit [DecidableEq Uri] in
theorem SameView.owes_iff {since : Uri -> Nat} {s t : Backend Uri Classpath Project Diag}
    (h : SameView s t) (uri : Uri) (task : Task Uri Classpath Diag) :
    Owes since t uri task <-> Owes since s uri task := by
  unfold Owes
  rw [h.classpath, h.semanticGeneration]

theorem Fresh.advance {since : Uri -> Nat} {s u : Backend Uri Classpath Project Diag}
    (h : Fresh A since s) {i : Nat} {old new : Task Uri Classpath Diag}
    (hget : s.tasks[i]? = some old) (hview : SameView s u) (htasks : u.tasks = s.tasks)
    (hpublished : u.published = s.published) (hcomputed : u.computed = s.computed)
    (hresults : forall publication, new.Holds publication ->
      old.Holds publication)
    (howes : forall uri, Owes since s uri old -> Owes since s uri new) :
    Fresh A since (u.moveTo i new) := by
  have hview' : SameView s (u.moveTo i new) :=
    ⟨hview.documents, hview.javac, hview.classpath, hview.project, hview.semanticGeneration⟩
  have hset : (u.moveTo i new).tasks = s.tasks.set i new := by
    rw [← htasks]
    rfl
  have hpublished' : (u.moveTo i new).published = s.published := hpublished
  have hcomputed' : (u.moveTo i new).computed = s.computed := hcomputed
  apply h.move hview' (Nat.le_of_eq hcomputed'.symm)
  · intro task hmem
    rw [hset] at hmem
    rcases List.mem_or_eq_of_mem_set hmem with hold | hnew
    · exact Or.inl hold
    · right
      subst hnew
      intro publication hresult
      have hcurrent := h.results old (List.mem_of_getElem? hget) publication
        (hresults publication hresult)
      exact hcurrent.frame hview' (Nat.le_of_eq hcomputed'.symm)
  · intro uri publication hget'
    rw [hpublished'] at hget'
    exact Or.inl hget'
  · rintro uri (⟨publication, hget', hsince⟩ | ⟨task, hmem, howed⟩)
    · exact Or.inl ⟨publication, by rw [hpublished', hget'], hsince⟩
    · right
      rw [hset]
      rcases mem_set_or_eq hget hmem with heq | hother
      · subst heq
        have hsome : i < s.tasks.length := (List.getElem?_eq_some_iff.mp hget).1
        exact ⟨new, List.mem_set hsome new, (hview'.owes_iff uri new).mpr (howes uri howed)⟩
      · exact ⟨task, hother, (hview'.owes_iff uri task).mpr howed⟩

structure Task.Silent (task : Task Uri Classpath Diag) : Prop where
  refreshes : forall classpath, ¬ task.refreshesAll classpath
  computes : forall uri, ¬ task.computes uri
  inFlight : task.inFlight = []
  remaining : task.remaining = []

omit [DecidableEq Uri] in
theorem silent_published (generation : Nat) :
    Task.Silent (.publishing generation [] : Task Uri Classpath Diag) :=
  ⟨fun _ h => h, fun _ h => h, rfl, rfl⟩

omit [DecidableEq Uri] in
theorem silent_sourceEvents (events : List Uri) :
    Task.Silent (.sourceEvents events false : Task Uri Classpath Diag) :=
  ⟨fun _ h => (nomatch h), fun _ h => h, rfl, rfl⟩

omit [DecidableEq Uri] in
theorem silent_starting (scope : JavacCheckScope Uri) :
    Task.Silent (.starting scope : Task Uri Classpath Diag) :=
  ⟨fun _ h => h, fun _ h => h, rfl, rfl⟩

omit [DecidableEq Uri] in
theorem silent_compiling (run : JavacRun Uri) :
    Task.Silent (.compiling run : Task Uri Classpath Diag) :=
  ⟨fun _ h => h, fun _ h => h, rfl, rfl⟩

omit [DecidableEq Uri] in
theorem silent_storing (run : JavacRun Uri) (results : Table Uri (JavacResult Diag)) :
    Task.Silent (.storing run results : Task Uri Classpath Diag) :=
  ⟨fun _ h => h, fun _ h => h, rfl, rfl⟩

omit [DecidableEq Uri] in
theorem silent_javacResults : Task.Silent (.javacResults [] : Task Uri Classpath Diag) :=
  ⟨fun _ h => h, fun _ h => h, rfl, rfl⟩

omit [DecidableEq Uri] in
theorem Task.Silent.not_owes {task : Task Uri Classpath Diag} (h : task.Silent)
    (since : Uri -> Nat) (s : Backend Uri Classpath Project Diag) (uri : Uri) :
    ¬ Owes since s uri task := by
  rintro (hall | hcomputes | ⟨publication, hflight | hawaiting, _⟩)
  · exact h.refreshes s.classpath hall
  · exact h.computes uri hcomputes
  · rw [h.inFlight] at hflight
    cases hflight
  · have hremaining := mem_remaining_of_mem_awaiting hawaiting
    rw [h.remaining] at hremaining
    cases hremaining

theorem Fresh.silent {since : Uri -> Nat} {s u : Backend Uri Classpath Project Diag}
    (h : Fresh A since s) {i : Nat} {old new : Task Uri Classpath Diag}
    (hget : s.tasks[i]? = some old) (hview : SameView s u) (htasks : u.tasks = s.tasks)
    (hpublished : u.published = s.published) (hcomputed : u.computed = s.computed)
    (hold : old.Silent) (hflight : new.inFlight = []) (hremaining : new.remaining = []) :
    Fresh A since (u.moveTo i new) := by
  apply h.advance hget hview htasks hpublished hcomputed
  · exact fun publication hresult => absurd hresult (Task.not_holds hflight hremaining publication)
  · intro uri howes
    exact absurd howes (hold.not_owes since s uri)

theorem Fresh.delivered {since : Uri -> Nat} {s : Backend Uri Classpath Project Diag}
    (h : Fresh A since s) {i : Nat} {old new : Task Uri Classpath Diag}
    {publication : Publication Uri Diag} (hget : s.tasks[i]? = some old)
    (hflight : publication ∈ old.inFlight)
    (horder : forall last, s.published publication.uri = some last ->
      last.number ≤ publication.number)
    (hresults : forall other, new.Holds other ->
      old.Holds other)
    (howes : forall uri, Owes since s uri old ->
      Owes since s uri new ∨ (publication.uri = uri ∧ since uri ≤ publication.number)) :
    Fresh A since ((s.deliver publication).moveTo i new) := by
  have hview : SameView s ((s.deliver publication).moveTo i new) := ⟨rfl, rfl, rfl, rfl, rfl⟩
  have hset : ((s.deliver publication).moveTo i new).tasks = s.tasks.set i new := rfl
  have hpublished : forall uri, ((s.deliver publication).moveTo i new).published uri =
      if uri = publication.uri then some publication else s.published uri := by
    intro uri
    exact Function.update_apply s.published publication.uri (some publication) uri
  have hmemOld := List.mem_of_getElem? hget
  have hsome : i < s.tasks.length := (List.getElem?_eq_some_iff.mp hget).1
  apply h.move hview (Nat.le_refl _)
  · intro task hmem
    rw [hset] at hmem
    rcases List.mem_or_eq_of_mem_set hmem with hold | hnew
    · exact Or.inl hold
    · right
      subst hnew
      intro other hresult
      exact (h.results old hmemOld other (hresults other hresult)).frame hview (Nat.le_refl _)
  · intro uri other hother
    rw [hpublished uri] at hother
    by_cases huri : uri = publication.uri
    · rw [if_pos huri] at hother
      cases hother
      have hcurrent := h.results old hmemOld publication (Or.inl hflight)
      exact Or.inr ⟨huri.symm, hcurrent.frame hview (Nat.le_refl _)⟩
    · rw [if_neg huri] at hother
      exact Or.inl hother
  · intro uri hcovered
    by_cases hdelivered : publication.uri = uri ∧ since uri ≤ publication.number
    · left
      refine ⟨publication, ?_, hdelivered.2⟩
      rw [hpublished uri, if_pos hdelivered.1.symm]
    · rcases hcovered with ⟨other, hother, hsince⟩ | ⟨task, hmem, howed⟩
      · -- an up-to-date publication is not overtaken by an older one
        left
        have huri : uri ≠ publication.uri := by
          intro heq
          subst heq
          have hle := horder other hother
          exact hdelivered ⟨rfl, Nat.le_trans hsince hle⟩
        exact ⟨other, by rw [hpublished uri, if_neg huri, hother], hsince⟩
      · right
        rw [hset]
        rcases mem_set_or_eq hget hmem with heq | hother
        · subst heq
          rcases howes uri howed with hnew | hdone
          · exact ⟨new, List.mem_set hsome new, (hview.owes_iff uri new).mpr hnew⟩
          · exact absurd hdone hdelivered
        · exact ⟨task, hother, (hview.owes_iff uri task).mpr howed⟩

end Moves

/-!
# New tasks
-/

section NewTasks

variable [DecidableEq Uri] {A : Analysis Uri Classpath Project Diag Fingerprint}

omit [DecidableEq Uri] in
theorem Numbered.frame {s t : Backend Uri Classpath Project Diag} (h : Numbered s)
    (hpublished : t.published = s.published) (hcomputed : s.computed ≤ t.computed)
    (htasks : forall task, task ∈ t.tasks -> task ∈ s.tasks ∨
      forall publication, task.Holds publication ->
        publication.number < t.computed) : Numbered t where
  results := by
    intro task hmem publication hresult
    rcases htasks task hmem with hold | hnew
    · exact Nat.lt_of_lt_of_le (h.results task hold publication hresult) hcomputed
    · exact hnew publication hresult
  published := by
    intro uri publication hget
    rw [hpublished] at hget
    rcases h.published uri publication hget with ⟨huri, hnumber⟩
    exact ⟨huri, Nat.lt_of_lt_of_le hnumber hcomputed⟩

theorem fresh_spawn_refresh {s u : Backend Uri Classpath Project Diag}
    {task : Task Uri Classpath Diag} (h : Numbered s) (hpublished : u.published = s.published)
    (hcomputed : s.computed ≤ u.computed) (htasks : u.tasks = s.tasks)
    (hresults : forall publication,
      task.Holds publication -> publication.number < u.computed)
    (hall : task.refreshesAll u.classpath) : exists since, Fresh A since (u.spawn task) := by
  have happend : (u.spawn task).tasks = s.tasks ++ [task] := by
    rw [← htasks]
    rfl
  refine ⟨_, fresh_of_refreshAhead (h.frame hpublished hcomputed ?_) ⟨task, ?_, hall⟩⟩
  · intro other hmem
    rw [happend] at hmem
    rcases List.mem_append.mp hmem with hold | hnew
    · exact Or.inl hold
    · rw [List.mem_singleton.mp hnew]
      exact Or.inr hresults
  · rw [happend]
    exact List.mem_append_right _ (List.mem_singleton_self task)

theorem fresh_moveTo_refresh {s u : Backend Uri Classpath Project Diag} {i : Nat}
    {old task : Task Uri Classpath Diag} (h : Numbered s) (hget : s.tasks[i]? = some old)
    (hpublished : u.published = s.published) (hcomputed : s.computed ≤ u.computed)
    (htasks : u.tasks = s.tasks) (hflight : task.inFlight = []) (hremaining : task.remaining = [])
    (hall : task.refreshesAll u.classpath) : exists since, Fresh A since (u.moveTo i task) := by
  have hset : (u.moveTo i task).tasks = s.tasks.set i task := by
    rw [← htasks]
    rfl
  have hsome : i < s.tasks.length := (List.getElem?_eq_some_iff.mp hget).1
  refine ⟨_, fresh_of_refreshAhead (h.frame hpublished hcomputed ?_) ⟨task, ?_, hall⟩⟩
  · intro other hmem
    rw [hset] at hmem
    rcases List.mem_or_eq_of_mem_set hmem with hold | hnew
    · exact Or.inl hold
    · right
      rw [hnew]
      exact fun publication hresult =>
        absurd hresult (Task.not_holds hflight hremaining publication)
  · rw [hset]
    exact List.mem_set hsome task

theorem Fresh.spawned {since : Uri -> Nat} {s u : Backend Uri Classpath Project Diag}
    (h : Fresh A since s) {task : Task Uri Classpath Diag} (hview : SameView s u)
    (htasks : u.tasks = s.tasks) (hpublished : u.published = s.published)
    (hcomputed : u.computed = s.computed) (hflight : task.inFlight = [])
    (hremaining : task.remaining = []) : Fresh A since (u.spawn task) := by
  have hview' : SameView s (u.spawn task) :=
    ⟨hview.documents, hview.javac, hview.classpath, hview.project, hview.semanticGeneration⟩
  have happend : (u.spawn task).tasks = s.tasks ++ [task] := by
    rw [← htasks]
    rfl
  have hpublished' : (u.spawn task).published = s.published := hpublished
  have hcomputed' : (u.spawn task).computed = s.computed := hcomputed
  apply h.move hview' (Nat.le_of_eq hcomputed'.symm)
  · intro other hmem
    rw [happend] at hmem
    rcases List.mem_append.mp hmem with hold | hnew
    · exact Or.inl hold
    · right
      rw [List.mem_singleton.mp hnew]
      exact fun publication hresult =>
        absurd hresult (Task.not_holds hflight hremaining publication)
  · intro uri publication hget
    rw [hpublished'] at hget
    exact Or.inl hget
  · rintro uri (⟨publication, hget, hsince⟩ | ⟨other, hmem, howed⟩)
    · exact Or.inl ⟨publication, by rw [hpublished', hget], hsince⟩
    · right
      refine ⟨other, ?_, (hview'.owes_iff uri other).mpr howed⟩
      rw [happend]
      exact List.mem_append_left _ hmem

end NewTasks

/-!
# Edits of a body, and saves
-/

section Quiet

variable [DecidableEq Uri] {A : Analysis Uri Classpath Project Diag Fingerprint}

omit [DecidableEq Uri] in
/-- Without the rest of a snapshot of the old generation, a task owes under the
new one what it owed before. -/
theorem owes_of_bumped {since since' : Uri -> Nat} {s t : Backend Uri Classpath Project Diag}
    {uri : Uri} {task : Task Uri Classpath Diag} (hmem : task ∈ s.tasks)
    (hclasspath : t.classpath = s.classpath) (hsince : since' uri = since uri)
    (hnone : ¬ Unpublished s uri) (h : Owes since s uri task) : Owes since' t uri task := by
  rcases h with hall | hcomputes | ⟨publication, hflight | hawaiting, huri, hle⟩
  · left
    rw [hclasspath]
    exact hall
  · exact Or.inr (Or.inl hcomputes)
  · exact Or.inr (Or.inr ⟨publication, Or.inl hflight, huri, by rw [hsince]; exact hle⟩)
  · exact absurd ⟨task, hmem, publication, hawaiting, huri⟩ hnone

/-- A step that moves the generation and changes the diagnostics of the
documents `touched` at most; these have a task of their own. -/
theorem Fresh.quiet {since : Uri -> Nat} {s t : Backend Uri Classpath Project Diag}
    (h : Fresh A since s) (touched : Uri -> Prop) [DecidablePred touched]
    (hclasspath : t.classpath = s.classpath) (hpublished : t.published = s.published)
    (hcomputed : t.computed = s.computed)
    (htasks : forall task, task ∈ s.tasks -> task ∈ t.tasks)
    (hresults : forall task, task ∈ t.tasks -> task ∈ s.tasks ∨
      (task.inFlight = [] ∧ task.remaining = []))
    (hopen : forall uri, ¬ touched uri -> (exists doc, t.documents.lookup uri = some doc) ->
      exists doc, s.documents.lookup uri = some doc)
    (hsame : forall uri, ¬ touched uri ->
      t.computeDiagnostics A s.classpath uri = s.computeDiagnostics A s.classpath uri)
    (hnone : forall uri, ¬ touched uri -> ¬ Unpublished s uri)
    (hown : forall uri, touched uri -> exists task, task ∈ t.tasks ∧ task.computes uri) :
    exists since', Fresh A since' t := by
  refine ⟨fun uri => if touched uri then s.computed else since uri, ?_⟩
  have hcurrent : forall publication, Current A since s publication ->
      Current A (fun uri => if touched uri then s.computed else since uri) t publication := by
    intro publication hold
    refine ⟨by rw [hcomputed]; exact hold.1, ?_⟩
    simp only
    intro hle
    by_cases htouched : touched publication.uri
    · rw [if_pos htouched] at hle
      exact absurd hle (Nat.not_le_of_lt hold.1)
    · rw [if_neg htouched] at hle
      rw [hclasspath, hsame _ htouched]
      exact hold.2 hle
  constructor
  · intro uri
    rw [hcomputed]
    split
    · exact Nat.le_refl _
    · exact h.bound uri
  · intro task hmem publication hresult
    rcases hresults task hmem with hold | ⟨hflight, hremaining⟩
    · exact hcurrent publication (h.results task hold publication hresult)
    · exact absurd hresult (Task.not_holds hflight hremaining publication)
  · intro uri publication hget
    rw [hpublished] at hget
    rcases h.published uri publication hget with ⟨huri, hold⟩
    exact ⟨huri, hcurrent publication hold⟩
  · intro uri hopened
    by_cases htouched : touched uri
    · rcases hown uri htouched with ⟨task, hmem, hcomputes⟩
      exact Or.inr ⟨task, hmem, Or.inr (Or.inl hcomputes)⟩
    · rcases h.owed uri (hopen uri htouched hopened) with ⟨publication, hget, hle⟩ |
      ⟨task, hmem, howed⟩
      · left
        refine ⟨publication, by rw [hpublished, hget], ?_⟩
        simp only [if_neg htouched]
        exact hle
      · right
        refine ⟨task, htasks task hmem, ?_⟩
        exact owes_of_bumped hmem hclasspath (if_neg htouched) (hnone uri htouched) howed

theorem Fresh.changeBody {since : Uri -> Nat} {s : Backend Uri Classpath Project Diag}
    (h : Fresh A since s) {uri : Uri} {version : Int} {text : Text}
    (hnone : forall other, Unpublished s other -> other = uri)
    (hnative : forall other, other ≠ uri ->
      (s.edited uri version text).nativeOf A s.classpath other =
        s.nativeOf A s.classpath other) :
    exists since', Fresh A since' ((s.edited uri version text).spawn (.fastPath uri version)) := by
  apply h.quiet (fun other => other = uri)
  · rfl
  · rfl
  · rfl
  · intro task hmem
    exact List.mem_append_left _ hmem
  · intro task hmem
    rcases List.mem_append.mp hmem with hold | hnew
    · exact Or.inl hold
    · rw [List.mem_singleton.mp hnew]
      exact Or.inr ⟨rfl, rfl⟩
  · rintro other hother ⟨doc, hdoc⟩
    have hdoc' : (s.documents.insert uri { text := text, version := version }).lookup other =
        some doc := hdoc
    rw [AList.lookup_insert_ne hother] at hdoc'
    exact ⟨doc, hdoc'⟩
  · intro other hother
    apply computeDiagnostics_congr
    · exact hnative other hother
    · exact AList.lookup_erase_ne hother
  · intro other hother hunpublished
    exact hother (hnone other hunpublished)
  · intro other hother
    refine ⟨.fastPath uri version, ?_, hother.symm⟩
    exact List.mem_append_right _ (List.mem_singleton_self _)

theorem Fresh.didSave {since : Uri -> Nat} {s : Backend Uri Classpath Project Diag}
    (h : Fresh A since s) {project : Project} (hnone : forall uri, ¬ Unpublished s uri)
    (hnative : forall uri,
      (s.didSave project).nativeOf A s.classpath uri = s.nativeOf A s.classpath uri) :
    exists since', Fresh A since' (s.didSave project) := by
  apply h.quiet (fun _ => False)
  · rfl
  · rfl
  · rfl
  · intro task hmem
    exact hmem
  · intro task hmem
    exact Or.inl hmem
  · rintro other _ ⟨doc, hdoc⟩
    exact ⟨doc, hdoc⟩
  · intro other _
    exact computeDiagnostics_congr A (hnative other) rfl
  · intro other _
    exact hnone other
  · intro other hfalse
    exact hfalse.elim

end Quiet

/-!
# Computed results
-/

section Computed

variable [DecidableEq Uri] {A : Analysis Uri Classpath Project Diag Fingerprint}

/-- A task computes the diagnostics of some documents, and may change the javac
results of these. -/
theorem Fresh.computed {since : Uri -> Nat} {s t : Backend Uri Classpath Project Diag}
    (h : Fresh A since s) {i : Nat} {old new : Task Uri Classpath Diag}
    (hget : s.tasks[i]? = some old) (order : List Uri)
    (hdocs : t.documents = s.documents) (hclasspath : t.classpath = s.classpath)
    (hgeneration : t.semanticGeneration = s.semanticGeneration)
    (hpublished : t.published = s.published) (hcomputed : t.computed = s.computed + 1)
    (htasks : t.tasks = s.tasks.set i new)
    (hsame : forall uri, uri ∉ order ->
      t.computeDiagnostics A s.classpath uri = s.computeDiagnostics A s.classpath uri)
    (hresults : forall publication, new.Holds publication ->
      publication.number = s.computed ∧
        publication.diagnostics = t.computeDiagnostics A s.classpath publication.uri)
    (hsent : forall uri, uri ∈ order -> exists publication,
      (publication ∈ new.inFlight ∨ publication ∈ new.awaiting s.semanticGeneration) ∧
        publication.uri = uri)
    (hold : forall uri, (exists doc, s.documents.lookup uri = some doc) ->
      Owes since s uri old -> uri ∈ order) :
    exists since', Fresh A since' t := by
  refine ⟨fun uri => if uri ∈ order then s.computed else since uri, ?_⟩
  have hsome : i < s.tasks.length := (List.getElem?_eq_some_iff.mp hget).1
  have hcurrent : forall publication, Current A since s publication ->
      Current A (fun uri => if uri ∈ order then s.computed else since uri) t publication := by
    intro publication hprevious
    refine ⟨by rw [hcomputed]; exact Nat.lt_succ_of_lt hprevious.1, ?_⟩
    simp only
    intro hle
    by_cases horder : publication.uri ∈ order
    · rw [if_pos horder] at hle
      exact absurd hle (Nat.not_le_of_lt hprevious.1)
    · rw [if_neg horder] at hle
      rw [hclasspath, hsame _ horder]
      exact hprevious.2 hle
  constructor
  · intro uri
    have hbound := h.bound uri
    rw [hcomputed]
    split <;> omega
  · intro task hmem publication hresult
    rw [htasks] at hmem
    rcases List.mem_or_eq_of_mem_set hmem with hprevious | hnew
    · exact hcurrent publication (h.results task hprevious publication hresult)
    · subst hnew
      rcases hresults publication hresult with ⟨hnumber, hdiagnostics⟩
      refine ⟨by rw [hnumber, hcomputed]; exact Nat.lt_succ_self _, ?_⟩
      intro _
      rw [hclasspath]
      exact hdiagnostics
  · intro uri publication hpub
    rw [hpublished] at hpub
    rcases h.published uri publication hpub with ⟨huri, hprevious⟩
    exact ⟨huri, hcurrent publication hprevious⟩
  · intro uri hopened
    rw [hdocs] at hopened
    rw [htasks]
    by_cases horder : uri ∈ order
    · right
      refine ⟨new, List.mem_set hsome new, Or.inr (Or.inr ?_)⟩
      rcases hsent uri horder with ⟨publication, hmem, huri⟩
      rw [hgeneration]
      refine ⟨publication, hmem, huri, ?_⟩
      simp only [if_pos horder]
      rw [(hresults publication (Task.holds_of_awaiting hmem)).1]
    · rcases h.owed uri hopened with ⟨publication, hpub, hle⟩ | ⟨task, hmem, howed⟩
      · left
        refine ⟨publication, by rw [hpublished, hpub], ?_⟩
        simp only [if_neg horder]
        exact hle
      · right
        rcases mem_set_or_eq hget hmem with heq | hother
        · subst heq
          exact absurd (hold uri hopened howed) horder
        · refine ⟨task, hother, ?_⟩
          unfold Owes
          simp only [hclasspath, hgeneration, if_neg horder]
          exact howed

theorem Fresh.computeOwn {since : Uri -> Nat} {s : Backend Uri Classpath Project Diag}
    (h : Fresh A since s) {i : Nat} {uri : Uri} {version : Int}
    (hget : s.tasks[i]? = some (.fastPath uri version)) :
    exists since', Fresh A since' (s.computeOwn A i uri version) := by
  apply h.computed hget [uri]
  · rfl
  · rfl
  · rfl
  · rfl
  · rfl
  · rfl
  · intro other _
    rfl
  · rintro publication (hflight | hremaining)
    · rw [List.mem_singleton.mp hflight]
      exact ⟨rfl, rfl⟩
    · cases hremaining
  · intro other hother
    rw [List.mem_singleton.mp hother]
    exact ⟨_, Or.inl (List.mem_singleton_self _), rfl⟩
  · rintro other _ (hall | hcomputes | ⟨publication, hflight | hawaiting, _⟩)
    · exact hall.elim
    · exact List.mem_singleton.mpr hcomputes.symm
    · cases hflight
    · cases hawaiting

theorem dropStale_computeDiagnostics {s : Backend Uri Classpath Project Diag} (stale : StaleJavac)
    (classpath : Classpath) {uri : Uri} (hclosed : s.documents.lookup uri = none) :
    (s.dropStale stale).computeDiagnostics A classpath uri =
      s.computeDiagnostics A classpath uri := by
  cases stale with
  | none => rfl
  | allOpen =>
    apply computeDiagnostics_congr
    · rfl
    · apply Table.lookup_keep_of_true
      intro result
      rw [hclosed]
      rfl

theorem Fresh.takeSnapshot {since : Uri -> Nat} {s : Backend Uri Classpath Project Diag}
    (h : Fresh A since s) {i : Nat} {stale : StaleJavac} {order : List Uri}
    (hget : s.tasks[i]? = some (.refreshWith stale s.classpath))
    (horder : order.Perm s.documents.keys) :
    exists since', Fresh A since' (s.takeSnapshot A i stale s.classpath order) := by
  have hmemOrder : forall uri, uri ∈ order <-> exists doc, s.documents.lookup uri = some doc := by
    intro uri
    rw [horder.mem_iff, Table.mem_keys_iff]
  have htasks : (s.takeSnapshot A i stale s.classpath order).tasks =
      s.tasks.set i (.publishing s.semanticGeneration
        (order.map ((s.dropStale stale).snapshotOf A s.classpath s.computed))) := by
    cases stale <;> rfl
  refine h.computed hget order ?_ ?_ ?_ ?_ rfl htasks ?_ ?_ ?_ ?_
  · cases stale <;> rfl
  · cases stale <;> rfl
  · cases stale <;> rfl
  · cases stale <;> rfl
  · intro uri huri
    have hclosed : s.documents.lookup uri = none := by
      cases hdoc : s.documents.lookup uri with
      | none => rfl
      | some doc => exact absurd ((hmemOrder uri).mpr ⟨doc, hdoc⟩) huri
    exact dropStale_computeDiagnostics stale s.classpath hclosed
  · rintro publication (hflight | hremaining)
    · cases hflight
    · rcases List.mem_map.mp hremaining with ⟨uri, _, heq⟩
      rw [← heq]
      exact ⟨rfl, rfl⟩
  · intro uri huri
    refine ⟨(s.dropStale stale).snapshotOf A s.classpath s.computed uri, Or.inr ?_, rfl⟩
    simp only [Task.awaiting, if_true]
    exact List.mem_map_of_mem huri
  · intro uri hopened _
    exact (hmemOrder uri).mpr hopened

theorem lookup_stored {s : Backend Uri Classpath Project Diag} {run : JavacRun Uri}
    {results : Table Uri (JavacResult Diag)} {uri : Uri}
    (huri : uri ∉ s.replacedUris run.scope ∪ (s.currentResults run results).keys) :
    (s.currentResults run results ∪ s.otherResults run.scope).lookup uri =
      s.javacDiagnostics.lookup uri := by
  rw [List.mem_union_iff, not_or] at huri
  obtain ⟨hreplaced, hcurrent⟩ := huri
  rw [AList.lookup_union_right hcurrent]
  cases hscope : run.scope with
  | project =>
    rw [hscope] at hreplaced
    have hnone : s.javacDiagnostics.lookup uri = none := AList.lookup_eq_none.mpr hreplaced
    rw [hnone]
    rfl
  | modules under =>
    rw [hscope] at hreplaced
    simp only [Backend.replacedUris, List.mem_filter, not_and] at hreplaced
    cases hlookup : s.javacDiagnostics.lookup uri with
    | none =>
      apply AList.lookup_eq_none.mpr
      intro hmem
      rcases Table.mem_keys_iff.mp hmem with ⟨result, hresult⟩
      have hkept := (Table.lookup_keep_eq_some_iff.mp hresult).1
      rw [hlookup] at hkept
      cases hkept
    | some result =>
      have hunder := hreplaced (Table.mem_keys_iff.mpr ⟨result, hlookup⟩)
      apply Table.lookup_keep_eq_some_iff.mpr
      refine ⟨hlookup, ?_⟩
      simp only [Bool.not_eq_true] at hunder
      rw [hunder]
      rfl

theorem Fresh.store {since : Uri -> Nat} {s : Backend Uri Classpath Project Diag}
    (h : Fresh A since s) {i : Nat} {run : JavacRun Uri}
    {results : Table Uri (JavacResult Diag)} {order : List Uri}
    (hget : s.tasks[i]? = some (.storingWith run results s.classpath))
    (horder : order.Perm (s.replacedUris run.scope ∪ (s.currentResults run results).keys)) :
    exists since', Fresh A since' (s.store A i run results s.classpath order) := by
  apply h.computed hget order
  · rfl
  · rfl
  · rfl
  · rfl
  · rfl
  · rfl
  · intro uri huri
    rw [horder.mem_iff] at huri
    apply computeDiagnostics_congr
    · rfl
    · exact lookup_stored huri
  · rintro publication (hflight | hremaining)
    · rcases List.mem_map.mp hflight with ⟨uri, _, heq⟩
      rw [← heq]
      exact ⟨rfl, rfl⟩
    · cases hremaining
  · intro uri huri
    exact ⟨_, Or.inl (List.mem_map_of_mem huri), rfl⟩
  · rintro uri _ (hall | hcomputes | ⟨publication, hflight | hawaiting, _⟩)
    · exact hall.elim
    · exact hcomputes.elim
    · cases hflight
    · cases hawaiting

theorem fresh_of_other_ahead {s u : Backend Uri Classpath Project Diag} {i : Nat}
    {old new : Task Uri Classpath Diag} (h : Numbered s) (hahead : RefreshAhead s)
    (hget : s.tasks[i]? = some old) (hold : ¬ old.refreshesAll s.classpath)
    (hclasspath : u.classpath = s.classpath) (hpublished : u.published = s.published)
    (hcomputed : u.computed = s.computed + 1) (htasks : u.tasks = s.tasks.set i new)
    (hresults : forall publication, new.Holds publication ->
      publication.number = s.computed) : exists since, Fresh A since u := by
  refine ⟨_, fresh_of_refreshAhead (h.frame hpublished (by omega) ?_) ?_⟩
  · intro task hmem
    rw [htasks] at hmem
    rcases List.mem_or_eq_of_mem_set hmem with hprevious | hnew
    · exact Or.inl hprevious
    · right
      subst hnew
      intro publication hresult
      rw [hresults publication hresult, hcomputed]
      exact Nat.lt_succ_self _
  · rcases hahead with ⟨task, hmem, hall⟩
    rcases mem_set_or_eq hget hmem with heq | hother
    · subst heq
      exact absurd hall hold
    · rw [RefreshAhead, hclasspath, htasks]
      exact ⟨task, hother, hall⟩

end Computed

/-!
# Runs
-/

section Runs

variable [DecidableEq Uri] [DecidableEq Fingerprint]
  (A : Analysis Uri Classpath Project Diag Fingerprint)

omit [DecidableEq Fingerprint] in
theorem fresh_still_ahead {s t : Backend Uri Classpath Project Diag} (h : Numbered s)
    (hahead : RefreshAhead s) (hclasspath : t.classpath = s.classpath)
    (hpublished : t.published = s.published) (hcomputed : t.computed = s.computed)
    (htasks : forall task, task ∈ s.tasks -> task ∈ t.tasks)
    (hresults : forall task, task ∈ t.tasks -> task ∈ s.tasks ∨
      (task.inFlight = [] ∧ task.remaining = [])) : exists since, Fresh A since t := by
  refine ⟨_, fresh_of_refreshAhead (h.frame hpublished (Nat.le_of_eq hcomputed.symm) ?_) ?_⟩
  · intro task hmem
    rcases hresults task hmem with hold | ⟨hflight, hremaining⟩
    · exact Or.inl hold
    · exact Or.inr (fun publication hresult =>
        absurd hresult (Task.not_holds hflight hremaining publication))
  · rcases hahead with ⟨task, hmem, hall⟩
    rw [RefreshAhead, hclasspath]
    exact ⟨task, htasks task hmem, hall⟩

omit [DecidableEq Fingerprint] in
theorem fresh_changeBody {since : Uri -> Nat} {s : Backend Uri Classpath Project Diag}
    (h : Fresh A since s) {uri : Uri} {version : Int} {changes : List ContentChange}
    {doc : Document} {text : Text} (hok : LosesNoRefresh A s (.didChange uri version changes))
    (hdoc : s.documents.lookup uri = some doc)
    (htext : applyChanges A.encoding doc.text changes = some text)
    (hsame : A.declarationFingerprint doc.text = A.declarationFingerprint text) :
    exists since', Fresh A since' ((s.edited uri version text).spawn (.fastPath uri version)) := by
  rcases hok with hahead | hquiet
  · apply fresh_still_ahead A h.numbered hahead
    · rfl
    · rfl
    · rfl
    · intro task hmem
      exact List.mem_append_left _ hmem
    · intro task hmem
      rcases List.mem_append.mp hmem with hold | hnew
      · exact Or.inl hold
      · rw [List.mem_singleton.mp hnew]
        exact Or.inr ⟨rfl, rfl⟩
  · rcases hquiet doc text hdoc htext hsame with ⟨hnone, hnative⟩
    exact h.changeBody hnone hnative

omit [DecidableEq Fingerprint] in
theorem fresh_didSave {since : Uri -> Nat} {s : Backend Uri Classpath Project Diag}
    (h : Fresh A since s) {project : Project} (hok : LosesNoRefresh A s (.didSave project)) :
    exists since', Fresh A since' (s.didSave project) := by
  rcases hok with hahead | ⟨hnone, hnative⟩
  · apply fresh_still_ahead A h.numbered hahead
    · rfl
    · rfl
    · rfl
    · intro task hmem
      exact hmem
    · intro task hmem
      exact Or.inl hmem
  · exact h.didSave hnone hnative

omit [DecidableEq Fingerprint] in
theorem fresh_snapshot {since : Uri -> Nat} {s : Backend Uri Classpath Project Diag}
    (h : Fresh A since s) {i : Nat} {stale : StaleJavac} {classpath : Classpath}
    {order : List Uri} (hok : LosesNoRefresh A s (.snapshot i order))
    (hget : s.tasks[i]? = some (.refreshWith stale classpath))
    (horder : order.Perm s.documents.keys) :
    exists since', Fresh A since' (s.takeSnapshot A i stale classpath order) := by
  by_cases hclasspath : classpath = s.classpath
  · subst hclasspath
    exact h.takeSnapshot hget horder
  · rcases hok with hahead | hinstalled
    · have htasks : (s.takeSnapshot A i stale classpath order).tasks =
          s.tasks.set i (.publishing s.semanticGeneration
            (order.map ((s.dropStale stale).snapshotOf A classpath s.computed))) := by
        cases stale <;> rfl
      refine fresh_of_other_ahead h.numbered hahead hget hclasspath ?_ ?_ rfl htasks ?_
      · cases stale <;> rfl
      · cases stale <;> rfl
      · rintro publication (hflight | hremaining)
        · cases hflight
        · rcases List.mem_map.mp hremaining with ⟨uri, _, heq⟩
          rw [← heq]
          rfl
    · exact absurd (hinstalled stale classpath hget) hclasspath

omit [DecidableEq Fingerprint] in
theorem fresh_storeResults {since : Uri -> Nat} {s : Backend Uri Classpath Project Diag}
    (h : Fresh A since s) {i : Nat} {run : JavacRun Uri}
    {results : Table Uri (JavacResult Diag)} {classpath : Classpath} {order : List Uri}
    (hok : LosesNoRefresh A s (.storeResults i order))
    (hget : s.tasks[i]? = some (.storingWith run results classpath))
    (horder : order.Perm (s.replacedUris run.scope ∪ (s.currentResults run results).keys)) :
    exists since', Fresh A since' (s.store A i run results classpath order) := by
  by_cases hclasspath : classpath = s.classpath
  · subst hclasspath
    exact h.store hget horder
  · rcases hok with hahead | hinstalled
    · refine fresh_of_other_ahead h.numbered hahead hget (fun hall => hall) rfl rfl rfl rfl ?_
      rintro publication (hflight | hremaining)
      · rcases List.mem_map.mp hflight with ⟨uri, _, heq⟩
        rw [← heq]
        rfl
      · cases hremaining
    · exact absurd (hinstalled run results classpath hget) hclasspath

omit [DecidableEq Fingerprint] in
theorem fresh_ownResult {since : Uri -> Nat} {s : Backend Uri Classpath Project Diag}
    (h : Fresh A since s) {i : Nat} {publication : Publication Uri Diag}
    (hok : LosesNoRefresh A s (.proceed i))
    (hget : s.tasks[i]? = some (.ownResult publication)) :
    Fresh A since ((s.deliver publication).moveTo i .done) := by
  refine h.delivered hget (List.mem_singleton_self _)
    (fun last hlast => hok _ _ last hget rfl hlast) ?_ ?_
  · rintro other (hnil | hnil) <;> cases hnil
  · rintro uri (hall | hcomputes | ⟨other, hflight | hawaiting, huri, hle⟩)
    · exact hall.elim
    · exact hcomputes.elim
    · rw [List.mem_singleton.mp hflight] at huri hle
      exact Or.inr ⟨huri, hle⟩
    · cases hawaiting

omit [DecidableEq Fingerprint] in
theorem fresh_publish {since : Uri -> Nat} {s : Backend Uri Classpath Project Diag}
    (h : Fresh A since s) {i generation : Nat} {publication : Publication Uri Diag}
    {rest : List (Publication Uri Diag)}
    (hget : s.tasks[i]? = some (.publishing generation (publication :: rest)))
    (hgeneration : s.semanticGeneration = generation) :
    Fresh A since (s.moveTo i (.sending publication generation rest)) := by
  refine h.advance hget ⟨rfl, rfl, rfl, rfl, rfl⟩ rfl rfl rfl ?_ ?_
  · rintro other (hflight | hremaining)
    · rw [List.mem_singleton.mp hflight]
      exact Or.inr List.mem_cons_self
    · exact Or.inr (List.mem_cons_of_mem _ hremaining)
  · rintro uri (hall | hcomputes | ⟨other, hflight | hawaiting, huri, hle⟩)
    · exact hall.elim
    · exact hcomputes.elim
    · cases hflight
    · simp only [Task.awaiting, if_pos hgeneration.symm] at hawaiting
      right
      right
      refine ⟨other, ?_, huri, hle⟩
      simp only [Task.awaiting, if_pos hgeneration.symm]
      rcases List.mem_cons.mp hawaiting with heq | hrest
      · exact Or.inl (List.mem_singleton.mpr heq)
      · exact Or.inr hrest

omit [DecidableEq Fingerprint] in
theorem fresh_abort {since : Uri -> Nat} {s : Backend Uri Classpath Project Diag}
    (h : Fresh A since s) {i generation : Nat} {rest : List (Publication Uri Diag)}
    (hget : s.tasks[i]? = some (.publishing generation rest))
    (hgeneration : s.semanticGeneration ≠ generation) : Fresh A since (s.moveTo i .done) := by
  refine h.advance hget ⟨rfl, rfl, rfl, rfl, rfl⟩ rfl rfl rfl ?_ ?_
  · rintro other (hnil | hnil) <;> cases hnil
  · rintro uri (hall | hcomputes | ⟨other, hflight | hawaiting, huri, hle⟩)
    · exact hall.elim
    · exact hcomputes.elim
    · cases hflight
    · simp only [Task.awaiting, if_neg (Ne.symm hgeneration)] at hawaiting
      cases hawaiting

omit [DecidableEq Fingerprint] in
theorem fresh_sent {since : Uri -> Nat} {s : Backend Uri Classpath Project Diag}
    (h : Fresh A since s) {i generation : Nat} {publication : Publication Uri Diag}
    {rest : List (Publication Uri Diag)} (hok : LosesNoRefresh A s (.proceed i))
    (hget : s.tasks[i]? = some (.sending publication generation rest)) :
    Fresh A since ((s.deliver publication).moveTo i (.publishing generation rest)) := by
  refine h.delivered hget (List.mem_singleton_self _)
    (fun last hlast => hok _ _ last hget rfl hlast) ?_ ?_
  · rintro other (hnil | hremaining)
    · cases hnil
    · exact Or.inr hremaining
  · rintro uri (hall | hcomputes | ⟨other, hflight | hawaiting, huri, hle⟩)
    · exact hall.elim
    · exact hcomputes.elim
    · rw [List.mem_singleton.mp hflight] at huri hle
      exact Or.inr ⟨huri, hle⟩
    · exact Or.inl (Or.inr (Or.inr ⟨other, Or.inr hawaiting, huri, hle⟩))

omit [DecidableEq Fingerprint] in
theorem fresh_javacSent {since : Uri -> Nat} {s : Backend Uri Classpath Project Diag}
    (h : Fresh A since s) {i : Nat} {publication : Publication Uri Diag}
    {rest : List (Publication Uri Diag)} (hok : LosesNoRefresh A s (.proceed i))
    (hget : s.tasks[i]? = some (.javacResults (publication :: rest))) :
    Fresh A since ((s.deliver publication).moveTo i (.javacResults rest)) := by
  refine h.delivered hget List.mem_cons_self
    (fun last hlast => hok _ _ last hget rfl hlast) ?_ ?_
  · rintro other (hflight | hnil)
    · exact Or.inl (List.mem_cons_of_mem _ hflight)
    · cases hnil
  · rintro uri (hall | hcomputes | ⟨other, hflight | hawaiting, huri, hle⟩)
    · exact hall.elim
    · exact hcomputes.elim
    · rcases List.mem_cons.mp hflight with heq | hrest
      · rw [heq] at huri hle
        exact Or.inr ⟨huri, hle⟩
      · exact Or.inl (Or.inr (Or.inr ⟨other, Or.inl hrest, huri, hle⟩))
    · cases hawaiting

theorem fresh_step (s : Backend Uri Classpath Project Diag)
    (a : Action Uri Classpath Project Diag) (t : Backend Uri Classpath Project Diag)
    (hinv : exists since, Fresh A since s) (hok : LosesNoRefresh A s a)
    (hstep : step A s a = some t) : exists since, Fresh A since t := by
  obtain ⟨since, h⟩ := hinv
  have hview : SameView s s := ⟨rfl, rfl, rfl, rfl, rfl⟩
  have hrelease : SameView s { s with javacRunning := false } := ⟨rfl, rfl, rfl, rfl, rfl⟩
  cases step_segment A hstep with
  | openDocument uri version text =>
    refine fresh_spawn_refresh h.numbered rfl (Nat.le_refl _) rfl ?_ trivial
    rintro publication (hnil | hnil) <;> cases hnil
  | changeUnopened hdoc => exact ⟨since, h⟩
  | changeBody hdoc htext hsame => exact fresh_changeBody A h hok hdoc htext hsame
  | changeDeclarations hdoc htext hchanged =>
    refine fresh_spawn_refresh h.numbered rfl (Nat.le_refl _) rfl ?_ trivial
    rintro publication (hnil | hnil) <;> cases hnil
  | didClose uri =>
    refine fresh_spawn_refresh h.numbered rfl (Nat.le_succ _) rfl ?_ trivial
    rintro publication (hflight | hnil)
    · rw [List.mem_singleton.mp hflight]
      exact Nat.lt_succ_self _
    · cases hnil
  | didSave project => exact fresh_didSave A h hok
  | onJavaSourceEvents events => exact ⟨since, h.spawned hview rfl rfl rfl rfl rfl⟩
  | installClasspath classpath =>
    refine fresh_spawn_refresh h.numbered rfl (Nat.le_refl _) rfl ?_ trivial
    rintro publication (hnil | hnil) <;> cases hnil
  | checkBusy scope => exact ⟨since, h⟩
  | checkProject scope =>
    exact ⟨since, h.spawned ⟨rfl, rfl, rfl, rfl, rfl⟩ rfl rfl rfl rfl rfl⟩
  | writeFile uri text =>
    exact ⟨since, h.bound, h.results, h.published, h.owed⟩
  | fastPath hget => exact h.computeOwn hget
  | ownResult hget => exact ⟨since, fresh_ownResult A h hok hget⟩
  | refresh hget =>
    refine ⟨since, h.advance hget hview rfl rfl rfl ?_ (fun _ _ => Or.inl rfl)⟩
    rintro other (hnil | hnil) <;> cases hnil
  | refreshed hget =>
    exact ⟨since, h.silent hget hview rfl rfl rfl (silent_published _) rfl rfl⟩
  | publish hget hgeneration => exact ⟨since, fresh_publish A h hget hgeneration⟩
  | abort hget hgeneration => exact ⟨since, fresh_abort A h hget hgeneration⟩
  | sent hget => exact ⟨since, fresh_sent A h hok hget⟩
  | closed hget =>
    refine ⟨since, h.delivered hget (List.mem_singleton_self _)
      (fun last hlast => hok _ _ last hget rfl hlast) ?_ (fun _ _ => Or.inl (Or.inl trivial))⟩
    rintro other (hnil | hnil) <;> cases hnil
  | eventsAccepted hget =>
    exact fresh_moveTo_refresh h.numbered hget rfl (Nat.le_refl _) rfl rfl rfl trivial
  | eventsIgnored hget =>
    exact ⟨since, h.silent hget hview rfl rfl rfl (silent_sourceEvents _) rfl rfl⟩
  | startRun hget =>
    exact ⟨since, h.silent hget hview rfl rfl rfl (silent_starting _) rfl rfl⟩
  | storing hget =>
    exact ⟨since, h.silent hget hview rfl rfl rfl (silent_storing _ _) rfl rfl⟩
  | javacDone hget =>
    exact ⟨since, h.silent hget hrelease rfl rfl rfl silent_javacResults rfl rfl⟩
  | javacSent hget => exact ⟨since, fresh_javacSent A h hok hget⟩
  | snapshot hget horder => exact fresh_snapshot A h hok hget horder
  | eventOpen hget =>
    refine ⟨since, h.advance hget hview rfl rfl rfl ?_ (fun _ howes => howes)⟩
    rintro other (hnil | hnil) <;> cases hnil
  | eventEvicts hget =>
    exact fresh_moveTo_refresh h.numbered hget rfl (Nat.le_refl _) rfl rfl rfl rfl
  | readFile hget =>
    exact ⟨since, h.silent hget hview rfl rfl rfl (silent_compiling _) rfl rfl⟩
  | completedStale hget =>
    exact ⟨since, h.silent hget hrelease rfl rfl rfl (silent_compiling _) rfl rfl⟩
  | completedOutside hget =>
    exact ⟨since, h.silent hget hview rfl rfl rfl (silent_compiling _) rfl rfl⟩
  | completed hget hread hgeneration =>
    exact ⟨since, h.silent hget hview rfl rfl rfl (silent_compiling _) rfl rfl⟩
  | terminalStarting hget =>
    exact ⟨since, h.silent hget hrelease rfl rfl rfl (silent_starting _) rfl rfl⟩
  | terminalCompiling hget =>
    exact ⟨since, h.silent hget hrelease rfl rfl rfl (silent_compiling _) rfl rfl⟩
  | jdkTooOld hget =>
    exact ⟨since, h.silent hget hview rfl rfl rfl (silent_compiling _) rfl rfl⟩
  | storeResults hget horder => exact fresh_storeResults A h hok hget horder

omit [DecidableEq Fingerprint] in
theorem fresh_start (classpath : Classpath) (project : Project) (disk : Uri -> Option Text) :
    Fresh A (fun _ => 0)
      (Backend.start classpath project disk : Backend Uri Classpath Project Diag) where
  bound := fun _ => Nat.le_refl 0
  results := by
    intro task hmem
    cases hmem
  published := by
    intro uri publication hpublished
    cases hpublished
  owed := by
    rintro uri ⟨doc, hdoc⟩
    cases hdoc

/-- In a run whose steps lose no refresh, every open document is up to date or
some handler still publishes it; once all handlers have finished, the client has
the diagnostics of the final state. -/
theorem no_refresh_lost (classpath : Classpath) (project : Project) (disk : Uri -> Option Text)
    (actions : List (Action Uri Classpath Project Diag))
    (s : Backend Uri Classpath Project Diag)
    (hok : Guarded (step A) (LosesNoRefresh A) (Backend.start classpath project disk) actions)
    (hrun : run (step A) (Backend.start classpath project disk) actions = some s) :
    (forall uri doc, s.documents.lookup uri = some doc ->
      UpToDate A s uri ∨ exists task, task ∈ s.tasks ∧ StillPublishes A s uri task) ∧
    ((forall task, task ∈ s.tasks -> task = .done) ->
      forall uri doc, s.documents.lookup uri = some doc -> UpToDate A s uri) := by
  obtain ⟨since, hfresh⟩ := Run.guarded_invariant (fun t => exists since, Fresh A since t)
    (fresh_step A) ⟨_, fresh_start A classpath project disk⟩ hok hrun
  constructor
  · intro uri doc hdoc
    exact hfresh.nothing_lost hdoc
  · intro hdone uri doc hdoc
    rcases hfresh.nothing_lost hdoc with hup | ⟨task, hmem, hstill⟩
    · exact hup
    · rw [hdone task hmem] at hstill
      rcases hstill with hall | hcomputes | ⟨publication, hflight | hawaiting, _⟩
      · exact hall.elim
      · exact hcomputes.elim
      · cases hflight
      · cases hawaiting

end Runs

namespace TwoFiles

inductive File where
  | provider
  | user
deriving DecidableEq

/-- `class A{int x;}` -/
def declaresX : Text :=
  ['c', 'l', 'a', 's', 's', ' ', 'A', '\x7b', 'i', 'n', 't', ' ', 'x', ';', '\x7d']

/-- `class A{int y;}` -/
def declaresY : Text :=
  ['c', 'l', 'a', 's', 's', ' ', 'A', '\x7b', 'i', 'n', 't', ' ', 'y', ';', '\x7d']

/-- `class B{int f(A a){return a.x;}}` -/
def usesX : Text :=
  ['c', 'l', 'a', 's', 's', ' ', 'B', '\x7b', 'i', 'n', 't', ' ', 'f', '(', 'A', ' ', 'a', ')',
    '\x7b', 'r', 'e', 't', 'u', 'r', 'n', ' ', 'a', '.', 'x', ';', '\x7d', '\x7d']

/-- The second file uses a field of the class that the first one declares. -/
def analysis : Analysis File Unit Unit (List String) Text where
  encoding := .utf16
  declarationFingerprint := fun text => text
  nativeDiagnostics := fun docs _ _ _ uri _ =>
    match uri, docs.lookup .provider with
    | .user, some provider =>
      if provider.text = declaresX then [] else ["Cannot resolve field 'x'"]
    | _, _ => []
  mergeJavacDiagnostics := fun native javac => native ++ javac
  noDiagnostics := []

def refreshing : Task File Unit (List String) -> Bool
  | .refresh _ => true
  | .refreshWith _ _ => true
  | _ => false

/-- A refresh of everything is ahead, or nothing arrives after something newer. -/
def keeps (s : Backend File Unit Unit (List String)) :
    Action File Unit Unit (List String) -> Bool
  | .openDocument _ _ _ => true
  | .proceed i =>
    (s.tasks[i]?.bind Task.delivers).all (fun publication =>
      (s.published publication.uri).all (fun last => last.number ≤ publication.number))
  | _ => s.tasks.any refreshing

theorem refreshAhead_of_refreshing {s : Backend File Unit Unit (List String)}
    (h : s.tasks.any refreshing = true) : RefreshAhead s := by
  rcases List.any_eq_true.mp h with ⟨task, hmem, htask⟩
  refine ⟨task, hmem, ?_⟩
  cases task with
  | refresh stale => trivial
  | refreshWith stale classpath => rfl
  | _ => cases htask

theorem losesNoRefresh_of_keeps (s : Backend File Unit Unit (List String))
    (a : Action File Unit Unit (List String)) (h : keeps s a = true) :
    LosesNoRefresh analysis s a := by
  cases a with
  | proceed i =>
    intro task publication last hget hdelivers hlast
    simpa [keeps, hget, hdelivers, hlast] using h
  | didChange uri version changes => exact Or.inl (refreshAhead_of_refreshing h)
  | didSave project => exact Or.inl (refreshAhead_of_refreshing h)
  | snapshot i order => exact Or.inl (refreshAhead_of_refreshing h)
  | storeResults i order => exact Or.inl (refreshAhead_of_refreshing h)
  | _ => trivial

/-- Three refreshes side by side: the first has read the classpath when the second, with a
publication on the way, is cut off by an edit and a save, and the third publishes the rest. -/
def editUnderRefreshes : List (Action File Unit Unit (List String)) :=
  [ .openDocument .provider 1 declaresX,
    .openDocument .user 1 usesX,
    .proceed 0,
    .proceed 1,
    .snapshot 1 [.provider, .user],
    .proceed 1,
    .didChange .provider 2 [{ range := none, text := declaresY }],
    .proceed 1,
    .proceed 2,
    .didSave (),
    .proceed 1,
    .snapshot 0 [.user, .provider],
    .snapshot 2 [.provider, .user] ] ++
    [0, 0, 0, 2, 0, 2, 2, 0, 2, 2].map Action.proceed

theorem opened_document_up_to_date :
    exists s, run (step analysis) (Backend.start () () (fun _ => none)) editUnderRefreshes =
        some s ∧
      (forall task, task ∈ s.tasks -> task = .done) ∧
      s.documents.lookup .user = some { text := usesX, version := 1 } ∧
      (s.published .user).map Publication.diagnostics = some ["Cannot resolve field 'x'"] ∧
      UpToDate analysis s .user := by
  have hkeeps : Guarded (step analysis) (fun s a => keeps s a = true)
      (Backend.start () () (fun _ => none)) editUnderRefreshes := by
    decide +kernel
  have hdone : forall task : Task File Unit (List String),
      task ∈ List.replicate 3 .done -> task = .done := by
    intro task hmem
    exact List.eq_of_mem_replicate hmem
  refine ⟨_, rfl, hdone, rfl, rfl, ?_⟩
  exact (no_refresh_lost analysis () () (fun _ => none) editUnderRefreshes _
    (Run.Guarded.mono losesNoRefresh_of_keeps hkeeps) rfl).2 hdone _ _ rfl

/-- A refresh of `n` documents, from its start to its end. -/
def refreshes (i n : Nat) (order : List File) : List (Action File Unit Unit (List String)) :=
  [.proceed i, .snapshot i order] ++ List.replicate (2 * n + 1) (.proceed i)

/-- Both documents are open and up to date.  A declaration of the first is
edited, and the file is saved while the refresh has the second document still to
publish. -/
def editAndSave : List (Action File Unit Unit (List String)) :=
  [.openDocument .provider 1 declaresX, .openDocument .user 1 usesX] ++
    refreshes 0 2 [.provider, .user] ++ refreshes 1 2 [.provider, .user] ++
    [ .didChange .provider 2 [{ range := none, text := declaresY }],
      .proceed 2,
      .snapshot 2 [.provider, .user],
      .proceed 2,
      .proceed 2,
      .didSave (),
      .proceed 2 ]

theorem save_loses_refresh :
    exists s, run (step analysis) (Backend.start () () (fun _ => none)) editAndSave = some s ∧
      (forall task, task ∈ s.tasks -> task = .done) ∧
      s.documents.lookup .user = some { text := usesX, version := 1 } ∧
      (s.published .user).map Publication.diagnostics = some [] ∧
      s.computeDiagnostics analysis () .user = ["Cannot resolve field 'x'"] ∧
      ¬ UpToDate analysis s .user := by
  refine ⟨_, rfl, ?_, rfl, rfl, rfl, ?_⟩
  · intro task hmem
    have hlist : task ∈ List.replicate 3 (.done : Task File Unit (List String)) := hmem
    exact List.eq_of_mem_replicate hlist
  · rintro ⟨publication, hpublished, hdiagnostics⟩
    cases hpublished
    cases hdiagnostics

end TwoFiles

end Server
end JavaVsixLite
