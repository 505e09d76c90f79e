import JavaVsixLite.Editor.RateLimit

/-!
# The queue of the automatic checks

A file that was saved stays in the queue, goes to a run, or is dropped on purpose;
a queue that is not empty waits for a run, for a timer, or for the next `poke`
after `fire` has found unsaved changes.
-/

namespace JavaVsixLite
namespace Editor

open Foundation

namespace Scheduler

/-- The runs that no reset has detached and that are not finished. -/
def inFlight (s : Scheduler) : List RunCall :=
  s.inFlightAfter s.resets

/-- The timer that the scheduler knows can fire. -/
def Armed (s : Scheduler) : Prop :=
  exists handle due, s.timer = some handle ∧ (handle, due) ∈ s.timers

def LastFiringBlocked (s : Scheduler) : Prop :=
  exists firing, s.firings.head? = some firing ∧ firing.found = .blocked

/-- The run is the current one and waits for its answer, or has another one than busy. -/
def Serves (s : Scheduler) (c : RunCall) : Prop :=
  c.token = s.runToken ∧ c.promise.unhandled = true ∨
    exists settlement, c.promise.settlement = some settlement ∧
      settlement ≠ .fulfilled .busy

/--
Where a file is that was enqueued in the state `start`: in the queue, in a run that
was started since, or among what was dropped since.
-/
def AccountedFor (start : Scheduler) (uri : Uri) (s : Scheduler) : Prop :=
  uri ∈ s.pending ∨
    (exists c, c ∈ s.calls ∧ start.runToken < c.token ∧ uri ∈ c.uris ∧
      s.Serves c) ∨
    exists d, d ∈ s.drops.drop start.drops.length ∧ uri ∈ d.uris

structure QueueSound (s : Scheduler) : Prop where
  since : s.pendingSince = ⊤ <-> s.pending = []
  batches : forall c, c ∈ s.calls -> c.uris ≠ []

/-- The queue waits for the timer or for the next `poke`. -/
def Live (s : Scheduler) : Prop :=
  s.pending ≠ [] -> s.running = false -> s.disposed = false ->
    s.timer ≠ none ∨ s.LastFiringBlocked

theorem queueSound_initial : QueueSound initial where
  since := ⟨fun _ => rfl, fun _ => rfl⟩
  batches := fun _ h => (List.not_mem_nil h).elim

variable {s : Scheduler} {uri : Uri} {c : RunCall} {t : Scheduler} {a : SchedulerAction}
  {start : Scheduler}

theorem live_of_empty (h : s.pending = []) : Live s :=
  fun hne => absurd h hne

/-!
# The queue does not stall
-/

theorem addPending_ne_nil (pending : List Uri) (uri : Uri) : addPending pending uri ≠ [] := by
  unfold addPending
  split
  · rename_i hmem
    exact List.ne_nil_of_mem hmem
  · exact List.append_ne_nil_of_right_ne_nil pending (List.cons_ne_nil uri [])

theorem mem_addPending {pending : List Uri} {other : Uri} :
    other ∈ addPending pending uri <-> other ∈ pending ∨ other = uri := by
  unfold addPending
  split
  · rename_i hmem
    constructor
    · exact Or.inl
    · rintro (h | rfl)
      · exact h
      · exact hmem
  · simp

theorem mem_addAll {uris pending : List Uri} {other : Uri} :
    other ∈ uris.foldl addPending pending <-> other ∈ pending ∨ other ∈ uris := by
  induction uris generalizing pending with
  | nil => simp
  | cons uri rest ih =>
    rw [List.foldl_cons, ih, mem_addPending, List.mem_cons, or_assoc]

theorem at_ne_top (t : Time) : Instant.at t ≠ ⊤ := by
  intro h
  exact WithTop.coe_ne_top (WithBot.coe_injective h)

theorem QueueSound.dispatch {s : Scheduler} (h : QueueSound s) (byTimer : Bool)
    (answers : Answers) : QueueSound (s.dispatch byTimer answers) := by
  rcases s.dispatch_outcome byTimer answers with ⟨_, hcase⟩ | hcase | ⟨_, hqueued, hcase⟩
  · rw [hcase]
    exact ⟨h.since, h.batches⟩
  · rw [hcase]
    exact ⟨⟨fun _ => rfl, fun _ => rfl⟩, h.batches⟩
  · rw [hcase]
    refine ⟨⟨fun _ => rfl, fun _ => rfl⟩, ?_⟩
    intro c hc
    rcases List.mem_append.mp hc with hc | hc
    · exact h.batches c hc
    · rw [List.mem_singleton.mp hc]
      exact hqueued

/-- Whatever `fire` finds, the queue is empty after it or waits for a `poke`. -/
theorem live_dispatch (s : Scheduler) (byTimer : Bool) (answers : Answers) :
    Live (s.dispatch byTimer answers) := by
  rcases s.dispatch_cases byTimer answers with
    ⟨hdisposed, hcase⟩ | ⟨_, _, hcase⟩ | ⟨_, hcase⟩ | ⟨hempty, hcase⟩ | ⟨_, _, _, _, hcase⟩
  · rw [hcase]
    intro _ _ hopen
    rw [show s.disposed = false from hopen] at hdisposed
    cases hdisposed
  · rw [hcase]
    exact live_of_empty rfl
  · rw [hcase]
    exact fun _ _ _ => Or.inr ⟨_, rfl, rfl⟩
  · rw [hcase]
    exact live_of_empty hempty
  · rw [hcase]
    exact live_of_empty rfl

theorem QueueSound.arm {s : Scheduler} (h : QueueSound s) (answers : Answers) :
    QueueSound (s.arm answers) := by
  rcases s.arm_cases answers with ⟨_, harm⟩ | ⟨_, _, harm⟩ | ⟨_, harm⟩
  · rw [harm]
    exact h
  · rw [harm]
    have hfree : QueueSound { s with timer := none } := ⟨h.since, h.batches⟩
    exact hfree.dispatch false answers
  · rw [harm]
    exact ⟨h.since, h.batches⟩

theorem live_arm (s : Scheduler) (answers : Answers) : Live (s.arm answers) := by
  rcases s.arm_cases answers with ⟨hrest, harm⟩ | ⟨_, _, harm⟩ | ⟨_, harm⟩
  · rw [harm]
    intro hqueued hidle hopen
    apply Or.inl
    intro hnone
    exact hrest ⟨hopen, hnone, hidle, hqueued⟩
  · rw [harm]
    exact live_dispatch { s with timer := none } false answers
  · rw [harm]
    exact fun _ _ _ => Or.inl (Option.some_ne_none _)

theorem QueueSound.queue {s : Scheduler} (h : QueueSound s) (uri : Uri) (entered : Time) :
    QueueSound (s.queue uri entered) := by
  refine ⟨?_, h.batches⟩
  have hqueued : (s.queue uri entered).pending ≠ [] := addPending_ne_nil s.pending uri
  have hsince : (s.queue uri entered).pendingSince ≠ ⊤ := by
    simp only [Scheduler.queue]
    split
    · exact at_ne_top entered
    · rename_i hne
      exact fun htop => hne (h.since.mp htop)
  exact ⟨fun htop => absurd htop hsince, fun hnil => absurd hnil hqueued⟩

theorem QueueSound.setPromise {s : Scheduler} (h : QueueSound s) (token : Nat)
    (promise : PromiseState) : QueueSound (s.setPromise token promise) := by
  refine ⟨h.since, ?_⟩
  simp only [setPromise_calls, List.forall_mem_map, withPromise_uris]
  exact h.batches

theorem QueueSound.thenCallback {s : Scheduler} (h : QueueSound s) {c : RunCall}
    (hc : c ∈ s.calls) (settlement : Settlement) :
    QueueSound (s.thenCallback c settlement) := by
  have hhandled := h.setPromise c.token (.handled settlement)
  unfold Scheduler.thenCallback
  split
  · refine ⟨?_, hhandled.batches⟩
    constructor
    · intro htop
      cases htop
    · intro hnil
      rcases List.exists_mem_of_ne_nil c.uris (h.batches c hc) with ⟨uri, huri⟩
      have hmem : uri ∈ c.uris.foldl addPending s.pending := mem_addAll.mpr (Or.inr huri)
      rw [show c.uris.foldl addPending s.pending = [] from hnil] at hmem
      exact absurd hmem List.not_mem_nil
  · exact hhandled

theorem QueueSound.finallyCallback {s : Scheduler} (h : QueueSound s) (c : RunCall)
    (settlement : Settlement) (answers : Answers) :
    QueueSound (s.finallyCallback c settlement answers) := by
  have hdone := h.setPromise c.token (.done settlement)
  unfold Scheduler.finallyCallback
  split
  · apply QueueSound.arm
    exact ⟨hdone.since, hdone.batches⟩
  · exact hdone

theorem RunsSound.running_of_current (h : RunsSound s) (hc : c ∈ s.calls)
    (hcurrent : c.token = s.runToken) (hopen : c.promise.unfinished = true) : s.running = true :=
  (h.known c hc (h.latest c hc hcurrent) hopen).1

theorem QueueSound.perform (h : QueueSound s) (hstep : s.perform a = some t) : QueueSound t := by
  have hclocked : forall time, QueueSound { s with clock := time } :=
    fun _ => ⟨h.since, h.batches⟩
  cases performed hstep with
  | enqueue _ =>
    unfold Scheduler.enqueue
    split
    · exact ⟨h.since, h.batches⟩
    · exact ((hclocked _).queue _ _).arm _
  | poke _ => exact (hclocked _).arm _
  | cancelPending =>
    refine ⟨⟨fun _ => rfl, fun _ => rfl⟩, ?_⟩
    exact (clearTimer_calls s).symm ▸ h.batches
  | reset =>
    refine ⟨⟨fun _ => rfl, fun _ => rfl⟩, ?_⟩
    exact (clearTimer_calls s).symm ▸ h.batches
  | dispose =>
    refine ⟨⟨fun _ => rfl, fun _ => rfl⟩, ?_⟩
    exact (clearTimer_calls { s with disposed := true }).symm ▸ h.batches
  | @fireTimer _ answers _ _ hexpire =>
    have hu := expire_some hexpire
    subst hu
    apply QueueSound.dispatch
    exact ⟨h.since, h.batches⟩
  | settle _ _ => exact h.setPromise _ _
  | thenCallback hcall _ => exact h.thenCallback (call?_some hcall).1 _
  | finallyCallback _ _ _ => exact (hclocked _).finallyCallback _ _ _

theorem Live.perform (h : Live s) (hruns : RunsSound s) (hstep : s.perform a = some t) :
    Live t := by
  cases performed hstep with
  | enqueue _ =>
    unfold Scheduler.enqueue
    split
    · rename_i hdisposed
      intro _ _ hopen
      rw [show s.disposed = false from hopen] at hdisposed
      cases hdisposed
    · exact live_arm _ _
  | poke _ => exact live_arm _ _
  | cancelPending => exact live_of_empty rfl
  | reset => exact live_of_empty rfl
  | dispose => exact live_of_empty rfl
  | fireTimer _ _ => exact live_dispatch _ _ _
  | settle _ _ => exact h
  | @thenCallback _ settlement c hcall hpromise =>
    have hopen : c.promise.unfinished = true := by rw [hpromise]; rfl
    unfold Scheduler.thenCallback
    split
    · rename_i hbusy
      -- The queue has the batch again while its run still waits for `finally`.
      have hrunning : s.running = true :=
        hruns.running_of_current (call?_some hcall).1 hbusy.1 hopen
      intro _ hidle
      rw [show s.running = false from hidle] at hrunning
      cases hrunning
    · exact h
  | finallyCallback _ _ _ =>
    unfold Scheduler.finallyCallback
    split
    · exact live_arm _ _
    · exact h

/-!
# No file is lost
-/

/-- A file that was enqueued in `start`, and how far the scheduler has come since. -/
structure Tracked (start : Scheduler) (uri : Uri) (s : Scheduler) : Prop where
  token : start.runToken ≤ s.runToken
  drops : start.drops.length ≤ s.drops.length
  place : AccountedFor start uri s

theorem mem_drop_append {α : Type*} {l : List α} {n : Nat} {d : α} (more : List α)
    (h : d ∈ l.drop n) : d ∈ (l ++ more).drop n := by
  rw [List.drop_append]
  exact List.mem_append_left _ h

theorem mem_drop_concat {α : Type*} {l : List α} {n : Nat} (d : α) (h : n ≤ l.length) :
    d ∈ (l ++ [d]).drop n := by
  rw [List.drop_append, Nat.sub_eq_zero_of_le h]
  exact List.mem_append_right _ (List.mem_singleton_self d)

theorem Tracked.mono (h : Tracked start uri s)
    (hpending : forall other, other ∈ s.pending -> other ∈ t.pending) (hcalls : t.calls = s.calls)
    (htoken : t.runToken = s.runToken) {more : List Drop} (hdrops : t.drops = s.drops ++ more) :
    Tracked start uri t := by
  constructor
  · rw [htoken]
    exact h.token
  · rw [hdrops, List.length_append]
    exact Nat.le_add_right_of_le h.drops
  · rcases h.place with hqueued | ⟨c, hc, hlater, huri, hserves⟩ | ⟨d, hd, huri⟩
    · exact Or.inl (hpending uri hqueued)
    · apply Or.inr
      apply Or.inl
      refine ⟨c, by rw [hcalls]; exact hc, hlater, huri, ?_⟩
      unfold Serves
      rw [htoken]
      exact hserves
    · apply Or.inr
      apply Or.inr
      refine ⟨d, ?_, huri⟩
      rw [hdrops]
      exact mem_drop_append more hd

theorem Tracked.of_eq (h : Tracked start uri s) (hpending : t.pending = s.pending)
    (hcalls : t.calls = s.calls) (htoken : t.runToken = s.runToken) (hdrops : t.drops = s.drops) :
    Tracked start uri t := by
  apply h.mono _ hcalls htoken (hdrops.trans (List.append_nil _).symm)
  intro other hmem
  rw [hpending]
  exact hmem

theorem Tracked.clearPending {start s : Scheduler} {uri : Uri} (h : Tracked start uri s)
    (cause : DropCause) : Tracked start uri (s.clearPending cause) := by
  have hlonger : start.drops.length ≤ (s.clearPending cause).drops.length := by
    simp only [Scheduler.clearPending, List.length_append]
    exact Nat.le_add_right_of_le h.drops
  refine ⟨h.token, hlonger, ?_⟩
  rcases h.place with hqueued | hbatched | ⟨d, hd, huri⟩
  · exact Or.inr (Or.inr ⟨⟨cause, s.pending⟩, mem_drop_concat _ h.drops, hqueued⟩)
  · exact Or.inr (Or.inl hbatched)
  · exact Or.inr (Or.inr ⟨d, mem_drop_append _ hd, huri⟩)

theorem RunsSound.answered (h : RunsSound s) (hidle : s.running = false) (hc : c ∈ s.calls)
    (hserves : s.Serves c) :
    exists settlement, c.promise.settlement = some settlement ∧
      settlement ≠ .fulfilled .busy := by
  rcases hserves with ⟨hcurrent, hunhandled⟩ | hanswered
  · have hopen : c.promise.unfinished = true := by
      cases hpromise : c.promise with
      | pending => rfl
      | settled _ => rfl
      | handled _ => rfl
      | done _ =>
        rw [hpromise] at hunhandled
        cases hunhandled
    rw [h.running_of_current hc hcurrent hopen] at hidle
    cases hidle
  · exact hanswered

theorem Tracked.startRun {start s : Scheduler} {uri : Uri} (h : Tracked start uri s)
    (hruns : RunsSound s) (hidle : s.running = false) (startedAt : Time) :
    Tracked start uri (s.startRun startedAt) := by
  refine ⟨Nat.le_succ_of_le h.token, h.drops, ?_⟩
  rcases h.place with hqueued | ⟨c, hc, hlater, huri, hserves⟩ | hdropped
  · apply Or.inr
    apply Or.inl
    exact ⟨_, List.mem_append_right _ (List.mem_singleton_self _),
      Nat.lt_succ_of_le h.token, hqueued, Or.inl ⟨rfl, rfl⟩⟩
  · apply Or.inr
    apply Or.inl
    exact ⟨c, List.mem_append_left _ hc, hlater, huri,
      Or.inr (hruns.answered hidle hc hserves)⟩
  · exact Or.inr (Or.inr hdropped)

theorem Tracked.dispatch {start s : Scheduler} {uri : Uri} (h : Tracked start uri s)
    (hruns : RunsSound s) (hidle : s.running = false) (byTimer : Bool)
    (answers : Answers) : Tracked start uri (s.dispatch byTimer answers) := by
  rcases s.dispatch_outcome byTimer answers with ⟨_, hcase⟩ | hcase | ⟨_, _, hcase⟩
  · rw [hcase]
    exact h.of_eq rfl rfl rfl rfl
  · rw [hcase]
    exact (h.clearPending .disabled).of_eq rfl rfl rfl rfl
  · rw [hcase]
    exact (h.startRun hruns hidle answers.started).of_eq rfl rfl rfl rfl

theorem Tracked.arm {start s : Scheduler} {uri : Uri} (h : Tracked start uri s)
    (hruns : RunsSound s) (answers : Answers) : Tracked start uri (s.arm answers) := by
  rcases s.arm_cases answers with ⟨_, harm⟩ | ⟨harmable, _, harm⟩ | ⟨_, harm⟩
  · rw [harm]
    exact h
  · rw [harm]
    have hfree : Tracked start uri { s with timer := none } :=
      h.of_eq rfl rfl rfl rfl
    exact hfree.dispatch (hruns.of_eq rfl rfl rfl rfl rfl) harmable.2.2.1 false answers
  · rw [harm]
    exact h.of_eq rfl rfl rfl rfl

theorem Tracked.enqueue {start s : Scheduler} {uri : Uri} (h : Tracked start uri s)
    (hruns : RunsSound s) (other : Uri) (answers : Answers) :
    Tracked start uri (s.enqueue other answers) := by
  unfold Scheduler.enqueue
  split
  · exact h.mono (fun _ hmem => hmem) rfl rfl rfl
  · have hqueued : Tracked start uri (s.queue other answers.entered) :=
      h.mono (fun _ hmem => mem_addPending.mpr (Or.inl hmem)) rfl rfl
        (List.append_nil _).symm
    exact hqueued.arm (hruns.of_eq rfl rfl rfl rfl rfl) answers

theorem tracked_enqueue (start : Scheduler) (hruns : RunsSound s)
    (htoken : s.runToken = start.runToken) (hdrops : s.drops = start.drops) (uri : Uri)
    (answers : Answers) : Tracked start uri (s.enqueue uri answers) := by
  unfold Scheduler.enqueue
  split
  · refine ⟨Nat.le_of_eq htoken.symm, ?_, ?_⟩
    · rw [hdrops, List.length_append]
      exact Nat.le_add_right _ _
    · apply Or.inr
      apply Or.inr
      refine ⟨⟨.dispose, [uri]⟩, ?_, List.mem_singleton_self uri⟩
      rw [hdrops]
      exact mem_drop_concat _ (Nat.le_refl _)
  · have hqueued : Tracked start uri (s.queue uri answers.entered) := by
      refine ⟨Nat.le_of_eq htoken.symm, ?_, ?_⟩
      · exact Nat.le_of_eq (congrArg List.length hdrops.symm)
      · exact Or.inl (mem_addPending.mpr (Or.inr rfl))
    exact hqueued.arm (hruns.of_eq rfl rfl rfl rfl rfl) answers

theorem Tracked.cancelPendingImpl {start s : Scheduler} {uri : Uri}
    (h : Tracked start uri s) (htimer : TimerSound s) (cause : DropCause) :
    Tracked start uri (s.cancelPendingImpl cause) := by
  unfold Scheduler.cancelPendingImpl
  rw [htimer.clearTimer]
  apply Tracked.clearPending
  exact h.of_eq rfl rfl rfl rfl

theorem Tracked.reset {start s : Scheduler} {uri : Uri} (h : Tracked start uri s)
    (htimer : TimerSound s) : Tracked start uri s.reset := by
  have hcancelled := h.cancelPendingImpl htimer .reset
  have hcalls : (s.cancelPendingImpl .reset).calls = s.calls := clearTimer_calls s
  have htoken : (s.cancelPendingImpl .reset).runToken = s.runToken := by
    unfold Scheduler.cancelPendingImpl
    rw [htimer.clearTimer]
    rfl
  refine ⟨Nat.le_succ_of_le h.token, ?_, ?_⟩
  · simp only [Scheduler.reset, List.length_append]
    exact Nat.le_add_right_of_le hcancelled.drops
  · rcases hcancelled.place with hqueued | ⟨c, hc, hlater, huri, hserves⟩ | ⟨d, hd, huri⟩
    · exact Or.inl hqueued
    · apply Or.inr
      rcases hserves with ⟨hcurrent, hunhandled⟩ | hanswered
      · apply Or.inr
        refine ⟨⟨.reset, s.runningBatch⟩, mem_drop_concat _ hcancelled.drops, ?_⟩
        apply List.mem_flatMap.mpr
        refine ⟨c, List.mem_filter.mpr ⟨hcalls ▸ hc, ?_⟩, huri⟩
        simp [hcurrent, htoken, hunhandled]
      · exact Or.inl ⟨c, hc, hlater, huri, Or.inr hanswered⟩
    · exact Or.inr (Or.inr ⟨d, mem_drop_append _ hd, huri⟩)

/--
The promise of one run goes on: the file that this run serves must be served again,
or be in the queue.
-/
theorem Tracked.setPromise (h : Tracked start uri s) (hruns : RunsSound s) {token : Nat}
    (hcall : s.call? token = some c) {promise : PromiseState}
    (hcalls : t.calls = (s.setPromise token promise).calls) (htoken : t.runToken = s.runToken)
    (hdrops : t.drops = s.drops) (hpending : forall other, other ∈ s.pending -> other ∈ t.pending)
    (hnext : uri ∈ c.uris -> s.Serves c -> uri ∈ t.pending ∨
      s.Serves { c with promise := promise }) :
    Tracked start uri t := by
  have hsame : forall {d : RunCall}, s.Serves d -> t.Serves d := by
    intro d hserves
    unfold Serves
    rw [htoken]
    exact hserves
  constructor
  · rw [htoken]
    exact h.token
  · rw [hdrops]
    exact h.drops
  · rcases h.place with hqueued | ⟨d, hd, hlater, huri, hserves⟩ | hdropped
    · exact Or.inl (hpending uri hqueued)
    · have hmem : withPromise token promise d ∈ t.calls := by
        rw [hcalls, setPromise_calls]
        exact List.mem_map_of_mem hd
      by_cases hd' : d.token = token
      · have heq : d = c := hruns.call?_unique hcall hd hd'
        subst heq
        rw [withPromise, if_pos hd'] at hmem
        rcases hnext huri hserves with hqueued | hagain
        · exact Or.inl hqueued
        · exact Or.inr (Or.inl ⟨_, hmem, hlater, huri, hsame hagain⟩)
      · rw [withPromise, if_neg hd'] at hmem
        exact Or.inr (Or.inl ⟨d, hmem, hlater, huri, hsame hserves⟩)
    · apply Or.inr
      apply Or.inr
      rw [hdrops]
      exact hdropped

theorem Tracked.settle (h : Tracked start uri s) (hruns : RunsSound s) {token : Nat}
    (hcall : s.call? token = some c) (hpromise : c.promise = .pending) (settlement : Settlement) :
    Tracked start uri (s.setPromise token (.settled settlement)) := by
  apply h.setPromise hruns hcall rfl rfl rfl (fun _ hmem => hmem)
  intro _ hserves
  rcases hserves with ⟨hcurrent, _⟩ | ⟨_, hanswer, _⟩
  · exact Or.inr (Or.inl ⟨hcurrent, rfl⟩)
  · rw [hpromise] at hanswer
    cases hanswer

theorem Tracked.thenCallback {start s : Scheduler} {uri : Uri} (h : Tracked start uri s)
    (hruns : RunsSound s) {token : Nat} {c : RunCall} (hcall : s.call? token = some c)
    {settlement : Settlement} (hpromise : c.promise = .settled settlement) :
    Tracked start uri (s.thenCallback c settlement) := by
  have htoken : c.token = token := (call?_some hcall).2
  subst htoken
  unfold Scheduler.thenCallback
  split
  · refine h.setPromise hruns hcall rfl rfl rfl ?_ ?_
    · exact fun _ hmem => mem_addAll.mpr (Or.inl hmem)
    · exact fun huri _ => Or.inl (mem_addAll.mpr (Or.inr huri))
  · rename_i hordinary
    apply h.setPromise hruns hcall rfl rfl rfl (fun _ hmem => hmem)
    intro _ hserves
    rcases hserves with ⟨hcurrent, _⟩ | ⟨answer, hanswer, hfree⟩
    · exact Or.inr (Or.inr ⟨settlement, rfl, fun hbusy => hordinary ⟨hcurrent, hbusy⟩⟩)
    · rw [hpromise] at hanswer
      exact Or.inr (Or.inr ⟨answer, hanswer, hfree⟩)

theorem Tracked.finallyCallback {start s : Scheduler} {uri : Uri} (h : Tracked start uri s)
    (hlimited : Limited s) {token : Nat} {c : RunCall} (hcall : s.call? token = some c)
    {settlement : Settlement} (hpromise : c.promise = .handled settlement)
    (answers : Answers) : Tracked start uri (s.finallyCallback c settlement answers) := by
  have htoken : c.token = token := (call?_some hcall).2
  subst htoken
  have hopen : c.promise.unfinished = true := by
    rw [hpromise]
    rfl
  have hdone : Tracked start uri (s.setPromise c.token (.done settlement)) := by
    apply h.setPromise hlimited.runs hcall rfl rfl rfl (fun _ hmem => hmem)
    intro _ hserves
    rcases hserves with ⟨_, hunhandled⟩ | ⟨answer, hanswer, hfree⟩
    · rw [hpromise] at hunhandled
      cases hunhandled
    · rw [hpromise] at hanswer
      exact Or.inr (Or.inr ⟨answer, hanswer, hfree⟩)
  unfold Scheduler.finallyCallback
  split
  · rename_i hcurrent
    have hidle := hlimited.finished hcall hopen hcurrent settlement
    have hfree : Tracked start uri
        { s.setPromise c.token (.done settlement) with running := false } :=
      hdone.of_eq rfl rfl rfl rfl
    exact hfree.arm hidle.runs answers
  · exact hdone

theorem Tracked.perform (h : Tracked start uri s) (hlimited : Limited s)
    (hstep : s.perform a = some t) :
    Tracked start uri t := by
  have hclocked : forall time, Tracked start uri { s with clock := time } :=
    fun _ => h.of_eq rfl rfl rfl rfl
  have hruns : forall time, RunsSound { s with clock := time } :=
    fun _ => hlimited.runs.of_eq rfl rfl rfl rfl rfl
  cases performed hstep with
  | enqueue _ => exact (hclocked _).enqueue (hruns _) _ _
  | poke _ => exact (hclocked _).arm (hruns _) _
  | cancelPending => exact h.cancelPendingImpl hlimited.timer .cancelPending
  | reset => exact h.reset hlimited.timer
  | dispose =>
    have hdisposed : Tracked start uri { s with disposed := true } :=
      h.of_eq rfl rfl rfl rfl
    exact hdisposed.cancelPendingImpl hlimited.timer .dispose
  | @fireTimer _ answers u _ hexpire =>
    have hfired : Limited { s with clock := answers.started } :=
      ⟨hruns _, hlimited.timer⟩
    rcases hfired.expire hexpire with ⟨hexpired, _, hidle, _⟩
    have hu := expire_some hexpire
    have hfree : Tracked start uri { u with timer := none } := by
      subst hu
      exact h.of_eq rfl rfl rfl rfl
    exact hfree.dispatch (hexpired.of_eq rfl rfl rfl rfl rfl) hidle true answers
  | settle hcall hpromise => exact h.settle hlimited.runs hcall hpromise _
  | thenCallback hcall hpromise => exact h.thenCallback hlimited.runs hcall hpromise
  | @finallyCallback _ _ _ answers hcall hpromise _ =>
    exact (hclocked answers.started).finallyCallback ⟨hruns _, hlimited.timer⟩ hcall
      hpromise answers

/-!
# Every run of the scheduler
-/

theorem queueSound_of_run {actions : List SchedulerAction}
    (hrun : run perform initial actions = some s) : QueueSound s :=
  Run.invariant QueueSound (fun _ _ _ h hstep => h.perform hstep) queueSound_initial hrun

theorem live_of_run {actions : List SchedulerAction} (hrun : run perform initial actions = some s) :
    Live s := by
  have hboth : Limited s ∧ Live s :=
    Run.invariant (fun s => Limited s ∧ Live s)
      (fun _ _ _ h hstep => ⟨h.1.perform hstep, h.2.perform h.1.runs hstep⟩)
      ⟨⟨runsSound_initial, timerSound_initial⟩, live_of_empty rfl⟩ hrun
  exact hboth.2

theorem accountedFor_of_run {past later : List SchedulerAction} {answers : Answers}
    (hpast : run perform initial past = some start)
    (hrun : run perform start (.enqueue uri answers :: later) = some s) :
    AccountedFor start uri s := by
  rcases Run.run_cons hrun with ⟨u, henqueue, hlater⟩
  have hstart : Limited start := limited_of_run hpast
  have hfirst : Tracked start uri u := by
    cases performed henqueue with
    | enqueue _ =>
      have hruns : RunsSound { start with clock := answers.started } :=
        hstart.runs.of_eq rfl rfl rfl rfl rfl
      exact tracked_enqueue start hruns rfl rfl uri answers
  have hboth : Limited s ∧ Tracked start uri s :=
    Run.invariant (fun s => Limited s ∧ Tracked start uri s)
      (fun _ _ _ h hstep => ⟨h.1.perform hstep, h.2.perform h.1 hstep⟩)
      ⟨hstart.perform henqueue, hfirst⟩ hlater
  exact hboth.2.place

theorem RunsSound.inFlight_eq_nil (h : RunsSound s) : s.inFlight = [] <-> s.running = false := by
  constructor
  · intro hnone
    cases hrunning : s.running with
    | false => rfl
    | true =>
      rcases h.owned hrunning with ⟨c, hc, hcurrent, hopen⟩
      have hmem : c ∈ s.inFlight := by
        apply List.mem_filter.mpr
        exact ⟨hc, by simp [h.latest c hc hcurrent, hopen]⟩
      rw [hnone] at hmem
      exact absurd hmem List.not_mem_nil
  · intro hidle
    apply List.filter_eq_nil_iff.mpr
    intro c hc
    simp only [decide_eq_true_eq]
    rintro ⟨hresets, hopen⟩
    rw [h.finished hidle hc hresets] at hopen
    cases hopen

theorem TimerSound.armed (h : TimerSound s) (hsome : s.timer ≠ none) :
    s.Armed ∧ s.running = false := by
  rcases h with ⟨hnone, _⟩ | ⟨handle, due, hhandle, htimers, hidle, _⟩
  · exact absurd hnone hsome
  · refine ⟨⟨handle, due, hhandle, ?_⟩, hidle⟩
    rw [htimers]
    exact List.mem_singleton_self _

theorem TimerSound.armed_of_timers (h : TimerSound s) (hsome : s.timers ≠ []) :
    s.timer ≠ none := by
  rcases h with ⟨_, hnil⟩ | ⟨handle, _, hhandle, _⟩
  · exact absurd hnil hsome
  · rw [hhandle]
    exact Option.some_ne_none handle

/--
The debounce has a start exactly while files are queued; a timer and a run do not
go together; a queue waits for one of them, or for a `poke` after the last `fire`
was blocked; a busy answer puts its whole batch back; and no file is lost.
-/
theorem queue_neither_stalls_nor_loses {actions : List SchedulerAction} {s : Scheduler}
    (hrun : run perform initial actions = some s) :
    (s.pendingSince = ⊤ <-> s.pending = []) ∧
      (s.timer ≠ none ∨ s.timers ≠ [] -> s.inFlight = []) ∧
      (s.pending ≠ [] -> s.inFlight = [] -> s.disposed = false ->
        s.Armed ∨ s.LastFiringBlocked) ∧
      (forall c t, s.call? s.runToken = some c ->
        c.promise = .settled (.fulfilled .busy) ->
          s.perform (.thenCallback s.runToken) = some t ->
            forall uri, uri ∈ c.uris -> uri ∈ t.pending) ∧
      forall past uri answers later start,
        actions = past ++ .enqueue uri answers :: later ->
          run perform initial past = some start -> AccountedFor start uri s := by
  have hlimited : Limited s := limited_of_run hrun
  refine ⟨(queueSound_of_run hrun).since, ?_, ?_, ?_, ?_⟩
  · intro htimer
    apply hlimited.runs.inFlight_eq_nil.mpr
    rcases htimer with htimer | htimers
    · exact (hlimited.timer.armed htimer).2
    · exact (hlimited.timer.armed (hlimited.timer.armed_of_timers htimers)).2
  · intro hqueued hnone hopen
    have hidle : s.running = false := hlimited.runs.inFlight_eq_nil.mp hnone
    rcases live_of_run hrun hqueued hidle hopen with htimer | hblocked
    · exact Or.inl (hlimited.timer.armed htimer).1
    · exact Or.inr hblocked
  · intro c t hcall hpromise hstep uri huri
    cases performed hstep with
    | thenCallback hcalled hsettled =>
      rw [hcall] at hcalled
      cases hcalled
      rw [hpromise] at hsettled
      cases hsettled
      unfold thenCallback
      rw [if_pos ⟨(call?_some hcall).2, rfl⟩]
      exact mem_addAll.mpr (Or.inr huri)
  · intro past uri answers later start hactions hpast
    subst hactions
    rcases Run.run_append hrun with ⟨u, hu, hlater⟩
    rw [hpast] at hu
    cases hu
    exact accountedFor_of_run hpast hlater

/-- A busy answer after the interval: `arm` fires at once, and is blocked. -/
def busyThenBlocked : List SchedulerAction :=
  [.enqueue "A.java" ⟨0, 0, 0, true, false⟩, .fireTimer 0 ⟨1500, 1500, 1500, true, false⟩,
    .settle 1 (.fulfilled .busy), .thenCallback 1,
    .finallyCallback 1 ⟨40000, 40000, 40000, true, true⟩]

theorem busyThenBlocked_neither_stalls_nor_loses :
    exists s, run perform initial busyThenBlocked = some s ∧ s.pending = ["A.java"] ∧
      (s.Armed ∨ s.LastFiringBlocked) ∧ AccountedFor initial "A.java" s := by
  have hends : (run perform initial busyThenBlocked).map
      (fun s => (s.pending, s.inFlight, s.disposed)) = some (["A.java"], [], false) := by
    decide +kernel
  rcases Option.map_eq_some_iff.mp hends with ⟨s, hrun, hend⟩
  have hpending : s.pending = ["A.java"] := congrArg (fun r => r.1) hend
  have hnone : s.inFlight = [] := congrArg (fun r => r.2.1) hend
  have hopen : s.disposed = false := congrArg (fun r => r.2.2) hend
  have hqueued : s.pending ≠ [] := by
    rw [hpending]
    exact List.cons_ne_nil _ _
  have hsound := queue_neither_stalls_nor_loses hrun
  exact ⟨s, hrun, hpending, hsound.2.2.1 hqueued hnone hopen,
    hsound.2.2.2.2 [] "A.java" _ _ initial rfl rfl⟩

/--
The last timer that fired was not blocked, and the queue waits for no timer; and a
timer is set while a run that was detached by a reset is still going on.
-/
theorem queue_waits_after_unblocked_timer :
    (exists s, run perform initial busyThenBlocked = some s ∧ s.pending ≠ [] ∧
        (forall c, c ∈ s.calls -> c.promise.unfinished = false) ∧ s.disposed = false ∧
        s.timer = none ∧ s.timers = [] ∧
        s.firings.find? (fun firing => firing.byTimer) = some ⟨true, .started⟩) ∧
      exists s, run perform initial
          [.enqueue "A.java" ⟨0, 0, 0, true, false⟩,
            .fireTimer 0 ⟨1500, 1500, 1500, true, false⟩, .reset,
            .enqueue "B.java" ⟨1600, 1600, 1600, true, false⟩] = some s ∧
        s.timer ≠ none ∧ exists c, c ∈ s.calls ∧ c.promise = .pending := by
  constructor <;> decide +kernel

end Scheduler
end Editor
end JavaVsixLite
