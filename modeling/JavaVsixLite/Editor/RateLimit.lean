import JavaVsixLite.Editor.JavacScheduler

/-!
# The rate of the automatic checks

Every call of `run` comes out of `fire`, and `fire` is reached on two ways: by the
timer, which was set for a time after the minimal interval, and from `arm` when
that time is over.  Both find that no run is in flight.
-/

namespace JavaVsixLite
namespace Editor

open Foundation

namespace Scheduler

/-- The runs that were started after that many resets and are not finished. -/
def inFlightAfter (s : Scheduler) (resets : Nat) : List RunCall :=
  s.calls.filter (fun c => c.resets = resets ∧ c.promise.unfinished = true)

def floor (s : Scheduler) : Instant :=
  s.lastStart + .at autoCheckMinIntervalMs

/-- There is at most one timer; it is known, it is set late enough, and nothing runs. -/
def TimerSound (s : Scheduler) : Prop :=
  s.timer = none ∧ s.timers = [] ∨
    exists handle due, s.timer = some handle ∧ s.timers = [(handle, due)] ∧
      s.running = false ∧ s.floor ≤ due

/--
The runs in the order of their starts.  Those of the time since the last reset are
known to the scheduler: the last start, and the one that may be in flight.
-/
structure RunsSound (s : Scheduler) : Prop where
  tokens : s.calls.Pairwise (fun a b => a.token < b.token)
  bounded : forall c, c ∈ s.calls -> c.token ≤ s.runToken
  numbered : forall c, c ∈ s.calls -> c.resets ≤ s.resets
  latest : forall c, c ∈ s.calls -> c.token = s.runToken -> c.resets = s.resets
  started : forall c, c ∈ s.calls -> c.resets = s.resets ->
    Instant.at c.startedAt ≤ s.lastStart
  known : forall c, c ∈ s.calls -> c.resets = s.resets -> c.promise.unfinished = true ->
    s.running = true ∧ c.token = s.runToken
  owned : s.running = true ->
    exists c, c ∈ s.calls ∧ c.token = s.runToken ∧ c.promise.unfinished = true
  spaced : s.calls.Pairwise (fun a b => a.resets = b.resets ->
    a.startedAt + autoCheckMinIntervalMs ≤ b.startedAt)
  single : s.calls.Pairwise (fun a b => a.resets = b.resets ->
    a.promise.unfinished = true -> b.promise.unfinished = false)

theorem runsSound_initial : RunsSound initial where
  tokens := List.Pairwise.nil
  bounded := fun _ h => (List.not_mem_nil h).elim
  numbered := fun _ h => (List.not_mem_nil h).elim
  latest := fun _ h => (List.not_mem_nil h).elim
  started := fun _ h => (List.not_mem_nil h).elim
  known := fun _ h => (List.not_mem_nil h).elim
  owned := fun h => nomatch h
  spaced := List.Pairwise.nil
  single := List.Pairwise.nil

theorem timerSound_initial : TimerSound initial :=
  Or.inl ⟨rfl, rfl⟩

theorem RunsSound.of_eq {s t : Scheduler} (h : RunsSound s) (hcalls : t.calls = s.calls)
    (htoken : t.runToken = s.runToken) (hresets : t.resets = s.resets)
    (hstart : t.lastStart = s.lastStart) (hrunning : t.running = s.running) :
    RunsSound t := by
  cases s
  cases t
  cases hcalls
  cases htoken
  cases hresets
  cases hstart
  cases hrunning
  exact ⟨h.tokens, h.bounded, h.numbered, h.latest, h.started, h.known, h.owned,
    h.spaced, h.single⟩

/-!
# Starting a run
-/

theorem at_le_at {a b : Time} : Instant.at a ≤ Instant.at b <-> a ≤ b := by
  unfold Instant.at
  rw [WithBot.coe_le_coe, WithTop.coe_le_coe]

theorem pairwise_concat {α : Type*} {r : α -> α -> Prop} {l : List α} {b : α}
    (h : l.Pairwise r) (hlast : forall a, a ∈ l -> r a b) : (l ++ [b]).Pairwise r := by
  rw [List.pairwise_append]
  refine ⟨h, List.pairwise_singleton r b, ?_⟩
  intro a ha c hc
  rw [List.mem_singleton.mp hc]
  exact hlast a ha

theorem RunsSound.finished {s : Scheduler} (h : RunsSound s) (hidle : s.running = false)
    {c : RunCall} (hc : c ∈ s.calls) (hresets : c.resets = s.resets) :
    c.promise.unfinished = false := by
  cases hunfinished : c.promise.unfinished with
  | false => rfl
  | true =>
    have hrunning : s.running = true := (h.known c hc hresets hunfinished).1
    rw [hidle] at hrunning
    cases hrunning

theorem RunsSound.startRun {s : Scheduler} (h : RunsSound s) (hidle : s.running = false)
    {startedAt : Time} (hfloor : s.floor ≤ .at startedAt) :
    RunsSound (s.startRun startedAt) := by
  have hearlier : forall c, c ∈ s.calls -> c.resets = s.resets ->
      c.startedAt + autoCheckMinIntervalMs ≤ startedAt := by
    intro c hc hresets
    have hstarted : Instant.at c.startedAt ≤ s.lastStart := h.started c hc hresets
    rw [← at_le_at]
    calc
      Instant.at (c.startedAt + autoCheckMinIntervalMs)
          = Instant.at c.startedAt + Instant.at autoCheckMinIntervalMs := rfl
      _ ≤ s.lastStart + Instant.at autoCheckMinIntervalMs :=
          add_le_add_left hstarted _
      _ ≤ Instant.at startedAt := hfloor
  have hpositive : (0 : Time) ≤ autoCheckMinIntervalMs := by decide
  constructor
  · apply pairwise_concat h.tokens
    intro c hc
    exact Nat.lt_succ_of_le (h.bounded c hc)
  · intro c hc
    rcases List.mem_append.mp hc with hc | hc
    · exact Nat.le_succ_of_le (h.bounded c hc)
    · rw [List.mem_singleton.mp hc]
      exact Nat.le_refl _
  · intro c hc
    rcases List.mem_append.mp hc with hc | hc
    · exact h.numbered c hc
    · rw [List.mem_singleton.mp hc]
      exact Nat.le_refl _
  · intro c hc htoken
    rcases List.mem_append.mp hc with hc | hc
    · have hbound : c.token ≤ s.runToken := h.bounded c hc
      rw [show c.token = s.runToken + 1 from htoken] at hbound
      exact absurd hbound (Nat.not_succ_le_self _)
    · rw [List.mem_singleton.mp hc]
      rfl
  · intro c hc hresets
    rcases List.mem_append.mp hc with hc | hc
    · apply at_le_at.mpr
      calc
        c.startedAt ≤ c.startedAt + autoCheckMinIntervalMs := le_add_of_nonneg_right hpositive
        _ ≤ startedAt := hearlier c hc hresets
    · rw [List.mem_singleton.mp hc]
      exact le_refl _
  · intro c hc hresets hunfinished
    rcases List.mem_append.mp hc with hc | hc
    · rw [h.finished hidle hc hresets] at hunfinished
      cases hunfinished
    · rw [List.mem_singleton.mp hc]
      exact ⟨rfl, rfl⟩
  · intro _
    exact ⟨_, List.mem_append_right _ (List.mem_singleton_self _), rfl, rfl⟩
  · exact pairwise_concat h.spaced hearlier
  · apply pairwise_concat h.single
    intro c hc hresets hunfinished
    rw [h.finished hidle hc hresets] at hunfinished
    cases hunfinished

/-!
# The promise of a run
-/

/-- A call of `run` when the promise of the one with the token is in a new state. -/
def withPromise (token : Nat) (promise : PromiseState) (c : RunCall) : RunCall :=
  if c.token = token then { c with promise := promise } else c

section WithPromise

variable {token : Nat} {promise : PromiseState}

@[simp] theorem withPromise_token (c : RunCall) :
    (withPromise token promise c).token = c.token := by
  unfold withPromise
  split <;> rfl

@[simp] theorem withPromise_uris (c : RunCall) :
    (withPromise token promise c).uris = c.uris := by
  unfold withPromise
  split <;> rfl

@[simp] theorem withPromise_startedAt (c : RunCall) :
    (withPromise token promise c).startedAt = c.startedAt := by
  unfold withPromise
  split <;> rfl

@[simp] theorem withPromise_resets (c : RunCall) :
    (withPromise token promise c).resets = c.resets := by
  unfold withPromise
  split <;> rfl

theorem setPromise_calls (s : Scheduler) :
    (s.setPromise token promise).calls = s.calls.map (withPromise token promise) := rfl

theorem unfinished_of_withPromise {c : RunCall}
    (hopen : c.token = token -> c.promise.unfinished = true)
    (h : (withPromise token promise c).promise.unfinished = true) :
    c.promise.unfinished = true := by
  by_cases htoken : c.token = token
  · exact hopen htoken
  · simpa only [withPromise, if_neg htoken] using h

end WithPromise

/-- The scheduler stops running with the callback of `finally` of its current run. -/
theorem RunsSound.setPromise {s : Scheduler} (h : RunsSound s) {token : Nat}
    {promise : PromiseState}
    (hopen : forall c, c ∈ s.calls -> c.token = token -> c.promise.unfinished = true) :
    RunsSound { s.setPromise token promise with
      running := s.running && (promise.unfinished || decide (token ≠ s.runToken)) } := by
  have hunfinished : forall c, c ∈ s.calls ->
      (withPromise token promise c).promise.unfinished = true ->
        c.promise.unfinished = true :=
    fun c hc => unfinished_of_withPromise (hopen c hc)
  constructor
  · simp only [setPromise_calls, List.pairwise_map, withPromise_token]
    exact h.tokens
  · simp only [setPromise_calls, List.forall_mem_map, withPromise_token]
    exact h.bounded
  · simp only [setPromise_calls, List.forall_mem_map, withPromise_resets]
    exact h.numbered
  · simp only [setPromise_calls, List.forall_mem_map, withPromise_token, withPromise_resets]
    exact h.latest
  · simp only [setPromise_calls, List.forall_mem_map, withPromise_resets,
      withPromise_startedAt]
    exact h.started
  · simp only [setPromise_calls, List.forall_mem_map, withPromise_resets,
      withPromise_token]
    intro c hc hresets hstill
    rcases h.known c hc hresets (hunfinished c hc hstill) with ⟨hrunning, htoken⟩
    refine ⟨?_, htoken⟩
    rw [hrunning]
    by_cases hsame : c.token = token
    · simp only [withPromise, if_pos hsame] at hstill
      simp [hstill]
    · have hother : token ≠ s.runToken := fun htok => hsame (htoken.trans htok.symm)
      simp [hother]
  · intro hrunning
    simp only [Bool.and_eq_true, Bool.or_eq_true, decide_eq_true_eq] at hrunning
    rcases h.owned hrunning.1 with ⟨c, hc, htoken, hstill⟩
    refine ⟨withPromise token promise c, List.mem_map_of_mem hc, ?_, ?_⟩
    · rw [withPromise_token]
      exact htoken
    · by_cases hsame : c.token = token
      · simp only [withPromise, if_pos hsame]
        rcases hrunning.2 with hpromise | hother
        · exact hpromise
        · exact absurd (hsame.symm.trans htoken) hother
      · simp only [withPromise, if_neg hsame]
        exact hstill
  · simp only [setPromise_calls, List.pairwise_map, withPromise_resets,
      withPromise_startedAt]
    exact h.spaced
  · simp only [setPromise_calls, List.pairwise_map, withPromise_resets]
    apply h.single.imp_of_mem
    intro a b ha hb hab hresets hstill
    have hfinished : b.promise.unfinished = false := hab hresets (hunfinished a ha hstill)
    cases hagain : (withPromise token promise b).promise.unfinished with
    | false => rfl
    | true =>
      rw [hunfinished b hb hagain] at hfinished
      cases hfinished

/-!
# The operations keep the rate
-/

structure Limited (s : Scheduler) : Prop where
  runs : RunsSound s
  timer : TimerSound s

variable {s : Scheduler} {c : RunCall} {t : Scheduler} {a : SchedulerAction}

theorem TimerSound.timers_of_none (h : TimerSound s) (hnone : s.timer = none) : s.timers = [] := by
  rcases h with ⟨_, htimers⟩ | ⟨handle, due, hsome, _⟩
  · exact htimers
  · rw [hnone] at hsome
    cases hsome

theorem TimerSound.clearTimer {s : Scheduler} (h : TimerSound s) :
    s.clearTimer = { s with timer := none, timers := [] } := by
  rcases h with ⟨hnone, htimers⟩ | ⟨handle, due, hsome, htimers, _⟩
  · simp only [Scheduler.clearTimer, hnone]
    rw [← htimers, ← hnone]
  · simp [Scheduler.clearTimer, hsome, htimers]

theorem Limited.dispatch {s : Scheduler} (h : Limited s) (hnone : s.timer = none)
    (hidle : s.running = false) (byTimer : Bool) {answers : Answers}
    (hfloor : s.floor ≤ .at answers.started) : Limited (s.dispatch byTimer answers) := by
  rcases s.dispatch_outcome byTimer answers with ⟨_, hcase⟩ | hcase | ⟨_, _, hcase⟩
  · rw [hcase]
    exact ⟨h.runs.of_eq rfl rfl rfl rfl rfl, h.timer⟩
  · rw [hcase]
    exact ⟨h.runs.of_eq rfl rfl rfl rfl rfl, h.timer⟩
  · rw [hcase]
    have hstart : RunsSound (s.startRun answers.started) := h.runs.startRun hidle hfloor
    have htimers : s.timers = [] := h.timer.timers_of_none hnone
    exact ⟨hstart.of_eq rfl rfl rfl rfl rfl, Or.inl ⟨hnone, htimers⟩⟩

theorem Limited.fire {s : Scheduler} (hruns : RunsSound s) (htimers : s.timers = [])
    (hidle : s.running = false) (byTimer : Bool) {answers : Answers}
    (hfloor : s.floor ≤ .at answers.started) : Limited (s.fire byTimer answers) := by
  have hfree : Limited { s with timer := none } :=
    ⟨hruns.of_eq rfl rfl rfl rfl rfl, Or.inl ⟨rfl, htimers⟩⟩
  exact hfree.dispatch rfl hidle byTimer hfloor

theorem floor_le_deadline (s : Scheduler) : s.floor ≤ s.deadline :=
  le_max_right _ _

theorem Limited.arm {s : Scheduler} (h : Limited s) {answers : Answers}
    (hclock : answers.armed ≤ answers.started) : Limited (s.arm answers) := by
  rcases s.arm_cases answers with
    ⟨_, harm⟩ | ⟨harmable, hdeadline, harm⟩ | ⟨harmable, harm⟩
  · rw [harm]
    exact h
  · rw [harm]
    have hfloor : s.floor ≤ .at answers.started :=
      calc
        s.floor ≤ s.deadline := s.floor_le_deadline
        _ ≤ .at answers.armed := hdeadline
        _ ≤ .at answers.started := at_le_at.mpr hclock
    have htimers : s.timers = [] := h.timer.timers_of_none harmable.2.1
    exact Limited.fire h.runs htimers harmable.2.2.1 false hfloor
  · rw [harm]
    refine ⟨h.runs.of_eq rfl rfl rfl rfl rfl, Or.inr ⟨s.nextTimer, s.deadline, rfl, ?_⟩⟩
    have htimers : s.timers = [] := h.timer.timers_of_none harmable.2.1
    refine ⟨?_, harmable.2.2.1, s.floor_le_deadline⟩
    simp only [setTimer, htimers, List.nil_append]

theorem Limited.enqueue {s : Scheduler} (h : Limited s) (uri : Uri) {answers : Answers}
    (hclock : answers.armed ≤ answers.started) : Limited (s.enqueue uri answers) := by
  unfold Scheduler.enqueue
  split
  · exact ⟨h.runs.of_eq rfl rfl rfl rfl rfl, h.timer⟩
  · have hqueued : Limited (s.queue uri answers.entered) :=
      ⟨h.runs.of_eq rfl rfl rfl rfl rfl, h.timer⟩
    exact hqueued.arm hclock

theorem Limited.cancelPendingImpl {s : Scheduler} (h : Limited s) (cause : DropCause) :
    Limited (s.cancelPendingImpl cause) := by
  unfold Scheduler.cancelPendingImpl
  rw [h.timer.clearTimer]
  exact ⟨h.runs.of_eq rfl rfl rfl rfl rfl, Or.inl ⟨rfl, rfl⟩⟩

theorem Limited.dispose {s : Scheduler} (h : Limited s) : Limited s.dispose := by
  apply Limited.cancelPendingImpl
  exact ⟨h.runs.of_eq rfl rfl rfl rfl rfl, h.timer⟩

theorem Limited.reset {s : Scheduler} (h : Limited s) : Limited s.reset := by
  unfold Scheduler.reset Scheduler.cancelPendingImpl
  rw [h.timer.clearTimer]
  refine ⟨?_, Or.inl ⟨rfl, rfl⟩⟩
  have hold : forall c, c ∈ s.calls -> c.resets ≠ s.resets + 1 := by
    intro c hc hresets
    have hnumber : c.resets ≤ s.resets := h.runs.numbered c hc
    rw [hresets] at hnumber
    exact Nat.not_succ_le_self _ hnumber
  constructor
  · exact h.runs.tokens
  · intro c hc
    exact Nat.le_succ_of_le (h.runs.bounded c hc)
  · intro c hc
    exact Nat.le_succ_of_le (h.runs.numbered c hc)
  · intro c hc htoken
    have hbound : c.token ≤ s.runToken := h.runs.bounded c hc
    rw [show c.token = s.runToken + 1 from htoken] at hbound
    exact absurd hbound (Nat.not_succ_le_self _)
  · intro c hc hresets
    exact absurd hresets (hold c hc)
  · intro c hc hresets
    exact absurd hresets (hold c hc)
  · intro hrunning
    cases hrunning
  · exact h.runs.spaced
  · exact h.runs.single

theorem RunsSound.call?_unique (h : RunsSound s) {token : Nat} (hcall : s.call? token = some c)
    {d : RunCall} (hd : d ∈ s.calls) (htoken : d.token = token) : d = c := by
  rcases call?_some hcall with ⟨hc, hctoken⟩
  have hsame : forall a, a ∈ s.calls -> forall b, b ∈ s.calls ->
      a.token = b.token -> a = b := by
    apply List.Pairwise.forall_of_forall_of_flip
    · intro a _ _
      rfl
    · exact h.tokens.imp (fun hlt heq => absurd heq (Nat.ne_of_lt hlt))
    · exact h.tokens.imp (fun hlt heq => absurd heq.symm (Nat.ne_of_lt hlt))
  exact hsame d hd c hc (htoken.trans hctoken.symm)

theorem RunsSound.promise {s : Scheduler} (h : RunsSound s) {token : Nat} {c : RunCall}
    (hcall : s.call? token = some c) (hopen : c.promise.unfinished = true)
    (promise : PromiseState) :
    RunsSound { s.setPromise token promise with
      running := s.running && (promise.unfinished || decide (token ≠ s.runToken)) } := by
  apply h.setPromise
  intro d hd htoken
  rw [h.call?_unique hcall hd htoken]
  exact hopen

theorem Limited.settle (h : Limited s) {token : Nat} (hcall : s.call? token = some c)
    (hopen : c.promise.unfinished = true) {promise : PromiseState}
    (hstill : promise.unfinished = true) :
    Limited (s.setPromise token promise) := by
  refine ⟨?_, h.timer⟩
  have hruns := h.runs.promise hcall hopen promise
  rw [hstill] at hruns
  exact hruns.of_eq rfl rfl rfl rfl (by simp [Scheduler.setPromise])

theorem Limited.thenCallback {s : Scheduler} (h : Limited s) {token : Nat} {c : RunCall}
    (hcall : s.call? token = some c) (hopen : c.promise.unfinished = true)
    (settlement : Settlement) : Limited (s.thenCallback c settlement) := by
  have htoken : c.token = token := (call?_some hcall).2
  subst htoken
  have hhandled : Limited (s.setPromise c.token (.handled settlement)) :=
    h.settle hcall hopen rfl
  unfold Scheduler.thenCallback
  split
  · exact ⟨hhandled.runs.of_eq rfl rfl rfl rfl rfl, hhandled.timer⟩
  · exact hhandled

theorem TimerSound.idle (h : TimerSound s) : TimerSound { s with running := false } := by
  rcases h with hnone | ⟨handle, due, hsome, htimers, _, hfloor⟩
  · exact Or.inl hnone
  · exact Or.inr ⟨handle, due, hsome, htimers, rfl, hfloor⟩

theorem Limited.finished (h : Limited s) (hcall : s.call? c.token = some c)
    (hopen : c.promise.unfinished = true) (hcurrent : c.token = s.runToken)
    (settlement : Settlement) :
    Limited { s.setPromise c.token (.done settlement) with running := false } := by
  have hruns := h.runs.promise hcall hopen (.done settlement)
  refine ⟨hruns.of_eq rfl rfl rfl rfl ?_, h.timer.idle⟩
  simp [PromiseState.unfinished, hcurrent]

theorem Limited.finallyCallback {s : Scheduler} (h : Limited s) {token : Nat} {c : RunCall}
    (hcall : s.call? token = some c) (hopen : c.promise.unfinished = true)
    (settlement : Settlement) {answers : Answers}
    (hclock : answers.armed ≤ answers.started) :
    Limited (s.finallyCallback c settlement answers) := by
  have htoken : c.token = token := (call?_some hcall).2
  subst htoken
  unfold Scheduler.finallyCallback
  split
  · rename_i hcurrent
    exact (h.finished hcall hopen hcurrent settlement).arm hclock
  · rename_i hdetached
    have hruns := h.runs.promise hcall hopen (.done settlement)
    refine ⟨hruns.of_eq rfl rfl rfl rfl ?_, h.timer⟩
    simp [Scheduler.setPromise, hdetached]

theorem Limited.expire {s t : Scheduler} (h : Limited s) {timer : TimerId}
    {answers : Answers} (hexpire : s.expire timer answers = some t) :
    RunsSound t ∧ t.timers = [] ∧ t.running = false ∧ t.floor ≤ .at answers.entered := by
  unfold Scheduler.expire at hexpire
  rcases h.timer with ⟨_, htimers⟩ | ⟨handle, due, _, htimers, hidle, hfloor⟩
  · rw [htimers] at hexpire
    cases hexpire
  · rw [htimers] at hexpire
    by_cases hhandle : handle = timer
    · simp only [List.find?_cons, hhandle, decide_true] at hexpire
      rcases Option.ite_none_right_eq_some.mp hexpire with ⟨hdue, hnext⟩
      cases hnext
      refine ⟨h.runs.of_eq rfl rfl rfl rfl rfl, ?_, hidle, le_trans hfloor hdue⟩
      simp
    · simp [hhandle] at hexpire

theorem Limited.perform (h : Limited s) (hstep : s.perform a = some t) : Limited t := by
  have hclocked : forall time, Limited { s with clock := time } :=
    fun _ => ⟨h.runs.of_eq rfl rfl rfl rfl rfl, h.timer⟩
  cases performed hstep with
  | enqueue hclock => exact (hclocked _).enqueue _ hclock.2
  | poke hclock => exact (hclocked _).arm hclock.2
  | cancelPending => exact h.cancelPendingImpl .cancelPending
  | reset => exact h.reset
  | dispose => exact h.dispose
  | fireTimer hclock hexpire =>
    rcases (hclocked _).expire hexpire with ⟨hruns, htimers, hidle, hfloor⟩
    apply Limited.fire hruns htimers hidle true
    exact le_trans hfloor (at_le_at.mpr (le_trans hclock.1 hclock.2))
  | settle hcall hpromise =>
    exact h.settle hcall (by rw [hpromise]; rfl) rfl
  | thenCallback hcall hpromise =>
    exact h.thenCallback hcall (by rw [hpromise]; rfl) _
  | @finallyCallback _ _ _ answers hcall hpromise hclock =>
    exact (hclocked answers.started).finallyCallback hcall (by rw [hpromise]; rfl) _
      hclock.2

theorem limited_of_run {actions : List SchedulerAction}
    (hrun : run perform initial actions = some s) : Limited s :=
  Run.invariant Limited (fun _ _ _ h hstep => h.perform hstep)
    ⟨runsSound_initial, timerSound_initial⟩ hrun

/-!
# When a run is started
-/

def StartsAllowed (s t : Scheduler) (answers : Answers) : Prop :=
  t.calls.length = s.calls.length ∨
    s.disposed = false ∧ answers.enabled = true ∧ answers.blocked = false

theorem dispatch_startsAllowed (s : Scheduler) (byTimer : Bool) (answers : Answers) :
    StartsAllowed s (s.dispatch byTimer answers) answers := by
  rcases s.dispatch_outcome byTimer answers with ⟨_, hcase⟩ | hcase | ⟨hallowed, _, _⟩
  · rw [hcase]
    exact Or.inl rfl
  · rw [hcase]
    exact Or.inl rfl
  · exact Or.inr hallowed

theorem arm_startsAllowed (s : Scheduler) (answers : Answers) :
    StartsAllowed s (s.arm answers) answers := by
  rcases s.arm_cases answers with ⟨_, harm⟩ | ⟨_, _, harm⟩ | ⟨_, harm⟩
  · rw [harm]
    exact Or.inl rfl
  · rw [harm]
    exact dispatch_startsAllowed { s with timer := none } false answers
  · rw [harm]
    exact Or.inl rfl

theorem enqueue_startsAllowed (s : Scheduler) (uri : Uri) (answers : Answers) :
    StartsAllowed s (s.enqueue uri answers) answers := by
  unfold enqueue
  split
  · exact Or.inl rfl
  · exact arm_startsAllowed (s.queue uri answers.entered) answers

theorem clearTimer_calls (s : Scheduler) : s.clearTimer.calls = s.calls := by
  unfold clearTimer
  split <;> rfl

theorem setPromise_length (s : Scheduler) (token : Nat) (promise : PromiseState) :
    (s.setPromise token promise).calls.length = s.calls.length := by
  simp [setPromise]

theorem finallyCallback_startsAllowed (s : Scheduler) (c : RunCall)
    (settlement : Settlement) (answers : Answers) :
    StartsAllowed s (s.finallyCallback c settlement answers) answers := by
  have hlength := setPromise_length s c.token (.done settlement)
  unfold finallyCallback
  split
  · rcases arm_startsAllowed
      { s.setPromise c.token (.done settlement) with running := false } answers with
      hsame | hallowed
    · exact Or.inl (hsame.trans hlength)
    · exact Or.inr hallowed
  · exact Or.inl hlength

/-- The answers that a step is given. -/
def answers? : SchedulerAction -> Option Answers
  | .enqueue _ answers => some answers
  | .poke answers => some answers
  | .fireTimer _ answers => some answers
  | .finallyCallback _ answers => some answers
  | _ => none

theorem perform_startsAllowed (hstep : s.perform a = some t) :
    t.calls.length = s.calls.length ∨
      s.disposed = false ∧ exists answers, answers? a = some answers ∧
        answers.enabled = true ∧ answers.blocked = false := by
  have hanswered : forall {u : Scheduler} {answers : Answers}, answers? a = some answers ->
      u.calls = s.calls -> u.disposed = s.disposed -> StartsAllowed u t answers ->
        t.calls.length = s.calls.length ∨ s.disposed = false ∧
          exists answers, answers? a = some answers ∧ answers.enabled = true ∧
            answers.blocked = false := by
    intro u answers hanswers hcalls hdisposed hallowed
    rcases hallowed with hsame | ⟨hopen, hallowed⟩
    · exact Or.inl (hsame.trans (congrArg List.length hcalls))
    · exact Or.inr ⟨hdisposed.symm.trans hopen, answers, hanswers, hallowed⟩
  cases performed hstep with
  | enqueue _ => exact hanswered rfl rfl rfl (enqueue_startsAllowed _ _ _)
  | poke _ => exact hanswered rfl rfl rfl (arm_startsAllowed _ _)
  | cancelPending => exact Or.inl (congrArg List.length (clearTimer_calls s))
  | reset => exact Or.inl (congrArg List.length (clearTimer_calls s))
  | dispose =>
    exact Or.inl (congrArg List.length (clearTimer_calls { s with disposed := true }))
  | @fireTimer _ answers u _ hexpire =>
    have hu := expire_some hexpire
    subst hu
    exact hanswered rfl rfl rfl (dispatch_startsAllowed _ true answers)
  | settle _ _ => exact Or.inl (setPromise_length s _ _)
  | thenCallback _ _ =>
    apply Or.inl
    unfold Scheduler.thenCallback
    split
    · exact setPromise_length s _ _
    · exact setPromise_length s _ _
  | finallyCallback _ _ _ =>
    exact hanswered rfl rfl rfl (finallyCallback_startsAllowed _ _ _ _)

theorem dispatch_disposed (s : Scheduler) (byTimer : Bool) (answers : Answers) :
    (s.dispatch byTimer answers).disposed = s.disposed := by
  rcases s.dispatch_outcome byTimer answers with ⟨_, hcase⟩ | hcase | ⟨_, _, hcase⟩
  · rw [hcase]
    rfl
  · rw [hcase]
    rfl
  · rw [hcase]
    rfl

theorem arm_disposed (s : Scheduler) (answers : Answers) :
    (s.arm answers).disposed = s.disposed := by
  rcases s.arm_cases answers with ⟨_, harm⟩ | ⟨_, _, harm⟩ | ⟨_, harm⟩
  · rw [harm]
  · rw [harm]
    exact dispatch_disposed { s with timer := none } false answers
  · rw [harm]
    rfl

theorem clearTimer_disposed (s : Scheduler) : s.clearTimer.disposed = s.disposed := by
  unfold clearTimer
  split <;> rfl

theorem perform_disposed (hstep : s.perform a = some t) (h : s.disposed = true ∨ a = .dispose) :
    t.disposed = true := by
  have hkept : a ≠ .dispose -> t.disposed = s.disposed -> t.disposed = true := by
    intro hother hsame
    rcases h with hdisposed | hdispose
    · exact hsame.trans hdisposed
    · exact absurd hdispose hother
  cases performed hstep with
  | enqueue _ =>
    apply hkept (fun h => nomatch h)
    unfold Scheduler.enqueue
    split
    · rfl
    · exact arm_disposed _ _
  | poke _ => exact hkept (fun h => nomatch h) (arm_disposed _ _)
  | cancelPending => exact hkept (fun h => nomatch h) (clearTimer_disposed s)
  | reset => exact hkept (fun h => nomatch h) (clearTimer_disposed s)
  | dispose => exact clearTimer_disposed { s with disposed := true }
  | @fireTimer _ answers u _ hexpire =>
    have hu := expire_some hexpire
    subst hu
    exact hkept (fun h => nomatch h) (dispatch_disposed _ true answers)
  | settle _ _ => exact hkept (fun h => nomatch h) rfl
  | thenCallback _ _ =>
    apply hkept (fun h => nomatch h)
    unfold Scheduler.thenCallback
    split <;> rfl
  | finallyCallback _ _ _ =>
    apply hkept (fun h => nomatch h)
    unfold Scheduler.finallyCallback
    split
    · exact arm_disposed _ _
    · rfl

theorem disposed_of_run {actions : List SchedulerAction}
    (hrun : run perform initial actions = some s) (h : .dispose ∈ actions) :
    s.disposed = true := by
  have hinv := Run.history (fun past s => .dispose ∈ past -> s.disposed = true)
    (fun past s a t hpast hstep hmem => by
      rcases List.mem_append.mp hmem with hmem | hmem
      · exact perform_disposed hstep (Or.inl (hpast hmem))
      · exact perform_disposed hstep (Or.inr (List.mem_singleton.mp hmem).symm))
    (fun hmem => (List.not_mem_nil hmem).elim) hrun
  exact hinv h

theorem length_le_one_of_pairwise {α : Type*} {r : α -> α -> Prop} {l : List α}
    (h : l.Pairwise r) (hnone : forall a, a ∈ l -> forall b, b ∈ l -> ¬ r a b) :
    l.length ≤ 1 := by
  match l with
  | [] => exact Nat.zero_le 1
  | [_] => exact Nat.le_refl 1
  | a :: b :: rest =>
    have hab : r a b := List.rel_of_pairwise_cons h List.mem_cons_self
    exact absurd hab (hnone a List.mem_cons_self b
      (List.mem_cons_of_mem a List.mem_cons_self))

theorem RunsSound.inFlight_le_one (h : RunsSound s) (resets : Nat) :
    (s.inFlightAfter resets).length ≤ 1 := by
  apply length_le_one_of_pairwise (h.single.filter _)
  intro a ha b hb hsingle
  simp only [List.mem_filter, decide_eq_true_eq] at ha hb
  have hfinished : b.promise.unfinished = false :=
    hsingle (ha.2.1.trans hb.2.1.symm) ha.2.2
  rw [hb.2.2] at hfinished
  cases hfinished

/--
Between two resets the starts are the minimal interval apart and one run at most is
in flight, and a run starts only when it is enabled, not blocked and not disposed.
-/
theorem checks_rate_limited {actions : List SchedulerAction} {s : Scheduler}
    (hrun : run perform initial actions = some s) :
    s.calls.Pairwise (fun earlier later => earlier.resets = later.resets ->
        earlier.startedAt + 30000 ≤ later.startedAt) ∧
      (forall resets, (s.inFlightAfter resets).length ≤ 1) ∧
      forall a t, s.perform a = some t -> s.calls.length < t.calls.length ->
        .dispose ∉ actions ∧ exists answers, answers? a = some answers ∧
          answers.enabled = true ∧ answers.blocked = false := by
  have hlimited : Limited s := limited_of_run hrun
  refine ⟨hlimited.runs.spaced, hlimited.runs.inFlight_le_one, ?_⟩
  intro a t hstep hstarts
  rcases perform_startsAllowed hstep with hsame | ⟨hopen, hallowed⟩
  · exact absurd hsame (Nat.ne_of_gt hstarts)
  · refine ⟨?_, hallowed⟩
    intro hdispose
    rw [disposed_of_run hrun hdispose] at hopen
    cases hopen

/-- A check that is busy, its retry at the end of the interval, and a reset. -/
def busyThenReset : List SchedulerAction :=
  [.enqueue "A.java" ⟨0, 0, 0, true, false⟩, .fireTimer 0 ⟨1500, 1500, 1500, true, false⟩,
    .settle 1 (.fulfilled .busy), .thenCallback 1,
    .finallyCallback 1 ⟨2000, 2000, 2000, true, false⟩,
    .fireTimer 1 ⟨31500, 31500, 31500, true, false⟩, .reset,
    .enqueue "B.java" ⟨31600, 31600, 31600, true, false⟩,
    .fireTimer 2 ⟨33100, 33100, 33100, true, false⟩]

theorem checks_rate_limited_busyThenReset :
    exists s, run perform initial busyThenReset = some s ∧
      s.calls.map (fun c => (c.startedAt, c.resets)) = [(1500, 0), (31500, 0), (33100, 1)] ∧
      s.calls.Pairwise (fun earlier later => earlier.resets = later.resets ->
        earlier.startedAt + 30000 ≤ later.startedAt) := by
  have hstarts : (run perform initial busyThenReset).map
      (fun s => s.calls.map (fun c => (c.startedAt, c.resets))) =
        some [(1500, 0), (31500, 0), (33100, 1)] := by
    decide +kernel
  rcases Option.map_eq_some_iff.mp hstarts with ⟨s, hrun, hcalls⟩
  exact ⟨s, hrun, hcalls, (checks_rate_limited hrun).1⟩

end Scheduler
end Editor
end JavaVsixLite
