import Mathlib.Algebra.Order.Monoid.WithTop
import Mathlib.Algebra.Order.Ring.Rat
import JavaVsixLite.Foundation.Runs

/-!
# The scheduler of the automatic check

The editor collects the files that were saved and hands them to the check in
batches: after a debounce, not more often than once in the minimal interval, not
while a file has unsaved changes.  The scheduler is a closure with a few
variables; around it are a clock, timers, and the promises of the checks that it
has started.

Each operation is one step, and so is each of the two callbacks of a promise that
has settled.  A step is given what the clock reads and what the two questions
answer while it goes on.  Times are exact, the clock does not go back, and a timer
does not fire before it is due.
-/

namespace JavaVsixLite
namespace Editor

open Foundation

/-- Milliseconds of the clock. -/
abbrev Time := Rat

/-- A time, or one of the two infinities. -/
abbrev Instant := WithBot (WithTop Time)

def Instant.at (t : Time) : Instant := ((t : WithTop Time) : Instant)

abbrev Uri := String

abbrev TimerId := Nat

def autoCheckDebounceMs : Time := 1500

def autoCheckMinIntervalMs : Time := 30000

inductive RunOutcome where
  | completed
  | busy
deriving DecidableEq

inductive Settlement where
  | fulfilled (outcome : RunOutcome)
  | rejected
deriving DecidableEq

/-- `handled` after the callback of `then`, `done` after the one of `finally`. -/
inductive PromiseState where
  | pending
  | settled (settlement : Settlement)
  | handled (settlement : Settlement)
  | done (settlement : Settlement)
deriving DecidableEq

/-- One call of `run`; `resets` counts the resets that were made before it. -/
structure RunCall where
  token : Nat
  uris : List Uri
  startedAt : Time
  resets : Nat
  promise : PromiseState
deriving DecidableEq

/-- What one call of `fire` came to. -/
inductive Found where
  | disposed
  | disabled
  | blocked
  | nothing
  | started
deriving DecidableEq

/-- A call of `fire`, by the timer or directly from `arm`. -/
structure Firing where
  byTimer : Bool
  found : Found
deriving DecidableEq

inductive DropCause where
  | disabled
  | cancelPending
  | reset
  | dispose

/-- Files that were taken out of the queue, or out of a running batch, unchecked. -/
structure Drop where
  cause : DropCause
  uris : List Uri

/--
The variables of the closure come first.  `timers` are the timers that can fire;
`resets`, `firings` (the newest first) and `drops` record what has happened.
-/
structure Scheduler where
  pending : List Uri
  timer : Option TimerId
  running : Bool
  runToken : Nat
  lastStart : Instant
  pendingSince : Instant
  disposed : Bool
  clock : Time
  timers : List (TimerId × Instant)
  nextTimer : TimerId
  calls : List RunCall
  resets : Nat
  firings : List Firing
  drops : List Drop

/-- What the dependencies say during a step; the clock may go on between its readings. -/
structure Answers where
  entered : Time
  armed : Time
  started : Time
  enabled : Bool
  blocked : Bool

inductive SchedulerAction where
  | enqueue (uri : Uri) (answers : Answers)
  | poke (answers : Answers)
  | cancelPending
  | reset
  | dispose
  | fireTimer (timer : TimerId) (answers : Answers)
  | settle (token : Nat) (settlement : Settlement)
  | thenCallback (token : Nat)
  | finallyCallback (token : Nat) (answers : Answers)

namespace PromiseState

/-- The callback of `finally` has not run. -/
def unfinished : PromiseState -> Bool
  | .done _ => false
  | _ => true

/-- The callback of `then` has not run. -/
def unhandled : PromiseState -> Bool
  | .pending => true
  | .settled _ => true
  | _ => false

def settlement : PromiseState -> Option Settlement
  | .pending => none
  | .settled settlement => some settlement
  | .handled settlement => some settlement
  | .done settlement => some settlement

end PromiseState

namespace Scheduler

def initial : Scheduler where
  pending := []
  timer := none
  running := false
  runToken := 0
  lastStart := ⊥
  pendingSince := ⊤
  disposed := false
  clock := 0
  timers := []
  nextTimer := 0
  calls := []
  resets := 0
  firings := []
  drops := []

def addPending (pending : List Uri) (uri : Uri) : List Uri :=
  if uri ∈ pending then pending else pending ++ [uri]

def clearPending (s : Scheduler) (cause : DropCause) : Scheduler :=
  { s with
    pending := []
    pendingSince := ⊤
    drops := s.drops ++ [⟨cause, s.pending⟩] }

def clearTimer (s : Scheduler) : Scheduler :=
  match s.timer with
  | none => s
  | some handle =>
    { s with timer := none, timers := s.timers.filter (fun timer => timer.1 ≠ handle) }

def noteFiring (s : Scheduler) (byTimer : Bool) (found : Found) : Scheduler :=
  { s with firings := ⟨byTimer, found⟩ :: s.firings }

def startRun (s : Scheduler) (startedAt : Time) : Scheduler :=
  { s with
    pending := []
    pendingSince := ⊤
    running := true
    lastStart := .at startedAt
    runToken := s.runToken + 1
    calls := s.calls ++ [⟨s.runToken + 1, s.pending, startedAt, s.resets, .pending⟩] }

/-- `fire` after it has given up the timer. -/
def dispatch (s : Scheduler) (byTimer : Bool) (answers : Answers) : Scheduler :=
  if s.disposed then s.noteFiring byTimer .disposed
  else if answers.enabled = false then
    (s.clearPending .disabled).noteFiring byTimer .disabled
  else if answers.blocked then s.noteFiring byTimer .blocked
  else if s.pending = [] then s.noteFiring byTimer .nothing
  else (s.startRun answers.started).noteFiring byTimer .started

def fire (s : Scheduler) (byTimer : Bool) (answers : Answers) : Scheduler :=
  { s with timer := none }.dispatch byTimer answers

def deadline (s : Scheduler) : Instant :=
  max (s.pendingSince + .at autoCheckDebounceMs)
    (s.lastStart + .at autoCheckMinIntervalMs)

def setTimer (s : Scheduler) : Scheduler :=
  { s with
    timer := some s.nextTimer
    timers := s.timers ++ [(s.nextTimer, s.deadline)]
    nextTimer := s.nextTimer + 1 }

def arm (s : Scheduler) (answers : Answers) : Scheduler :=
  if s.disposed || s.timer.isSome || s.running || s.pending.isEmpty then s
  else if s.deadline ≤ .at answers.armed then s.fire false answers
  else s.setTimer

def cancelPendingImpl (s : Scheduler) (cause : DropCause) : Scheduler :=
  s.clearTimer.clearPending cause

def queue (s : Scheduler) (uri : Uri) (entered : Time) : Scheduler :=
  { s with
    pending := addPending s.pending uri
    pendingSince := if s.pending = [] then .at entered else s.pendingSince }

def enqueue (s : Scheduler) (uri : Uri) (answers : Answers) : Scheduler :=
  if s.disposed then { s with drops := s.drops ++ [⟨.dispose, [uri]⟩] }
  else (s.queue uri answers.entered).arm answers

def poke (s : Scheduler) (answers : Answers) : Scheduler :=
  s.arm answers

def cancelPending (s : Scheduler) : Scheduler :=
  s.cancelPendingImpl .cancelPending

def runningBatch (s : Scheduler) : List Uri :=
  (s.calls.filter (fun c => c.token = s.runToken ∧ c.promise.unhandled)).flatMap (fun c => c.uris)

def reset (s : Scheduler) : Scheduler :=
  { s.cancelPendingImpl .reset with
    runToken := s.runToken + 1
    running := false
    lastStart := ⊥
    resets := s.resets + 1
    drops := (s.cancelPendingImpl .reset).drops ++ [⟨.reset, s.runningBatch⟩] }

def dispose (s : Scheduler) : Scheduler :=
  { s with disposed := true }.cancelPendingImpl .dispose

def setPromise (s : Scheduler) (token : Nat) (promise : PromiseState) : Scheduler :=
  { s with
    calls := s.calls.map
      (fun c => if c.token = token then { c with promise := promise } else c) }

/-- The callback of `then`: only a busy answer of the current run is of interest. -/
def thenCallback (s : Scheduler) (c : RunCall) (settlement : Settlement) : Scheduler :=
  if c.token = s.runToken ∧ settlement = .fulfilled .busy then
    { s.setPromise c.token (.handled settlement) with
      pending := c.uris.foldl addPending s.pending
      pendingSince := ⊥ }
  else s.setPromise c.token (.handled settlement)

def finallyCallback (s : Scheduler) (c : RunCall) (settlement : Settlement)
    (answers : Answers) : Scheduler :=
  if c.token = s.runToken then
    { s.setPromise c.token (.done settlement) with running := false }.arm answers
  else s.setPromise c.token (.done settlement)

/-- The call of `run` that was given the token. -/
def call? (s : Scheduler) (token : Nat) : Option RunCall :=
  s.calls.find? (fun c => c.token = token)

def advance (s : Scheduler) (answers : Answers) : Option Scheduler :=
  if s.clock ≤ answers.entered ∧ answers.entered ≤ answers.armed ∧
      answers.armed ≤ answers.started then
    some { s with clock := answers.started }
  else none

def expire (s : Scheduler) (timer : TimerId) (answers : Answers) : Option Scheduler :=
  match s.timers.find? (fun entry => entry.1 = timer) with
  | none => none
  | some entry =>
    if entry.2 ≤ .at answers.entered then
      some { s with timers := s.timers.filter (fun entry => entry.1 ≠ timer) }
    else none

def perform (s : Scheduler) : SchedulerAction -> Option Scheduler
  | .enqueue uri answers => (s.advance answers).map (fun s => s.enqueue uri answers)
  | .poke answers => (s.advance answers).map (fun s => s.poke answers)
  | .cancelPending => some s.cancelPending
  | .reset => some s.reset
  | .dispose => some s.dispose
  | .fireTimer timer answers =>
    ((s.advance answers).bind (fun s => s.expire timer answers)).map
      (fun s => s.fire true answers)
  | .settle token settlement =>
    match s.call? token with
    | none => none
    | some c =>
      if c.promise = .pending then some (s.setPromise token (.settled settlement))
      else none
  | .thenCallback token =>
    match s.call? token with
    | none => none
    | some c =>
      match c.promise with
      | .settled settlement => some (s.thenCallback c settlement)
      | _ => none
  | .finallyCallback token answers =>
    match s.call? token with
    | none => none
    | some c =>
      match c.promise with
      | .handled settlement =>
        (s.advance answers).map (fun s => s.finallyCallback c settlement answers)
      | _ => none

/-!
# What the operations can do
-/

theorem dispatch_cases (s : Scheduler) (byTimer : Bool) (answers : Answers) :
    s.disposed = true ∧
        s.dispatch byTimer answers = s.noteFiring byTimer .disposed ∨
      s.disposed = false ∧ answers.enabled = false ∧
        s.dispatch byTimer answers =
          (s.clearPending .disabled).noteFiring byTimer .disabled ∨
      answers.blocked = true ∧
        s.dispatch byTimer answers = s.noteFiring byTimer .blocked ∨
      s.pending = [] ∧
        s.dispatch byTimer answers = s.noteFiring byTimer .nothing ∨
      s.disposed = false ∧ answers.enabled = true ∧ answers.blocked = false ∧
        s.pending ≠ [] ∧
        s.dispatch byTimer answers =
          (s.startRun answers.started).noteFiring byTimer .started := by
  unfold dispatch
  by_cases hdisposed : s.disposed = true
  · exact Or.inl ⟨hdisposed, if_pos hdisposed⟩
  have hopen : s.disposed = false := by simpa using hdisposed
  rw [if_neg hdisposed]
  by_cases henabled : answers.enabled = false
  · exact Or.inr (Or.inl ⟨hopen, henabled, if_pos henabled⟩)
  rw [if_neg henabled]
  by_cases hblocked : answers.blocked = true
  · exact Or.inr (Or.inr (Or.inl ⟨hblocked, if_pos hblocked⟩))
  rw [if_neg hblocked]
  by_cases hempty : s.pending = []
  · exact Or.inr (Or.inr (Or.inr (Or.inl ⟨hempty, if_pos hempty⟩)))
  · exact Or.inr (Or.inr (Or.inr (Or.inr
      ⟨hopen, by simpa using henabled, by simpa using hblocked, hempty, if_neg hempty⟩)))

theorem dispatch_outcome (s : Scheduler) (byTimer : Bool) (answers : Answers) :
    (exists found, s.dispatch byTimer answers = s.noteFiring byTimer found) ∨
      s.dispatch byTimer answers =
        (s.clearPending .disabled).noteFiring byTimer .disabled ∨
      (s.disposed = false ∧ answers.enabled = true ∧ answers.blocked = false) ∧
        s.pending ≠ [] ∧
        s.dispatch byTimer answers =
          (s.startRun answers.started).noteFiring byTimer .started := by
  rcases s.dispatch_cases byTimer answers with
    ⟨_, hcase⟩ | ⟨_, _, hcase⟩ | ⟨_, hcase⟩ | ⟨_, hcase⟩ |
      ⟨hopen, henabled, hfree, hqueued, hcase⟩
  · exact Or.inl ⟨_, hcase⟩
  · exact Or.inr (Or.inl hcase)
  · exact Or.inl ⟨_, hcase⟩
  · exact Or.inl ⟨_, hcase⟩
  · exact Or.inr (Or.inr ⟨⟨hopen, henabled, hfree⟩, hqueued, hcase⟩)

/-- What `arm` asks before it does anything. -/
def Armable (s : Scheduler) : Prop :=
  s.disposed = false ∧ s.timer = none ∧ s.running = false ∧ s.pending ≠ []

theorem arm_cases (s : Scheduler) (answers : Answers) :
    ¬ s.Armable ∧ s.arm answers = s ∨
      s.Armable ∧ s.deadline ≤ .at answers.armed ∧
        s.arm answers = s.fire false answers ∨
      s.Armable ∧ s.arm answers = s.setTimer := by
  have hguard : (s.disposed || s.timer.isSome || s.running || s.pending.isEmpty) = false <->
      s.Armable := by
    simp [Armable, and_assoc]
  unfold arm
  split
  · rename_i hrest
    apply Or.inl
    refine ⟨?_, rfl⟩
    intro harmable
    rw [hguard.mpr harmable] at hrest
    cases hrest
  rename_i hfree
  have harmable : s.Armable := hguard.mp (by simpa using hfree)
  split
  · rename_i hdeadline
    exact Or.inr (Or.inl ⟨harmable, hdeadline, rfl⟩)
  · exact Or.inr (Or.inr ⟨harmable, rfl⟩)

theorem advance_some {s t : Scheduler} {answers : Answers}
    (h : s.advance answers = some t) :
    t = { s with clock := answers.started } ∧ answers.entered ≤ answers.armed ∧
      answers.armed ≤ answers.started := by
  rcases Option.ite_none_right_eq_some.mp h with ⟨hclock, hnext⟩
  cases hnext
  exact ⟨rfl, hclock.2⟩

theorem expire_some {s t : Scheduler} {timer : TimerId} {answers : Answers}
    (h : s.expire timer answers = some t) :
    t = { s with timers := s.timers.filter (fun entry => entry.1 ≠ timer) } := by
  unfold expire at h
  split at h
  · cases h
  · rcases Option.ite_none_right_eq_some.mp h with ⟨_, hnext⟩
    cases hnext
    rfl

theorem call?_some {s : Scheduler} {token : Nat} {c : RunCall}
    (h : s.call? token = some c) : c ∈ s.calls ∧ c.token = token := by
  refine ⟨List.mem_of_find?_eq_some h, ?_⟩
  simpa using List.find?_some h

def Answers.Ordered (answers : Answers) : Prop :=
  answers.entered ≤ answers.armed ∧ answers.armed ≤ answers.started

inductive Performed (s : Scheduler) : SchedulerAction -> Scheduler -> Prop where
  | enqueue {uri : Uri} {answers : Answers} (hclock : Answers.Ordered answers) :
      Performed s (.enqueue uri answers)
        ({ s with clock := answers.started }.enqueue uri answers)
  | poke {answers : Answers} (hclock : Answers.Ordered answers) :
      Performed s (.poke answers) ({ s with clock := answers.started }.poke answers)
  | cancelPending : Performed s .cancelPending s.cancelPending
  | reset : Performed s .reset s.reset
  | dispose : Performed s .dispose s.dispose
  | fireTimer {timer : TimerId} {answers : Answers} {t : Scheduler}
      (hclock : Answers.Ordered answers)
      (hexpire : { s with clock := answers.started }.expire timer answers = some t) :
      Performed s (.fireTimer timer answers) (t.fire true answers)
  | settle {token : Nat} {settlement : Settlement} {c : RunCall}
      (hcall : s.call? token = some c) (hpromise : c.promise = .pending) :
      Performed s (.settle token settlement) (s.setPromise token (.settled settlement))
  | thenCallback {token : Nat} {settlement : Settlement} {c : RunCall}
      (hcall : s.call? token = some c) (hpromise : c.promise = .settled settlement) :
      Performed s (.thenCallback token) (s.thenCallback c settlement)
  | finallyCallback {token : Nat} {settlement : Settlement} {c : RunCall}
      {answers : Answers} (hcall : s.call? token = some c)
      (hpromise : c.promise = .handled settlement) (hclock : Answers.Ordered answers) :
      Performed s (.finallyCallback token answers)
        ({ s with clock := answers.started }.finallyCallback c settlement answers)

theorem performed {s t : Scheduler} {a : SchedulerAction} (h : s.perform a = some t) :
    Performed s a t := by
  cases a with
  | enqueue uri answers =>
    rcases Option.map_eq_some_iff.mp h with ⟨u, hadvance, hnext⟩
    rcases advance_some hadvance with ⟨hu, hclock⟩
    subst hu
    subst hnext
    exact .enqueue hclock
  | poke answers =>
    rcases Option.map_eq_some_iff.mp h with ⟨u, hadvance, hnext⟩
    rcases advance_some hadvance with ⟨hu, hclock⟩
    subst hu
    subst hnext
    exact .poke hclock
  | cancelPending =>
    cases h
    exact .cancelPending
  | reset =>
    cases h
    exact .reset
  | dispose =>
    cases h
    exact .dispose
  | fireTimer timer answers =>
    rcases Option.map_eq_some_iff.mp h with ⟨v, hexpire, hnext⟩
    rcases Option.bind_eq_some_iff.mp hexpire with ⟨u, hadvance, hexpired⟩
    rcases advance_some hadvance with ⟨hu, hclock⟩
    subst hu
    subst hnext
    exact .fireTimer hclock hexpired
  | settle token settlement =>
    simp only [perform] at h
    split at h
    · cases h
    · rename_i c hcall
      rcases Option.ite_none_right_eq_some.mp h with ⟨hpromise, hnext⟩
      cases hnext
      exact .settle hcall hpromise
  | thenCallback token =>
    simp only [perform] at h
    split at h
    · cases h
    · rename_i c hcall
      split at h
      · rename_i settlement hpromise
        cases h
        exact .thenCallback hcall hpromise
      · cases h
  | finallyCallback token answers =>
    simp only [perform] at h
    split at h
    · cases h
    · rename_i c hcall
      split at h
      · rename_i settlement hpromise
        rcases Option.map_eq_some_iff.mp h with ⟨u, hadvance, hnext⟩
        rcases advance_some hadvance with ⟨hu, hclock⟩
        subst hu
        subst hnext
        exact .finallyCallback hcall hpromise hclock
      · cases h

end Scheduler
end Editor
end JavaVsixLite
