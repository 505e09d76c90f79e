import Mathlib.Logic.Function.Basic
import JavaVsixLite.Foundation.Runs

/-!
# The compiler's process and the shutdown

A check runs on a thread of its own: it spawns the compiler, puts the child into
a slot that the server shares, and polls the slot until the child is gone, the
time is over, or the slot is empty.  The shutdown kills what is in the slot.

A cancelled request gives the check free while its thread goes on, so several
runs may share the slot.  The lock of the slot makes each of its uses one step.
-/

namespace JavaVsixLite
namespace Javac

open Foundation

abbrev RunId := Nat

inductive PollResult where
  | exited
  | timedOut
  | cancelled
deriving DecidableEq

/-- The texts of `completed` and `spawnError` are left out. -/
inductive RunOutcome where
  | completed
  | timedOut
  | cancelled
  | spawnError
deriving DecidableEq

/-- Where a run is: `spawned` has a child that is not in the slot yet. -/
inductive RunPhase where
  | preparing
  | spawned
  | polling
  | polled (result : PollResult)
  | finished (outcome : RunOutcome)
deriving DecidableEq

/-- A child is named by the run that spawned it; `alive` are the children that run. -/
structure Checks where
  runs : RunId -> Option RunPhase
  slot : Option RunId
  alive : RunId -> Bool
  shutdown : Bool
  exited : Bool

/--
`spawnFails` is every return before there is a child, `pollFails` a failing
`try_wait`; `childExit` is the compiler's own end.
-/
inductive CheckAction where
  | start (run : RunId)
  | spawnFails (run : RunId)
  | spawn (run : RunId)
  | store (run : RunId)
  | poll (run : RunId)
  | pollFails (run : RunId)
  | timeOut (run : RunId)
  | finish (run : RunId)
  | childExit (run : RunId)
  | shutdown
  | exit

def PollResult.outcome : PollResult -> RunOutcome
  | .exited => .completed
  | .timedOut => .timedOut
  | .cancelled => .cancelled

namespace Checks

def initial : Checks where
  runs := fun _ => none
  slot := none
  alive := fun _ => false
  shutdown := false
  exited := false

def setRun (s : Checks) (run : RunId) (phase : RunPhase) : Checks :=
  { s with runs := Function.update s.runs run (some phase) }

def setAlive (s : Checks) (run : RunId) (running : Bool) : Checks :=
  { s with alive := Function.update s.alive run running }

def killRunningChild (s : Checks) : Checks :=
  match s.slot with
  | none => s
  | some child => { s.setAlive child false with slot := none }

/-- One look at the slot; a child that is still running is polled again. -/
def poll (s : Checks) (run : RunId) : Checks :=
  match s.slot with
  | none => s.setRun run (.polled .cancelled)
  | some child => if s.alive child then s else s.setRun run (.polled .exited)

def performServer (s : Checks) : CheckAction -> Option Checks
  | .start run =>
    if s.runs run = none then some (s.setRun run .preparing) else none
  | .spawnFails run =>
    if s.runs run = some .preparing then some (s.setRun run (.finished .spawnError))
    else none
  | .spawn run =>
    if s.runs run = some .preparing then
      some ((s.setRun run .spawned).setAlive run true)
    else none
  | .store run =>
    if s.runs run = some .spawned then
      some { s.setRun run .polling with slot := some run }
    else none
  | .poll run =>
    if s.runs run = some .polling then some (s.poll run) else none
  | .pollFails run =>
    if s.runs run = some .polling ∧ s.slot ≠ none then
      some (s.setRun run (.polled .exited))
    else none
  | .timeOut run =>
    if s.runs run = some .polling then
      some (s.killRunningChild.setRun run (.polled .timedOut))
    else none
  | .finish run =>
    match s.runs run with
    | some (.polled result) => some (s.setRun run (.finished result.outcome))
    | _ => none
  | .childExit run => some (s.setAlive run false)
  | .shutdown => some { s.killRunningChild with shutdown := true }
  | .exit => some { s with exited := true }

/-- After the end of the process only the children go on. -/
def perform (s : Checks) (a : CheckAction) : Option Checks :=
  if s.exited then
    match a with
    | .childExit run => some (s.setAlive run false)
    | _ => none
  else s.performServer a

/-- Every run has come to its end. -/
def AllFinished (s : Checks) : Prop :=
  forall run phase, s.runs run = some phase -> exists outcome, phase = .finished outcome

/-- The run has a child that nobody took from the slot, and has not come to its end. -/
def HoldsChild (s : Checks) (run : RunId) : Prop :=
  s.runs run = some .spawned ∨ s.runs run = some .polling ∧ s.slot = some run

/--
A child is not stored over one that still runs; after the shutdown no `try_wait`
fails on a child that still runs, and the process does not end before a run whose
child the shutdown missed.
-/
def NoneMissed (s : Checks) : CheckAction -> Prop
  | .store _ => forall child, s.slot = some child -> s.alive child = false
  | .pollFails _ => s.shutdown = true ->
      forall child, s.slot = some child -> s.alive child = false
  | .exit => s.shutdown = true -> forall run, ¬ s.HoldsChild run
  | _ => True

/-!
# Every running child can still be reached
-/

/-- Before the shutdown the slot may also keep a child whose run gave up polling it. -/
structure Accounted (s : Checks) : Prop where
  owned : forall run, s.alive run = true ->
    s.runs run = some .spawned ∨
      s.slot = some run ∧ s.runs run ≠ none ∧ s.runs run ≠ some .preparing
  held : s.shutdown = true -> forall run, s.alive run = true -> s.HoldsChild run
  gone : s.shutdown = true -> s.exited = true -> forall run, s.alive run = false

theorem accounted_initial : Accounted initial := by
  constructor
  · intro run h
    cases h
  · intro h
    cases h
  · intro h
    cases h

/-- A run without a child moves on, or before the shutdown one whose child is in the slot. -/
theorem Accounted.setRun {s : Checks} (h : Accounted s) {run : RunId} {phase : RunPhase}
    (hrun : s.alive run = true ->
      s.shutdown = false ∧ s.slot = some run ∧ phase ≠ .preparing) :
    Accounted (s.setRun run phase) := by
  constructor
  · intro other hother
    by_cases hsame : other = run
    · subst hsame
      rcases hrun hother with ⟨_, hslot, hphase⟩
      apply Or.inr
      simp only [Checks.setRun, Function.update_self]
      exact ⟨hslot, Option.some_ne_none phase, fun hp => hphase (Option.some.inj hp)⟩
    · simp only [Checks.setRun, Function.update_of_ne hsame]
      exact h.owned other hother
  · intro hshutdown other hother
    by_cases hsame : other = run
    · subst hsame
      have hdown : s.shutdown = true := hshutdown
      rw [(hrun hother).1] at hdown
      cases hdown
    · simp only [HoldsChild, Checks.setRun, Function.update_of_ne hsame]
      exact h.held hshutdown other hother
  · exact h.gone

theorem Accounted.in_slot {s : Checks} (h : Accounted s) {run : RunId}
    (hrun : s.runs run ≠ some .spawned) (hrunning : s.alive run = true) :
    s.slot = some run := by
  rcases h.owned run hrunning with hspawned | ⟨hslot, _⟩
  · exact absurd hspawned hrun
  · exact hslot

theorem Accounted.moveOn {s : Checks} (h : Accounted s) {run : RunId} {phase : RunPhase}
    (hrun : s.runs run ≠ some .spawned) (hphase : phase ≠ .preparing)
    (hdown : s.shutdown = true -> s.slot = some run -> ¬ s.alive run = true) :
    Accounted (s.setRun run phase) := by
  apply h.setRun
  intro hrunning
  have hslot : s.slot = some run := h.in_slot hrun hrunning
  refine ⟨?_, hslot, hphase⟩
  cases hshutdown : s.shutdown with
  | false => rfl
  | true => exact absurd hrunning (hdown hshutdown hslot)

theorem Accounted.setAlive_false {s : Checks} (h : Accounted s) (run : RunId) :
    Accounted (s.setAlive run false) := by
  have hkept : forall other, (s.setAlive run false).alive other = true ->
      s.alive other = true := by
    intro other hother
    by_cases hsame : other = run
    · subst hsame
      simp only [Checks.setAlive, Function.update_self] at hother
      cases hother
    · simpa only [Checks.setAlive, Function.update_of_ne hsame] using hother
  constructor
  · intro other hother
    exact h.owned other (hkept other hother)
  · intro hshutdown other hother
    exact h.held hshutdown other (hkept other hother)
  · intro hshutdown hexited other
    cases hother : (s.setAlive run false).alive other with
    | false => rfl
    | true =>
      have hrunning : s.alive other = true := hkept other hother
      rw [h.gone hshutdown hexited other] at hrunning
      cases hrunning

theorem Accounted.spawned_of_killed {s : Checks} (h : Accounted s) {run : RunId}
    (hrunning : s.killRunningChild.alive run = true) : s.runs run = some .spawned := by
  unfold killRunningChild at hrunning
  split at hrunning
  case h_1 hslot =>
    rcases h.owned run hrunning with hspawned | ⟨hmine, _⟩
    · exact hspawned
    · rw [hslot] at hmine
      cases hmine
  case h_2 child hslot =>
    by_cases hsame : run = child
    · subst hsame
      simp only [setAlive, Function.update_self] at hrunning
      cases hrunning
    · simp only [setAlive, Function.update_of_ne hsame] at hrunning
      rcases h.owned run hrunning with hspawned | ⟨hmine, _⟩
      · exact hspawned
      · rw [hslot] at hmine
        exact absurd (Option.some.inj hmine).symm hsame

@[simp] theorem killRunningChild_runs (s : Checks) : s.killRunningChild.runs = s.runs := by
  unfold killRunningChild
  split <;> rfl

@[simp] theorem killRunningChild_exited (s : Checks) :
    s.killRunningChild.exited = s.exited := by
  unfold killRunningChild
  split <;> rfl

theorem Accounted.kill {s : Checks} (h : Accounted s) (hexited : s.exited = false)
    (down : Bool) : Accounted { s.killRunningChild with shutdown := down } := by
  constructor
  · intro run hrunning
    apply Or.inl
    simpa using h.spawned_of_killed hrunning
  · intro _ run hrunning
    apply Or.inl
    simpa using h.spawned_of_killed hrunning
  · intro _ hgone
    simp only [killRunningChild_exited] at hgone
    rw [hexited] at hgone
    cases hgone

theorem Accounted.poll {s : Checks} (h : Accounted s) {run : RunId}
    (hrun : s.runs run = some .polling) : Accounted (s.poll run) := by
  have hslot : s.alive run = true -> s.slot = some run :=
    h.in_slot (by rw [hrun]; exact fun hp => nomatch hp)
  unfold Checks.poll
  split
  case h_1 hempty =>
    apply h.setRun
    intro hrunning
    rw [hslot hrunning] at hempty
    cases hempty
  case h_2 child hchild =>
    split
    · exact h
    · rename_i hdead
      apply h.setRun
      intro hrunning
      rw [hslot hrunning] at hchild
      cases hchild
      exact absurd hrunning hdead

theorem Accounted.spawn {s : Checks} (h : Accounted s) (hexited : s.exited = false)
    {run : RunId} (hrun : s.runs run = some .preparing) :
    Accounted ((s.setRun run .spawned).setAlive run true) := by
  constructor
  · intro other hother
    by_cases hsame : other = run
    · subst hsame
      apply Or.inl
      simp only [setAlive, Checks.setRun, Function.update_self]
    · simp only [setAlive, Checks.setRun, Function.update_of_ne hsame] at hother ⊢
      exact h.owned other hother
  · intro hshutdown other hother
    by_cases hsame : other = run
    · subst hsame
      apply Or.inl
      simp only [setAlive, Checks.setRun, Function.update_self]
    · simp only [HoldsChild, setAlive, Checks.setRun, Function.update_of_ne hsame]
        at hother ⊢
      exact h.held hshutdown other hother
  · intro _ hgone
    have hgone : s.exited = true := hgone
    rw [hexited] at hgone
    cases hgone

theorem Accounted.store {s : Checks} (h : Accounted s) (hexited : s.exited = false)
    {run : RunId} (hok : s.NoneMissed (.store run)) :
    Accounted { s.setRun run .polling with slot := some run } := by
  -- A child that was in the slot is gone, so the others have not been stored yet.
  have hothers : forall other, s.alive other = true -> s.runs other = some .spawned := by
    intro other hother
    rcases h.owned other hother with hspawned | ⟨hslot, _⟩
    · exact hspawned
    · rw [hok other hslot] at hother
      cases hother
  have hpolling : forall other, other = run ->
      (s.setRun run .polling).runs other = some .polling := by
    intro other hsame
    subst hsame
    simp only [Checks.setRun, Function.update_self]
  have hspawned : forall other, ¬ other = run -> s.alive other = true ->
      (s.setRun run .polling).runs other = some .spawned := by
    intro other hsame hother
    simp only [Checks.setRun, Function.update_of_ne hsame]
    exact hothers other hother
  constructor
  · intro other hother
    by_cases hsame : other = run
    · apply Or.inr
      rw [hpolling other hsame, hsame]
      exact ⟨rfl, (fun hp => nomatch hp), (fun hp => nomatch hp)⟩
    · exact Or.inl (hspawned other hsame hother)
  · intro _ other hother
    by_cases hsame : other = run
    · exact Or.inr ⟨hpolling other hsame, hsame ▸ rfl⟩
    · exact Or.inl (hspawned other hsame hother)
  · intro _ hgone
    have hgone : s.exited = true := hgone
    rw [hexited] at hgone
    cases hgone

theorem Accounted.not_alive {s : Checks} (h : Accounted s) {run : RunId}
    (hrun : s.runs run = none ∨ s.runs run = some .preparing) :
    ¬ s.alive run = true := by
  intro hrunning
  rcases h.owned run hrunning with hspawned | ⟨_, hsome, hprepared⟩
  · rw [hspawned] at hrun
    rcases hrun with hrun | hrun
    · cases hrun
    · cases hrun
  · rcases hrun with hrun | hrun
    · exact hsome hrun
    · exact hprepared hrun

theorem Accounted.performServer {s t : Checks} {a : CheckAction} (h : Accounted s)
    (hexited : s.exited = false) (hok : s.NoneMissed a)
    (hstep : s.performServer a = some t) : Accounted t := by
  cases a with
  | start run =>
    rcases Option.ite_none_right_eq_some.mp hstep with ⟨hrun, hnext⟩
    cases hnext
    exact h.setRun (fun hrunning => absurd hrunning (h.not_alive (Or.inl hrun)))
  | spawnFails run =>
    rcases Option.ite_none_right_eq_some.mp hstep with ⟨hrun, hnext⟩
    cases hnext
    exact h.setRun (fun hrunning => absurd hrunning (h.not_alive (Or.inr hrun)))
  | spawn run =>
    rcases Option.ite_none_right_eq_some.mp hstep with ⟨hrun, hnext⟩
    cases hnext
    exact h.spawn hexited hrun
  | store run =>
    rcases Option.ite_none_right_eq_some.mp hstep with ⟨_, hnext⟩
    cases hnext
    exact h.store hexited hok
  | poll run =>
    rcases Option.ite_none_right_eq_some.mp hstep with ⟨hrun, hnext⟩
    cases hnext
    exact h.poll hrun
  | pollFails run =>
    rcases Option.ite_none_right_eq_some.mp hstep with ⟨⟨hrun, _⟩, hnext⟩
    cases hnext
    apply h.moveOn (by simp [hrun]) (by simp)
    intro hdown hslot hrunning
    rw [hok hdown run hslot] at hrunning
    cases hrunning
  | timeOut run =>
    rcases Option.ite_none_right_eq_some.mp hstep with ⟨hrun, hnext⟩
    cases hnext
    apply (h.kill hexited s.killRunningChild.shutdown).setRun
    intro hrunning
    rw [h.spawned_of_killed hrunning] at hrun
    cases hrun
  | finish run =>
    simp only [Checks.performServer] at hstep
    split at hstep
    · rename_i result hrun
      cases hstep
      apply h.moveOn (by simp [hrun]) (by simp)
      intro hdown _ hrunning
      rcases h.held hdown run hrunning with hheld | ⟨hheld, _⟩
      · rw [hrun] at hheld
        cases hheld
      · rw [hrun] at hheld
        cases hheld
    · cases hstep
  | childExit run =>
    cases hstep
    exact h.setAlive_false run
  | shutdown =>
    cases hstep
    exact h.kill hexited true
  | exit =>
    cases hstep
    refine ⟨h.owned, h.held, ?_⟩
    intro hdown _ run
    cases hrunning : s.alive run with
    | false => rfl
    | true => exact absurd (h.held hdown run hrunning) (hok hdown run)

theorem Accounted.perform {s t : Checks} {a : CheckAction} (h : Accounted s)
    (hok : s.NoneMissed a) (hstep : s.perform a = some t) : Accounted t := by
  unfold Checks.perform at hstep
  split at hstep
  · split at hstep
    · cases hstep
      exact h.setAlive_false _
    · cases hstep
  · rename_i hexited
    exact h.performServer (by simpa using hexited) hok hstep

/-- Once the process or all its runs have ended after the shutdown, no child runs. -/
theorem no_child_outlives_shutdown {actions : List CheckAction} {s : Checks}
    (hok : Guarded perform NoneMissed initial actions)
    (hrun : run perform initial actions = some s) (hdown : s.shutdown = true)
    (hend : s.exited = true ∨ s.AllFinished) : forall run, s.alive run = false := by
  have haccounted : Accounted s :=
    Run.guarded_invariant Accounted (fun _ _ _ h hok hstep => h.perform hok hstep)
      accounted_initial hok hrun
  intro run
  rcases hend with hexited | hfinished
  · exact haccounted.gone hdown hexited run
  · cases hrunning : s.alive run with
    | false => rfl
    | true =>
      rcases haccounted.held hdown run hrunning with hheld | ⟨hheld, _⟩
      · rcases hfinished run _ hheld with ⟨_, hphase⟩
        cases hphase
      · rcases hfinished run _ hheld with ⟨_, hphase⟩
        cases hphase

/-- The shutdown finds the child in the slot; the run sees the empty slot and ends. -/
def reachedCheck : List CheckAction :=
  [.start 0, .spawn 0, .store 0, .poll 0, .shutdown, .poll 0, .finish 0, .exit]

theorem no_child_outlives_reached_check :
    exists s, run perform initial reachedCheck = some s ∧ s.exited = true ∧
      s.runs 0 = some (.finished .cancelled) ∧ forall run, s.alive run = false := by
  have hok : Guarded perform NoneMissed initial reachedCheck := by
    refine ⟨trivial, trivial, ?_, trivial, trivial, trivial, trivial, ?_, trivial⟩
    · intro child hchild
      cases hchild
    · intro _ run hheld
      -- Run 0 has finished and there is no other.
      rcases hheld with hspawned | ⟨_, hslot⟩
      · by_cases hzero : run = 0
        · subst hzero
          cases hspawned
        · simp [killRunningChild, poll, setRun, setAlive, initial, hzero] at hspawned
      · cases hslot
  exact ⟨_, rfl, rfl, rfl, no_child_outlives_shutdown hok rfl rfl (Or.inl rfl)⟩

/-- The shutdown comes between the spawn and the store, and the process then ends. -/
theorem child_outlives_shutdown :
    exists s, run perform initial [.start 0, .spawn 0, .shutdown, .exit] = some s ∧
      s.shutdown = true ∧ s.exited = true ∧ s.alive 0 = true :=
  ⟨_, rfl, rfl, rfl, rfl⟩

end Checks
end Javac
end JavaVsixLite
