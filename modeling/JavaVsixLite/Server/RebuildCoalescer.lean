import Mathlib.Logic.Function.Basic
import JavaVsixLite.Foundation.Runs

/-!
# Rebuilding the classpath

A change of a build file is announced to the server, which rebuilds the
classpath once the announcements have settled.  The first announcement makes its
handler the driver of that; later ones only leave a mark.  The command that
rebuilds the classpath at once, and the first use of the classpath, go their own
ways.

Each await of the driver is a point where everything else may happen.  A rebuild
reads the build files when it begins: what it read is known by how many changes
had been made by then.
-/

namespace JavaVsixLite
namespace Server

open Foundation

structure RebuildCoalescer where
  driving : Bool
  dirty : Bool
  inFlight : Bool

namespace RebuildCoalescer

def new : RebuildCoalescer where
  driving := false
  dirty := false
  inFlight := false

def onEvent (c : RebuildCoalescer) : Bool × RebuildCoalescer :=
  if c.driving then (false, { c with dirty := true })
  else (true, { c with driving := true })

def onDebounceElapsed (c : RebuildCoalescer) : Bool × RebuildCoalescer :=
  if c.dirty then (false, { c with dirty := false })
  else (true, { c with inFlight := true })

def onRebuildFinished (c : RebuildCoalescer) : Bool × RebuildCoalescer :=
  if c.dirty then (true, { c with inFlight := false, dirty := false })
  else (false, { c with inFlight := false, driving := false })

end RebuildCoalescer

abbrev TaskId := Nat

/-- How many changes of build files had been made when a rebuild began to read. -/
abbrev Reading := Nat

/-- Where a driver awaits; `starting` and `reporting` write to the log. -/
inductive DriverPhase where
  | debouncing
  | starting
  | rebuilding (reading : Reading)
  | reporting

def DriverPhase.inFlight : DriverPhase -> Bool
  | .debouncing => false
  | _ => true

/--
`commands` are the rebuilds of the command under way; `firstBuild` is the build on
the first use, which holds the lock of the classpath.
-/
structure Rebuilds where
  coalescer : RebuildCoalescer
  drivers : TaskId -> Option DriverPhase
  commands : TaskId -> Option Reading
  firstBuild : Option Reading
  changes : Nat
  announced : Nat
  installed : Option Reading

/-- `announce` tells of the changes made so far, or of the first ones of them. -/
inductive RebuildAction where
  | change
  | announce (task : TaskId) (upTo : Nat)
  | debounceElapsed (task : TaskId)
  | rebuildStarted (task : TaskId)
  | rebuildDone (task : TaskId)
  | rebuildFinished (task : TaskId)
  | commandStarted (task : TaskId)
  | commandDone (task : TaskId)
  | firstUse
  | firstBuilt
deriving DecidableEq

namespace Rebuilds

def initial : Rebuilds where
  coalescer := .new
  drivers := fun _ => none
  commands := fun _ => none
  firstBuild := none
  changes := 0
  announced := 0
  installed := none

def setDriver (s : Rebuilds) (task : TaskId) (phase : Option DriverPhase) : Rebuilds :=
  { s with drivers := Function.update s.drivers task phase }

def setCommand (s : Rebuilds) (task : TaskId) (reading : Option Reading) : Rebuilds :=
  { s with commands := Function.update s.commands task reading }

def announce (s : Rebuilds) (task : TaskId) (upTo : Nat) : Rebuilds :=
  let answered := s.coalescer.onEvent
  let told := { s with coalescer := answered.2, announced := upTo }
  if answered.1 then told.setDriver task (some .debouncing) else told

def debounceElapsed (s : Rebuilds) (task : TaskId) : Rebuilds :=
  let answered := s.coalescer.onDebounceElapsed
  { s with coalescer := answered.2 }.setDriver task
    (some (if answered.1 then .starting else .debouncing))

def rebuildFinished (s : Rebuilds) (task : TaskId) : Rebuilds :=
  let answered := s.coalescer.onRebuildFinished
  { s with coalescer := answered.2 }.setDriver task
    (if answered.1 then some .debouncing else none)

def perform (s : Rebuilds) : RebuildAction -> Option Rebuilds
  | .change => some { s with changes := s.changes + 1 }
  | .announce task upTo =>
    if s.drivers task = none ∧ s.announced ≤ upTo ∧ upTo ≤ s.changes then
      some (s.announce task upTo)
    else none
  | .debounceElapsed task =>
    match s.drivers task with
    | some .debouncing => some (s.debounceElapsed task)
    | _ => none
  | .rebuildStarted task =>
    match s.drivers task with
    | some .starting => some (s.setDriver task (some (.rebuilding s.changes)))
    | _ => none
  | .rebuildDone task =>
    match s.drivers task, s.firstBuild with
    | some (.rebuilding reading), none =>
      some { s.setDriver task (some .reporting) with installed := some reading }
    | _, _ => none
  | .rebuildFinished task =>
    match s.drivers task with
    | some .reporting => some (s.rebuildFinished task)
    | _ => none
  | .commandStarted task =>
    match s.commands task with
    | none => some (s.setCommand task (some s.changes))
    | some _ => none
  | .commandDone task =>
    match s.commands task, s.firstBuild with
    | some reading, none =>
      some { s.setCommand task none with installed := some reading }
    | _, _ => none
  | .firstUse =>
    match s.installed, s.firstBuild with
    | none, none => some { s with firstBuild := some s.changes }
    | _, _ => none
  | .firstBuilt =>
    match s.firstBuild with
    | some reading => some { s with firstBuild := none, installed := some reading }
    | none => none

variable {s : Rebuilds} {d : Option (TaskId × DriverPhase)} {task : TaskId} {phase : DriverPhase}

theorem perform_cases {t : Rebuilds} {a : RebuildAction} (h : s.perform a = some t) :
    (a = .change ∧ t = { s with changes := s.changes + 1 }) ∨
    (exists task upTo, a = .announce task upTo ∧ s.announced ≤ upTo ∧ upTo ≤ s.changes ∧
      s.coalescer.driving = true ∧
      t = { s with coalescer := { s.coalescer with dirty := true }, announced := upTo }) ∨
    (exists task upTo, a = .announce task upTo ∧ s.announced ≤ upTo ∧ upTo ≤ s.changes ∧
      s.coalescer.driving = false ∧
      t = { s with
        coalescer := { s.coalescer with driving := true }
        announced := upTo }.setDriver task (some .debouncing)) ∨
    (exists task, a = .debounceElapsed task ∧ s.drivers task = some .debouncing ∧
      s.coalescer.dirty = true ∧
      t = { s with coalescer := { s.coalescer with dirty := false } }.setDriver task
        (some .debouncing)) ∨
    (exists task, a = .debounceElapsed task ∧ s.drivers task = some .debouncing ∧
      s.coalescer.dirty = false ∧
      t = { s with coalescer := { s.coalescer with inFlight := true } }.setDriver task
        (some .starting)) ∨
    (exists task, a = .rebuildStarted task ∧ s.drivers task = some .starting ∧
      t = s.setDriver task (some (.rebuilding s.changes))) ∨
    (exists task reading, a = .rebuildDone task ∧
      s.drivers task = some (.rebuilding reading) ∧ s.firstBuild = none ∧
      t = { s.setDriver task (some .reporting) with installed := some reading }) ∨
    (exists task, a = .rebuildFinished task ∧ s.drivers task = some .reporting ∧
      s.coalescer.dirty = true ∧
      t = { s with
        coalescer := { s.coalescer with inFlight := false, dirty := false } }.setDriver task
          (some .debouncing)) ∨
    (exists task, a = .rebuildFinished task ∧ s.drivers task = some .reporting ∧
      s.coalescer.dirty = false ∧
      t = { s with
        coalescer := { s.coalescer with inFlight := false, driving := false } }.setDriver
          task none) ∨
    (exists task, a = .commandStarted task ∧ s.commands task = none ∧
      t = s.setCommand task (some s.changes)) ∨
    (exists task reading, a = .commandDone task ∧ s.commands task = some reading ∧
      s.firstBuild = none ∧
      t = { s.setCommand task none with installed := some reading }) ∨
    (a = .firstUse ∧ s.installed = none ∧ s.firstBuild = none ∧
      t = { s with firstBuild := some s.changes }) ∨
    (exists reading, a = .firstBuilt ∧ s.firstBuild = some reading ∧
      t = { s with firstBuild := none, installed := some reading }) := by
  cases a with
  | change =>
    have ht := Option.some.inj h
    simp [← ht]
  | announce task upTo =>
    simp only [perform] at h
    split at h
    · rename_i hallowed
      have ht := Option.some.inj h
      cases hdriving : s.coalescer.driving with
      | true => simp [← ht, announce, RebuildCoalescer.onEvent, hdriving, hallowed]
      | false => simp [← ht, announce, RebuildCoalescer.onEvent, hdriving, hallowed]
    · cases h
  | debounceElapsed task =>
    simp only [perform] at h
    split at h
    · rename_i hphase
      have ht := Option.some.inj h
      cases hdirty : s.coalescer.dirty with
      | true =>
        simp [← ht, debounceElapsed, RebuildCoalescer.onDebounceElapsed, hdirty, hphase]
      | false =>
        simp [← ht, debounceElapsed, RebuildCoalescer.onDebounceElapsed, hdirty, hphase]
    · cases h
  | rebuildStarted task =>
    simp only [perform] at h
    split at h
    · rename_i hphase
      have ht := Option.some.inj h
      simp [← ht, hphase]
    · cases h
  | rebuildDone task =>
    simp only [perform] at h
    split at h
    · rename_i reading hphase hfirst
      have ht := Option.some.inj h
      simp [← ht, hphase, hfirst]
    · cases h
  | rebuildFinished task =>
    simp only [perform] at h
    split at h
    · rename_i hphase
      have ht := Option.some.inj h
      cases hdirty : s.coalescer.dirty with
      | true =>
        simp [← ht, rebuildFinished, RebuildCoalescer.onRebuildFinished, hdirty, hphase]
      | false =>
        simp [← ht, rebuildFinished, RebuildCoalescer.onRebuildFinished, hdirty, hphase]
    · cases h
  | commandStarted task =>
    simp only [perform] at h
    split at h
    · rename_i hnone
      have ht := Option.some.inj h
      simp [← ht, hnone]
    · cases h
  | commandDone task =>
    simp only [perform] at h
    split at h
    · rename_i reading hreading hfirst
      have ht := Option.some.inj h
      simp [← ht, hreading, hfirst]
    · cases h
  | firstUse =>
    simp only [perform] at h
    split at h
    · rename_i hinstalled hfirst
      have ht := Option.some.inj h
      simp [← ht, hinstalled, hfirst]
    · cases h
  | firstBuilt =>
    simp only [perform] at h
    split at h
    · rename_i reading hfirst
      have ht := Option.some.inj h
      simp [← ht, hfirst]
    · cases h

/-!
# The sole driver
-/

def onlyDriver : Option (TaskId × DriverPhase) -> TaskId -> Option DriverPhase
  | none => fun _ => none
  | some (task, phase) => Function.update (fun _ => none) task (some phase)

theorem onlyDriver_eq_some_iff : onlyDriver d task = some phase <-> d = some (task, phase) := by
  cases d with
  | none => simp [onlyDriver]
  | some driver =>
    rcases driver with ⟨other, otherPhase⟩
    by_cases h : task = other
    · subst h
      simp [onlyDriver]
    · simp [onlyDriver, Function.update_of_ne h, Ne.symm h]

/-- The flags of the coalescer tell whether there is a driver and where it is. -/
structure Driven (s : Rebuilds) (d : Option (TaskId × DriverPhase)) : Prop where
  drivers : s.drivers = onlyDriver d
  driving : s.coalescer.driving = d.isSome
  dirty : s.coalescer.dirty = true -> d.isSome = true
  inFlight : s.coalescer.inFlight = d.any (fun driver => driver.2.inFlight)

theorem driven_initial : Driven initial none :=
  ⟨rfl, rfl, (fun h => nomatch h), rfl⟩

theorem Driven.eq_some (h : Driven s d) (hphase : s.drivers task = some phase) :
    d = some (task, phase) := by
  rw [h.drivers] at hphase
  exact onlyDriver_eq_some_iff.mp hphase

theorem update_onlyDriver (task : TaskId) (phase : DriverPhase)
    (next : Option DriverPhase) :
    Function.update (onlyDriver (some (task, phase))) task next =
      onlyDriver (next.map (fun p => (task, p))) := by
  cases next with
  | none =>
    funext other
    by_cases h : other = task
    · subst h
      simp [onlyDriver]
    · simp [onlyDriver, Function.update_of_ne h]
  | some p => simp [onlyDriver]

theorem Driven.move {t : Rebuilds} (h : Driven s (some (task, phase))) (next : Option DriverPhase)
    (hdrivers : t.drivers = Function.update s.drivers task next)
    (hdriving : t.coalescer.driving = next.isSome)
    (hdirty : t.coalescer.dirty = true -> next.isSome = true)
    (hinFlight : t.coalescer.inFlight = next.any DriverPhase.inFlight) :
    Driven t (next.map (fun p => (task, p))) := by
  refine ⟨?_, ?_, ?_, ?_⟩
  · rw [hdrivers, h.drivers, update_onlyDriver]
  · rw [hdriving]
    cases next <;> rfl
  · intro h'
    have hnext := hdirty h'
    cases next with
    | none => cases hnext
    | some p => rfl
  · rw [hinFlight]
    cases next <;> rfl

theorem Driven.moved_eq_some {other : TaskId} {next : Option DriverPhase} {p : DriverPhase}
    (h : Driven s d) (hd : forall driver, d = some driver -> driver.1 = task)
    (hp : Function.update s.drivers task next other = some p) :
    other = task ∧ next = some p := by
  by_cases hother : other = task
  · subst hother
    rw [Function.update_self] at hp
    exact ⟨rfl, hp⟩
  · rw [Function.update_of_ne hother] at hp
    exact absurd (hd _ (h.eq_some hp)) hother

end Rebuilds

/-!
# No event is lost
-/

namespace RebuildAction

def isEvent : RebuildAction -> Prop
  | .announce _ _ => True
  | _ => False

def interrupts (task : TaskId) (a : RebuildAction) : Prop :=
  a.isEvent ∨ a = .rebuildStarted task ∨ a = .rebuildDone task

/-- A rebuild of a driver has started after the last event and been completed. -/
def Completed (past : List RebuildAction) : Prop :=
  exists task before during after,
    past = before ++ .rebuildStarted task :: (during ++ .rebuildDone task :: after) ∧
    (forall a, a ∈ during -> ¬ a.interrupts task) ∧ forall a, a ∈ after -> ¬ a.isEvent

theorem Completed.snoc {past : List RebuildAction} (h : Completed past) {a : RebuildAction}
    (ha : ¬ a.isEvent) : Completed (past ++ [a]) := by
  rcases h with ⟨task, before, during, after, rfl, hduring, hafter⟩
  refine ⟨task, before, during, after ++ [a], by simp, hduring, ?_⟩
  intro b hb
  rcases List.mem_append.mp hb with hb | hb
  · exact hafter b hb
  · rw [List.mem_singleton.mp hb]
    exact ha

theorem completed_of_since {past : List RebuildAction} {task : TaskId}
    (h : Run.Since (fun a => a = .rebuildStarted task) (interrupts task) past) :
    Completed (past ++ [.rebuildDone task]) := by
  rcases h with ⟨before, a, during, rfl, rfl, hduring⟩
  refine ⟨task, before, during, [], by simp, hduring, ?_⟩
  intro b hb
  cases hb

end RebuildAction

namespace Rebuilds

open RebuildAction

/-- Unless an event has left its mark, the rebuild under way or just made covers them all. -/
structure Covered (past : List RebuildAction) (s : Rebuilds)
    (d : Option (TaskId × DriverPhase)) : Prop where
  driven : Driven s d
  rebuilding : forall task reading, d = some (task, .rebuilding reading) ->
    s.coalescer.dirty = false ->
      Run.Since (fun a => a = .rebuildStarted task) (interrupts task) past
  reporting : forall task, d = some (task, .reporting) -> s.coalescer.dirty = false ->
    Completed past
  idle : d = none -> (exists a, a ∈ past ∧ a.isEvent) -> Completed past

theorem covered_initial : Covered [] initial none := by
  refine ⟨driven_initial, ?_, ?_, ?_⟩
  · intro task reading h
    cases h
  · intro task h
    cases h
  · rintro _ ⟨a, ha, _⟩
    cases ha

variable {past : List RebuildAction} {s : Rebuilds}

theorem Covered.beside {t : Rebuilds} {d : Option (TaskId × DriverPhase)} (h : Covered past s d)
    {a : RebuildAction} (hevent : ¬ a.isEvent) (hstep : forall task, ¬ a.interrupts task)
    (hcoalescer : t.coalescer = s.coalescer) (hdrivers : t.drivers = s.drivers) :
    Covered (past ++ [a]) t d := by
  refine ⟨⟨hdrivers.trans h.driven.drivers, ?_, ?_, ?_⟩, ?_, ?_, ?_⟩
  · rw [hcoalescer]
    exact h.driven.driving
  · rw [hcoalescer]
    exact h.driven.dirty
  · rw [hcoalescer]
    exact h.driven.inFlight
  · intro task reading hd hclean
    rw [hcoalescer] at hclean
    exact (h.rebuilding task reading hd hclean).snoc (hstep task)
  · intro task hd hclean
    rw [hcoalescer] at hclean
    exact (h.reporting task hd hclean).snoc hevent
  · rintro hd ⟨b, hb, hbevent⟩
    rcases List.mem_append.mp hb with hb | hb
    · exact (h.idle hd ⟨b, hb, hbevent⟩).snoc hevent
    · rw [List.mem_singleton.mp hb] at hbevent
      exact absurd hbevent hevent

theorem Covered.of_waiting {task : TaskId} {phase : DriverPhase} (h : Driven s (some (task, phase)))
    (hphase : phase = .debouncing ∨ phase = .starting) :
    Covered past s (some (task, phase)) := by
  refine ⟨h, ?_, ?_, ?_⟩
  · intro other reading hd
    rcases hphase with rfl | rfl <;> cases hd
  · intro other hd
    rcases hphase with rfl | rfl <;> cases hd
  · intro hd
    cases hd

theorem covered_perform {t : Rebuilds} {a : RebuildAction} {d : Option (TaskId × DriverPhase)}
    (h : Covered past s d) (hstep : s.perform a = some t) :
    exists d', Covered (past ++ [a]) t d' := by
  rcases perform_cases hstep with ⟨rfl, rfl⟩ |
    ⟨task, upTo, rfl, _, _, hdriving, rfl⟩ | ⟨task, upTo, rfl, _, _, hidle, rfl⟩ |
    ⟨task, rfl, hphase, hdirty, rfl⟩ | ⟨task, rfl, hphase, hdirty, rfl⟩ |
    ⟨task, rfl, hphase, rfl⟩ | ⟨task, reading, rfl, hphase, _, rfl⟩ |
    ⟨task, rfl, hphase, hdirty, rfl⟩ | ⟨task, rfl, hphase, hdirty, rfl⟩ |
    ⟨task, rfl, _, rfl⟩ | ⟨task, reading, rfl, _, _, rfl⟩ | ⟨rfl, _, _, rfl⟩ |
    ⟨reading, rfl, _, rfl⟩
  · exact ⟨d, h.beside (by simp [isEvent]) (by simp [interrupts, isEvent]) rfl rfl⟩
  · -- the driver that is there finds the mark
    have hsome : d.isSome = true := h.driven.driving.symm.trans hdriving
    refine ⟨d, ⟨h.driven.drivers, h.driven.driving, fun _ => hsome, h.driven.inFlight⟩,
      ?_, ?_, ?_⟩
    · intro other reading _ hclean
      cases hclean
    · intro other _ hclean
      cases hclean
    · rintro rfl
      cases hsome
  · have hnone : d = none := by
      have hsome := h.driven.driving.symm.trans hidle
      simpa using hsome
    have hclean : s.coalescer.dirty = false := by
      cases hdirty : s.coalescer.dirty with
      | false => rfl
      | true =>
        have hsome := h.driven.dirty hdirty
        rw [hnone] at hsome
        cases hsome
    have hflight : s.coalescer.inFlight = false := by
      rw [h.driven.inFlight, hnone]
      rfl
    refine ⟨some (task, .debouncing), Covered.of_waiting ⟨?_, rfl, ?_, hflight⟩ (Or.inl rfl)⟩
    · show Function.update s.drivers task _ = _
      rw [h.driven.drivers, hnone]
      rfl
    · intro hdirty
      exact absurd (hclean.symm.trans hdirty) (by decide)
  · rcases h.driven.eq_some hphase with rfl
    refine ⟨some (task, .debouncing), Covered.of_waiting ?_ (Or.inl rfl)⟩
    exact h.driven.move (some .debouncing) rfl h.driven.driving (fun _ => rfl)
      h.driven.inFlight
  · rcases h.driven.eq_some hphase with rfl
    refine ⟨some (task, .starting), Covered.of_waiting ?_ (Or.inr rfl)⟩
    exact h.driven.move (some .starting) rfl h.driven.driving (fun _ => rfl) rfl
  · rcases h.driven.eq_some hphase with rfl
    have hmoved := h.driven.move (t := s.setDriver task (some (.rebuilding s.changes)))
      (some (.rebuilding s.changes)) rfl h.driven.driving (fun _ => rfl) h.driven.inFlight
    refine ⟨some (task, .rebuilding s.changes), hmoved, ?_, ?_, ?_⟩
    · intro other reading hd _
      cases hd
      exact Run.since_now past rfl
    · intro other hd
      cases hd
    · intro hd
      cases hd
  · rcases h.driven.eq_some hphase with rfl
    have hmoved := h.driven.move
      (t := { s.setDriver task (some .reporting) with installed := some reading })
      (some .reporting) rfl h.driven.driving (fun _ => rfl) h.driven.inFlight
    refine ⟨some (task, .reporting), hmoved, ?_, ?_, ?_⟩
    · intro other r hd
      cases hd
    · intro other _ hclean
      exact completed_of_since (h.rebuilding task reading rfl hclean)
    · intro hd
      cases hd
  · rcases h.driven.eq_some hphase with rfl
    refine ⟨some (task, .debouncing), Covered.of_waiting ?_ (Or.inl rfl)⟩
    exact h.driven.move (some .debouncing) rfl h.driven.driving (fun _ => rfl) rfl
  · rcases h.driven.eq_some hphase with rfl
    have hdone := h.reporting task rfl hdirty
    have hmoved : Driven ({ s with
        coalescer := { s.coalescer with inFlight := false, driving := false } }.setDriver
          task none) none := by
      refine h.driven.move none rfl rfl ?_ rfl
      intro hmark
      exact absurd (hdirty.symm.trans hmark) (by decide)
    refine ⟨none, hmoved, ?_, ?_, ?_⟩
    · intro other reading hd
      cases hd
    · intro other hd
      cases hd
    · intro _ _
      exact hdone.snoc (by simp [isEvent])
  · exact ⟨d, h.beside (by simp [isEvent]) (by simp [interrupts, isEvent]) rfl rfl⟩
  · exact ⟨d, h.beside (by simp [isEvent]) (by simp [interrupts, isEvent]) rfl rfl⟩
  · exact ⟨d, h.beside (by simp [isEvent]) (by simp [interrupts, isEvent]) rfl rfl⟩
  · exact ⟨d, h.beside (by simp [isEvent]) (by simp [interrupts, isEvent]) rfl rfl⟩

theorem covered_run {as : List RebuildAction} (hrun : run perform initial as = some s) :
    exists d, Covered as s d :=
  Run.history (fun past u => exists d, Covered past u d)
    (fun _ _ _ _ ⟨_, h⟩ hstep => covered_perform h hstep) ⟨none, covered_initial⟩ hrun

/--
At most one driver, at most one rebuild of a driver, a rebuild only under a
driver; and when there is no driver after an event, some rebuild has started
after the last event and been completed.
-/
theorem coalescing_loses_no_event (as : List RebuildAction) (s : Rebuilds)
    (hrun : run perform initial as = some s) :
    (forall task other, s.drivers task ≠ none -> s.drivers other ≠ none -> task = other) ∧
      (forall task other reading otherReading,
        s.drivers task = some (.rebuilding reading) ->
        s.drivers other = some (.rebuilding otherReading) -> task = other) ∧
      (s.coalescer.inFlight = true -> s.coalescer.driving = true) ∧
      (s.coalescer.driving = true <-> exists task, s.drivers task ≠ none) ∧
      (s.coalescer.driving = false -> (exists a, a ∈ as ∧ a.isEvent) -> Completed as) := by
  rcases covered_run hrun with ⟨d, h⟩
  have hsole : forall task other, s.drivers task ≠ none -> s.drivers other ≠ none ->
      task = other := by
    intro task other htask hother
    rcases Option.ne_none_iff_exists'.mp htask with ⟨phase, hphase⟩
    rcases Option.ne_none_iff_exists'.mp hother with ⟨otherPhase, hotherPhase⟩
    have hd := h.driven.eq_some hphase
    rw [h.driven.eq_some hotherPhase] at hd
    cases hd
    rfl
  refine ⟨hsole, ?_, ?_, ?_, ?_⟩
  · intro task other reading otherReading htask hother
    refine hsole task other ?_ ?_
    · simp [htask]
    · simp [hother]
  · intro hflight
    rw [h.driven.inFlight] at hflight
    rw [h.driven.driving]
    cases d with
    | none => cases hflight
    | some driver => rfl
  · rw [h.driven.driving, h.driven.drivers]
    cases d with
    | none => simp [onlyDriver]
    | some driver =>
      constructor
      · intro _
        refine ⟨driver.1, ?_⟩
        simp [onlyDriver]
      · intro _
        rfl
  · intro hidle hevent
    refine h.idle ?_ hevent
    have hnone := h.driven.driving.symm.trans hidle
    simpa using hnone

def eventDuringRebuild : List RebuildAction :=
  [.change, .announce 0 1, .debounceElapsed 0, .rebuildStarted 0, .change, .announce 1 2,
    .rebuildDone 0, .rebuildFinished 0, .debounceElapsed 0, .rebuildStarted 0,
    .rebuildDone 0, .rebuildFinished 0]

theorem coalescing_loses_no_event_during_rebuild :
    exists s, run perform initial eventDuringRebuild = some s ∧
      s.coalescer.driving = false ∧ Completed eventDuringRebuild := by
  refine ⟨_, rfl, rfl, ?_⟩
  refine (coalescing_loses_no_event eventDuringRebuild _ rfl).2.2.2.2 rfl ?_
  exact ⟨.announce 0 1, by decide, trivial⟩

end Rebuilds

end Server
end JavaVsixLite
