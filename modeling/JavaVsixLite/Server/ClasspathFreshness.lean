import JavaVsixLite.Server.RebuildCoalescer

/-!
# The installed classpath and the last announced change

The driver's rebuilds follow the announcements.  A rebuild of the command may
have begun before a change and be installed after the driver's: whether it may
then stay depends on what is still to be installed.
-/

namespace JavaVsixLite
namespace Server

open Foundation

namespace Rebuilds

/-- The installed classpath was read after the last change that was announced. -/
def Fresh (s : Rebuilds) : Prop :=
  exists reading, s.installed = some reading ∧ s.announced ≤ reading

/-- An event is accounted for by no rebuild yet. -/
def EventPending (s : Rebuilds) : Prop :=
  s.coalescer.dirty = true ∨
    exists task, s.drivers task = some .debouncing ∨ s.drivers task = some .starting

/-- A rebuild that began after the last announced change is still to be installed. -/
def FreshComing (s : Rebuilds) : Prop :=
  s.EventPending ∨
    (exists task reading, s.drivers task = some (.rebuilding reading) ∧
      s.announced ≤ reading) ∨
    exists task reading, s.commands task = some reading ∧ s.announced ≤ reading

def RebuildRunning (s : Rebuilds) : Prop :=
  (exists task reading, s.drivers task = some (.rebuilding reading)) ∨
    (exists task reading, s.commands task = some reading) ∨ s.firstBuild ≠ none

/-- A command installs what it read after the last announced change, or not as the last. -/
def CommandsInTime (s : Rebuilds) (a : RebuildAction) : Prop :=
  match a with
  | .commandDone task =>
    forall reading, s.commands task = some reading ->
      s.announced ≤ reading ∨ (s.setCommand task none).FreshComing
  | _ => True

/-- Nothing is announced, or the classpath is fresh, or a fresh one is coming. -/
structure UpToDate (s : Rebuilds) : Prop where
  bounded : s.announced ≤ s.changes
  rebuilding : forall task reading, s.drivers task = some (.rebuilding reading) ->
    s.coalescer.dirty = true ∨ s.announced ≤ reading
  locked : s.firstBuild ≠ none -> s.installed = none
  current : s.announced = 0 ∨ s.Fresh ∨ s.FreshComing

theorem upToDate_initial : UpToDate initial := by
  refine ⟨Nat.le_refl 0, ?_, ?_, Or.inl rfl⟩
  · intro task reading h
    cases h
  · intro h
    exact absurd rfl h

/-- While the first build holds the lock, a fresh classpath can only be coming. -/
theorem UpToDate.coming_of_locked {s : Rebuilds} (h : UpToDate s)
    (hlocked : s.firstBuild ≠ none) : s.announced = 0 ∨ s.FreshComing := by
  rcases h.current with hzero | ⟨reading, hinstalled, _⟩ | hcoming
  · exact Or.inl hzero
  · rw [h.locked hlocked] at hinstalled
    cases hinstalled
  · exact Or.inr hcoming

theorem FreshComing.mono {s t : Rebuilds} (h : s.FreshComing)
    (hdirty : t.coalescer.dirty = s.coalescer.dirty) (hdrivers : t.drivers = s.drivers)
    (hcommands : forall task reading, s.commands task = some reading ->
      t.commands task = some reading) (hannounced : t.announced = s.announced) :
    t.FreshComing := by
  unfold FreshComing EventPending
  rw [hdirty, hdrivers, hannounced]
  rcases h with hpending | hdriver | ⟨task, reading, hcommand, hfresh⟩
  · exact Or.inl hpending
  · exact Or.inr (Or.inl hdriver)
  · exact Or.inr (Or.inr ⟨task, reading, hcommands task reading hcommand, hfresh⟩)

section Step

variable {s t : Rebuilds} {task : TaskId} {phase : DriverPhase}

theorem pending_of_debouncing (h : t.drivers task = some .debouncing) : t.FreshComing :=
  Or.inl (Or.inr ⟨task, Or.inl h⟩)

theorem pending_of_starting (h : t.drivers task = some .starting) : t.FreshComing :=
  Or.inl (Or.inr ⟨task, Or.inr h⟩)

theorem UpToDate.moved {d : Option (TaskId × DriverPhase)} {next : Option DriverPhase}
    (h : UpToDate s) (hdriven : Driven s d)
    (hd : forall driver, d = some driver -> driver.1 = task)
    (hdrivers : t.drivers = Function.update s.drivers task next)
    (hnext : forall reading, next = some (.rebuilding reading) -> t.announced ≤ reading)
    (hbounded : t.announced ≤ t.changes) (hlocked : t.firstBuild = s.firstBuild)
    (hinstalled : s.firstBuild ≠ none -> t.installed = s.installed)
    (hcurrent : t.announced = 0 ∨ t.Fresh ∨ t.FreshComing) : UpToDate t := by
  refine ⟨hbounded, ?_, ?_, hcurrent⟩
  · intro other reading hother
    rw [hdrivers] at hother
    exact Or.inr (hnext reading (hdriven.moved_eq_some hd hother).2)
  · intro hbuilding
    rw [hlocked] at hbuilding
    rw [hinstalled hbuilding]
    exact h.locked hbuilding

end Step

theorem upToDate_perform {s t : Rebuilds} {a : RebuildAction}
    {d : Option (TaskId × DriverPhase)} (hdriven : Driven s d) (h : UpToDate s)
    (hok : CommandsInTime s a) (hstep : s.perform a = some t) : UpToDate t := by
  have hsole : forall task phase, s.drivers task = some phase ->
      forall driver, d = some driver -> driver.1 = task := by
    intro task phase hphase driver hdriver
    rw [hdriven.eq_some hphase] at hdriver
    cases hdriver
    rfl
  rcases perform_cases hstep with ⟨rfl, rfl⟩ |
    ⟨task, upTo, rfl, _, hbound, hdriving, rfl⟩ | ⟨task, upTo, rfl, _, hbound, hidle, rfl⟩ |
    ⟨task, rfl, hphase, hdirty, rfl⟩ | ⟨task, rfl, hphase, hdirty, rfl⟩ |
    ⟨task, rfl, hphase, rfl⟩ | ⟨task, reading, rfl, hphase, hunlocked, rfl⟩ |
    ⟨task, rfl, hphase, hdirty, rfl⟩ | ⟨task, rfl, hphase, hdirty, rfl⟩ |
    ⟨task, rfl, hnone, rfl⟩ | ⟨task, reading, rfl, hreading, hunlocked, rfl⟩ |
    ⟨rfl, hinstalled, hunlocked, rfl⟩ | ⟨reading, rfl, hbuilding, rfl⟩
  · exact ⟨Nat.le_trans h.bounded (Nat.le_succ _), h.rebuilding, h.locked, h.current⟩
  · refine ⟨hbound, ?_, h.locked, Or.inr (Or.inr (Or.inl (Or.inl rfl)))⟩
    intro other r _
    exact Or.inl rfl
  · have hnone : d = none := by
      have hsome := hdriven.driving.symm.trans hidle
      simpa using hsome
    refine h.moved hdriven (fun driver hdriver => ?_) rfl (fun r hr => nomatch hr) hbound rfl
      (fun _ => rfl) (Or.inr (Or.inr (pending_of_debouncing (Function.update_self ..))))
    rw [hnone] at hdriver
    cases hdriver
  · exact h.moved hdriven (hsole task _ hphase) rfl (fun r hr => nomatch hr) h.bounded rfl
      (fun _ => rfl) (Or.inr (Or.inr (pending_of_debouncing (Function.update_self ..))))
  · exact h.moved hdriven (hsole task _ hphase) rfl (fun r hr => nomatch hr) h.bounded rfl
      (fun _ => rfl) (Or.inr (Or.inr (pending_of_starting (Function.update_self ..))))
  · refine h.moved hdriven (hsole task _ hphase) rfl ?_ h.bounded rfl (fun _ => rfl) ?_
    · intro r hr
      cases hr
      exact h.bounded
    · exact Or.inr (Or.inr (Or.inr (Or.inl
        ⟨task, s.changes, Function.update_self .., h.bounded⟩)))
  · refine h.moved hdriven (hsole task _ hphase) rfl (fun r hr => nomatch hr) h.bounded rfl
      (fun hlocked => absurd hunlocked hlocked) ?_
    rcases h.rebuilding task reading hphase with hdirty | hfresh
    · exact Or.inr (Or.inr (Or.inl (Or.inl hdirty)))
    · exact Or.inr (Or.inl ⟨reading, rfl, hfresh⟩)
  · exact h.moved hdriven (hsole task _ hphase) rfl (fun r hr => nomatch hr) h.bounded rfl
      (fun _ => rfl) (Or.inr (Or.inr (pending_of_debouncing (Function.update_self ..))))
  · refine h.moved hdriven (hsole task _ hphase) rfl (fun r hr => nomatch hr) h.bounded rfl
      (fun _ => rfl) ?_
    -- the driver has nothing left to do, so what was coming comes from a command
    rcases h.current with hzero | hfresh | (hmark | ⟨other, hother⟩) |
      ⟨other, r, hother, _⟩ | hcommand
    · exact Or.inl hzero
    · exact Or.inr (Or.inl hfresh)
    · rw [hdirty] at hmark
      cases hmark
    · have hd := hdriven.eq_some hphase
      rcases hother with hother | hother
      · rw [hdriven.eq_some hother] at hd
        cases hd
      · rw [hdriven.eq_some hother] at hd
        cases hd
    · have hd := hdriven.eq_some hphase
      rw [hdriven.eq_some hother] at hd
      cases hd
    · exact Or.inr (Or.inr (Or.inr (Or.inr hcommand)))
  · refine ⟨h.bounded, h.rebuilding, h.locked, ?_⟩
    rcases h.current with hzero | hfresh | hcoming
    · exact Or.inl hzero
    · exact Or.inr (Or.inl hfresh)
    · refine Or.inr (Or.inr (hcoming.mono rfl rfl ?_ rfl))
      intro other r hother
      have hne : other ≠ task := by
        rintro rfl
        rw [hnone] at hother
        cases hother
      show Function.update s.commands task _ other = _
      rw [Function.update_of_ne hne]
      exact hother
  · refine ⟨h.bounded, h.rebuilding, fun hlocked => absurd hunlocked hlocked, ?_⟩
    rcases hok reading hreading with hfresh | hcoming
    · exact Or.inr (Or.inl ⟨reading, rfl, hfresh⟩)
    · exact Or.inr (Or.inr (hcoming.mono rfl rfl (fun _ _ hother => hother) rfl))
  · exact ⟨h.bounded, h.rebuilding, fun _ => hinstalled, h.current⟩
  · refine ⟨h.bounded, h.rebuilding, fun hlocked => absurd rfl hlocked, ?_⟩
    rcases h.coming_of_locked (by rw [hbuilding]; exact Option.some_ne_none _) with
      hzero | hcoming
    · exact Or.inl hzero
    · exact Or.inr (Or.inr hcoming)

/--
In a run in which every command's rebuild is installed in time, the installed
classpath was read after the last announced change, whenever no rebuild is
running and no event is pending.
-/
theorem classpath_fresh_when_settled (as : List RebuildAction) (s : Rebuilds)
    (hrun : run perform initial as = some s)
    (hok : Guarded perform CommandsInTime initial as) (hrunning : ¬ s.RebuildRunning)
    (hpending : ¬ s.EventPending) (hannounced : 0 < s.announced) : s.Fresh := by
  have hinv := Run.guarded_history
    (fun past u => (exists d, Covered past u d) ∧ UpToDate u)
    (fun _ _ _ _ ⟨⟨_, hcovered⟩, h⟩ hstepOk hstep =>
      ⟨covered_perform hcovered hstep, upToDate_perform hcovered.driven h hstepOk hstep⟩)
    ⟨⟨none, covered_initial⟩, upToDate_initial⟩ hok hrun
  rcases hinv.2.current with hzero | hfresh | hevent | ⟨task, r, htask, _⟩ |
    ⟨task, r, htask, _⟩
  · rw [hzero] at hannounced
    cases hannounced
  · exact hfresh
  · exact absurd hevent hpending
  · exact absurd (Or.inl ⟨task, r, htask⟩) hrunning
  · exact absurd (Or.inr (Or.inl ⟨task, r, htask⟩)) hrunning

/-- All is settled; `reading` is installed, and one change has been announced. -/
def settled (reading : Reading) : Rebuilds where
  coalescer := .new
  drivers := fun _ => none
  commands := fun _ => none
  firstBuild := none
  changes := 1
  announced := 1
  installed := some reading

theorem settled_idle (reading : Reading) :
    ¬ (settled reading).RebuildRunning ∧ ¬ (settled reading).EventPending := by
  constructor
  · rintro (⟨task, r, h⟩ | ⟨task, r, h⟩ | h)
    · cases h
    · cases h
    · exact h rfl
  · rintro (h | ⟨task, h | h⟩) <;> cases h

def commandBesideRebuild : List RebuildAction :=
  [.change, .announce 0 1, .debounceElapsed 0, .rebuildStarted 0, .commandStarted 1,
    .rebuildDone 0, .commandDone 1, .rebuildFinished 0]

theorem classpath_fresh_command_beside :
    run perform initial commandBesideRebuild = some (settled 1) ∧ (settled 1).Fresh := by
  have hrun : run perform initial commandBesideRebuild = some (settled 1) := by
    simp [commandBesideRebuild, run, perform, initial, announce, debounceElapsed,
      rebuildFinished, setDriver, setCommand, settled, RebuildCoalescer.new,
      RebuildCoalescer.onEvent, RebuildCoalescer.onDebounceElapsed,
      RebuildCoalescer.onRebuildFinished]
  have hok : Guarded perform CommandsInTime initial commandBesideRebuild := by
    refine Run.guarded_step trivial rfl (Run.guarded_step trivial rfl
      (Run.guarded_step trivial rfl (Run.guarded_step trivial rfl
        (Run.guarded_step trivial rfl (Run.guarded_step trivial rfl
          (Run.guarded_step ?_ rfl (Run.guarded_step trivial rfl trivial)))))))
    intro reading hreading
    cases hreading
    exact Or.inl (Nat.le_refl 1)
  exact ⟨hrun, classpath_fresh_when_settled commandBesideRebuild (settled 1) hrun hok
    (settled_idle 1).1 (settled_idle 1).2 Nat.one_pos⟩

/-- A command begun before the change, and installed after the driver's rebuild. -/
def commandOvertaken : List RebuildAction :=
  [.commandStarted 1, .change, .announce 0 1, .debounceElapsed 0, .rebuildStarted 0,
    .rebuildDone 0, .rebuildFinished 0, .commandDone 1]

theorem classpath_stale_after_command :
    run perform initial commandOvertaken = some (settled 0) ∧
      ¬ (settled 0).RebuildRunning ∧ ¬ (settled 0).EventPending ∧
      0 < (settled 0).announced ∧ ¬ (settled 0).Fresh := by
  refine ⟨?_, (settled_idle 0).1, (settled_idle 0).2, Nat.one_pos, ?_⟩
  · simp [commandOvertaken, run, perform, initial, announce, debounceElapsed,
      rebuildFinished, setDriver, setCommand, settled, RebuildCoalescer.new,
      RebuildCoalescer.onEvent, RebuildCoalescer.onDebounceElapsed,
      RebuildCoalescer.onRebuildFinished]
  · rintro ⟨reading, hinstalled, hfresh⟩
    cases hinstalled
    cases hfresh

end Rebuilds

end Server
end JavaVsixLite
