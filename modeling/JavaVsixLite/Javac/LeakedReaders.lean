import Mathlib.Logic.Function.Basic
import Mathlib.Data.List.Nodup
import JavaVsixLite.Javac.Child

/-!
# Abandoned reader threads

Two threads drain the output of the compiler.  A run that is timed out or cancelled
does not join them: a process that outlives the compiler may hold a pipe open.
Their completion flags are registered, and a run is refused once too many of the
registered threads are still blocked.
-/

namespace JavaVsixLite
namespace Javac

open Foundation

abbrev ReaderId := Nat

/-- Where the one run is that is under way. -/
inductive ReaderPhase where
  | idle
  | refused
  | admitted
  | polling (readers : List ReaderId)
  | exited (readers : List ReaderId)
  | abandoning (rest : List ReaderId) (outcome : RunOutcome)
deriving DecidableEq

/--
`flags` are the registered flags, in order, and `done` the flags that are set.
`outcomes` and `abandoned` are not in the program: the ends of the runs so far and
the readers that were not joined.
-/
structure ReaderSession where
  cap : Nat
  flags : List ReaderId
  done : ReaderId -> Bool
  spawned : Nat
  phase : ReaderPhase
  outcomes : List RunOutcome
  abandoned : List ReaderId

/--
`fails` is every return before there is a child.  Of the pipes of a child `spawn`
says which are there.
-/
inductive ReaderAction where
  | completes (reader : ReaderId)
  | start
  | refuse
  | fails
  | spawn (stdout stderr : Bool)
  | poll (result : PollResult)
  | join
  | register

namespace ReaderSession

def initial (cap : Nat) : ReaderSession where
  cap := cap
  flags := []
  done := fun _ => false
  spawned := 0
  phase := .idle
  outcomes := []
  abandoned := []

/-- The threads that have completed are swept out; the lock makes this one step. -/
def sweep (s : ReaderSession) : ReaderSession :=
  { s with flags := s.flags.filter (fun r => !s.done r) }

def liveCount (s : ReaderSession) : Nat :=
  s.sweep.flags.length

def atCapacity (s : ReaderSession) : Bool :=
  decide (s.cap ≤ s.liveCount)

def finish (s : ReaderSession) (outcome : RunOutcome) : ReaderSession :=
  { s with phase := .idle, outcomes := s.outcomes ++ [outcome] }

/-- One reader for each pipe that is there, with flags that nobody has set. -/
def newReaders (s : ReaderSession) (stdout stderr : Bool) : List ReaderId :=
  (if stdout then [s.spawned] else []) ++ (if stderr then [s.spawned + 1] else [])

def abandon (s : ReaderSession) (readers : List ReaderId) (outcome : RunOutcome) :
    ReaderSession :=
  { s with
    phase := .abandoning readers outcome
    abandoned := s.abandoned ++ readers }

def perform (s : ReaderSession) : ReaderAction -> Option ReaderSession
  | .completes reader =>
    if reader < s.spawned then some { s with done := Function.update s.done reader true }
    else none
  | .start =>
    if s.phase = .idle then
      some { s.sweep with phase := if s.atCapacity then .refused else .admitted }
    else none
  | .refuse =>
    -- the text of the refusal counts a second time
    if s.phase = .refused then some (s.sweep.finish .spawnError) else none
  | .fails =>
    if s.phase = .admitted then some (s.finish .spawnError) else none
  | .spawn stdout stderr =>
    if s.phase = .admitted then
      some
        { s with
          phase := .polling (s.newReaders stdout stderr)
          spawned := s.spawned + 2 }
    else none
  | .poll result =>
    match s.phase with
    | .polling readers =>
      match result with
      | .exited => some { s with phase := .exited readers }
      | .timedOut => some (s.abandon readers .timedOut)
      | .cancelled => some (s.abandon readers .cancelled)
    | _ => none
  | .join =>
    match s.phase with
    | .exited _ => some (s.finish .completed)
    | _ => none
  | .register =>
    match s.phase with
    | .abandoning [] outcome => some (s.finish outcome)
    | .abandoning (reader :: rest) outcome =>
      some { s with flags := s.flags ++ [reader], phase := .abandoning rest outcome }
    | _ => none

/-- The leaked readers that are still blocked. -/
def liveLeaked (s : ReaderSession) : List ReaderId :=
  s.abandoned.filter (fun r => !s.done r)

/-!
# What is counted
-/

def unregistered (s : ReaderSession) : List ReaderId :=
  match s.phase with
  | .abandoning rest _ => rest
  | _ => []

def running (s : ReaderSession) : List ReaderId :=
  match s.phase with
  | .polling readers => readers
  | .exited readers => readers
  | _ => []

/-- How many live leaked readers there may be: an admitted run leaves room for one less. -/
def allowance (s : ReaderSession) : Nat :=
  match s.phase with
  | .admitted => s.cap
  | .polling _ => s.cap
  | .exited _ => s.cap
  | _ => s.cap + 2

structure Counted (s : ReaderSession) : Prop where
  registered : s.liveLeaked = (s.flags ++ s.unregistered).filter (fun r => !s.done r)
  nodup : (s.abandoned ++ s.running).Nodup
  spawned : forall r, r ∈ s.abandoned ++ s.running -> r < s.spawned
  pair : s.running.length ≤ 2
  below : s.liveLeaked.length < s.allowance

/-!
# What a step preserves
-/

theorem counted_initial (cap : Nat) : Counted (initial cap) := by
  constructor
  · rfl
  · exact List.nodup_nil
  · intro r hr
    cases hr
  · exact Nat.zero_le 2
  · exact Nat.succ_pos _

section

variable {s t : ReaderSession}

theorem Counted.keep (h : Counted s) (habandoned : t.abandoned = s.abandoned)
    (hdone : t.done = s.done) (hspawned : t.spawned = s.spawned)
    (hregistered : (t.flags ++ t.unregistered).filter (fun r => !s.done r) =
      (s.flags ++ s.unregistered).filter (fun r => !s.done r))
    (hrunning : t.running.Sublist s.running)
    (hbelow : s.liveLeaked.length < t.allowance) : Counted t := by
  have hlive : t.liveLeaked = s.liveLeaked := by
    unfold liveLeaked
    rw [habandoned, hdone]
  have hreaders : (t.abandoned ++ t.running).Sublist (s.abandoned ++ s.running) := by
    rw [habandoned]
    exact (List.Sublist.refl _).append hrunning
  constructor
  · rw [hlive, hdone, hregistered]
    exact h.registered
  · exact h.nodup.sublist hreaders
  · intro r hr
    rw [hspawned]
    exact h.spawned r (hreaders.subset hr)
  · exact Nat.le_trans hrunning.length_le h.pair
  · rw [hlive]
    exact hbelow

theorem filter_sweep (s : ReaderSession) (rest : List ReaderId) :
    (s.sweep.flags ++ rest).filter (fun r => !s.done r) =
      (s.flags ++ rest).filter (fun r => !s.done r) := by
  rw [List.filter_append, List.filter_append]
  unfold sweep
  rw [List.filter_filter]
  simp only [Bool.and_self]

/-- While no reader waits for its registration, the count is the number of live leaked readers. -/
theorem Counted.liveCount_eq (h : Counted s) (hnone : s.unregistered = []) :
    s.liveCount = s.liveLeaked.length := by
  rw [h.registered, hnone, List.append_nil]
  rfl

theorem Counted.completes (h : Counted s) (reader : ReaderId) :
    Counted { s with done := Function.update s.done reader true } := by
  have hfilter : forall readers : List ReaderId,
      readers.filter (fun r => !Function.update s.done reader true r) =
        (readers.filter (fun r => !s.done r)).filter (fun r => decide (r ≠ reader)) := by
    intro readers
    rw [List.filter_filter]
    congr 1
    funext r
    by_cases hr : r = reader
    · simp [hr]
    · simp [hr]
  constructor
  · show s.abandoned.filter _ = (s.flags ++ s.unregistered).filter _
    have hlive := h.registered
    unfold liveLeaked at hlive
    rw [hfilter, hfilter, hlive]
  · exact h.nodup
  · exact h.spawned
  · exact h.pair
  · apply Nat.lt_of_le_of_lt _ h.below
    show (s.abandoned.filter _).length ≤ (s.abandoned.filter _).length
    rw [hfilter]
    exact List.length_filter_le _ _

theorem mem_newReaders {stdout stderr : Bool} {r : ReaderId}
    (hr : r ∈ s.newReaders stdout stderr) : r = s.spawned ∨ r = s.spawned + 1 := by
  unfold newReaders at hr
  cases List.mem_append.mp hr with
  | inl hr =>
    apply Or.inl
    cases stdout <;> simp_all
  | inr hr =>
    apply Or.inr
    cases stderr <;> simp_all

theorem Counted.spawn (h : Counted s) (hphase : s.phase = .admitted) (stdout stderr : Bool) :
    Counted
      { s with
        phase := .polling (s.newReaders stdout stderr)
        spawned := s.spawned + 2 } := by
  have hrunning : s.running = [] := by
    unfold running
    rw [hphase]
  have hold : forall r, r ∈ s.abandoned -> r < s.spawned := by
    intro r hr
    exact h.spawned r (List.mem_append_left _ hr)
  have hnew : forall r, r ∈ s.newReaders stdout stderr ->
      s.spawned ≤ r ∧ r < s.spawned + 2 := by
    intro r hr
    cases mem_newReaders hr with
    | inl hfirst =>
      rw [hfirst]
      exact ⟨Nat.le_refl _, Nat.lt_add_of_pos_right Nat.two_pos⟩
    | inr hsecond =>
      rw [hsecond]
      exact ⟨Nat.le_succ _, Nat.lt_succ_self _⟩
  have hnodup : (s.newReaders stdout stderr).Nodup := by
    unfold newReaders
    cases stdout <;> cases stderr <;> simp
  constructor
  · have hlive := h.registered
    unfold unregistered at hlive
    rw [hphase] at hlive
    exact hlive
  · have habandoned : s.abandoned.Nodup := h.nodup.sublist (List.sublist_append_left _ _)
    apply habandoned.append hnodup
    intro r hr hr'
    exact absurd (hold r hr) (Nat.not_lt.mpr (hnew r hr').1)
  · intro r hr
    cases List.mem_append.mp hr with
    | inl hr => exact Nat.lt_add_right 2 (hold r hr)
    | inr hr => exact (hnew r hr).2
  · show (s.newReaders stdout stderr).length ≤ 2
    unfold newReaders
    cases stdout <;> cases stderr <;> simp
  · have hbelow := h.below
    unfold allowance at hbelow
    rw [hphase] at hbelow
    exact hbelow

theorem Counted.abandon {readers : List ReaderId} (h : Counted s)
    (hphase : s.phase = .polling readers) (outcome : RunOutcome) :
    Counted (s.abandon readers outcome) := by
  have hrunning : s.running = readers := by
    unfold running
    rw [hphase]
  have hnone : s.unregistered = [] := by
    unfold unregistered
    rw [hphase]
  constructor
  · have hlive := h.registered
    rw [hnone, List.append_nil] at hlive
    show (s.abandoned ++ readers).filter (fun r => !s.done r) =
      (s.flags ++ readers).filter (fun r => !s.done r)
    rw [List.filter_append, List.filter_append, ← hlive]
    rfl
  · show (s.abandoned ++ readers ++ []).Nodup
    rw [List.append_nil, ← hrunning]
    exact h.nodup
  · intro r hr
    have hreaders : r ∈ s.abandoned ++ readers ++ [] := hr
    rw [List.append_nil] at hreaders
    apply h.spawned r
    rw [hrunning]
    exact hreaders
  · exact Nat.zero_le 2
  · have hbelow := h.below
    unfold allowance at hbelow
    rw [hphase] at hbelow
    have hpair := h.pair
    rw [hrunning] at hpair
    show ((s.abandoned ++ readers).filter _).length < s.cap + 2
    rw [List.filter_append, List.length_append]
    have hnew : (readers.filter (fun r => !s.done r)).length ≤ 2 :=
      Nat.le_trans (List.length_filter_le _ _) hpair
    exact Nat.add_lt_add_of_lt_of_le hbelow hnew

theorem Counted.start (h : Counted s) (hphase : s.phase = .idle) :
    Counted { s.sweep with phase := if s.atCapacity then .refused else .admitted } := by
  have hnone : s.unregistered = [] := by
    unfold unregistered
    rw [hphase]
  have hcount := h.liveCount_eq hnone
  have hbelow := h.below
  unfold allowance at hbelow
  rw [hphase] at hbelow
  by_cases hcap : s.atCapacity = true
  · rw [if_pos hcap]
    refine h.keep rfl rfl rfl ?_ ?_ ?_
    · rw [hnone]
      exact filter_sweep s []
    · exact List.nil_sublist _
    · exact hbelow
  · rw [if_neg hcap]
    refine h.keep rfl rfl rfl ?_ ?_ ?_
    · rw [hnone]
      exact filter_sweep s []
    · exact List.nil_sublist _
    · unfold atCapacity at hcap
      rw [decide_eq_true_iff, hcount, Nat.not_le] at hcap
      exact hcap

theorem allowance_le (s : ReaderSession) : s.allowance ≤ s.cap + 2 := by
  unfold allowance
  split
  · exact Nat.le_add_right _ _
  · exact Nat.le_add_right _ _
  · exact Nat.le_add_right _ _
  · exact Nat.le_refl _

theorem Counted.finish (h : Counted s) (hnone : s.unregistered = []) (outcome : RunOutcome) :
    Counted (s.finish outcome) := by
  refine h.keep rfl rfl rfl ?_ ?_ ?_
  · rw [hnone]
    rfl
  · exact List.nil_sublist _
  · exact Nat.lt_of_lt_of_le h.below (allowance_le s)

theorem Counted.sweep (h : Counted s) : Counted s.sweep := by
  refine h.keep rfl rfl rfl ?_ ?_ ?_
  · exact filter_sweep s s.unregistered
  · exact List.Sublist.refl _
  · exact h.below

theorem Counted.perform {a : ReaderAction} (h : Counted s) (hstep : s.perform a = some t) :
    Counted t ∧ t.cap = s.cap := by
  cases a with
  | completes reader =>
    simp only [ReaderSession.perform] at hstep
    split at hstep
    · cases hstep
      exact ⟨h.completes reader, rfl⟩
    · cases hstep
  | start =>
    simp only [ReaderSession.perform] at hstep
    split at hstep
    · rename_i hphase
      cases hstep
      exact ⟨h.start hphase, rfl⟩
    · cases hstep
  | refuse =>
    simp only [ReaderSession.perform] at hstep
    split at hstep
    · rename_i hphase
      cases hstep
      refine ⟨h.sweep.finish ?_ _, rfl⟩
      unfold unregistered ReaderSession.sweep
      rw [hphase]
    · cases hstep
  | fails =>
    simp only [ReaderSession.perform] at hstep
    split at hstep
    · rename_i hphase
      cases hstep
      refine ⟨h.finish ?_ _, rfl⟩
      unfold unregistered
      rw [hphase]
    · cases hstep
  | spawn stdout stderr =>
    simp only [ReaderSession.perform] at hstep
    split at hstep
    · rename_i hphase
      cases hstep
      exact ⟨h.spawn hphase stdout stderr, rfl⟩
    · cases hstep
  | poll result =>
    cases hphase : s.phase with
    | polling readers =>
      simp only [ReaderSession.perform, hphase] at hstep
      cases result with
      | exited =>
        cases hstep
        refine ⟨h.keep rfl rfl rfl ?_ ?_ ?_, rfl⟩
        · simp only [unregistered, hphase]
        · simp only [running, hphase]
          exact List.Sublist.refl _
        · have hbelow := h.below
          unfold allowance at hbelow
          rw [hphase] at hbelow
          exact hbelow
      | timedOut =>
        cases hstep
        exact ⟨h.abandon hphase .timedOut, rfl⟩
      | cancelled =>
        cases hstep
        exact ⟨h.abandon hphase .cancelled, rfl⟩
    | _ =>
      simp only [ReaderSession.perform, hphase] at hstep
      cases hstep
  | join =>
    cases hphase : s.phase with
    | exited readers =>
      simp only [ReaderSession.perform, hphase] at hstep
      cases hstep
      refine ⟨h.finish ?_ _, rfl⟩
      unfold unregistered
      rw [hphase]
    | _ =>
      simp only [ReaderSession.perform, hphase] at hstep
      cases hstep
  | register =>
    cases hphase : s.phase with
    | abandoning rest outcome =>
      cases rest with
      | nil =>
        simp only [ReaderSession.perform, hphase] at hstep
        cases hstep
        refine ⟨h.finish ?_ _, rfl⟩
        unfold unregistered
        rw [hphase]
      | cons reader rest =>
        simp only [ReaderSession.perform, hphase] at hstep
        cases hstep
        refine ⟨h.keep rfl rfl rfl ?_ ?_ ?_, rfl⟩
        · simp only [unregistered, hphase, List.append_assoc, List.singleton_append]
        · exact List.nil_sublist _
        · exact Nat.lt_of_lt_of_le h.below (allowance_le s)
    | _ =>
      simp only [ReaderSession.perform, hphase] at hstep
      cases hstep

end

/-!
# Whole sessions
-/

theorem counted_of_run {cap : Nat} {actions : List ReaderAction} {s : ReaderSession}
    (hrun : run perform (initial cap) actions = some s) : Counted s ∧ s.cap = cap := by
  apply Run.invariant (fun u => Counted u ∧ u.cap = cap) _ _ hrun
  · intro u a v hu hstep
    have hv := hu.1.perform hstep
    exact ⟨hv.1, hv.2.trans hu.2⟩
  · exact ⟨counted_initial cap, rfl⟩

/--
The live leaked readers are never more than the cap and one, and a run is refused
exactly when as many as the cap are there at its start.
-/
theorem liveLeaked_le {cap : Nat} {actions : List ReaderAction} {s : ReaderSession}
    (hrun : run perform (initial cap) actions = some s) :
    s.liveLeaked.Nodup ∧ s.liveLeaked.length ≤ cap + 1 ∧
    forall t, s.perform .start = some t ->
      (t.phase = .refused <-> cap ≤ s.liveLeaked.length) ∧
      (t.phase = .admitted <-> s.liveLeaked.length < cap) := by
  cases counted_of_run hrun with
  | intro h hcap =>
    refine ⟨?_, ?_, ?_⟩
    · exact (h.nodup.sublist (List.sublist_append_left _ _)).filter _
    · have hbelow := Nat.lt_of_lt_of_le h.below (allowance_le s)
      rw [hcap] at hbelow
      exact Nat.le_of_lt_succ hbelow
    · intro t ht
      simp only [perform] at ht
      split at ht
      · rename_i hphase
        have hnone : s.unregistered = [] := by
          unfold unregistered
          rw [hphase]
        have hcount := h.liveCount_eq hnone
        cases ht
        unfold atCapacity
        rw [hcount, hcap]
        by_cases hfull : cap ≤ s.liveLeaked.length
        · simp [hfull]
        · simp [hfull, Nat.lt_of_not_le hfull]
      · cases ht

/-- After a timed-out run one of its readers is still blocked, and a cap of one refuses the next. -/
theorem refused_after_timeout :
    exists s t, run perform (initial 1)
      [.start, .spawn true true, .poll .timedOut, .register, .register, .register,
        .completes 0] = some s ∧
      s.perform .start = some t ∧ t.phase = .refused := by
  refine ⟨_, _, rfl, rfl, ?_⟩
  have hbound := @liveLeaked_le 1 [.start, .spawn true true, .poll .timedOut, .register, .register,
    .register, .completes 0] _ rfl
  exact (hbound.2.2 _ rfl).1.mpr (by decide)

end ReaderSession
end Javac
end JavaVsixLite
