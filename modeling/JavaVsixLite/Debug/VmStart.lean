import JavaVsixLite.Debug.Control

/-!
# The suspension of VM_START

A debuggee started with `suspend=y` is held until the session resumes it once.
The event only sets a flag and `configurationDone` alone decides about the
resume, so the order in which the two reach the event loop matters.
-/

namespace JavaVsixLite
namespace Debug

open Foundation
open Adapter

namespace System

def configures : Action := .deliverRequest .configurationDone

/-- VM_START's composite was handled before `configurationDone`. -/
def VmStartFirst (as : List Action) : Prop :=
  .deliverEvent vmStartSet ∈ as.takeWhile (fun a => a != configures)

instance (as : List Action) : Decidable (VmStartFirst as) :=
  inferInstanceAs (Decidable (_ ∈ _))

variable {past : List Action} {start : Start} {s : System} {world : World}

theorem vmStartFirst_snoc_of_mem (h : configures ∈ past) (a : Action) :
    VmStartFirst (past ++ [a]) <-> VmStartFirst past := by
  unfold VmStartFirst
  induction past with
  | nil => cases h
  | cons b rest ih =>
    by_cases hb : b = configures
    · simp [hb]
    · have hrest : configures ∈ rest := by
        rcases List.mem_cons.mp h with heq | hmem
        · exact absurd heq.symm hb
        · exact hmem
      simp [hb, ih hrest]

theorem vmStartFirst_configures (h : configures ∉ past) :
    VmStartFirst (past ++ [configures]) <-> .deliverEvent vmStartSet ∈ past := by
  unfold VmStartFirst
  induction past with
  | nil => simp
  | cons b rest ih =>
    rcases not_or.mp (fun hm => h (List.mem_cons.mpr hm)) with ⟨hb, hrest⟩
    simp [Ne.symm hb, ih hrest]

/-- What the actions so far say about the flag and about the resumes sent for VM_START. -/
structure Tracked (start : Start) (past : List Action) (s : System) : Prop where
  connected : s.adapter.session.connected = true
  launchMode : s.adapter.session.launchMode = start.launchMode
  wellFormed : forall set, set ∈ s.events ->
    set.events.contains .vmStart = true ->
      set = vmStartSet ∧ start.suspended = true
  seen : .deliverEvent vmStartSet ∈ past -> start.suspended = true
  configured : s.requests.count .configurationDone + past.count configures ≤
    if s.configured then 1 else 0
  before : configures ∉ past -> s.vmStartReleases = 0 ∧
    s.adapter.session.vmStartPending = decide (.deliverEvent vmStartSet ∈ past)
  after : configures ∈ past -> s.vmStartReleases =
    if start.launchMode = true ∨ VmStartFirst past then 1 else 0

theorem tracked_of_other {t : System} {a : Action} (h : Tracked start past s) (ha : a ≠ configures)
    (hconnected : t.adapter.session.connected = s.adapter.session.connected)
    (hlaunch : t.adapter.session.launchMode = s.adapter.session.launchMode)
    (hwell : forall set, set ∈ t.events -> set.events.contains .vmStart = true -> set = vmStartSet ∧
      start.suspended = true)
    (hseen : a = .deliverEvent vmStartSet -> start.suspended = true)
    (hconfigured : t.requests.count .configurationDone + past.count configures ≤
      if t.configured then 1 else 0)
    (hreleases : t.vmStartReleases = s.vmStartReleases)
    (hpending : t.adapter.session.vmStartPending =
      (s.adapter.session.vmStartPending || decide (a = .deliverEvent vmStartSet))) :
    Tracked start (past ++ [a]) t := by
  have hmem : configures ∈ past ++ [a] -> configures ∈ past := by
    intro hm
    rcases List.mem_append.mp hm with hold | hnew
    · exact hold
    · exact absurd (List.mem_singleton.mp hnew).symm ha
  refine ⟨hconnected.trans h.connected, hlaunch.trans h.launchMode, hwell, ?_, ?_, ?_, ?_⟩
  · intro hstart
    rcases List.mem_append.mp hstart with hold | hnew
    · exact h.seen hold
    · exact hseen (List.mem_singleton.mp hnew).symm
  · rw [List.count_append, List.count_singleton, if_neg (by simpa using ha)]
    exact hconfigured
  · intro hfresh
    have hpast : configures ∉ past := fun hm => hfresh (List.mem_append_left _ hm)
    rcases h.before hpast with ⟨hzero, hflag⟩
    refine ⟨hreleases.trans hzero, ?_⟩
    rw [hpending, hflag]
    simp [eq_comm]
  · intro hdone
    have hpast := hmem hdone
    rw [hreleases, h.after hpast]
    simp only [vmStartFirst_snoc_of_mem hpast]

theorem tracked_deliverRequest {request : Request} {rest : List Request} (h : Tracked start past s)
    (hrequests : s.requests = request :: rest) (hother : request ≠ .configurationDone)
    (hconnected : (s.adapter.dispatch world.fqcnForSource request).2.session.connected =
      s.adapter.session.connected)
    (hlaunch : (s.adapter.dispatch world.fqcnForSource request).2.session.launchMode =
      s.adapter.session.launchMode)
    (hpending : (s.adapter.dispatch world.fqcnForSource request).2.session.vmStartPending =
      s.adapter.session.vmStartPending) :
    Tracked start (past ++ [.deliverRequest request])
      ({ s with requests := rest }.deliver world (.request request)) := by
  have hbound := h.configured
  rw [hrequests, List.count_cons_of_ne hother] at hbound
  refine tracked_of_other h ?_ hconnected hlaunch h.wellFormed (fun heq => nomatch heq) hbound
    (deliver_releases (s := { s with requests := rest }) hother) ?_
  · intro heq
    exact hother (Action.deliverRequest.inj heq)
  · refine hpending.trans ?_
    simp

theorem tracked_configurationDone {rest : List Request} (h : Tracked start past s)
    (hrequests : s.requests = .configurationDone :: rest) :
    Tracked start (past ++ [configures])
      ({ s with requests := rest }.deliver world (.request .configurationDone)) := by
  rcases configurationDone_spec h.connected with
    ⟨hconnected, hlaunch, _, _, _, _, _, _, hresumes, _⟩
  have hbound := h.configured
  rw [hrequests, List.count_cons_self] at hbound
  have hfresh : configures ∉ past := by
    intro hmem
    have hpositive : 0 < past.count configures := List.count_pos_iff.mpr hmem
    split at hbound <;> omega
  rcases h.before hfresh with ⟨hzero, hflag⟩
  refine ⟨hconnected, hlaunch.trans h.launchMode, h.wellFormed, ?_, ?_, ?_, ?_⟩
  · intro hstart
    rcases List.mem_append.mp hstart with hold | hnew
    · exact h.seen hold
    · cases List.mem_singleton.mp hnew
  · rw [List.count_append, List.count_singleton_self]
    show rest.count .configurationDone + _ ≤ if s.configured then 1 else 0
    omega
  · intro habsent
    exact absurd (List.mem_append_right past (List.mem_singleton_self configures)) habsent
  · intro _
    show s.vmStartReleases + (s.adapter.configurationDone.2.vm.resumesSent -
      s.adapter.vm.resumesSent) = _
    have howes : s.adapter.owesResume = true <->
        (start.launchMode = true ∨ VmStartFirst (past ++ [configures])) := by
      rw [vmStartFirst_configures hfresh]
      unfold owesResume
      rw [h.launchMode, hflag]
      simp
    rw [hresumes, hzero]
    simp only [howes]
    omega

theorem tracked_perform {t : System} {a : Action} (h : Tracked start past s)
    (hstep : s.perform world a = some t) : Tracked start (past ++ [a]) t := by
  rcases perform_cases hstep with ⟨cls, rfl, rfl⟩ | ⟨set, rfl, hset, rfl⟩ |
    ⟨request, rfl, hallowed, rfl⟩ | ⟨set, rest, rfl, hevents, rfl⟩ |
    ⟨request, rest, rfl, hrequests, rfl⟩
  · exact tracked_of_other h (by simp [configures]) rfl rfl h.wellFormed
      (fun heq => nomatch heq) h.configured rfl (by simp [onVm])
  · refine tracked_of_other h (by simp [configures]) rfl rfl ?_
      (fun heq => nomatch heq) h.configured rfl (by simp [onVm])
    intro other hother hstart
    rcases List.mem_append.mp hother with hold | hnew
    · exact h.wellFormed other hold hstart
    · rw [List.mem_singleton.mp hnew, hset.1] at hstart
      cases hstart
  · refine tracked_of_other h (by simp [configures]) rfl rfl h.wellFormed
      (fun heq => nomatch heq) ?_ rfl (by simp [issued])
    have hbound := h.configured
    show (s.requests ++ [request]).count .configurationDone + past.count configures ≤
      if s.configured || request == .configurationDone then 1 else 0
    rw [List.count_append, List.count_singleton]
    by_cases hrequest : request = .configurationDone
    · have hfresh : s.configured = false := by
        simpa [allows, hrequest, Request.isResume] using hallowed
      rw [hfresh] at hbound
      simp only [Bool.false_eq_true, if_false] at hbound
      simp only [hrequest, beq_self_eq_true, Bool.or_true, if_true]
      omega
    · have hne : (request == Request.configurationDone) = false := by simpa using hrequest
      rw [hne, Bool.or_false]
      simpa using hbound
  · have hcomposite := handleEventSet_composite s.adapter set
    have hadapter : ({ s with events := rest }.deliver world
        (.jdwpEvent (.ok set))).adapter = s.adapter.handleEventSet set :=
      deliver_event_adapter (s := { s with events := rest }) h.connected set
    refine tracked_of_other h (by simp [configures]) ?_ ?_ ?_ ?_ h.configured rfl ?_
    · rw [hadapter]
      exact hcomposite.connected
    · rw [hadapter]
      exact hcomposite.launchMode
    · intro other hother
      exact h.wellFormed other (by rw [hevents]; exact List.mem_cons_of_mem _ hother)
    · intro heq
      have hset : set = vmStartSet := Action.deliverEvent.inj heq
      exact (h.wellFormed set (by rw [hevents]; simp) (by rw [hset]; rfl)).2
    · rw [hadapter, hcomposite.vmStartPending]
      have hsame : set.events.contains .vmStart =
          decide (Action.deliverEvent set = .deliverEvent vmStartSet) := by
        by_cases hstart : set.events.contains .vmStart = true
        · rw [(h.wellFormed set (by rw [hevents]; simp) hstart).1]
          rfl
        · have hne : set ≠ vmStartSet := by
            rintro rfl
            exact hstart rfl
          rw [Bool.eq_false_iff.mpr hstart]
          simp [hne]
      rw [hsame]
  · cases request with
    | configurationDone => exact tracked_configurationDone h hrequests
    | setBreakpoints args =>
      have hquiet := Quiet.setBreakpoints world.fqcnForSource s.adapter args
      exact tracked_deliverRequest h hrequests (by simp) hquiet.connected
        hquiet.launchMode hquiet.vmStartPending
    | setExceptionBreakpoints args =>
      have hquiet := Quiet.frame.setExceptionBreakpoints s.adapter args
      exact tracked_deliverRequest h hrequests (by simp) hquiet.connected
        hquiet.launchMode hquiet.vmStartPending
    | continueAll =>
      have hsteady := continueAll_steady s.adapter
      exact tracked_deliverRequest h hrequests (by simp) hsteady.connected
        hsteady.launchMode hsteady.vmStartPending
    | step depth args =>
      rcases step_cases s.adapter depth args with
        ⟨_, _, hquiet⟩ | ⟨thread, _, hfault, hstepped, _⟩
      · exact tracked_deliverRequest h hrequests (by simp) hquiet.connected
          hquiet.launchMode hquiet.vmStartPending
      · rcases stepSet_spec thread depth hfault with ⟨hconnected, hlaunch, _, hpending, _⟩
        have hsteady := continueAll_steady (s.adapter.stepSet thread depth)
        rw [← hstepped] at hsteady
        exact tracked_deliverRequest h hrequests (by simp)
          (hsteady.connected.trans hconnected) (hsteady.launchMode.trans hlaunch)
          (hsteady.vmStartPending.trans hpending)
    | pause args =>
      rcases pause_cases s.adapter args with ⟨_, _, hquiet⟩ | ⟨threadId, _, _, hpaused⟩
      · exact tracked_deliverRequest h hrequests (by simp) hquiet.connected
          hquiet.launchMode hquiet.vmStartPending
      · refine tracked_deliverRequest h hrequests (by simp) ?_ ?_ ?_
        · exact congrArg (fun b => b.session.connected) hpaused
        · exact congrArg (fun b => b.session.launchMode) hpaused
        · exact congrArg (fun b => b.session.vmStartPending) hpaused

theorem tracked_run {as : List Action}
    (hrun : run (perform world) (initial world start) as = some s) :
    Tracked start as s := by
  have hinitial : Tracked start [] (initial world start) := by
    refine ⟨rfl, rfl, ?_, (fun h => nomatch h), Nat.le_refl 0, fun _ => ⟨rfl, rfl⟩,
      (fun h => nomatch h)⟩
    intro set hset _
    cases hs : start.suspended with
    | false => simp [initial, hs] at hset
    | true =>
      refine ⟨?_, rfl⟩
      simpa [initial, hs] using hset
  exact Run.history (Tracked start) (fun _ _ _ _ h hstep => tracked_perform h hstep)
    hinitial hrun

/--
Once `configurationDone` has been handled, exactly one resume has been sent for
the suspension of a suspended start, and none where there was none, except in an
attach whose VM_START was not handled before.
-/
theorem vmStart_released_once_iff (world : World) (start : Start) (as : List Action)
    (s : System) (hrun : run (perform world) (initial world start) as = some s)
    (hdone : .deliverRequest .configurationDone ∈ as) :
    s.vmStartReleases = (if start.suspended then 1 else 0) <->
      (start.launchMode = true ∨ start.suspended = false ∨ VmStartFirst as) := by
  have htracked := tracked_run hrun
  have hreleases := htracked.after hdone
  cases start with
  | launch stopOnEntry mainClass => simpa [Start.launchMode, Start.suspended] using hreleases
  | attach suspended =>
    cases suspended with
    | true =>
      by_cases hfirst : VmStartFirst as
      · simpa [Start.launchMode, Start.suspended, hfirst] using hreleases
      · simp [Start.launchMode, Start.suspended, hfirst] at hreleases ⊢
        omega
    | false =>
      have hfirst : ¬ VmStartFirst as := by
        intro hmem
        have hseen := htracked.seen ((List.takeWhile_prefix _).subset hmem)
        cases hseen
      simpa [Start.launchMode, Start.suspended, hfirst] using hreleases

/-- A launched debuggee whose VM_START is handled after `configurationDone`. -/
def configuredFirst : List Action :=
  [.issue .configurationDone, .deliverRequest .configurationDone, .deliverEvent vmStartSet]

theorem vmStart_released_once_launch :
    exists s, run (perform quietWorld) (initial quietWorld (.launch false "Main"))
        configuredFirst = some s ∧ s.vmStartReleases = 1 := by
  refine ⟨_, rfl, ?_⟩
  exact (vmStart_released_once_iff quietWorld (.launch false "Main") configuredFirst _ rfl
    (by decide)).mpr (Or.inl rfl)

/-- In an attach the same order releases nothing and leaves the debuggee suspended. -/
theorem vmStart_never_released :
    exists s, run (perform quietWorld) (initial quietWorld (.attach true))
        configuredFirst = some s ∧
      s.events = [] ∧ s.requests = [] ∧ s.vmStartReleases = 0 ∧
      s.adapter.vm.suspendCount = 1 ∧ stops s.adapter.out = [] := by
  refine ⟨_, rfl, rfl, rfl, ?_, ?_, ?_⟩
  · decide
  · decide
  · decide

end System

end Debug
end JavaVsixLite
