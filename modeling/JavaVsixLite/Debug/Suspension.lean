import JavaVsixLite.Debug.Control

/-!
# Suspension accounting

The session keeps `suspendDepth`, the SUSPEND_ALL suspensions it has been told
of or asked for.  The debuggee's own count also holds VM_START's suspension and
those of the composites that still wait in the channel.
-/

namespace JavaVsixLite
namespace Debug

open Foundation
open Adapter

namespace System

/-!
# The invariant
-/

/-- What waits in the channel: VM_START's composite, or one the debuggee emitted. -/
def WellFormed (start : Start) (set : EventSet) : Prop :=
  (set = vmStartSet ∧ start.suspended = true) ∨
  (set.events.contains .vmStart = false ∧
    (set.suspendPolicy = .all ∨ forall event, event ∈ set.events -> event = .vmDeath))

theorem WellFormed.suspended {start : Start} {set : EventSet} (h : WellFormed start set)
    (hstart : set.events.contains .vmStart = true) : start.suspended = true := by
  rcases h with ⟨_, hs⟩ | ⟨hnone, _⟩
  · exact hs
  · rw [hstart] at hnone
    cases hnone

theorem WellFormed.counted_of_stop {start : Start} {set : EventSet}
    (h : WellFormed start set) (hstop : set.events.any Event.isStop = true) :
    counted set = true ∧ holds set.events = true := by
  rcases List.any_eq_true.mp hstop with ⟨event, hmem, hevent⟩
  have hholds : holds set.events = true :=
    List.any_eq_true.mpr ⟨event, hmem, by rw [hevent]; rfl⟩
  rcases h with ⟨rfl, _⟩ | ⟨hnone, hall | hdeath⟩
  · cases hstop
  · refine ⟨?_, hholds⟩
    unfold counted
    rw [hall, hnone]
    rfl
  · rw [hdeath event hmem] at hevent
    cases hevent

structure Accounted (start : Start) (s : System) : Prop where
  connected : s.adapter.session.connected = true
  faults : s.adapter.vm.faults = fun _ => none
  launchMode : s.adapter.session.launchMode = start.launchMode
  wellFormed : forall set, set ∈ s.events -> WellFormed start set
  pending : s.adapter.session.vmStartPending = true -> start.suspended = true
  configured : s.requests.count .configurationDone + s.vmStartReleases ≤
    if s.configured then 1 else 0
  accounting : s.adapter.vm.suspendCount =
    s.adapter.session.suspendDepth + s.vmStartHeld start + s.queued
  told : toldStopped s.adapter.out = true -> 0 < s.adapter.session.suspendDepth

/--
A resume request is handled while VM_START's suspension is released, and while a
suspension is counted unless the debuggee runs anyway.
-/
def ResumesCounted (start : Start) (s : System) : Action -> Prop
  | .deliverRequest request =>
    request.isResume = true ->
      s.vmStartHeld start = 0 ∧
        (0 < s.adapter.session.suspendDepth ∨ s.adapter.vm.suspendCount = 0)
  | _ => True

instance (start : Start) (s : System) (a : Action) :
    Decidable (ResumesCounted start s a) :=
  match a with
  | .deliverRequest _ => inferInstanceAs (Decidable (_ -> _))
  | .load _ => isTrue trivial
  | .emit _ => isTrue trivial
  | .issue _ => isTrue trivial
  | .deliverEvent _ => isTrue trivial

theorem accounted_initial (world : World) (start : Start)
    (hfaults : world.faults = fun _ => none) :
    Accounted start (initial world start) where
  connected := rfl
  faults := hfaults
  launchMode := rfl
  wellFormed := by
    intro set hset
    cases hs : start.suspended with
    | false => simp [initial, hs] at hset
    | true =>
      simp only [initial, hs, if_true, List.mem_singleton] at hset
      exact Or.inl ⟨hset, hs⟩
  pending := by intro h; cases h
  configured := Nat.le_refl 0
  accounting := by
    cases hs : start.suspended <;>
      simp [initial, hs, Debuggee.started, Session.started, vmStartHeld, queued,
        counted, vmStartSet]
  told := by intro h; cases h

/-!
# One action
-/

section Steps

variable {world : World} {start : Start} {s t : System}

theorem accounted_load (h : Accounted start s) (cls : ClassEntry) :
    Accounted start (s.onVm (fun vm => vm.load cls)) :=
  ⟨h.connected, h.faults, h.launchMode, h.wellFormed, h.pending, h.configured,
    h.accounting, h.told⟩

theorem accounted_emit (h : Accounted start s) {set : EventSet}
    (hset : set.Emittable s.adapter.vm) :
    Accounted start
      { s.onVm (fun vm => vm.emit set) with events := s.events ++ [set] } := by
  refine ⟨h.connected, h.faults, h.launchMode, ?_, h.pending, h.configured, ?_, h.told⟩
  · intro other hother
    rcases List.mem_append.mp hother with hold | hnew
    · exact h.wellFormed other hold
    · rw [List.mem_singleton.mp hnew]
      exact Or.inr ⟨hset.1, hset.2.1⟩
  · have hcounted : (if set.suspendPolicy = .all then 1 else 0) =
        List.countP counted [set] := by
      by_cases hall : set.suspendPolicy = .all
      · have hc : counted set = true := by
          unfold counted
          rw [hall, hset.1]
          rfl
        simp [hall, hc]
      · have hc : counted set = false := by simp [counted, hall]
        simp [hall, hc]
    show s.adapter.vm.suspendCount + _ =
      s.adapter.session.suspendDepth + vmStartHeld start s + List.countP counted (s.events ++ [set])
    rw [List.countP_append, hcounted, h.accounting]
    unfold queued
    omega

variable {request : Request} {rest : List Request} {b : Adapter}

theorem accounted_issue (h : Accounted start s) (hallowed : s.allows request = true) :
    Accounted start (s.issued request) := by
  refine ⟨h.connected, h.faults, h.launchMode, h.wellFormed, h.pending, ?_,
    h.accounting, h.told⟩
  have hbound := h.configured
  show (s.requests ++ [request]).count .configurationDone + s.vmStartReleases ≤
    if s.configured || request == .configurationDone then 1 else 0
  rw [List.count_append]
  by_cases hrequest : request = .configurationDone
  · have hfresh : s.configured = false := by
      simp only [allows, hrequest, Request.isResume] at hallowed
      simpa using hallowed
    rw [hfresh] at hbound
    simp only [hrequest, List.count_singleton_self, beq_self_eq_true, Bool.or_true, if_true]
    simp only [Bool.false_eq_true, if_false] at hbound
    omega
  · have hne : (request == Request.configurationDone) = false := by simpa using hrequest
    have hcount : List.count Request.configurationDone [request] = 0 := by
      simp [hrequest]
    rw [hcount, hne, Bool.or_false]
    simpa using hbound

theorem accounted_deliverEvent (h : Accounted start s) {set : EventSet}
    {rest : List EventSet} (hevents : s.events = set :: rest) :
    Accounted start
      ({ s with events := rest }.deliver world (.jdwpEvent (.ok set))) := by
  have hwell : WellFormed start set := h.wellFormed set (by rw [hevents]; simp)
  have hcomposite := handleEventSet_composite s.adapter set
  have hok := handleEventSet_ok set h.connected h.faults
  have hadapter : ({ s with events := rest }.deliver world (.jdwpEvent (.ok set))).adapter =
      s.adapter.handleEventSet set :=
    deliver_event_adapter (s := { s with events := rest }) h.connected set
  have hqueued : s.queued = (if counted set then 1 else 0) + List.countP counted rest := by
    unfold queued
    rw [hevents, List.countP_cons]
    omega
  have haccount := h.accounting
  rw [hqueued] at haccount
  refine ⟨?_, ?_, ?_, ?_, ?_, ?_, ?_, ?_⟩
  · rw [hadapter]
    exact hcomposite.connected.trans h.connected
  · rw [hadapter]
    exact hcomposite.faults.trans h.faults
  · rw [hadapter]
    exact hcomposite.launchMode.trans h.launchMode
  · intro other hother
    exact h.wellFormed other (by rw [hevents]; exact List.mem_cons_of_mem _ hother)
  · rw [hadapter, hcomposite.vmStartPending]
    intro hpending
    rcases Bool.or_eq_true_iff.mp hpending with hold | hnew
    · exact h.pending hold
    · exact hwell.suspended hnew
  · exact h.configured
  · rw [hadapter]
    show (s.adapter.handleEventSet set).vm.suspendCount =
      (s.adapter.handleEventSet set).session.suspendDepth + vmStartHeld start s +
        List.countP counted rest
    split at hok
    · rename_i hresume
      rw [(Bool.and_eq_true_iff.mp hresume).1, if_pos rfl] at haccount
      rw [hok.1, hok.2]
      omega
    · rw [hok.1, hok.2]
      omega
  · rw [hadapter, hcomposite.toldStopped]
    intro htold
    by_cases hstop : set.events.any Event.isStop = true
    · have hcounted := hwell.counted_of_stop hstop
      rw [hcounted.1, hcounted.2] at hok
      simp only [Bool.not_true, Bool.and_false, Bool.false_eq_true, if_false, if_true] at hok
      omega
    · have hold : toldStopped s.adapter.out = true := by
        simpa [hstop] using htold
      have hpositive := h.told hold
      split at hok <;> omega

theorem accounted_of_handler (h : Accounted start s) (hrequests : s.requests = request :: rest)
    (hother : request ≠ .configurationDone) {result : Except String Body}
    (hb : s.adapter.dispatch world.fqcnForSource request = (result, b))
    (hconnected : b.session.connected = true) (hfaults : b.vm.faults = fun _ => none)
    (hlaunch : b.session.launchMode = s.adapter.session.launchMode)
    (hpending : b.session.vmStartPending = s.adapter.session.vmStartPending)
    (haccount : b.vm.suspendCount = b.session.suspendDepth + s.vmStartHeld start + s.queued)
    (htold : (DapMessage.response request result).told (toldStopped b.out) = true ->
      0 < b.session.suspendDepth) :
    Accounted start ({ s with requests := rest }.deliver world (.request request)) := by
  have hadapter : ({ s with requests := rest }.deliver world (.request request)).adapter =
      b.write (.response request result) := by
    rw [deliver_request_adapter]
    simp only [hb]
  have hreleases : ({ s with requests := rest }.deliver world
      (.request request)).vmStartReleases = s.vmStartReleases :=
    deliver_releases (s := { s with requests := rest }) hother
  have hheld : vmStartHeld start ({ s with requests := rest }.deliver world
      (.request request)) = s.vmStartHeld start := by
    unfold vmStartHeld
    rw [hreleases]
  refine ⟨?_, ?_, ?_, h.wellFormed, ?_, ?_, ?_, ?_⟩
  · rw [hadapter]
    exact hconnected
  · rw [hadapter]
    exact hfaults
  · rw [hadapter]
    exact hlaunch.trans h.launchMode
  · rw [hadapter]
    exact fun hp => h.pending (hpending ▸ hp)
  · have hbound := h.configured
    rw [hrequests, List.count_cons_of_ne (fun heq => hother heq)] at hbound
    rw [hreleases]
    exact hbound
  · rw [hheld, hadapter]
    exact haccount
  · rw [hadapter]
    show toldStopped (b.out ++ [_]) = true -> _
    rw [toldStopped_append]
    exact htold

theorem accounted_of_quiet (h : Accounted start s) (hrequests : s.requests = request :: rest)
    (hother : request ≠ .configurationDone) {result : Except String Body}
    (hb : s.adapter.dispatch world.fqcnForSource request = (result, b))
    (hquiet : Quiet s.adapter b) :
    Accounted start ({ s with requests := rest }.deliver world (.request request)) := by
  refine accounted_of_handler h hrequests hother hb (hquiet.connected.trans h.connected)
    (hquiet.vm.faults.trans h.faults) hquiet.launchMode hquiet.vmStartPending ?_ ?_
  · rw [hquiet.vm.suspendCount, hquiet.suspendDepth]
    exact h.accounting
  · rw [hquiet.toldStopped, hquiet.suspendDepth]
    intro htold
    refine h.told ?_
    cases result with
    | error e => exact htold
    | ok body => exact (Bool.and_eq_true_iff.mp htold).1

theorem accounted_of_continued (h : Accounted start s) (hrequests : s.requests = request :: rest)
    (hresume : request.isResume = true) (hok : ResumesCounted start s (.deliverRequest request))
    {before : Adapter} {body : Body}
    (hb : s.adapter.dispatch world.fqcnForSource request = (.ok body, b))
    (hcontinued : b = before.continueAll.2) (hconnected : before.session.connected = true)
    (hfaults : before.vm.faults = fun _ => none)
    (hlaunch : before.session.launchMode = s.adapter.session.launchMode)
    (hpending : before.session.vmStartPending = s.adapter.session.vmStartPending)
    (hdepth : before.session.suspendDepth = s.adapter.session.suspendDepth)
    (hcount : before.vm.suspendCount = s.adapter.vm.suspendCount) :
    Accounted start ({ s with requests := rest }.deliver world (.request request)) := by
  have hother : request ≠ .configurationDone := by
    rintro rfl
    cases hresume
  have hsteady := continueAll_steady before
  have hresumed := continueAll_ok hconnected hfaults
  have haccount := h.accounting
  rcases hok hresume with ⟨hreleased, hguard⟩
  subst hcontinued
  refine accounted_of_handler h hrequests hother hb (hsteady.connected.trans hconnected)
    (hsteady.faults.trans hfaults) (hsteady.launchMode.trans hlaunch)
    (hsteady.vmStartPending.trans hpending) ?_ ?_
  · rw [hresumed.2.2, hresumed.2.1, hcount, hdepth]
    rw [hreleased] at haccount ⊢
    rcases hguard with hpositive | hruns
    · omega
    · omega
  · simp [DapMessage.told, hresume]

theorem accounted_configurationDone (h : Accounted start s)
    (hrequests : s.requests = .configurationDone :: rest) :
    Accounted start
      ({ s with requests := rest }.deliver world (.request .configurationDone)) := by
  rcases configurationDone_spec h.connected with
    ⟨hconnected, hlaunch, hdepth, hpending, hstops, htold, hfaults, hsteps, hresumes, hcount⟩
  have hbound := h.configured
  rw [hrequests, List.count_cons_self] at hbound
  have hfresh : s.vmStartReleases = 0 := by
    split at hbound <;> omega
  have hreleases : ({ s with requests := rest }.deliver world
      (.request .configurationDone)).vmStartReleases =
        if s.adapter.owesResume then 1 else 0 := by
    show s.vmStartReleases + (s.adapter.configurationDone.2.vm.resumesSent -
      s.adapter.vm.resumesSent) = _
    rw [hresumes, hfresh]
    omega
  have hsuspended : s.adapter.owesResume = true -> start.suspended = true := by
    intro howes
    rcases Bool.or_eq_true_iff.mp howes with hl | hp
    · rw [h.launchMode] at hl
      cases start with
      | launch stopOnEntry mainClass => rfl
      | attach suspended => cases hl
    · exact h.pending hp
  refine ⟨hconnected, hfaults.trans h.faults, hlaunch.trans h.launchMode, h.wellFormed,
    ?_, ?_, ?_, ?_⟩
  · intro hp
    have hp' : s.adapter.configurationDone.2.session.vmStartPending = true := hp
    rw [hpending] at hp'
    cases hp'
  · rw [hreleases]
    show rest.count .configurationDone + _ ≤ if s.configured then 1 else 0
    split at hbound
    · rename_i hconfigured
      rw [hconfigured]
      split <;> simp <;> omega
    · omega
  · have haccount := h.accounting
    show s.adapter.configurationDone.2.vm.suspendCount =
      s.adapter.configurationDone.2.session.suspendDepth +
        vmStartHeld start ({ s with requests := rest }.deliver world
          (.request .configurationDone)) + s.queued
    rw [hcount h.faults, hdepth]
    unfold vmStartHeld at haccount ⊢
    rw [hreleases]
    rw [hfresh] at haccount
    cases howes : s.adapter.owesResume with
    | false => simpa using haccount
    | true =>
      rw [hsuspended howes, if_pos rfl] at haccount
      simp only [hsuspended howes, if_true]
      omega
  · show toldStopped (s.adapter.configurationDone.2.out ++ [_]) = true ->
      0 < s.adapter.configurationDone.2.session.suspendDepth
    rw [toldStopped_append, htold, hdepth]
    intro htold
    refine h.told ?_
    cases hresult : s.adapter.configurationDone.1 with
    | error e => simpa [Adapter.dispatch, hresult, DapMessage.told] using htold
    | ok body =>
      simpa [Adapter.dispatch, hresult, DapMessage.told, Request.isResume] using htold

theorem accounted_pause (h : Accounted start s) {args : Except String Nat}
    (hrequests : s.requests = .pause args :: rest) :
    Accounted start ({ s with requests := rest }.deliver world (.request (.pause args))) := by
  have hb : s.adapter.dispatch world.fqcnForSource (.pause args) =
      ((s.adapter.pause args).1, (s.adapter.pause args).2) := rfl
  rcases pause_cases s.adapter args with ⟨e, he, hquiet⟩ | ⟨threadId, _, hok, hpaused⟩
  · exact accounted_of_quiet h hrequests (by simp) hb hquiet
  · rw [hpaused] at hb
    refine accounted_of_handler h hrequests (by simp) hb h.connected h.faults rfl rfl ?_ ?_
    · have haccount := h.accounting
      simp only
      omega
    · intro _
      simp

theorem accounted_deliverRequest (h : Accounted start s) (hrequests : s.requests = request :: rest)
    (hok : ResumesCounted start s (.deliverRequest request)) :
    Accounted start ({ s with requests := rest }.deliver world (.request request)) := by
  cases request with
  | setBreakpoints args =>
    exact accounted_of_quiet h hrequests (by simp) rfl
      (Quiet.setBreakpoints world.fqcnForSource s.adapter args)
  | setExceptionBreakpoints args =>
    exact accounted_of_quiet h hrequests (by simp) rfl
      (Quiet.frame.setExceptionBreakpoints s.adapter args)
  | configurationDone => exact accounted_configurationDone h hrequests
  | continueAll =>
    have hresult := (continueAll_ok h.connected h.faults).1
    exact accounted_of_continued h hrequests rfl hok (Prod.ext hresult rfl) rfl
      h.connected h.faults rfl rfl rfl rfl
  | step depth args =>
    rcases step_cases s.adapter depth args with
      ⟨e, he, hquiet⟩ | ⟨thread, _, hfault, hstep, hresult⟩
    · exact accounted_of_quiet h hrequests (by simp) rfl hquiet
    · rcases stepSet_spec thread depth hfault with
        ⟨hconnected, hlaunch, hdepth, hpending, _, hcount, hfaults, _⟩
      have hconnected' := hconnected.trans h.connected
      have hfaults' := hfaults.trans h.faults
      rcases hresult with ⟨e, _, he⟩ | hdone
      · rw [(continueAll_ok hconnected' hfaults').1] at he
        cases he
      · exact accounted_of_continued h hrequests rfl hok (Prod.ext hdone rfl) hstep
          hconnected' hfaults' hlaunch hpending hdepth hcount
  | pause args => exact accounted_pause h hrequests

theorem accounted_perform (h : Accounted start s) {a : Action}
    (hok : ResumesCounted start s a) (hstep : s.perform world a = some t) :
    Accounted start t := by
  rcases perform_cases hstep with ⟨cls, rfl, rfl⟩ | ⟨set, rfl, hset, rfl⟩ |
    ⟨request, rfl, hallowed, rfl⟩ | ⟨set, rest, rfl, hevents, rfl⟩ |
    ⟨request, rest, rfl, hrequests, rfl⟩
  · exact accounted_load h cls
  · exact accounted_emit h hset
  · exact accounted_issue h hallowed
  · exact accounted_deliverEvent h hevents
  · exact accounted_deliverRequest h hrequests hok

end Steps

/-!
# Whole runs
-/

/--
In every run whose resume requests are handled while their suspension is counted,
the debuggee's count is the session's depth, VM_START's suspension while it is
held, and one for each composite in the channel.
-/
theorem suspension_accounting (world : World) (start : Start) (as : List Action)
    (s : System) (hfaults : world.faults = fun _ => none)
    (hrun : run (perform world) (initial world start) as = some s)
    (hok : Guarded (perform world) (ResumesCounted start) (initial world start) as) :
    s.adapter.vm.suspendCount =
        s.adapter.session.suspendDepth + s.vmStartHeld start + s.queued ∧
      (as.getLast? = some (.deliverRequest .continueAll) -> s.queued = 0 ->
        s.adapter.vm.suspendCount = 0) ∧
      (toldStopped s.adapter.out = true -> 0 < s.adapter.vm.suspendCount) := by
  have hinitial := accounted_initial world start hfaults
  have hstep : forall s a t, Accounted start s -> ResumesCounted start s a ->
      s.perform world a = some t -> Accounted start t :=
    fun s a t h hok hstep => accounted_perform h hok hstep
  have hend : Accounted start s := Run.guarded_invariant (Accounted start) hstep hinitial hok hrun
  refine ⟨hend.accounting, ?_, ?_⟩
  · intro hlast hqueued
    rcases List.getLast?_eq_some_iff.mp hlast with ⟨before, rfl⟩
    rcases Run.run_snoc hrun with ⟨u, hu, hcontinue⟩
    rcases Run.guarded_snoc hok hu with ⟨hpast, hguard⟩
    have hbefore : Accounted start u :=
      Run.guarded_invariant (Accounted start) hstep hinitial hpast hu
    rcases perform_cases hcontinue with ⟨_, h, _⟩ | ⟨_, h, _⟩ | ⟨_, h, _⟩ | ⟨_, _, h, _⟩ |
      ⟨request, rest, h, _, rfl⟩
    · cases h
    · cases h
    · cases h
    · cases h
    · cases h
      have haccount := hend.accounting
      have hdepth : u.adapter.continueAll.2.session.suspendDepth = 0 :=
        (continueAll_ok hbefore.connected hbefore.faults).2.1
      have hheld : vmStartHeld start ({ u with requests := rest }.deliver world
          (.request .continueAll)) = 0 := (hguard rfl).1
      rw [hheld, hqueued] at haccount
      exact haccount.trans hdepth
  · intro htold
    have hpositive := hend.told htold
    have haccount := hend.accounting
    omega

/-- A breakpoint in a launched debuggee, continued after it was reported. -/
def stopAndContinue : List Action :=
  [.issue .configurationDone, .deliverRequest .configurationDone,
    .deliverEvent vmStartSet, .emit breakpointSet, .deliverEvent breakpointSet,
    .issue .continueAll, .deliverRequest .continueAll]

theorem suspension_accounting_stopAndContinue :
    exists s, run (perform quietWorld)
        (initial quietWorld (.launch false "Main")) stopAndContinue = some s ∧
      s.queued = 0 ∧ s.adapter.vm.suspendCount = 0 := by
  refine ⟨_, rfl, rfl, ?_⟩
  exact (suspension_accounting quietWorld (.launch false "Main") stopAndContinue _ rfl rfl
    (by decide)).2.1 rfl rfl

/--
A pause overtakes a breakpoint; the client answers both stops by a continue.
The first resumes both suspensions and the second meets the next breakpoint
before the session has counted it.
-/
def pauseOvertakesBreakpoint : List Action :=
  [.emit breakpointSet, .issue (.pause (.ok 1)), .deliverRequest (.pause (.ok 1)),
    .issue .continueAll, .deliverEvent breakpointSet, .issue .continueAll,
    .deliverRequest .continueAll, .emit breakpointSet, .deliverRequest .continueAll,
    .deliverEvent breakpointSet]

theorem suspension_not_accounted :
    exists s, run (perform quietWorld) (initial quietWorld (.attach false))
        pauseOvertakesBreakpoint = some s ∧
      s.adapter.vm.suspendCount ≠
        s.adapter.session.suspendDepth + s.vmStartHeld (.attach false) + s.queued ∧
      toldStopped s.adapter.out = true ∧ s.adapter.vm.suspendCount = 0 := by
  refine ⟨_, rfl, ?_, ?_, ?_⟩
  · decide
  · decide
  · decide

end System

end Debug
end JavaVsixLite
