import Mathlib.Algebra.GroupWithZero.Nat
import JavaVsixLite.Debug.Control

/-!
# Steps and the stops they lead to

A step sets a SINGLE_STEP request that expires when its event is reported.  The
step is live while the request is set or its event waits in the channel.  Other
stops do not clear it, so what holds of steps holds while none is cut short.
-/

namespace JavaVsixLite
namespace Debug

open Foundation
open Adapter

theorem stepIds_length (set : EventSet) :
    set.stepIds.length = set.events.countP Event.isStep := by
  unfold EventSet.stepIds
  induction set.events with
  | nil => rfl
  | cons event rest ih =>
    rw [List.countP_cons]
    cases event <;> simp [Event.isStep, ih]

namespace System

def liveSteps (s : System) : Nat :=
  s.adapter.vm.outstandingSteps.length +
    (s.events.map (fun set => set.stepIds.length)).sum

/--
No stop of another kind and no further resume request is handled while a step is
live: each step ends in its own event first.
-/
def StepsUncut (s : System) : Action -> Prop
  | .deliverEvent set =>
    set.events.any Event.isStop = true -> set.stepIds = [] -> s.liveSteps = 0
  | .deliverRequest (.pause _) => s.liveSteps = 0
  | .deliverRequest .continueAll => s.liveSteps = 0
  | .deliverRequest (.step _ _) => s.liveSteps = 0
  | _ => True

instance (s : System) (a : Action) : Decidable (StepsUncut s a) :=
  match a with
  | .deliverEvent _ => inferInstanceAs (Decidable (_ -> _ -> _))
  | .deliverRequest (.pause _) => inferInstanceAs (Decidable (_ = _))
  | .deliverRequest .continueAll => inferInstanceAs (Decidable (_ = _))
  | .deliverRequest (.step _ _) => inferInstanceAs (Decidable (_ = _))
  | .deliverRequest .configurationDone => isTrue trivial
  | .deliverRequest (.setBreakpoints _) => isTrue trivial
  | .deliverRequest (.setExceptionBreakpoints _) => isTrue trivial
  | .load _ => isTrue trivial
  | .emit _ => isTrue trivial
  | .issue _ => isTrue trivial

/-!
# What the requests do to steps
-/

/-- `b` has answered `request` from `a`, as far as steps and stops go. -/
structure Answered (request : Request) (a b : Adapter) : Prop where
  connected : b.session.connected = a.session.connected
  stepStops : stepStops b.out = stepStops a.out
  stops : stops b.out = stops a.out ∨ exists args, request = .pause args
  steps : b.vm.outstandingSteps = a.vm.outstandingSteps ∨
    exists depth args added, request = .step depth args ∧
      b.vm.outstandingSteps = a.vm.outstandingSteps ++ [added] ∧
      added.modifiers.contains (.count 1) = true

theorem Answered.of_quiet {request : Request} {a b : Adapter} (h : Quiet a b) :
    Answered request a b :=
  ⟨h.connected, congrArg (List.count StopReason.step) h.stops, Or.inl h.stops,
    Or.inl h.vm.outstandingSteps⟩

theorem dispatch_answered (fqcnForSource : String -> Option String) {a : Adapter}
    (hconnected : a.session.connected = true) (request : Request) :
    Answered request a (a.dispatch fqcnForSource request).2 := by
  cases request with
  | setBreakpoints args => exact .of_quiet (Quiet.setBreakpoints fqcnForSource a args)
  | setExceptionBreakpoints args => exact .of_quiet (Quiet.frame.setExceptionBreakpoints a args)
  | configurationDone =>
    rcases configurationDone_spec hconnected with
      ⟨hstill, _, _, _, hstops, _, _, hsteps, _, _⟩
    exact ⟨hstill.trans hconnected.symm, congrArg (List.count StopReason.step) hstops,
      Or.inl hstops, Or.inl hsteps⟩
  | continueAll =>
    have hsteady := continueAll_steady a
    exact ⟨hsteady.connected, congrArg (List.count StopReason.step) hsteady.stops,
      Or.inl hsteady.stops, Or.inl hsteady.outstandingSteps⟩
  | step depth args =>
    rcases step_cases a depth args with ⟨_, _, hquiet⟩ | ⟨thread, _, hfault, hstep, _⟩
    · exact .of_quiet hquiet
    · rcases stepSet_spec thread depth hfault with ⟨hset, _, _, _, hout, _, _, hsteps⟩
      have hsteady := continueAll_steady (a.stepSet thread depth)
      have hstops : stops (a.stepSet thread depth).continueAll.2.out = stops a.out := by
        rw [hsteady.stops, hout]
      show Answered _ a (a.step depth args).2
      rw [hstep]
      refine ⟨hsteady.connected.trans hset,
        congrArg (List.count StopReason.step) hstops, Or.inl hstops, Or.inr ?_⟩
      exact ⟨depth, args, _, rfl, hsteady.outstandingSteps.trans hsteps, rfl⟩
  | pause args =>
    rcases pause_cases a args with ⟨_, _, hquiet⟩ | ⟨threadId, _, _, hpaused⟩
    · exact .of_quiet hquiet
    · show Answered _ a (a.pause args).2
      rw [hpaused]
      refine ⟨rfl, ?_, Or.inr ⟨args, rfl⟩, Or.inl rfl⟩
      simp [Adapter.stepStops, DapMessage.stopReason?]

/-!
# The invariant
-/

def Action.resumeRequest? : Action -> Option Request
  | .deliverRequest request => if request.isResume then some request else none
  | _ => none

/-- The resume request that was handled last. -/
def lastResume (past : List Action) : Option Request :=
  (past.filterMap Action.resumeRequest?).getLast?

theorem lastResume_snoc (past : List Action) (a : Action) :
    lastResume (past ++ [a]) = (Action.resumeRequest? a).or (lastResume past) := by
  unfold lastResume
  cases ha : Action.resumeRequest? a with
  | none => simp [ha]
  | some request => simp [ha]

structure OneStep (past : List Action) (s : System) : Prop where
  connected : s.adapter.session.connected = true
  once : forall request, request ∈ s.adapter.vm.outstandingSteps ->
    request.modifiers.contains (.count 1) = true
  live : s.liveSteps ≤ 1
  plain : lastResume past = some .continueAll -> s.liveSteps = 0

section Steps

variable {world : World} {past : List Action} {s : System}

theorem emit_steps (h : OneStep past s) {set : EventSet}
    (hset : set.Emittable s.adapter.vm) :
    (s.adapter.vm.emit set).outstandingSteps.Sublist s.adapter.vm.outstandingSteps ∧
      (s.adapter.vm.emit set).outstandingSteps.length + set.stepIds.length ≤
        s.adapter.vm.outstandingSteps.length := by
  have hsub : (s.adapter.vm.emit set).outstandingSteps.Sublist
      s.adapter.vm.outstandingSteps := List.filter_sublist.filter _
  refine ⟨hsub, ?_⟩
  cases hids : set.stepIds with
  | nil => simpa using hsub.length_le
  | cons id rest =>
    -- at most one request is set, so the composite reports this one and no other
    have hids' : set.stepIds.Subset (s.adapter.vm.outstandingSteps.map EventRequest.id) :=
      hset.2.2.2
    have hlength : set.stepIds.length ≤ s.adapter.vm.outstandingSteps.length := by
      simpa using (hset.2.2.1.subperm hids').length_le
    have hbound : s.adapter.vm.outstandingSteps.length ≤ 1 := by
      have hlive := h.live
      unfold liveSteps at hlive
      omega
    have hmem : id ∈ s.adapter.vm.outstandingSteps.map EventRequest.id :=
      hset.2.2.2 id (by rw [hids]; simp)
    rcases List.mem_map.mp hmem with ⟨request, hrequest, hid⟩
    have hgone : request ∉ (s.adapter.vm.emit set).outstandingSteps := by
      intro hstill
      have hkept := (List.mem_filter.mp (List.mem_filter.mp hstill).1).2
      have hreported : set.events.any
          (fun event => event.requestId? == some request.id) = true := by
        have hid' : id ∈ set.stepIds := by rw [hids]; simp
        rcases List.mem_filterMap.mp hid' with ⟨event, hevent, hstep⟩
        refine List.any_eq_true.mpr ⟨event, hevent, ?_⟩
        cases event with
        | singleStep eventId thread =>
          simp only [Option.some.injEq] at hstep
          simp [Event.requestId?, hstep, hid]
        | vmStart => cases hstep
        | classPrepare _ _ => cases hstep
        | breakpoint _ _ => cases hstep
        | exception _ _ _ => cases hstep
        | vmDeath => cases hstep
      have hexpired : Debuggee.expired set request = true := by
        unfold Debuggee.expired
        rw [h.once request hrequest, hreported]
        rfl
      rw [hexpired] at hkept
      cases hkept
    have hshorter : (s.adapter.vm.emit set).outstandingSteps.length <
        s.adapter.vm.outstandingSteps.length := by
      refine lt_of_le_of_ne hsub.length_le ?_
      intro heq
      rw [hsub.eq_of_length heq] at hgone
      exact hgone hrequest
    rw [← hids]
    omega

theorem oneStep_emit (h : OneStep past s) {set : EventSet}
    (hset : set.Emittable s.adapter.vm) :
    OneStep (past ++ [.emit set])
      { s.onVm (fun vm => vm.emit set) with events := s.events ++ [set] } := by
  rcases emit_steps h hset with ⟨hsub, hlength⟩
  have hlive : liveSteps { s.onVm (fun vm => vm.emit set) with events := s.events ++ [set] } ≤
      s.liveSteps := by
    unfold liveSteps
    show (s.adapter.vm.emit set).outstandingSteps.length +
      ((s.events ++ [set]).map (fun set => set.stepIds.length)).sum ≤ _
    rw [List.map_append, List.sum_append]
    simp only [List.map_cons, List.map_nil, List.sum_cons, List.sum_nil]
    omega
  refine ⟨h.connected, fun request hr => h.once request (hsub.subset hr),
    hlive.trans h.live, ?_⟩
  rw [lastResume_snoc]
  intro hplain
  have hzero := h.plain hplain
  omega

theorem oneStep_deliverEvent (world : World) (h : OneStep past s) {set : EventSet}
    {rest : List EventSet}
    (hevents : s.events = set :: rest) :
    OneStep (past ++ [.deliverEvent set])
        ({ s with events := rest }.deliver world (.jdwpEvent (.ok set))) ∧
      liveSteps ({ s with events := rest }.deliver world (.jdwpEvent (.ok set))) +
        set.stepIds.length ≤ s.liveSteps := by
  have hcomposite := handleEventSet_composite s.adapter set
  have hadapter : ({ s with events := rest }.deliver world (.jdwpEvent (.ok set))).adapter =
      s.adapter.handleEventSet set :=
    deliver_event_adapter (s := { s with events := rest }) h.connected set
  have hlive : liveSteps ({ s with events := rest }.deliver world (.jdwpEvent (.ok set))) +
      set.stepIds.length ≤ s.liveSteps := by
    have hsub := hcomposite.outstandingSteps.length_le
    unfold liveSteps
    rw [hadapter, hevents]
    show _ + (rest.map (fun set => set.stepIds.length)).sum + _ ≤ _
    simp only [List.map_cons, List.sum_cons]
    omega
  refine ⟨⟨?_, ?_, ?_, ?_⟩, hlive⟩
  · rw [hadapter]
    exact hcomposite.connected.trans h.connected
  · rw [hadapter]
    exact fun request hr => h.once request (hcomposite.outstandingSteps.subset hr)
  · have hbound := h.live
    omega
  · rw [lastResume_snoc]
    intro hplain
    have hzero := h.plain hplain
    omega

theorem oneStep_deliverRequest (h : OneStep past s) {request : Request}
    {rest : List Request} (hok : StepsUncut s (.deliverRequest request)) :
    OneStep (past ++ [.deliverRequest request])
      ({ s with requests := rest }.deliver world (.request request)) := by
  have hanswered := dispatch_answered world.fqcnForSource h.connected request
  have hlive : forall n,
      (s.adapter.dispatch world.fqcnForSource request).2.vm.outstandingSteps.length =
        s.adapter.vm.outstandingSteps.length + n ->
        liveSteps ({ s with requests := rest }.deliver world (.request request)) =
          s.liveSteps + n := by
    intro n hn
    show (s.adapter.dispatch world.fqcnForSource request).2.vm.outstandingSteps.length +
      (s.events.map (fun set => set.stepIds.length)).sum = _
    unfold liveSteps
    omega
  rcases hanswered.steps with hsame | ⟨depth, args, added, rfl, hadded, hcount⟩
  · have hkept := hlive 0 (by rw [hsame]; rfl)
    refine ⟨hanswered.connected.trans h.connected, ?_, ?_, ?_⟩
    · intro r hr
      have hr' : r ∈ (s.adapter.dispatch world.fqcnForSource request).2.vm.outstandingSteps := hr
      rw [hsame] at hr'
      exact h.once r hr'
    · rw [hkept]
      exact h.live
    · rw [hkept, lastResume_snoc]
      intro hplain
      cases request with
      | continueAll => exact hok
      | step depth args => simp [Action.resumeRequest?, Request.isResume] at hplain
      | setBreakpoints args => exact h.plain hplain
      | setExceptionBreakpoints args => exact h.plain hplain
      | configurationDone => exact h.plain hplain
      | pause args => exact h.plain hplain
  · have hnone : s.liveSteps = 0 := hok
    have hgrown := hlive 1 (by rw [hadded]; simp)
    refine ⟨hanswered.connected.trans h.connected, ?_, ?_, ?_⟩
    · intro r hr
      have hr' : r ∈ (s.adapter.dispatch world.fqcnForSource
        (.step depth args)).2.vm.outstandingSteps := hr
      rw [hadded] at hr'
      rcases List.mem_append.mp hr' with hold | hnew
      · exact h.once r hold
      · rw [List.mem_singleton.mp hnew]
        exact hcount
    · rw [hgrown, hnone]
    · rw [lastResume_snoc]
      intro hplain
      simp [Action.resumeRequest?, Request.isResume] at hplain

theorem oneStep_perform {t : System} {a : Action} (h : OneStep past s)
    (hok : StepsUncut s a) (hstep : s.perform world a = some t) :
    OneStep (past ++ [a]) t := by
  have hplain : forall {b : Action}, Action.resumeRequest? b = none ->
      lastResume (past ++ [b]) = some .continueAll -> s.liveSteps = 0 := by
    intro b hb hlast
    rw [lastResume_snoc, hb] at hlast
    exact h.plain hlast
  rcases perform_cases hstep with ⟨cls, rfl, rfl⟩ | ⟨set, rfl, hset, rfl⟩ |
    ⟨request, rfl, _, rfl⟩ | ⟨set, rest, rfl, hevents, rfl⟩ |
    ⟨request, rest, rfl, _, rfl⟩
  · exact ⟨h.connected, h.once, h.live, hplain rfl⟩
  · exact oneStep_emit h hset
  · exact ⟨h.connected, h.once, h.live, hplain rfl⟩
  · exact (oneStep_deliverEvent world h hevents).1
  · exact oneStep_deliverRequest h hok

theorem stop_finds_no_step {t : System} {a : Action} (h : OneStep past s)
    (hok : StepsUncut s a) (hstep : s.perform world a = some t) :
    ((stops s.adapter.out).length < (stops t.adapter.out).length ->
        t.adapter.vm.outstandingSteps = []) ∧
      (stepStops s.adapter.out < stepStops t.adapter.out ->
        lastResume past ≠ some .continueAll) := by
  rcases perform_cases hstep with ⟨cls, rfl, rfl⟩ | ⟨set, rfl, _, rfl⟩ |
    ⟨request, rfl, _, rfl⟩ | ⟨set, rest, rfl, hevents, rfl⟩ |
    ⟨request, rest, rfl, _, rfl⟩
  · exact ⟨fun hlt => absurd hlt (lt_irrefl _), fun hlt => absurd hlt (lt_irrefl _)⟩
  · exact ⟨fun hlt => absurd hlt (lt_irrefl _), fun hlt => absurd hlt (lt_irrefl _)⟩
  · exact ⟨fun hlt => absurd hlt (lt_irrefl _), fun hlt => absurd hlt (lt_irrefl _)⟩
  · have hcomposite := handleEventSet_composite s.adapter set
    have hadapter : ({ s with events := rest }.deliver world
        (.jdwpEvent (.ok set))).adapter = s.adapter.handleEventSet set :=
      deliver_event_adapter (s := { s with events := rest }) h.connected set
    have hlive := (oneStep_deliverEvent world h hevents).2
    constructor
    · rw [hadapter, hcomposite.stops]
      intro hlt
      have hstop : set.events.any Event.isStop = true := by
        have hpositive : 0 < set.events.countP Event.isStop := by omega
        rcases List.countP_pos_iff.mp hpositive with ⟨event, hmem, hevent⟩
        exact List.any_eq_true.mpr ⟨event, hmem, hevent⟩
      have hnone : liveSteps ({ s with events := rest }.deliver world
          (.jdwpEvent (.ok set))) = 0 := by
        have hbound := h.live
        cases hids : set.stepIds with
        | nil =>
          have hzero := hok hstop hids
          omega
        | cons id others =>
          rw [hids] at hlive
          simp only [List.length_cons] at hlive
          omega
      have hsteps : (({ s with events := rest }.deliver world
          (.jdwpEvent (.ok set))).adapter.vm.outstandingSteps).length = 0 := by
        unfold liveSteps at hnone
        omega
      rw [hadapter] at hsteps
      exact List.length_eq_zero_iff.mp hsteps
    · rw [hadapter, hcomposite.stepStops, ← stepIds_length]
      intro hlt hplain
      have hzero := h.plain hplain
      omega
  · have hanswered := dispatch_answered world.fqcnForSource h.connected request
    have hout : ({ s with requests := rest }.deliver world (.request request)).adapter.out =
        (s.adapter.dispatch world.fqcnForSource request).2.out ++
          [.response request (s.adapter.dispatch world.fqcnForSource request).1] := rfl
    have hstops : stops ({ s with requests := rest }.deliver world
        (.request request)).adapter.out =
          stops (s.adapter.dispatch world.fqcnForSource request).2.out := by
      rw [hout, stops_append]
      simp [DapMessage.stopReason?]
    constructor
    · rw [hstops]
      intro hlt
      rcases hanswered.stops with hsame | ⟨args, rfl⟩
      · rw [hsame] at hlt
        exact absurd hlt (lt_irrefl _)
      · have hzero : s.liveSteps = 0 := hok
        rcases hanswered.steps with hkept | ⟨_, _, _, himpossible, _⟩
        · have hnone : s.adapter.vm.outstandingSteps.length = 0 := by
            unfold liveSteps at hzero
            omega
          exact hkept.trans (List.length_eq_zero_iff.mp hnone)
        · cases himpossible
    · intro hlt
      unfold Adapter.stepStops at hlt
      rw [hstops] at hlt
      have hsame := hanswered.stepStops
      unfold Adapter.stepStops at hsame
      omega

end Steps

/--
In every run in which no step is cut short, at most one SINGLE_STEP request is
set, none is set when a stop is reported, and a stop with reason `step` never
follows a plain continue.
-/
theorem step_ends_in_its_stop (world : World) (start : Start) (as : List Action)
    (s : System) (hrun : run (perform world) (initial world start) as = some s)
    (hok : Guarded (perform world) StepsUncut (initial world start) as) :
    s.adapter.vm.outstandingSteps.length ≤ 1 ∧
      forall (before : List Action) (a : Action) (u : System), as = before ++ [a] ->
        run (perform world) (initial world start) before = some u ->
        ((stops u.adapter.out).length < (stops s.adapter.out).length ->
            s.adapter.vm.outstandingSteps = []) ∧
          (stepStops u.adapter.out < stepStops s.adapter.out ->
            lastResume before ≠ some .continueAll) := by
  have hinitial : OneStep [] (initial world start) := by
    refine ⟨rfl, (fun _ h => nomatch h), ?_, ?_⟩
    · cases hs : start.suspended <;>
        simp [initial, liveSteps, Debuggee.started, Debuggee.outstandingSteps, hs,
          EventSet.stepIds, vmStartSet]
    · intro h
      cases h
  have hinvariant : forall {as : List Action} {s : System},
      Guarded (perform world) StepsUncut (initial world start) as ->
      run (perform world) (initial world start) as = some s -> OneStep as s := by
    intro as s hok hrun
    exact Run.guarded_history OneStep
      (fun _ _ _ _ h hok hstep => oneStep_perform h hok hstep) hinitial hok hrun
  constructor
  · have hlive := (hinvariant hok hrun).live
    unfold liveSteps at hlive
    omega
  · intro before a u has hbefore
    subst has
    rcases Run.run_snoc hrun with ⟨v, hv, hstep⟩
    have huv : u = v := Option.some.inj (hbefore.symm.trans hv)
    subst huv
    rcases Run.guarded_snoc hok hbefore with ⟨hpast, hlast⟩
    exact stop_finds_no_step (hinvariant hpast hbefore) hlast hstep

def stepOnce : List Action :=
  [.emit breakpointSet, .deliverEvent breakpointSet,
    .issue (.step .over (.ok 1)), .deliverRequest (.step .over (.ok 1)),
    .emit { suspendPolicy := .all, events := [.singleStep 1 7] },
    .deliverEvent { suspendPolicy := .all, events := [.singleStep 1 7] }]

theorem step_ends_in_its_stop_stepOnce :
    exists s, run (perform quietWorld) (initial quietWorld (.attach false))
        stepOnce = some s ∧ stops s.adapter.out = [.breakpoint, .step] ∧
      s.adapter.vm.outstandingSteps = [] := by
  refine ⟨_, rfl, rfl, ?_⟩
  exact ((step_ends_in_its_stop quietWorld (.attach false) stepOnce _ rfl
    (by decide)).2 (stepOnce.take 5) _ _ rfl rfl).1 (by decide)

/--
Another thread's breakpoint cuts a step short; the client continues, and the
step's own event stops the debuggee again.
-/
def stepCutShort : List Action :=
  [.emit breakpointSet, .deliverEvent breakpointSet,
    .issue (.step .over (.ok 1)), .deliverRequest (.step .over (.ok 1)),
    .emit { suspendPolicy := .all, events := [.breakpoint 2 8] },
    .deliverEvent { suspendPolicy := .all, events := [.breakpoint 2 8] }]

def continueAfterCut : List Action :=
  [.issue .continueAll, .deliverRequest .continueAll,
    .emit { suspendPolicy := .all, events := [.singleStep 1 7] },
    .deliverEvent { suspendPolicy := .all, events := [.singleStep 1 7] }]

theorem step_outlives_its_stop :
    (exists s, run (perform quietWorld) (initial quietWorld (.attach false))
        stepCutShort = some s ∧ stops s.adapter.out = [.breakpoint, .breakpoint] ∧
      s.adapter.vm.outstandingSteps.map EventRequest.id = [1]) ∧
    (exists s, run (perform quietWorld) (initial quietWorld (.attach false))
        (stepCutShort ++ continueAfterCut) = some s ∧
      lastResume (stepCutShort ++ continueAfterCut) = some .continueAll ∧
      stops s.adapter.out = [.breakpoint, .breakpoint, .step]) := by
  refine ⟨⟨_, rfl, rfl, ?_⟩, ⟨_, rfl, ?_, rfl⟩⟩
  · decide
  · decide

end System

end Debug
end JavaVsixLite
