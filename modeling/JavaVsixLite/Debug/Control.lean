import JavaVsixLite.Debug.Frame

/-!
# What the handlers that are not quiet do

One specification for each of them: the events of a composite, the resumes after
it, and the execution control requests.  The runs of the system are analysed
through these alone.
-/

namespace JavaVsixLite
namespace Debug

def Event.isStop : Event -> Bool
  | .breakpoint _ _ => true
  | .singleStep _ _ => true
  | .exception _ _ _ => true
  | _ => false

def Event.isStep : Event -> Bool
  | .singleStep _ _ => true
  | _ => false

namespace Adapter

/-- How many of the stops reported so far are the end of a step. -/
def stepStops (out : List DapMessage) : Nat :=
  (stops out).count .step

/-!
# Events
-/

/-- `b` has handled `events` from `a`, and neither suspended nor resumed. -/
structure Handled (events : List Event) (a b : Adapter) : Prop where
  connected : b.session.connected = a.session.connected
  launchMode : b.session.launchMode = a.session.launchMode
  suspendDepth : b.session.suspendDepth = a.session.suspendDepth
  vmStartPending :
    b.session.vmStartPending = (a.session.vmStartPending || events.contains .vmStart)
  suspendCount : b.vm.suspendCount = a.vm.suspendCount
  faults : b.vm.faults = a.vm.faults
  resumesSent : b.vm.resumesSent = a.vm.resumesSent
  outstandingSteps : b.vm.outstandingSteps.Sublist a.vm.outstandingSteps
  toldStopped : toldStopped b.out = (toldStopped a.out || events.any Event.isStop)
  stops : (stops b.out).length = (stops a.out).length + events.countP Event.isStop
  stepStops : stepStops b.out = stepStops a.out + events.countP Event.isStep

namespace Handled

theorem trans {xs ys : List Event} {a b c : Adapter}
    (h : Handled xs a b) (k : Handled ys b c) : Handled (xs ++ ys) a c where
  connected := k.connected.trans h.connected
  launchMode := k.launchMode.trans h.launchMode
  suspendDepth := k.suspendDepth.trans h.suspendDepth
  vmStartPending := by
    rw [k.vmStartPending, h.vmStartPending]
    simp [Bool.or_assoc]
  suspendCount := k.suspendCount.trans h.suspendCount
  faults := k.faults.trans h.faults
  resumesSent := k.resumesSent.trans h.resumesSent
  outstandingSteps := k.outstandingSteps.trans h.outstandingSteps
  toldStopped := by
    rw [k.toldStopped, h.toldStopped]
    simp [Bool.or_assoc]
  stops := by
    rw [k.stops, h.stops, List.countP_append]
    omega
  stepStops := by
    rw [k.stepStops, h.stepStops, List.countP_append]
    omega

theorem of_quiet {a b : Adapter} (h : Quiet a b) {event : Event}
    (hstop : event.isStop = false) (hstep : event.isStep = false)
    (hstart : event ≠ .vmStart) : Handled [event] a b where
  connected := h.connected
  launchMode := h.launchMode
  suspendDepth := h.suspendDepth
  vmStartPending := by simp [h.vmStartPending, hstart.symm]
  suspendCount := h.vm.suspendCount
  faults := h.vm.faults
  resumesSent := h.vm.resumesSent
  outstandingSteps := by rw [h.vm.outstandingSteps]
  toldStopped := by simp [h.toldStopped, hstop]
  stops := by simp [h.stops, hstop]
  stepStops := by simp [Adapter.stepStops, h.stops, hstep]

theorem of_onStop {a b : Adapter} {event : Event} {thread : ThreadId}
    {reason : StopReason} (hconnected : b.session.connected = a.session.connected)
    (hlaunch : b.session.launchMode = a.session.launchMode)
    (hdepth : b.session.suspendDepth = a.session.suspendDepth)
    (hpending : b.session.vmStartPending = a.session.vmStartPending)
    (hout : b.out = a.out) (hcount : b.vm.suspendCount = a.vm.suspendCount)
    (hfaults : b.vm.faults = a.vm.faults)
    (hresumes : b.vm.resumesSent = a.vm.resumesSent)
    (hsteps : b.vm.outstandingSteps.Sublist a.vm.outstandingSteps)
    (hstop : event.isStop = true)
    (hreason : (reason = .step) = (event.isStep = true)) :
    Handled [event] a (b.onStop thread reason) := by
  have hstart : Event.vmStart ≠ event := by
    rintro rfl
    cases hstop
  have hthread : Quiet b (b.dapThreadId thread).2 := by
    unfold Adapter.dapThreadId
    cases b.session.threadToDap.lookup thread with
    | some id => exact Quiet.refl b
    | none => exact ⟨rfl, rfl, rfl, rfl, rfl, rfl, Debuggee.Quiet.refl b.vm⟩
  refine ⟨hthread.connected.trans hconnected, hthread.launchMode.trans hlaunch,
    hthread.suspendDepth.trans hdepth, ?_, hthread.vm.suspendCount.trans hcount,
    hthread.vm.faults.trans hfaults, hthread.vm.resumesSent.trans hresumes, ?_, ?_, ?_, ?_⟩
  · show (b.dapThreadId thread).2.session.vmStartPending = _
    rw [hthread.vmStartPending, hpending]
    simp [hstart]
  · show (b.dapThreadId thread).2.vm.outstandingSteps.Sublist _
    rw [hthread.vm.outstandingSteps]
    exact hsteps
  · simp [Adapter.onStop, Adapter.write, DapMessage.told, hstop]
  · simp [Adapter.onStop, Adapter.write, DapMessage.stopReason?, hthread.stops, hout, hstop]
  · have hcounted : List.count StopReason.step [reason] =
        List.countP Event.isStep [event] := by
      by_cases hr : reason = .step
      · have hs : event.isStep = true := hreason.mp hr
        simp [hr, hs]
      · have hs : event.isStep = false := by
          rw [hreason] at hr
          exact Bool.eq_false_iff.mpr hr
        simp [hr, hs]
    simp only [Adapter.onStop, Adapter.write, Adapter.stepStops, stops_append,
      DapMessage.stopReason?, Option.toList, List.count_append, hthread.stops, hout, hcounted]

end Handled

theorem clear_steps_sublist (kind : EventKind) (id : RequestId) (d : Debuggee) :
    (d.eventRequestClear kind id).2.outstandingSteps.Sublist d.outstandingSteps := by
  unfold Debuggee.eventRequestClear Debuggee.answer
  cases d.faults d.sent.length with
  | some e => exact List.Sublist.refl _
  | none => exact List.filter_sublist.filter _

theorem clear_suspendCount (kind : EventKind) (id : RequestId) (d : Debuggee) :
    (d.eventRequestClear kind id).2.suspendCount = d.suspendCount ∧
      (d.eventRequestClear kind id).2.faults = d.faults ∧
      (d.eventRequestClear kind id).2.resumesSent = d.resumesSent := by
  unfold Debuggee.eventRequestClear Debuggee.answer
  cases d.faults d.sent.length <;> simp [Debuggee.resumesSent]

/-- A composite is resumed only if none of its events ends the run of the debuggee. -/
theorem onEvent_handled (a : Adapter) (resume : Bool) (event : Event) :
    Handled [event] a (a.onEvent resume event).2 ∧
      (a.onEvent resume event).1 =
        (resume && !(event.isStop || event == .vmDeath)) := by
  cases event with
  | vmStart =>
    refine ⟨⟨rfl, rfl, rfl, ?_, rfl, rfl, rfl, List.Sublist.refl _, ?_, rfl, rfl⟩, ?_⟩
    · simp [onEvent]
    · simp [onEvent, Event.isStop]
    · simp [onEvent, Event.isStop]
  | classPrepare requestId typeId =>
    refine ⟨?_, by simp [onEvent, Event.isStop]⟩
    exact Handled.of_quiet (Quiet.onClassPrepare a requestId typeId) rfl rfl (by simp)
  | breakpoint requestId thread =>
    constructor
    · simp only [onEvent]
      split
      · exact Handled.of_onStop rfl rfl rfl rfl rfl rfl rfl rfl (List.Sublist.refl _) rfl
          (by simp [Event.isStep])
      · exact Handled.of_onStop rfl rfl rfl rfl rfl rfl rfl rfl (List.Sublist.refl _) rfl
          (by simp [Event.isStep])
    · simp only [onEvent]
      split <;> simp [Event.isStop]
  | singleStep requestId thread =>
    refine ⟨?_, by simp [onEvent, Event.isStop]⟩
    simp only [onEvent]
    split
    · split
      · have hclear := clear_suspendCount .singleStep requestId a.vm
        exact Handled.of_onStop rfl rfl rfl rfl rfl hclear.1 hclear.2.1 hclear.2.2
          (clear_steps_sublist .singleStep requestId a.vm) rfl (by simp [Event.isStep])
      · exact Handled.of_onStop rfl rfl rfl rfl rfl rfl rfl rfl (List.Sublist.refl _) rfl
          (by simp [Event.isStep])
    · exact Handled.of_onStop rfl rfl rfl rfl rfl rfl rfl rfl (List.Sublist.refl _) rfl
        (by simp [Event.isStep])
  | exception thread exception catchLocation =>
    refine ⟨?_, by simp [onEvent, Event.isStop]⟩
    exact Handled.of_onStop rfl rfl rfl rfl rfl rfl rfl rfl (List.Sublist.refl _) rfl
      (by simp [Event.isStep])
  | vmDeath =>
    refine ⟨?_, by simp [onEvent]⟩
    exact Handled.of_quiet (Quiet.frame.sendTerminated a) rfl rfl (by simp)

def holds (events : List Event) : Bool :=
  events.any (fun event => event.isStop || event == .vmDeath)

theorem onEvents_handled (events : List Event) (resume : Bool) (a : Adapter) :
    Handled events a (onEvents events resume a).2 ∧
      (onEvents events resume a).1 = (resume && !holds events) := by
  induction events generalizing resume a with
  | nil =>
    refine ⟨⟨rfl, rfl, rfl, ?_, rfl, rfl, rfl, List.Sublist.refl _, ?_, rfl, rfl⟩, ?_⟩
    · simp [onEvents]
    · simp [onEvents]
    · simp [onEvents, holds]
  | cons event rest ih =>
    rcases onEvent_handled a resume event with ⟨hfirst, hflag⟩
    rcases ih (a.onEvent resume event).1 (a.onEvent resume event).2 with ⟨hrest, hrestFlag⟩
    refine ⟨hfirst.trans hrest, ?_⟩
    show (onEvents rest _ _).1 = _
    rw [hrestFlag, hflag]
    simp [holds, Bool.and_assoc]

/-!
# Resuming
-/

theorem resume_frame (d : Debuggee) :
    d.resume.2.requests = d.requests ∧ d.resume.2.faults = d.faults ∧
      d.resume.2.resumesSent = d.resumesSent + 1 := by
  unfold Debuggee.resume Debuggee.answer
  cases d.faults d.sent.length <;> simp [Debuggee.resumesSent]

theorem resume_ok {d : Debuggee} (h : d.faults = fun _ => none) :
    d.resume.1 = .ok () ∧ d.resume.2.suspendCount = d.suspendCount - 1 := by
  unfold Debuggee.resume Debuggee.answer
  rw [h]
  exact ⟨rfl, rfl⟩

theorem resumeTimes_frame (n : Nat) (a : Adapter) :
    (resumeTimes n a).2.session = a.session ∧ (resumeTimes n a).2.out = a.out ∧
      (resumeTimes n a).2.vm.requests = a.vm.requests ∧
      (resumeTimes n a).2.vm.faults = a.vm.faults := by
  induction n generalizing a with
  | zero => exact ⟨rfl, rfl, rfl, rfl⟩
  | succ n ih =>
    have hframe := resume_frame a.vm
    unfold resumeTimes
    cases hanswer : a.call Debuggee.resume with
    | mk result b =>
      have hb : b = { a with vm := a.vm.resume.2 } := congrArg Prod.snd hanswer.symm
      cases result with
      | error e =>
        rw [hb]
        exact ⟨rfl, rfl, hframe.1, hframe.2.1⟩
      | ok _ =>
        rcases ih b with ⟨hsession, hout, hrequests, hfaults⟩
        simp only
        rw [hsession, hout, hrequests, hfaults, hb]
        exact ⟨rfl, rfl, hframe.1, hframe.2.1⟩

variable {a : Adapter}

theorem resumeTimes_ok (n : Nat) (h : a.vm.faults = fun _ => none) :
    (resumeTimes n a).1 = .ok () ∧
      (resumeTimes n a).2.vm.suspendCount = a.vm.suspendCount - n := by
  induction n generalizing a with
  | zero => exact ⟨rfl, rfl⟩
  | succ n ih =>
    have hok := resume_ok h
    unfold resumeTimes
    cases hanswer : a.call Debuggee.resume with
    | mk result b =>
      have hresult : result = .ok () :=
        (congrArg Prod.fst hanswer).symm.trans hok.1
      have hb : b = { a with vm := a.vm.resume.2 } := congrArg Prod.snd hanswer.symm
      subst hresult
      simp only
      have hfaults : b.vm.faults = fun _ => none := by
        rw [hb]
        exact (resume_frame a.vm).2.1.trans h
      rcases ih hfaults with ⟨hdone, hcount⟩
      refine ⟨hdone, ?_⟩
      rw [hcount, hb]
      show a.vm.resume.2.suspendCount - n = _
      rw [hok.2]
      omega

/-- Only the depth, the count and what the client is told next may change. -/
structure Steady (a b : Adapter) : Prop where
  connected : b.session.connected = a.session.connected
  launchMode : b.session.launchMode = a.session.launchMode
  vmStartPending : b.session.vmStartPending = a.session.vmStartPending
  faults : b.vm.faults = a.vm.faults
  stops : stops b.out = stops a.out
  toldStopped : toldStopped b.out = toldStopped a.out
  outstandingSteps : b.vm.outstandingSteps = a.vm.outstandingSteps

theorem continueAll_steady (a : Adapter) : Steady a a.continueAll.2 := by
  unfold continueAll
  cases a.session.connected with
  | false => exact ⟨rfl, rfl, rfl, rfl, rfl, rfl, rfl⟩
  | true =>
    rcases resumeTimes_frame (max a.session.suspendDepth 1) a.clearExceptions with
      ⟨hsession, hout, hrequests, hfaults⟩
    simp only [if_true]
    cases hresumed : resumeTimes (max a.session.suspendDepth 1) a.clearExceptions with
    | mk result b =>
      rw [hresumed] at hsession hout hrequests hfaults
      have hsteps : b.vm.outstandingSteps = a.vm.outstandingSteps :=
        congrArg (List.filter _) hrequests
      simp only at hsession hout
      have hsteady : Steady a b :=
        ⟨by rw [hsession]; rfl, by rw [hsession]; rfl, by rw [hsession]; rfl, hfaults,
          by rw [hout]; rfl, by rw [hout]; rfl, hsteps⟩
      cases result with
      | error e => exact hsteady
      | ok _ =>
        exact ⟨hsteady.connected, hsteady.launchMode, hsteady.vmStartPending,
          hsteady.faults, hsteady.stops, hsteady.toldStopped, hsteps⟩

theorem continueAll_ok (hconnected : a.session.connected = true)
    (hfaults : a.vm.faults = fun _ => none) :
    a.continueAll.1 = .ok .allThreadsContinued ∧
      a.continueAll.2.session.suspendDepth = 0 ∧
      a.continueAll.2.vm.suspendCount =
        a.vm.suspendCount - max a.session.suspendDepth 1 := by
  have hok := resumeTimes_ok (max a.session.suspendDepth 1) (a := a.clearExceptions) hfaults
  unfold continueAll
  rw [if_pos hconnected]
  cases hresumed : resumeTimes (max a.session.suspendDepth 1) a.clearExceptions with
  | mk result b =>
    rw [hresumed] at hok
    rcases hok with ⟨hresult, hcount⟩
    cases hresult
    exact ⟨rfl, rfl, hcount⟩

theorem autoResume_steady (a : Adapter) : Steady a a.autoResume := by
  have hframe := resume_frame a.vm
  have hsteps : a.vm.resume.2.outstandingSteps = a.vm.outstandingSteps :=
    congrArg (List.filter _) hframe.1
  unfold autoResume
  cases a.session.connected with
  | false => exact ⟨rfl, rfl, rfl, rfl, rfl, rfl, rfl⟩
  | true =>
    simp only [if_true, call]
    cases a.vm.resume.1 <;> exact ⟨rfl, rfl, rfl, hframe.2.1, rfl, rfl, hsteps⟩

theorem autoResume_ok (hconnected : a.session.connected = true)
    (hfaults : a.vm.faults = fun _ => none) :
    a.autoResume.session.suspendDepth = a.session.suspendDepth - 1 ∧
      a.autoResume.vm.suspendCount = a.vm.suspendCount - 1 := by
  have hok := resume_ok hfaults
  unfold autoResume
  simp only [hconnected, if_true, call, hok.1]
  exact ⟨rfl, hok.2⟩

/-!
# Composites
-/

structure Composite (set : EventSet) (a b : Adapter) : Prop where
  connected : b.session.connected = a.session.connected
  launchMode : b.session.launchMode = a.session.launchMode
  vmStartPending :
    b.session.vmStartPending = (a.session.vmStartPending || set.events.contains .vmStart)
  faults : b.vm.faults = a.vm.faults
  outstandingSteps : b.vm.outstandingSteps.Sublist a.vm.outstandingSteps
  toldStopped : toldStopped b.out = (toldStopped a.out || set.events.any Event.isStop)
  stops : (stops b.out).length = (stops a.out).length + set.events.countP Event.isStop
  stepStops : stepStops b.out = stepStops a.out + set.events.countP Event.isStep

def countSuspension (a : Adapter) (set : EventSet) : Adapter :=
  if counted set then a.setSuspendDepth (a.session.suspendDepth + 1) else a

theorem handleEventSet_eq (a : Adapter) (set : EventSet) :
    a.handleEventSet set =
      if counted set && !holds set.events then
        (onEvents set.events (counted set) (a.countSuspension set)).2.autoResume
      else (onEvents set.events (counted set) (a.countSuspension set)).2 := by
  rw [← (onEvents_handled set.events (counted set) (a.countSuspension set)).2]
  rfl

theorem countSuspension_steady (a : Adapter) (set : EventSet) :
    Steady a (a.countSuspension set) := by
  unfold countSuspension
  split <;> exact ⟨rfl, rfl, rfl, rfl, rfl, rfl, rfl⟩

theorem handleEventSet_composite (a : Adapter) (set : EventSet) :
    Composite set a (a.handleEventSet set) := by
  have hcount := countSuspension_steady a set
  have hevents :=
    (onEvents_handled set.events (counted set) (a.countSuspension set)).1
  have hcomposite : Composite set a
      (onEvents set.events (counted set) (a.countSuspension set)).2 :=
    ⟨hevents.connected.trans hcount.connected, hevents.launchMode.trans hcount.launchMode,
      by rw [hevents.vmStartPending, hcount.vmStartPending],
      hevents.faults.trans hcount.faults,
      hcount.outstandingSteps ▸ hevents.outstandingSteps,
      by rw [hevents.toldStopped, hcount.toldStopped],
      by rw [hevents.stops, hcount.stops],
      by rw [hevents.stepStops, Adapter.stepStops, Adapter.stepStops, hcount.stops]⟩
  rw [handleEventSet_eq]
  split
  · have hresumed := autoResume_steady
      (onEvents set.events (counted set) (a.countSuspension set)).2
    exact ⟨hresumed.connected.trans hcomposite.connected,
      hresumed.launchMode.trans hcomposite.launchMode,
      hresumed.vmStartPending.trans hcomposite.vmStartPending,
      hresumed.faults.trans hcomposite.faults,
      hresumed.outstandingSteps ▸ hcomposite.outstandingSteps,
      hresumed.toldStopped.trans hcomposite.toldStopped,
      (congrArg List.length hresumed.stops).trans hcomposite.stops,
      (congrArg (List.count StopReason.step) hresumed.stops).trans hcomposite.stepStops⟩
  · exact hcomposite

/-- A composite without a stop gives its suspension back, the others keep it. -/
theorem handleEventSet_ok (set : EventSet) (hconnected : a.session.connected = true)
    (hfaults : a.vm.faults = fun _ => none) :
    if counted set && !holds set.events then
      (a.handleEventSet set).session.suspendDepth = a.session.suspendDepth ∧
        (a.handleEventSet set).vm.suspendCount = a.vm.suspendCount - 1
    else
      (a.handleEventSet set).session.suspendDepth =
          a.session.suspendDepth + (if counted set then 1 else 0) ∧
        (a.handleEventSet set).vm.suspendCount = a.vm.suspendCount := by
  have hcount := countSuspension_steady a set
  have hevents :=
    (onEvents_handled set.events (counted set) (a.countSuspension set)).1
  have hdepth : (a.countSuspension set).session.suspendDepth =
      a.session.suspendDepth + (if counted set then 1 else 0) := by
    unfold countSuspension
    split <;> rfl
  have hvm : (a.countSuspension set).vm = a.vm := by
    unfold countSuspension
    split <;> rfl
  rw [handleEventSet_eq]
  split
  · rename_i hresume
    have hcounted : counted set = true := (Bool.and_eq_true_iff.mp hresume).1
    rw [if_pos hcounted] at hdepth
    have hresumed := autoResume_ok
      (hevents.connected.trans (hcount.connected.trans hconnected))
      (hevents.faults.trans (hcount.faults.trans hfaults))
    constructor
    · rw [hresumed.1, hevents.suspendDepth, hdepth]
      omega
    · rw [hresumed.2, hevents.suspendCount, hvm]
  · exact ⟨hevents.suspendDepth.trans hdepth, by rw [hevents.suspendCount, hvm]⟩

/-!
# Execution control requests
-/

/-- What a `step` that set its request is about to resume. -/
def stepSet (a : Adapter) (thread : ThreadId) (depth : StepDepth) : Adapter :=
  let answered := a.call
    (Debuggee.eventRequestSet .singleStep .all [.step thread depth, .count 1])
  { answered.2 with session :=
    { answered.2.session with
      stepRequestIds := insert a.vm.nextRequestId answered.2.session.stepRequestIds } }

/-- A step is refused and changes no more than the log, or is set and then continued. -/
theorem step_cases (a : Adapter) (depth : StepDepth) (args : Except String Nat) :
    (exists e, (a.step depth args).1 = .error e ∧ Quiet a (a.step depth args).2) ∨
    (exists thread, a.session.connected = true ∧
      a.vm.faults a.vm.sent.length = none ∧
      (a.step depth args).2 = (a.stepSet thread depth).continueAll.2 ∧
      ((exists e, (a.step depth args).1 = .error e ∧
          (a.stepSet thread depth).continueAll.1 = .error e) ∨
        (a.step depth args).1 = .ok .empty)) := by
  cases args with
  | error e => exact Or.inl ⟨_, rfl, Quiet.refl a⟩
  | ok threadId =>
    simp only [step]
    cases hthread : a.jdwpThread threadId with
    | error e => exact Or.inl ⟨e, rfl, Quiet.refl a⟩
    | ok thread =>
      cases hconnected : a.session.connected with
      | false => exact Or.inl ⟨_, rfl, Quiet.refl a⟩
      | true =>
        cases hfault : a.vm.faults a.vm.sent.length with
        | some e =>
          left
          simp only [if_true, call, Debuggee.eventRequestSet, Debuggee.answer, hfault]
          refine ⟨_, rfl, ⟨rfl, rfl, rfl, rfl, rfl, rfl, rfl, rfl, rfl, ?_⟩⟩
          simp [Debuggee.resumesSent]
        | none =>
          right
          refine ⟨thread, rfl, rfl, ?_⟩
          have hset : (a.call (Debuggee.eventRequestSet .singleStep .all
              [.step thread depth, .count 1])).1 = .ok a.vm.nextRequestId := by
            simp [call, Debuggee.eventRequestSet, Debuggee.answer, hfault]
          cases hanswer : a.call (Debuggee.eventRequestSet .singleStep .all
              [.step thread depth, .count 1]) with
          | mk result b =>
            rw [hanswer] at hset
            simp only at hset
            subst hset
            simp only [if_true, stepSet, hanswer]
            cases hcontinued : continueAll { b with session :=
                { b.session with
                  stepRequestIds :=
                    insert a.vm.nextRequestId b.session.stepRequestIds } } with
            | mk outcome c =>
              cases outcome with
              | error e => exact ⟨rfl, Or.inl ⟨e, rfl, rfl⟩⟩
              | ok body => exact ⟨rfl, Or.inr rfl⟩

theorem stepSet_spec (thread : ThreadId) (depth : StepDepth)
    (h : a.vm.faults a.vm.sent.length = none) :
    (a.stepSet thread depth).session.connected = a.session.connected ∧
    (a.stepSet thread depth).session.launchMode = a.session.launchMode ∧
    (a.stepSet thread depth).session.suspendDepth = a.session.suspendDepth ∧
    (a.stepSet thread depth).session.vmStartPending = a.session.vmStartPending ∧
    (a.stepSet thread depth).out = a.out ∧
    (a.stepSet thread depth).vm.suspendCount = a.vm.suspendCount ∧
    (a.stepSet thread depth).vm.faults = a.vm.faults ∧
    (a.stepSet thread depth).vm.outstandingSteps = a.vm.outstandingSteps ++
      [{ id := a.vm.nextRequestId, kind := .singleStep, suspendPolicy := .all
         modifiers := [.step thread depth, .count 1] }] := by
  simp [stepSet, call, Debuggee.eventRequestSet, Debuggee.answer, h,
    Debuggee.outstandingSteps]

theorem pause_cases (a : Adapter) (args : Except String Nat) :
    (exists e, (a.pause args).1 = .error e ∧ Quiet a (a.pause args).2) ∨
    (exists threadId, a.session.connected = true ∧ (a.pause args).1 = .ok .empty ∧
      (a.pause args).2 =
        { session := { a.session with suspendDepth := a.session.suspendDepth + 1 }
          vm := { a.vm with
            suspendCount := a.vm.suspendCount + 1
            sent := a.vm.sent ++ [.suspend] }
          out := a.out ++ [.stopped .pause threadId] }) := by
  cases args with
  | error e => exact Or.inl ⟨_, rfl, Quiet.refl a⟩
  | ok threadId =>
    simp only [pause]
    cases hconnected : a.session.connected with
    | false => exact Or.inl ⟨_, rfl, Quiet.refl a⟩
    | true =>
      cases hfault : a.vm.faults a.vm.sent.length with
      | some e =>
        left
        simp only [if_true, call, Debuggee.suspend, Debuggee.answer, hfault]
        refine ⟨_, rfl, ⟨rfl, rfl, rfl, rfl, rfl, rfl, rfl, rfl, rfl, ?_⟩⟩
        simp [Debuggee.resumesSent]
      | none =>
        right
        refine ⟨threadId, rfl, ?_⟩
        simp only [if_true, call, Debuggee.suspend, Debuggee.answer, hfault,
          setSuspendDepth, write]
        exact ⟨trivial, by rw [hconnected]⟩

/-- Whether `configurationDone` owes a resume. -/
def owesResume (a : Adapter) : Bool :=
  a.session.launchMode || a.session.vmStartPending

theorem configurationDone_spec (hconnected : a.session.connected = true) :
    a.configurationDone.2.session.connected = true ∧
    a.configurationDone.2.session.launchMode = a.session.launchMode ∧
    a.configurationDone.2.session.suspendDepth = a.session.suspendDepth ∧
    a.configurationDone.2.session.vmStartPending = false ∧
    stops a.configurationDone.2.out = stops a.out ∧
    toldStopped a.configurationDone.2.out = toldStopped a.out ∧
    a.configurationDone.2.vm.faults = a.vm.faults ∧
    a.configurationDone.2.vm.outstandingSteps = a.vm.outstandingSteps ∧
    a.configurationDone.2.vm.resumesSent =
      a.vm.resumesSent + (if a.owesResume then 1 else 0) ∧
    (a.vm.faults = (fun _ => none) ->
      a.configurationDone.2.vm.suspendCount =
        a.vm.suspendCount - (if a.owesResume then 1 else 0)) := by
  have hguard : (a.session.launchMode && a.session.stopOnEntry && !a.session.connected)
      = false := by simp [hconnected]
  unfold configurationDone
  simp only [hguard, Bool.false_eq_true, if_false]
  have hentry : Quiet a
      (if a.session.launchMode && a.session.stopOnEntry then a.requestEntry else a) := by
    split
    · exact Quiet.frame.requestEntry a
    · exact Quiet.refl a
  revert hentry
  generalize (if a.session.launchMode && a.session.stopOnEntry then a.requestEntry else a) = b
  intro hentry
  have howes : (b.session.launchMode || b.session.vmStartPending) = a.owesResume := by
    rw [hentry.launchMode, hentry.vmStartPending]
    rfl
  rw [howes]
  cases howed : a.owesResume with
  | false =>
    have hpending : a.session.vmStartPending = false := by
      unfold owesResume at howed
      exact (Bool.or_eq_false_iff.mp howed).2
    simp only [Bool.false_eq_true, if_false]
    exact ⟨hentry.connected.trans hconnected, hentry.launchMode, hentry.suspendDepth,
      hentry.vmStartPending.trans hpending, hentry.stops, hentry.toldStopped,
      hentry.vm.faults, hentry.vm.outstandingSteps, hentry.vm.resumesSent,
      fun _ => hentry.vm.suspendCount⟩
  | true =>
    have hconnected' : b.session.connected = true := hentry.connected.trans hconnected
    have hframe := resume_frame b.vm
    have hsteps : b.vm.resume.2.outstandingSteps = b.vm.outstandingSteps :=
      congrArg (List.filter _) hframe.1
    simp only [if_true, hconnected', call]
    cases hresult : b.vm.resume.1 with
    | error e =>
      refine ⟨rfl, hentry.launchMode, hentry.suspendDepth, rfl, hentry.stops,
        hentry.toldStopped, hframe.2.1.trans hentry.vm.faults,
        hsteps.trans hentry.vm.outstandingSteps, ?_, ?_⟩
      · rw [hframe.2.2, hentry.vm.resumesSent]
      · intro hfaults
        have hok := (resume_ok (hentry.vm.faults.trans hfaults)).1
        rw [hresult] at hok
        cases hok
    | ok _ =>
      refine ⟨rfl, hentry.launchMode, hentry.suspendDepth, rfl, hentry.stops,
        hentry.toldStopped, hframe.2.1.trans hentry.vm.faults,
        hsteps.trans hentry.vm.outstandingSteps, ?_, ?_⟩
      · rw [hframe.2.2, hentry.vm.resumesSent]
      · intro hfaults
        rw [(resume_ok (hentry.vm.faults.trans hfaults)).2, hentry.vm.suspendCount]

end Adapter

end Debug
end JavaVsixLite
