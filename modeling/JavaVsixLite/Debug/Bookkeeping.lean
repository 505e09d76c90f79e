import Mathlib.Data.List.Nodup
import Mathlib.Data.List.Perm.Basic
import JavaVsixLite.Debug.Control

/-!
# The session's breakpoints and the requests of the debuggee

A line breakpoint of the session stands for the BREAKPOINT requests that were set
for it.  Lines are kept, dropped and added with every request of the client, and
bound as classes are loaded; the debuggee may refuse whatever it likes but a clear.
The stop on entry sets a request of its own, which expires by its count.
-/

namespace JavaVsixLite
namespace Debug

open Foundation

def EventRequest.isLine (r : EventRequest) : Bool :=
  r.kind == .breakpoint && !r.modifiers.contains (.count 1)

namespace Debuggee

/-- The BREAKPOINT requests that are set for lines. -/
def lineRequests (d : Debuggee) : List RequestId :=
  (d.requests.filter EventRequest.isLine).map EventRequest.id

/-- Every clear of a BREAKPOINT request so far was answered. -/
def ClearsSucceed (d : Debuggee) : Prop :=
  forall (i : Nat) (id : RequestId), d.sent[i]? = some (.eventRequestClear .breakpoint id) ->
    d.faults i = none

structure Numbered (d : Debuggee) : Prop where
  nodup : (d.requests.map EventRequest.id).Nodup
  below : forall r, r ∈ d.requests -> r.id < d.nextRequestId

/-- From `d` to `d'` the requests `new` are set for lines, and none is cleared. -/
structure Adds (new : List RequestId) (d d' : Debuggee) : Prop where
  lines : d'.lineRequests = d.lineRequests ++ new
  numbered : d.Numbered -> d'.Numbered
  sent : d.sent <+: d'.sent
  faults : d'.faults = d.faults

namespace Adds

theorem refl (d : Debuggee) : Adds [] d d :=
  ⟨(List.append_nil _).symm, id, List.prefix_rfl, rfl⟩

theorem trans {xs ys : List RequestId} {d e f : Debuggee} (h : Adds xs d e)
    (k : Adds ys e f) : Adds (xs ++ ys) d f := by
  refine ⟨?_, fun hd => k.numbered (h.numbered hd), h.sent.trans k.sent,
    k.faults.trans h.faults⟩
  rw [k.lines, h.lines, List.append_assoc]

theorem of_requests {d d' : Debuggee} (hrequests : d'.requests = d.requests)
    (hnext : d'.nextRequestId = d.nextRequestId) (hsent : d.sent <+: d'.sent)
    (hfaults : d'.faults = d.faults) : Adds [] d d' := by
  refine ⟨?_, ?_, hsent, hfaults⟩
  · unfold lineRequests
    rw [hrequests, List.append_nil]
  · intro h
    constructor
    · rw [hrequests]
      exact h.nodup
    · rw [hrequests, hnext]
      exact h.below

theorem answer {β : Type} {command : Command} {new : List RequestId}
    {perform : Debuggee -> Except JdwpError β × Debuggee} {d : Debuggee}
    (hperform : Adds new { d with sent := d.sent ++ [command] }
      (perform { d with sent := d.sent ++ [command] }).2)
    (hfree : d.faults d.sent.length = none) : Adds new d (d.answer command perform).2 := by
  have hlogged : Adds [] d { d with sent := d.sent ++ [command] } :=
    of_requests rfl rfl (List.prefix_append _ _) rfl
  unfold Debuggee.answer
  rw [hfree]
  exact hlogged.trans hperform

theorem answer_none {β : Type} {command : Command}
    {perform : Debuggee -> Except JdwpError β × Debuggee}
    (hperform : forall d, Adds [] d (perform d).2) (d : Debuggee) :
    Adds [] d (d.answer command perform).2 := by
  cases hfault : d.faults d.sent.length with
  | none => exact answer (hperform _) hfault
  | some e =>
    unfold Debuggee.answer
    rw [hfault]
    exact of_requests rfl rfl (List.prefix_append _ _) rfl

theorem resume (d : Debuggee) : Adds [] d d.resume.2 :=
  answer_none (fun _ => of_requests rfl rfl List.prefix_rfl rfl) d

theorem suspend (d : Debuggee) : Adds [] d d.suspend.2 :=
  answer_none (fun _ => of_requests rfl rfl List.prefix_rfl rfl) d

theorem allClasses (d : Debuggee) : Adds [] d d.allClasses.2 :=
  answer_none refl d

theorem methods (classId : ClassId) (d : Debuggee) : Adds [] d (d.methods classId).2 :=
  answer_none refl d

theorem lineTable (classId : ClassId) (methodId : MethodId) (d : Debuggee) :
    Adds [] d (d.lineTable classId methodId).2 :=
  answer_none refl d

end Adds

theorem Numbered.set {d : Debuggee} (h : d.Numbered) (kind : EventKind)
    (policy : SuspendPolicy) (modifiers : List Modifier) :
    Numbered { d with
      requests := d.requests ++
        [{ id := d.nextRequestId, kind, suspendPolicy := policy, modifiers }]
      nextRequestId := d.nextRequestId + 1 } := by
  constructor
  · simp only [List.map_append, List.map_cons, List.map_nil]
    apply List.Nodup.append h.nodup (List.nodup_singleton _)
    intro id hold hnew
    rcases List.mem_map.mp hold with ⟨r, hr, hid⟩
    have hbelow : r.id < d.nextRequestId := h.below r hr
    rw [hid, List.mem_singleton.mp hnew] at hbelow
    exact Nat.lt_irrefl _ hbelow
  · intro r hr
    rcases List.mem_append.mp hr with hr | hr
    · exact Nat.lt_succ_of_lt (h.below r hr)
    · rw [List.mem_singleton.mp hr]
      exact Nat.lt_succ_self _

theorem Numbered.filter {d : Debuggee} (h : d.Numbered) (keep : EventRequest -> Bool) :
    Numbered { d with requests := d.requests.filter keep } := by
  constructor
  · exact h.nodup.sublist (List.filter_sublist.map EventRequest.id)
  · intro r hr
    exact h.below r (List.mem_filter.mp hr).1

namespace Adds

theorem eventRequestSet (kind : EventKind) {modifiers : List Modifier}
    (hother : kind = .breakpoint -> .count 1 ∈ modifiers) (policy : SuspendPolicy)
    (d : Debuggee) : Adds [] d (d.eventRequestSet kind policy modifiers).2 := by
  apply answer_none
  intro d
  refine ⟨?_, fun h => h.set kind policy modifiers, List.prefix_rfl, rfl⟩
  have hapart : EventRequest.isLine
      { id := d.nextRequestId, kind, suspendPolicy := policy, modifiers } = false := by
    unfold EventRequest.isLine
    by_cases hkind : kind = .breakpoint
    · simp [hother hkind]
    · simp [hkind]
  simp [lineRequests, hapart]

theorem eventRequestClear (kind : EventKind) (hother : kind ≠ .breakpoint)
    (id : RequestId) (d : Debuggee) : Adds [] d (d.eventRequestClear kind id).2 := by
  apply answer_none
  intro d
  refine ⟨?_, fun h => h.filter _, List.prefix_rfl, rfl⟩
  simp only [lineRequests, List.filter_filter, List.append_nil]
  congr 1
  apply List.filter_congr
  intro r _
  cases hline : r.isLine with
  | false => rfl
  | true =>
    have hkind : r.kind = .breakpoint := by
      unfold EventRequest.isLine at hline
      simp only [Bool.and_eq_true, beq_iff_eq] at hline
      exact hline.1
    have hne : (r.kind == kind) = false := by
      rw [hkind]
      simpa using hother.symm
    simp [hne]

theorem emit (set : EventSet) (d : Debuggee) : Adds [] d (d.emit set) := by
  refine ⟨?_, fun h => ⟨(h.filter _).nodup, (h.filter _).below⟩, List.prefix_rfl, rfl⟩
  simp only [lineRequests, Debuggee.emit, List.filter_filter, List.append_nil]
  congr 1
  apply List.filter_congr
  intro r _
  cases hline : r.isLine with
  | false => rfl
  | true =>
    -- Only a request with a count expires.
    have hcount : r.modifiers.contains (.count 1) = false := by
      unfold EventRequest.isLine at hline
      simp only [Bool.and_eq_true, Bool.not_eq_true'] at hline
      exact hline.2
    simp only [expired, hcount, Bool.false_and]
    rfl

theorem load (cls : ClassEntry) (d : Debuggee) : Adds [] d (d.load cls) :=
  of_requests rfl rfl List.prefix_rfl rfl

theorem setLine (location : Location) (d : Debuggee) :
    (exists e, (d.eventRequestSet .breakpoint .all [.locationOnly location]).1 = .error e ∧
      Adds [] d (d.eventRequestSet .breakpoint .all [.locationOnly location]).2) ∨
    (d.eventRequestSet .breakpoint .all [.locationOnly location]).1 = .ok d.nextRequestId ∧
      Adds [d.nextRequestId] d
        (d.eventRequestSet .breakpoint .all [.locationOnly location]).2 := by
  unfold Debuggee.eventRequestSet
  cases hfault : d.faults d.sent.length with
  | some e =>
    apply Or.inl
    unfold Debuggee.answer
    rw [hfault]
    exact ⟨e, rfl, of_requests rfl rfl (List.prefix_append _ _) rfl⟩
  | none =>
    apply Or.inr
    constructor
    · unfold Debuggee.answer
      rw [hfault]
    · apply answer _ hfault
      refine ⟨?_, fun h => h.set _ _ _, List.prefix_rfl, rfl⟩
      simp [lineRequests, EventRequest.isLine]

end Adds

/-!
# Clearing
-/

theorem ClearsSucceed.of_prefix {d d' : Debuggee} (h : d'.ClearsSucceed)
    (hsent : d.sent <+: d'.sent) (hfaults : d'.faults = d.faults) : d.ClearsSucceed := by
  rcases hsent with ⟨more, hmore⟩
  intro i id hi
  rw [← hfaults]
  apply h i id
  rw [← hmore, List.getElem?_append_left (List.getElem?_eq_some_iff.mp hi).1]
  exact hi

theorem clearLine_spec (id : RequestId) (d : Debuggee) :
    (d.eventRequestClear .breakpoint id).2.sent =
        d.sent ++ [.eventRequestClear .breakpoint id] ∧
      (d.eventRequestClear .breakpoint id).2.faults = d.faults ∧
      (d.Numbered -> (d.eventRequestClear .breakpoint id).2.Numbered) ∧
      ((d.eventRequestClear .breakpoint id).2.ClearsSucceed ->
        (d.eventRequestClear .breakpoint id).2.lineRequests =
          d.lineRequests.filter (fun r => decide (r ≠ id))) := by
  unfold Debuggee.eventRequestClear Debuggee.answer
  cases hfault : d.faults d.sent.length with
  | some e =>
    refine ⟨rfl, rfl, fun h => ⟨h.nodup, h.below⟩, ?_⟩
    intro hclears
    have hanswered := hclears d.sent.length id (List.getElem?_concat_length)
    rw [show d.faults d.sent.length = none from hanswered] at hfault
    cases hfault
  | none =>
    refine ⟨rfl, rfl, fun h => ⟨(h.filter _).nodup, (h.filter _).below⟩, ?_⟩
    intro _
    simp only [lineRequests, List.filter_filter, List.filter_map]
    congr 1
    apply List.filter_congr
    intro r _
    unfold EventRequest.isLine
    by_cases hkind : r.kind = .breakpoint
    · by_cases hid : r.id = id
      · simp [hkind, hid]
      · simp [hkind, hid]
    · have hother : (r.kind == EventKind.breakpoint) = false := beq_eq_false_iff_ne.mpr hkind
      simp [hother]

end Debuggee

/-!
# Binding
-/

def LineBp.Honest (bp : LineBp) : Prop :=
  bp.verified = true <-> bp.requestIds ≠ []

/-- What a breakpoint keeps while it lives. -/
def LineBp.key (bp : LineBp) : Nat × Nat :=
  (bp.id, bp.line)

/-- The requests that a list of breakpoints stands for. -/
def requestIdsOf (bps : List LineBp) : List RequestId :=
  bps.flatMap LineBp.requestIds

theorem requestIdsOf_append (xs ys : List LineBp) :
    requestIdsOf (xs ++ ys) = requestIdsOf xs ++ requestIdsOf ys :=
  List.flatMap_append

theorem bindLine_adds (classId : ClassId) (entries : List (MethodId × Nat × Nat))
    (bp : LineBp) (vm : Debuggee) :
    exists new, (bindLine classId entries bp vm).1.requestIds = bp.requestIds ++ new ∧
      vm.Adds new (bindLine classId entries bp vm).2 ∧
      (bindLine classId entries bp vm).1.key = bp.key ∧
      (bp.Honest -> (bindLine classId entries bp vm).1.Honest) := by
  unfold bindLine
  cases chooseEntry bp.line entries with
  | none => exact ⟨[], (List.append_nil _).symm, Debuggee.Adds.refl vm, rfl, id⟩
  | some entry =>
    have hset := Debuggee.Adds.setLine ⟨1, classId, entry.1, entry.2.1⟩ vm
    simp only
    cases hanswer : vm.eventRequestSet .breakpoint .all
        [.locationOnly ⟨1, classId, entry.1, entry.2.1⟩] with
    | mk result vm' =>
      rw [hanswer] at hset
      rcases hset with ⟨e, hresult, hadds⟩ | ⟨hresult, hadds⟩
      · cases hresult
        exact ⟨[], (List.append_nil _).symm, hadds, rfl, id⟩
      · cases hresult
        refine ⟨[vm.nextRequestId], rfl, hadds, rfl, ?_⟩
        intro _
        exact ⟨fun _ => List.append_ne_nil_of_right_ne_nil _ (List.cons_ne_nil _ _),
          fun _ => rfl⟩

theorem perm_insert_new {first new rest rest' others : List RequestId}
    (h : rest'.Perm (rest ++ others)) :
    (first ++ new ++ rest').Perm (first ++ rest ++ (new ++ others)) := by
  have hswap : (new ++ rest).Perm (rest ++ new) := List.perm_append_comm
  have hmoved := (hswap.append_right others).append_left first
  rw [List.append_assoc new, List.append_assoc rest, ← List.append_assoc first,
    ← List.append_assoc first] at hmoved
  exact (h.append_left (first ++ new)).trans hmoved

theorem bindLines_adds (classId : ClassId) (entries : List (MethodId × Nat × Nat))
    (bps : List LineBp) (vm : Debuggee) :
    exists new, (requestIdsOf (bindLines classId entries bps vm).1).Perm
        (requestIdsOf bps ++ new) ∧
      vm.Adds new (bindLines classId entries bps vm).2.2 ∧
      (bindLines classId entries bps vm).1.map LineBp.key = bps.map LineBp.key ∧
      ((forall bp, bp ∈ bps -> bp.Honest) ->
        forall bp, bp ∈ (bindLines classId entries bps vm).1 -> bp.Honest) := by
  induction bps generalizing vm with
  | nil => exact ⟨[], List.Perm.nil, Debuggee.Adds.refl vm, rfl, fun h => h⟩
  | cons bp rest ih =>
    unfold bindLines
    cases bp.verified with
    | true =>
      rcases ih vm with ⟨new, hids, hadds, hkeys, hhonest⟩
      refine ⟨new, ?_, hadds, ?_, ?_⟩
      · simp only [requestIdsOf, List.flatMap_cons, List.append_assoc, if_true]
        exact hids.append_left bp.requestIds
      · simp [hkeys]
      · intro h other ho
        rcases List.mem_cons.mp ho with rfl | ho
        · exact h other List.mem_cons_self
        · exact hhonest (fun b hb => h b (List.mem_cons_of_mem _ hb)) other ho
    | false =>
      rcases bindLine_adds classId entries bp vm with
        ⟨first, hfirst, hfirstAdds, hkey, hfirstHonest⟩
      rcases ih (bindLine classId entries bp vm).2 with
        ⟨others, hids, hadds, hkeys, hhonest⟩
      refine ⟨first ++ others, ?_, hfirstAdds.trans hadds, ?_, ?_⟩
      · simp only [requestIdsOf, List.flatMap_cons, Bool.false_eq_true, if_false, hfirst]
        exact perm_insert_new hids
      · simp [hkeys, hkey]
      · intro h other ho
        rcases List.mem_cons.mp ho with rfl | ho
        · exact hfirstHonest (h bp List.mem_cons_self)
        · exact hhonest (fun b hb => h b (List.mem_cons_of_mem _ hb)) other ho

namespace Adapter

/-!
# The breakpoints of all files
-/

def bpsOf (a : Adapter) (path : String) : List LineBp :=
  (a.session.files.lookup path).elim [] FileBps.bps

def lineBps (a : Adapter) : List LineBp :=
  a.session.files.entries.flatMap (fun file => file.2.bps)

theorem bpsOf_setFile (a : Adapter) (path other : String) (file : FileBps) :
    (a.setFile path file).bpsOf other =
      if other = path then file.bps else a.bpsOf other := by
  unfold bpsOf setFile
  by_cases h : other = path
  · subst h
    simp
  · simp [h, AList.lookup_insert_ne h]

theorem bpsOf_of_lookup {a : Adapter} {path : String} {file : FileBps}
    (h : a.session.files.lookup path = some file) : a.bpsOf path = file.bps := by
  unfold bpsOf
  rw [h]
  rfl

theorem map_of_keys {bps bps' : List LineBp} (h : bps'.map LineBp.key = bps.map LineBp.key) :
    bps'.map LineBp.id = bps.map LineBp.id ∧ bps'.map LineBp.line = bps.map LineBp.line := by
  have hids := congrArg (List.map Prod.fst) h
  have hlines := congrArg (List.map Prod.snd) h
  simp only [List.map_map] at hids hlines
  exact ⟨hids, hlines⟩

/-- The breakpoints of one file and those of the others, which a new file leaves alone. -/
theorem lineBps_split (a : Adapter) (path : String) :
    exists rest, a.lineBps.Perm (a.bpsOf path ++ rest) ∧
      forall file, (a.setFile path file).lineBps = file.bps ++ rest := by
  refine ⟨(a.session.files.entries.kerase path).flatMap (fun file => file.2.bps), ?_, ?_⟩
  · unfold lineBps bpsOf
    by_cases hmem : path ∈ a.session.files
    · rcases List.exists_of_kerase hmem with ⟨file, before, after, _, hsplit, herased⟩
      have hlookup : a.session.files.lookup path = some file := by
        apply AList.mem_lookup_iff.mpr
        rw [hsplit]
        exact List.mem_append_right _ List.mem_cons_self
      rw [hlookup, herased, hsplit]
      simp only [Option.elim_some, List.flatMap_append, List.flatMap_cons]
      exact List.perm_append_comm_assoc _ _ _
    · rw [AList.lookup_eq_none.mpr hmem, List.kerase_of_notMem_keys hmem]
      exact List.Perm.refl _
  · intro file
    unfold lineBps setFile
    simp only [AList.entries_insert, List.flatMap_cons]

theorem mem_lineBps_of_mem_bpsOf {a : Adapter} {path : String} {bp : LineBp}
    (h : bp ∈ a.bpsOf path) : bp ∈ a.lineBps := by
  rcases a.lineBps_split path with ⟨rest, hsplit, _⟩
  exact hsplit.mem_iff.mpr (List.mem_append_left rest h)

/-!
# What is kept up
-/

/-- The session's breakpoints are what the debuggee has, and have their own numbers. -/
structure Mirrors (a : Adapter) : Prop where
  requests : (requestIdsOf a.lineBps).Perm a.vm.lineRequests
  numbered : a.vm.Numbered
  honest : forall bp, bp ∈ a.lineBps -> bp.Honest
  lines : forall path, ((a.bpsOf path).map LineBp.line).Nodup
  ids : (a.lineBps.map LineBp.id).Nodup
  issued : forall bp, bp ∈ a.lineBps -> bp.id < a.session.nextBpId

/--
From `a` to `b` the log grows, no number comes back that had been given out, and what
mirrors the debuggee goes on to do so while clears succeed.
-/
structure Booked (a b : Adapter) : Prop where
  sent : a.vm.sent <+: b.vm.sent
  faults : b.vm.faults = a.vm.faults
  issued : a.session.nextBpId ≤ b.session.nextBpId
  old : forall path bp, bp ∈ b.bpsOf path -> bp.id < a.session.nextBpId ->
    bp.key ∈ (a.bpsOf path).map LineBp.key
  mirrors : b.vm.ClearsSucceed -> a.Mirrors -> b.Mirrors

namespace Booked

theorem trans {a b c : Adapter} (h : Booked a b) (k : Booked b c) : Booked a c where
  sent := h.sent.trans k.sent
  faults := k.faults.trans h.faults
  issued := Nat.le_trans h.issued k.issued
  old := by
    intro path bp hbp hold
    rcases List.mem_map.mp (k.old path bp hbp (Nat.lt_of_lt_of_le hold h.issued)) with
      ⟨before, hbefore, hkey⟩
    have hid : before.id = bp.id := congrArg Prod.fst hkey
    rw [← hkey]
    exact h.old path before hbefore (by rw [hid]; exact hold)
  mirrors := fun hclears ha =>
    k.mirrors hclears (h.mirrors (hclears.of_prefix k.sent k.faults) ha)

theorem of_apart {a b : Adapter} (hfiles : b.session.files = a.session.files)
    (hnext : b.session.nextBpId = a.session.nextBpId) (hvm : a.vm.Adds [] b.vm) :
    Booked a b := by
  have hbps : forall path, b.bpsOf path = a.bpsOf path := by
    intro path
    unfold bpsOf
    rw [hfiles]
  have hall : b.lineBps = a.lineBps := by
    unfold lineBps
    rw [hfiles]
  refine ⟨hvm.sent, hvm.faults, Nat.le_of_eq hnext.symm, ?_, ?_⟩
  · intro path bp hbp _
    rw [hbps] at hbp
    exact List.mem_map_of_mem hbp
  · intro _ h
    constructor
    · rw [hall, hvm.lines, List.append_nil]
      exact h.requests
    · exact hvm.numbered h.numbered
    · rw [hall]
      exact h.honest
    · intro path
      rw [hbps]
      exact h.lines path
    · rw [hall]
      exact h.ids
    · rw [hall, hnext]
      exact h.issued

theorem refl (a : Adapter) : Booked a a :=
  of_apart rfl rfl (Debuggee.Adds.refl a.vm)

theorem vm {a : Adapter} {d : Debuggee} (h : a.vm.Adds [] d) : Booked a { a with vm := d } :=
  of_apart rfl rfl h

theorem session {a : Adapter} {s : Session} (hfiles : s.files = a.session.files)
    (hnext : s.nextBpId = a.session.nextBpId) : Booked a { a with session := s } :=
  of_apart hfiles hnext (Debuggee.Adds.refl a.vm)

theorem write (a : Adapter) (message : DapMessage) : Booked a (a.write message) :=
  of_apart rfl rfl (Debuggee.Adds.refl a.vm)

theorem frame : Frame Booked where
  refl := refl
  trans := trans
  methods := fun classId a => vm (Debuggee.Adds.methods classId a.vm)
  lineTable := fun classId methodId a => vm (Debuggee.Adds.lineTable classId methodId a.vm)
  request := fun _ a _ hother => vm (Debuggee.Adds.eventRequestSet _ hother .all a.vm)
  clear := fun id a _ hother => vm (Debuggee.Adds.eventRequestClear _ hother id a.vm)
  session := fun h => session h.files h.nextBpId
  write := fun a _ => write a _

/-!
# One file changes
-/

end Booked

structure FileMirrors (b : Adapter) (bps rest : List LineBp) : Prop where
  requests : (requestIdsOf (bps ++ rest)).Perm b.vm.lineRequests
  numbered : b.vm.Numbered
  honest : forall bp, bp ∈ bps -> bp.Honest
  lines : (bps.map LineBp.line).Nodup
  ids : ((bps ++ rest).map LineBp.id).Nodup
  issued : forall bp, bp ∈ bps -> bp.id < b.session.nextBpId

theorem Mirrors.file {a : Adapter} (h : a.Mirrors) (path : String) {rest : List LineBp}
    (hsplit : a.lineBps.Perm (a.bpsOf path ++ rest)) :
    a.FileMirrors (a.bpsOf path) rest where
  requests := (hsplit.flatMap_right LineBp.requestIds).symm.trans h.requests
  numbered := h.numbered
  honest := fun bp hbp => h.honest bp (mem_lineBps_of_mem_bpsOf hbp)
  lines := h.lines path
  ids := (hsplit.map LineBp.id).nodup_iff.mp h.ids
  issued := fun bp hbp => h.issued bp (mem_lineBps_of_mem_bpsOf hbp)

namespace Booked

variable {a : Adapter} {path : String} {file : FileBps}

theorem of_file {b : Adapter} (hfiles : b.session.files = a.session.files.insert path file)
    (hsent : a.vm.sent <+: b.vm.sent) (hfaults : b.vm.faults = a.vm.faults)
    (hnext : a.session.nextBpId ≤ b.session.nextBpId)
    (hold : forall bp, bp ∈ file.bps -> bp.id < a.session.nextBpId ->
      bp.key ∈ (a.bpsOf path).map LineBp.key)
    (hmirrors : b.vm.ClearsSucceed -> a.Mirrors -> forall rest,
      a.lineBps.Perm (a.bpsOf path ++ rest) -> b.FileMirrors file.bps rest) :
    Booked a b := by
  have hbps : forall other, b.bpsOf other =
      if other = path then file.bps else a.bpsOf other := by
    intro other
    rw [← bpsOf_setFile]
    unfold bpsOf Adapter.setFile
    rw [hfiles]
  refine ⟨hsent, hfaults, hnext, ?_, ?_⟩
  · intro other bp hbp hissued
    rw [hbps] at hbp
    split at hbp
    · rename_i hsame
      rw [hsame]
      exact hold bp hbp hissued
    · exact List.mem_map_of_mem hbp
  · intro hclears h
    rcases a.lineBps_split path with ⟨rest, hsplit, hset⟩
    have hall : b.lineBps = file.bps ++ rest := by
      rw [← hset file]
      unfold lineBps Adapter.setFile
      rw [hfiles]
    have hfile := hmirrors hclears h rest hsplit
    have hrest : forall bp, bp ∈ rest -> bp ∈ a.lineBps :=
      fun bp hbp => hsplit.mem_iff.mpr (List.mem_append_right _ hbp)
    constructor
    · rw [hall]
      exact hfile.requests
    · exact hfile.numbered
    · rw [hall]
      intro bp hbp
      rcases List.mem_append.mp hbp with hbp | hbp
      · exact hfile.honest bp hbp
      · exact h.honest bp (hrest bp hbp)
    · intro other
      rw [hbps]
      split
      · exact hfile.lines
      · exact h.lines other
    · rw [hall]
      exact hfile.ids
    · rw [hall]
      intro bp hbp
      rcases List.mem_append.mp hbp with hbp | hbp
      · exact hfile.issued bp hbp
      · exact Nat.lt_of_lt_of_le (h.issued bp (hrest bp hbp)) hnext

theorem newFile (hnone : a.session.files.lookup path = none) (hempty : file.bps = []) :
    Booked a (a.setFile path file) := by
  have hbps : a.bpsOf path = file.bps := by
    unfold bpsOf
    rw [hnone, hempty]
    rfl
  refine of_file rfl List.prefix_rfl rfl (Nat.le_refl _) ?_ ?_
  · intro bp hbp _
    rw [hbps]
    exact List.mem_map_of_mem hbp
  · intro _ h rest hsplit
    rw [← hbps]
    have hfile := h.file path hsplit
    exact ⟨hfile.requests, hfile.numbered, hfile.honest, hfile.lines, hfile.ids, hfile.issued⟩

theorem bind (hlookup : a.session.files.lookup path = some file) (classId : ClassId)
    (entries : List (MethodId × Nat × Nat)) :
    Booked a ({ a with vm := (bindLines classId entries file.bps a.vm).2.2 }.setFile path
      { file with bps := (bindLines classId entries file.bps a.vm).1 }) := by
  have hbps : a.bpsOf path = file.bps := bpsOf_of_lookup hlookup
  rcases bindLines_adds classId entries file.bps a.vm with ⟨new, hids, hadds, hkeys, hhonest⟩
  rcases map_of_keys hkeys with ⟨hsameIds, hsameLines⟩
  refine of_file rfl hadds.sent hadds.faults (Nat.le_refl _) ?_ ?_
  · intro bp hbp _
    rw [hbps, ← hkeys]
    exact List.mem_map_of_mem hbp
  · intro _ h rest hsplit
    have hfile := h.file path hsplit
    rw [hbps] at hfile
    constructor
    · have hmoved : (requestIdsOf file.bps ++ new ++ requestIdsOf rest).Perm
          (requestIdsOf file.bps ++ requestIdsOf rest ++ new) := by
        rw [List.append_assoc, List.append_assoc]
        exact List.perm_append_comm.append_left _
      have hlines : (Adapter.setFile { a with vm := (bindLines classId entries file.bps a.vm).2.2 }
          path { file with bps := (bindLines classId entries file.bps a.vm).1 }).vm.lineRequests =
          a.vm.lineRequests ++ new := hadds.lines
      have hold := hfile.requests.append_right new
      rw [requestIdsOf_append] at hold ⊢
      rw [hlines]
      exact ((hids.append_right _).trans hmoved).trans hold
    · exact hadds.numbered hfile.numbered
    · exact hhonest hfile.honest
    · rw [hsameLines]
      exact hfile.lines
    · have hidsOf := hfile.ids
      rw [List.map_append] at hidsOf ⊢
      rw [hsameIds]
      exact hidsOf
    · intro bp hbp
      have hmem : bp.id ∈ file.bps.map LineBp.id := by
        rw [← hsameIds]
        exact List.mem_map_of_mem hbp
      rcases List.mem_map.mp hmem with ⟨before, hbefore, hid⟩
      rw [← hid]
      exact hfile.issued before hbefore

end Booked

/-!
# The lines of a file are replaced
-/

def unbound (id line : Nat) : LineBp where
  id := id
  line := line
  verified := false
  actualLine := none
  message := none
  requestIds := []

theorem addLines_new (requested : List Nat) (kept : List LineBp) (nextId : Nat) :
    exists new, addLines requested kept nextId = (kept ++ new, nextId + new.length) ∧
      new.map LineBp.id = List.range' nextId new.length ∧
      (forall bp, bp ∈ new -> bp.verified = false ∧ bp.requestIds = []) ∧
      ((kept.map LineBp.line).Nodup -> ((kept ++ new).map LineBp.line).Nodup) ∧
      forall line, line ∈ requested -> line ∈ (kept ++ new).map LineBp.line := by
  induction requested generalizing kept nextId with
  | nil =>
    refine ⟨[], ?_, rfl, fun _ h => (List.not_mem_nil h).elim, ?_, ?_⟩
    · simp [addLines]
    · intro h
      simpa using h
    · intro line h
      exact (List.not_mem_nil h).elim
  | cons first rest ih =>
    unfold addLines
    cases hthere : kept.any (fun bp => bp.line == first) with
    | true =>
      rcases ih kept nextId with ⟨new, heq, hids, hfresh, hnodup, hlines⟩
      refine ⟨new, heq, hids, hfresh, hnodup, ?_⟩
      intro line hline
      rcases List.mem_cons.mp hline with rfl | hline
      · rcases List.any_eq_true.mp hthere with ⟨bp, hbp, hsame⟩
        apply List.mem_map.mpr
        exact ⟨bp, List.mem_append_left _ hbp, by simpa using hsame⟩
      · exact hlines line hline
    | false =>
      rcases ih (kept ++ [unbound nextId first]) (nextId + 1) with
        ⟨new, heq, hids, hfresh, hnodup, hlines⟩
      refine ⟨unbound nextId first :: new, ?_, ?_, ?_, ?_, ?_⟩
      · have hcount : nextId + 1 + new.length = nextId + (new.length + 1) := by omega
        rw [List.append_cons kept (unbound nextId first) new, List.length_cons, ← hcount]
        exact heq
      · rw [List.map_cons, hids, List.length_cons, List.range'_succ]
        rfl
      · intro bp hbp
        rcases List.mem_cons.mp hbp with rfl | hbp
        · exact ⟨rfl, rfl⟩
        · exact hfresh bp hbp
      · intro hkept
        rw [List.append_cons]
        apply hnodup
        rw [List.map_append]
        apply List.Nodup.append hkept (List.nodup_singleton _)
        intro line hold hnew
        rcases List.mem_map.mp hold with ⟨bp, hbp, hline⟩
        have hfirst : bp.line = first := hline.trans (List.mem_singleton.mp hnew)
        have hne := List.any_eq_false.mp hthere bp hbp
        exact hne (by simpa using hfirst)
      · intro line hline
        rw [List.append_cons]
        rcases List.mem_cons.mp hline with rfl | hline
        · simp [unbound]
        · exact hlines line hline

theorem clearAll_spec (ids : List RequestId) (a : Adapter) :
    (eventRequestClearAll .breakpoint ids a).session = a.session ∧
      a.vm.sent <+: (eventRequestClearAll .breakpoint ids a).vm.sent ∧
      (eventRequestClearAll .breakpoint ids a).vm.faults = a.vm.faults ∧
      (a.vm.Numbered -> (eventRequestClearAll .breakpoint ids a).vm.Numbered) ∧
      ((eventRequestClearAll .breakpoint ids a).vm.ClearsSucceed ->
        (eventRequestClearAll .breakpoint ids a).vm.lineRequests =
          a.vm.lineRequests.filter (fun r => decide (r ∉ ids))) := by
  induction ids generalizing a with
  | nil =>
    refine ⟨rfl, List.prefix_rfl, rfl, fun h => h, ?_⟩
    intro _
    simp [eventRequestClearAll]
  | cons id rest ih =>
    rcases Debuggee.clearLine_spec id a.vm with ⟨hsent, hfaults, hnumbered, hlines⟩
    rcases ih (a.call (Debuggee.eventRequestClear .breakpoint id)).2 with
      ⟨hsession, hsent', hfaults', hnumbered', hlines'⟩
    refine ⟨hsession, ?_, hfaults'.trans hfaults, fun h => hnumbered' (hnumbered h), ?_⟩
    · exact (List.prefix_append _ _).trans (hsent ▸ hsent')
    · intro hclears
      have hfirst := hlines (hclears.of_prefix hsent' hfaults')
      have hothers := hlines' hclears
      rw [show (a.call (Debuggee.eventRequestClear .breakpoint id)).2.vm.lineRequests =
        a.vm.lineRequests.filter (fun r => decide (r ≠ id)) from hfirst,
        List.filter_filter] at hothers
      rw [show (eventRequestClearAll .breakpoint (id :: rest) a).vm.lineRequests =
        a.vm.lineRequests.filter (fun r => decide (r ∉ rest) && decide (r ≠ id))
        from hothers]
      apply List.filter_congr
      intro r _
      simp [Bool.and_comm]

theorem filter_notMem_middle {kept dropped rest : List RequestId}
    (h : (kept ++ dropped ++ rest).Nodup) :
    (kept ++ dropped ++ rest).filter (fun r => decide (r ∉ dropped)) = kept ++ rest := by
  rcases List.nodup_append.mp h with ⟨hleft, _, hright⟩
  rcases List.nodup_append.mp hleft with ⟨_, _, hdisjoint⟩
  have hkept : kept.filter (fun r => decide (r ∉ dropped)) = kept := by
    apply List.filter_eq_self.mpr
    intro r hr
    exact decide_eq_true (fun hdropped => hdisjoint r hr r hdropped rfl)
  have hdropped : dropped.filter (fun r => decide (r ∉ dropped)) = [] := by
    apply List.filter_eq_nil_iff.mpr
    intro r hr
    simpa using hr
  have hrest : rest.filter (fun r => decide (r ∉ dropped)) = rest := by
    apply List.filter_eq_self.mpr
    intro r hr
    exact decide_eq_true
      (fun hdropped => hright r (List.mem_append_right _ hdropped) r hr rfl)
  rw [List.filter_append, List.filter_append, hkept, hdropped, hrest, List.append_nil]

theorem Mirrors.nodup {a : Adapter} (h : a.Mirrors) : a.vm.lineRequests.Nodup :=
  h.numbered.nodup.sublist (List.filter_sublist.map EventRequest.id)

/-- The requests of the kept and of the other files' breakpoints are what the clears leave. -/
theorem requests_of_kept {kept dropped bps new rest : List LineBp} {before : List RequestId}
    (hbps : bps.Perm (kept ++ dropped)) (hnew : forall bp, bp ∈ new -> bp.requestIds = [])
    (hbefore : (requestIdsOf (bps ++ rest)).Perm before) (hnodup : before.Nodup) :
    (requestIdsOf (kept ++ new ++ rest)).Perm
      (before.filter (fun r => decide (r ∉ requestIdsOf dropped))) := by
  have hnone : requestIdsOf new = [] := List.flatMap_eq_nil_iff.mpr hnew
  have hparts : (requestIdsOf kept ++ requestIdsOf dropped ++ requestIdsOf rest).Perm before := by
    rw [← requestIdsOf_append, ← requestIdsOf_append]
    exact ((hbps.append_right rest).flatMap_right LineBp.requestIds).symm.trans hbefore
  have hleft := filter_notMem_middle (hparts.nodup_iff.mpr hnodup)
  rw [requestIdsOf_append, requestIdsOf_append, hnone, List.append_nil, ← hleft]
  exact hparts.filter _

theorem nodup_insert_range' {kept old rest : List Nat} {next : Nat} (count : Nat)
    (hkept : kept.Sublist old) (hnodup : (old ++ rest).Nodup)
    (hbelow : forall n, n ∈ old ++ rest -> n < next) :
    (kept ++ List.range' next count ++ rest).Nodup := by
  have hsublist : (kept ++ rest).Sublist (old ++ rest) := hkept.append_right rest
  have hmoved : (kept ++ List.range' next count ++ rest).Perm
      (kept ++ rest ++ List.range' next count) := by
    rw [List.append_assoc, List.append_assoc]
    exact List.perm_append_comm.append_left kept
  apply hmoved.nodup_iff.mpr
  apply List.Nodup.append (hnodup.sublist hsublist) List.nodup_range'
  intro n hold hnew
  have hlt : n < next := hbelow n (hsublist.subset hold)
  have hle : next ≤ n := (List.mem_range'_1.mp hnew).1
  exact absurd hlt (Nat.not_lt.mpr hle)

theorem Booked.replaceLines {a : Adapter} {path : String} {file : FileBps}
    (hlookup : a.session.files.lookup path = some file) (requested : List Nat) :
    Booked a (a.replaceLines path file requested) := by
  have hbps : a.bpsOf path = file.bps := bpsOf_of_lookup hlookup
  rcases addLines_new requested (file.bps.filter (fun bp => decide (bp.line ∈ requested)))
    a.session.nextBpId with ⟨new, hadded, hids, hfresh, hnodup, _⟩
  unfold Adapter.replaceLines
  simp only [hadded]
  rcases clearAll_spec
    ((file.bps.filter (fun bp => !decide (bp.line ∈ requested))).flatMap
      (fun bp => bp.requestIds))
    { a.setFile path { file with
        bps := file.bps.filter (fun bp => decide (bp.line ∈ requested)) ++ new } with
      session := { (a.setFile path { file with
        bps := file.bps.filter (fun bp => decide (bp.line ∈ requested)) ++ new }).session with
        nextBpId := a.session.nextBpId + new.length } } with
    ⟨hsession, hsent, hfaults, hnumbered, hlines⟩
  have hkept : (file.bps.filter (fun bp => decide (bp.line ∈ requested))).Sublist file.bps :=
    List.filter_sublist
  have hnumber : forall bp, bp ∈ new ->
      a.session.nextBpId ≤ bp.id ∧ bp.id < a.session.nextBpId + new.length := by
    intro bp hbp
    have hmem : bp.id ∈ List.range' a.session.nextBpId new.length := by
      rw [← hids]
      exact List.mem_map_of_mem hbp
    exact List.mem_range'_1.mp hmem
  refine of_file (by rw [hsession]; rfl) hsent hfaults
    (by rw [hsession]; exact Nat.le_add_right _ _) ?_ ?_
  · intro bp hbp hold
    rw [hbps]
    rcases List.mem_append.mp hbp with hbp | hbp
    · exact List.mem_map_of_mem (hkept.subset hbp)
    · exact absurd hold (Nat.not_lt.mpr (hnumber bp hbp).1)
  · intro hclears h rest hsplit
    have hfile := h.file path hsplit
    rw [hbps] at hfile
    constructor
    · rw [hlines hclears]
      apply requests_of_kept _ (fun bp hbp => (hfresh bp hbp).2) hfile.requests h.nodup
      exact (List.filter_append_perm (fun bp : LineBp => decide (bp.line ∈ requested))
        file.bps).symm
    · exact hnumbered hfile.numbered
    · intro bp hbp
      rcases List.mem_append.mp hbp with hbp | hbp
      · exact hfile.honest bp (hkept.subset hbp)
      · unfold LineBp.Honest
        rw [(hfresh bp hbp).1, (hfresh bp hbp).2]
        simp
    · exact hnodup (hfile.lines.sublist (hkept.map LineBp.line))
    · have hold := hfile.ids
      rw [List.map_append] at hold
      rw [List.map_append, List.map_append, hids]
      apply nodup_insert_range' new.length (hkept.map LineBp.id) hold
      intro n hn
      rw [← List.map_append] at hn
      rcases List.mem_map.mp hn with ⟨bp, hbp, hid⟩
      rw [← hid]
      exact h.issued bp (hsplit.mem_iff.mpr (hbps ▸ hbp))
    · rw [hsession]
      intro bp hbp
      rcases List.mem_append.mp hbp with hbp | hbp
      · exact Nat.lt_of_lt_of_le (hfile.issued bp (hkept.subset hbp)) (Nat.le_add_right _ _)
      · exact (hnumber bp hbp).2

/-!
# Every handler keeps the books
-/

namespace Booked

theorem bindLinesInClass (a : Adapter) (path : String) (classId : ClassId) :
    Booked a (a.bindLinesInClass path classId).2 :=
  frame.bindLinesInClass a path classId
    (fun _ _ entries hlookup => bind hlookup classId entries)

theorem setBreakpoints (fqcnForSource : String -> Option String) (a : Adapter)
    (args : Except String SetBreakpointsArgs) :
    Booked a (a.setBreakpoints fqcnForSource args).2 := by
  apply frame.setBreakpoints
  · intro b path file hnone hempty
    exact newFile hnone hempty
  · intro b path file requested hlookup
    exact replaceLines hlookup requested
  · intro path b classId
    exact bindLinesInClass b path classId
  · intro b
    exact vm (Debuggee.Adds.allClasses b.vm)

theorem resumeTimes (n : Nat) (a : Adapter) : Booked a (Adapter.resumeTimes n a).2 := by
  induction n generalizing a with
  | zero => exact refl a
  | succ n ih =>
    have hcall : Booked a (a.call Debuggee.resume).2 := vm (Debuggee.Adds.resume a.vm)
    unfold Adapter.resumeTimes
    cases hanswer : a.call Debuggee.resume with
    | mk result b =>
      rw [hanswer] at hcall
      cases result with
      | error e => exact hcall
      | ok _ => exact hcall.trans (ih b)

theorem setSuspendDepth (a : Adapter) (depth : Nat) : Booked a (a.setSuspendDepth depth) :=
  session rfl rfl

theorem clearExceptions (a : Adapter) : Booked a a.clearExceptions :=
  session rfl rfl

theorem continueAll (a : Adapter) : Booked a a.continueAll.2 := by
  unfold Adapter.continueAll
  split
  · have hresumed := (clearExceptions a).trans
      (resumeTimes (max a.session.suspendDepth 1) a.clearExceptions)
    split <;> rename_i hanswer <;> rw [hanswer] at hresumed
    · exact hresumed
    · exact hresumed.trans (setSuspendDepth _ 0)
  · exact refl a

theorem step (a : Adapter) (depth : StepDepth) (args : Except String Nat) :
    Booked a (a.step depth args).2 := by
  cases args with
  | error e => exact refl a
  | ok threadId =>
    unfold Adapter.step
    simp only
    cases a.jdwpThread threadId with
    | error e => exact refl a
    | ok thread =>
      have hcall : Booked a (a.call (Debuggee.eventRequestSet .singleStep .all
          [.step thread depth, .count 1])).2 :=
        vm (Debuggee.Adds.eventRequestSet .singleStep (fun h => nomatch h) .all a.vm)
      simp only
      split
      · split <;> rename_i hanswer <;> rw [hanswer] at hcall
        · exact hcall
        · rename_i id b
          have hset : Booked a { b with session :=
              { b.session with stepRequestIds := insert id b.session.stepRequestIds } } :=
            hcall.trans (session rfl rfl)
          have hcontinued := hset.trans (continueAll _)
          split <;> rename_i hresult <;> rw [hresult] at hcontinued
          · exact hcontinued
          · exact hcontinued
      · exact refl a

theorem pause (a : Adapter) (args : Except String Nat) : Booked a (a.pause args).2 := by
  cases args with
  | error e => exact refl a
  | ok threadId =>
    have hcall : Booked a (a.call Debuggee.suspend).2 := vm (Debuggee.Adds.suspend a.vm)
    unfold Adapter.pause
    simp only
    split
    · split <;> rename_i hanswer <;> rw [hanswer] at hcall
      · exact hcall
      · exact (hcall.trans (setSuspendDepth _ _)).trans (write _ _)
    · exact refl a

theorem configurationDone (a : Adapter) : Booked a a.configurationDone.2 := by
  unfold Adapter.configurationDone
  split
  · exact refl a
  · have hentry : Booked a
        (if a.session.launchMode && a.session.stopOnEntry then a.requestEntry else a) := by
      split
      · exact frame.requestEntry a
      · exact refl a
    revert hentry
    generalize (if a.session.launchMode && a.session.stopOnEntry then a.requestEntry else a) = b
    intro hentry
    simp only
    split
    · have hreleased : Booked a
          { b with session := { b.session with vmStartPending := false } } :=
        hentry.trans (session rfl rfl)
      have hresumed := hreleased.trans (vm (Debuggee.Adds.resume _))
      split
      · split <;> rename_i hanswer <;> rw [call, Prod.mk.injEq] at hanswer <;>
          rw [← hanswer.2] <;> exact hresumed
      · exact hreleased
    · exact hentry

theorem dispatch (fqcnForSource : String -> Option String) (a : Adapter)
    (request : Request) : Booked a (a.dispatch fqcnForSource request).2 := by
  cases request with
  | setBreakpoints args => exact setBreakpoints fqcnForSource a args
  | setExceptionBreakpoints args => exact frame.setExceptionBreakpoints a args
  | configurationDone => exact configurationDone a
  | continueAll => exact continueAll a
  | step depth args => exact step a depth args
  | pause args => exact pause a args

theorem onStop (a : Adapter) (thread : ThreadId) (reason : StopReason) :
    Booked a (a.onStop thread reason) := by
  have hthread : Booked a (a.dapThreadId thread).2 := by
    unfold Adapter.dapThreadId
    split
    · exact refl a
    · exact session rfl rfl
  exact hthread.trans (write _ _)

theorem onEvent (a : Adapter) (resume : Bool) (event : Event) :
    Booked a (a.onEvent resume event).2 := by
  cases event with
  | vmStart => exact session rfl rfl
  | classPrepare requestId typeId =>
    exact frame.onClassPrepare a requestId typeId
      (fun path => bindLinesInClass a path typeId)
  | breakpoint requestId thread =>
    simp only [Adapter.onEvent]
    split
    · exact (frame.clearEntry a).trans (onStop _ _ _)
    · exact onStop _ _ _
  | singleStep requestId thread =>
    have herased : Booked a { a with session :=
        { a.session with stepRequestIds := a.session.stepRequestIds.erase requestId } } :=
      session rfl rfl
    have hcleared := herased.trans
      (vm (Debuggee.Adds.eventRequestClear .singleStep (by decide) requestId a.vm))
    simp only [Adapter.onEvent]
    split
    · split
      · exact hcleared.trans (onStop _ _ _)
      · exact herased.trans (onStop _ _ _)
    · exact onStop _ _ _
  | exception thread exception catchLocation =>
    have hrecorded : Booked a { a with session :=
        { a.session with
          lastException :=
            a.session.lastException.insert thread (exception, catchLocation.isSome) } } :=
      session rfl rfl
    exact hrecorded.trans (onStop _ _ _)
  | vmDeath => exact frame.sendTerminated a

theorem onEvents (events : List Event) (resume : Bool) (a : Adapter) :
    Booked a (Adapter.onEvents events resume a).2 := by
  induction events generalizing resume a with
  | nil => exact refl a
  | cons event rest ih => exact (onEvent a resume event).trans (ih _ _)

theorem autoResume (a : Adapter) : Booked a a.autoResume := by
  have hcall : Booked a (a.call Debuggee.resume).2 := vm (Debuggee.Adds.resume a.vm)
  unfold Adapter.autoResume
  split
  · split <;> rename_i hanswer <;> rw [hanswer] at hcall
    · exact hcall.trans (setSuspendDepth _ _)
    · exact hcall
  · exact refl a

theorem handleEventSet (a : Adapter) (set : EventSet) : Booked a (a.handleEventSet set) := by
  have hcounted : Booked a (a.countSuspension set) := by
    unfold countSuspension
    split
    · exact setSuspendDepth a _
    · exact refl a
  have hevents := hcounted.trans (onEvents set.events (counted set) (a.countSuspension set))
  rw [handleEventSet_eq]
  split
  · exact hevents.trans (autoResume _)
  · exact hevents

theorem handle (fqcnForSource : String -> Option String) (a : Adapter) (message : Inbound) :
    Booked a (a.handle fqcnForSource message) := by
  cases message with
  | request request => exact (dispatch fqcnForSource a request).trans (write _ _)
  | jdwpEvent composite =>
    simp only [Adapter.handle]
    split
    · cases composite with
      | ok set => exact handleEventSet a set
      | error e => exact frame.sendTerminated a
    · exact refl a
  | jdwpClosed =>
    have hclosed : Booked a { a with session := { a.session with connected := false } } :=
      session rfl rfl
    exact hclosed.trans (frame.sendTerminated _)

end Booked

/-!
# The answer to the client
-/

def SameLines (a b : Adapter) : Prop :=
  forall path, (b.bpsOf path).map LineBp.line = (a.bpsOf path).map LineBp.line

theorem SameLines.of_files {a b : Adapter} (h : b.session.files = a.session.files) :
    SameLines a b := by
  intro path
  unfold bpsOf
  rw [h]

theorem SameLines.frame : Frame SameLines where
  refl := fun _ _ => rfl
  trans := fun h k path => (k path).trans (h path)
  methods := fun _ _ => of_files rfl
  lineTable := fun _ _ _ => of_files rfl
  request := fun _ _ _ _ => of_files rfl
  clear := fun _ _ _ _ => of_files rfl
  session := fun h => of_files h.files
  write := fun _ _ => of_files rfl

theorem SameLines.bindLinesInClass (a : Adapter) (path : String) (classId : ClassId) :
    SameLines a (a.bindLinesInClass path classId).2 := by
  apply SameLines.frame.bindLinesInClass
  intro b file entries hlookup other
  rw [bpsOf_setFile]
  split
  · rename_i hsame
    rcases bindLines_adds classId entries file.bps b.vm with ⟨_, _, _, hkeys, _⟩
    rw [hsame, bpsOf_of_lookup hlookup]
    exact (map_of_keys hkeys).2
  · rfl

/-- Every requested line is there when the lines of a file have been replaced. -/
theorem mem_lines_replaceLines {a : Adapter} {path : String} {file : FileBps}
    {requested : List Nat} {line : Nat} (h : line ∈ requested) :
    line ∈ ((a.replaceLines path file requested).bpsOf path).map LineBp.line := by
  rcases addLines_new requested (file.bps.filter (fun bp => decide (bp.line ∈ requested)))
    a.session.nextBpId with ⟨new, hadded, _, _, _, hlines⟩
  unfold replaceLines
  simp only [hadded]
  unfold bpsOf
  rw [(clearAll_spec _ _).1]
  simp only [setFile, AList.lookup_insert, Option.elim_some]
  exact hlines line h

theorem breakpointsReply_forall₂ (a : Adapter) (path : String) {requested : List Nat}
    (h : forall line, line ∈ requested -> line ∈ (a.bpsOf path).map LineBp.line) :
    exists infos, a.breakpointsReply path requested = .breakpoints infos ∧
      List.Forall₂ (fun line info => exists bp, bp ∈ a.bpsOf path ∧ bp.line = line ∧
        info = breakpointJson bp) requested infos := by
  refine ⟨_, rfl, ?_⟩
  induction requested with
  | nil => exact List.Forall₂.nil
  | cons line rest ih =>
    have hrest := ih (fun other hother => h other (List.mem_cons_of_mem _ hother))
    rcases List.mem_map.mp (h line List.mem_cons_self) with ⟨bp, hbp, hline⟩
    cases hfind : (a.bpsOf path).find? (fun bp => bp.line == line) with
    | none =>
      have hne := List.find?_eq_none.mp hfind bp hbp
      exact absurd (beq_iff_eq.mpr hline) hne
    | some found =>
      have hfound : found.line = line := by simpa using List.find?_some hfind
      have hmem : found ∈ a.bpsOf path := List.mem_of_find?_eq_some hfind
      unfold bpsOf at hfind
      simp only [List.filterMap_cons, hfind, List.map_cons]
      exact List.Forall₂.cons ⟨found, hmem, hfound, rfl⟩ hrest

/-- The lines that a request asks for. -/
def requestedLines (args : SetBreakpointsArgs) : List Nat :=
  if args.breakpoints.isEmpty then args.lines else args.breakpoints

theorem setBreakpoints_reply {fqcnForSource : String -> Option String} {a : Adapter}
    {args : Except String SetBreakpointsArgs} {body : Body}
    (h : (a.setBreakpoints fqcnForSource args).1 = .ok body) :
    exists given path infos, args = .ok given ∧ given.path = some path ∧
      body = .breakpoints infos ∧
      List.Forall₂ (fun line info => exists bp,
        bp ∈ (a.setBreakpoints fqcnForSource args).2.bpsOf path ∧ bp.line = line ∧
          info = breakpointJson bp) (requestedLines given) infos := by
  cases args with
  | error e => cases h
  | ok given =>
    unfold setBreakpoints at h ⊢
    cases hpath : given.path with
    | none =>
      simp only [hpath] at h
      cases h
    | some path =>
      simp only [hpath] at h ⊢
      split at h
      case isFalse => cases h
      case isTrue hconnected =>
        simp only [if_pos hconnected]
        cases hfile : a.registerFile fqcnForSource path with
        | error e =>
          rw [hfile] at h
          cases h
        | ok registered =>
          rw [hfile] at h
          cases h
          have hbound := SameLines.frame.bindLoaded
            (fun b classId => SameLines.bindLinesInClass b path classId)
            (fun b => SameLines.of_files rfl)
            (registered.2.replaceLines path registered.1 (requestedLines given))
            registered.1.className
          have hthere : forall line, line ∈ requestedLines given ->
              line ∈ (((registered.2.replaceLines path registered.1
                (requestedLines given)).bindLoaded path
                  registered.1.className).bpsOf path).map LineBp.line := by
            intro line hline
            rw [hbound path]
            exact mem_lines_replaceLines hline
          rcases breakpointsReply_forall₂ _ path hthere with ⟨infos, hreply, hinfos⟩
          exact ⟨given, path, infos, rfl, hpath, hreply, hinfos⟩

/-!
# Every run of the session
-/

/-- The debuggee goes on by itself, or the event loop takes a message. -/
inductive Turn where
  | load (cls : ClassEntry)
  | emit (set : EventSet)
  | receive (message : Inbound)

/-- No message is excluded, also none that the debuggee would not send. -/
def takeTurn (world : World) (a : Adapter) : Turn -> Option Adapter
  | .load cls => some { a with vm := a.vm.load cls }
  | .emit set => some { a with vm := a.vm.emit set }
  | .receive message => some (a.handle world.fqcnForSource message)

theorem Booked.takeTurn {world : World} {a b : Adapter} {t : Turn}
    (h : a.takeTurn world t = some b) : Booked a b := by
  cases t with
  | load cls =>
    cases h
    exact vm (Debuggee.Adds.load cls a.vm)
  | emit set =>
    cases h
    exact vm (Debuggee.Adds.emit set a.vm)
  | receive message =>
    cases h
    exact handle world.fqcnForSource a message

theorem booked_of_run {world : World} {turns : List Turn} {a b : Adapter}
    (hrun : run (takeTurn world) a turns = some b) : Booked a b :=
  Run.invariant (Booked a) (fun _ _ _ h hstep => h.trans (Booked.takeTurn hstep))
    (Booked.refl a) hrun

theorem mirrors_initial (world : World) (start : Start) :
    (System.initial world start).adapter.Mirrors where
  requests := List.Perm.nil
  numbered := ⟨List.nodup_nil, fun _ h => (List.not_mem_nil h).elim⟩
  honest := fun _ h => (List.not_mem_nil h).elim
  lines := fun _ => List.nodup_nil
  ids := List.nodup_nil
  issued := fun _ h => (List.not_mem_nil h).elim

/--
While clears succeed, the requests set for lines are those of the breakpoints, each
of one of them; a breakpoint is verified when it has one, a line of a file has one
breakpoint, a number is given out once, and each answer tells of the lines asked for.
-/
theorem breakpoints_mirror_debuggee (world : World) (start : Start) {turns : List Turn}
    {a : Adapter} (hrun : run (takeTurn world) (System.initial world start).adapter turns =
      some a) (hclears : a.vm.ClearsSucceed) :
    (requestIdsOf a.lineBps).Perm a.vm.lineRequests ∧ (requestIdsOf a.lineBps).Nodup ∧
      (forall bp, bp ∈ a.lineBps -> (bp.verified = true <-> bp.requestIds ≠ [])) ∧
      (forall path, ((a.bpsOf path).map LineBp.line).Nodup) ∧
      ((a.lineBps.map LineBp.id).Nodup ∧
        (forall bp, bp ∈ a.lineBps -> bp.id < a.session.nextBpId) ∧
        forall later b, run (takeTurn world) a later = some b -> forall path bp,
          bp ∈ b.bpsOf path -> bp.id < a.session.nextBpId ->
            exists before, before ∈ a.bpsOf path ∧ before.id = bp.id ∧
              before.line = bp.line) ∧
      forall args body b, a.takeTurn world (.receive (.request (.setBreakpoints args))) =
          some b ->
        b.out.getLast? = some (.response (.setBreakpoints args) (.ok body)) ->
          exists given path infos, args = .ok given ∧ given.path = some path ∧
            body = .breakpoints infos ∧
            List.Forall₂ (fun line info => exists bp, bp ∈ b.bpsOf path ∧ bp.line = line ∧
              info = breakpointJson bp) (requestedLines given) infos := by
  have hmirrors : a.Mirrors :=
    (booked_of_run hrun).mirrors hclears (mirrors_initial world start)
  refine ⟨hmirrors.requests, hmirrors.requests.nodup_iff.mpr hmirrors.nodup, hmirrors.honest,
    hmirrors.lines, ⟨hmirrors.ids, hmirrors.issued, ?_⟩, ?_⟩
  · intro later b hlater path bp hbp hissued
    rcases List.mem_map.mp ((booked_of_run hlater).old path bp hbp hissued) with
      ⟨before, hbefore, hkey⟩
    exact ⟨before, hbefore, congrArg Prod.fst hkey, congrArg Prod.snd hkey⟩
  · intro args body b hstep hlast
    cases hstep
    have hanswer : (a.setBreakpoints world.fqcnForSource args).1 = .ok body := by
      simp only [handle, handleRequest, write, List.getLast?_append, List.getLast?_singleton,
        Option.some_or, Option.some.injEq, DapMessage.response.injEq, true_and] at hlast
      exact hlast
    exact setBreakpoints_reply hanswer

/-- `Main` is loaded, and the first request for a line is refused. -/
def refusingWorld : World where
  fqcnForSource := fun _ => some "Main"
  loaded := [{ typeId := 1, signature := "LMain;" }]
  methodsOf := fun _ => [{ id := 1, name := "run", signature := "()V" }]
  lineTableOf := fun _ _ => .ok { start := 0, lines := [(0, 10), (8, 20)] }
  faults := fun i => if i = 5 then some (.code 20) else none

/-- Two lines, one of them bound; then the bound one is dropped and the other bound. -/
def twoRequests : List Turn :=
  [[10, 20], [10]].map (fun lines => .receive (.request (.setBreakpoints
    (.ok { path := some "Main.java", breakpoints := lines, lines := [] }))))

theorem breakpoints_mirror_refusing_debuggee :
    exists a, run (takeTurn refusingWorld)
        (System.initial refusingWorld (.attach false)).adapter twoRequests = some a ∧
      a.vm.lineRequests = [4] ∧ (a.bpsOf "Main.java").map LineBp.key = [(1, 10)] ∧
      (requestIdsOf a.lineBps).Perm a.vm.lineRequests := by
  have hends : (run (takeTurn refusingWorld)
      (System.initial refusingWorld (.attach false)).adapter twoRequests).map
        (fun a => (a.vm.lineRequests, (a.bpsOf "Main.java").map LineBp.key, a.vm.sent[5]?)) =
      some ([4], [(1, 10)], some (.eventRequestSet .breakpoint
        [.locationOnly { typeTag := 1, classId := 1, methodId := 1, index := 0 }])) := by
    decide
  rcases Option.map_eq_some_iff.mp hends with ⟨a, hrun, hend⟩
  have hlines : a.vm.lineRequests = [4] := congrArg (fun r => r.1) hend
  have hkeys : (a.bpsOf "Main.java").map LineBp.key = [(1, 10)] :=
    congrArg (fun r => r.2.1) hend
  have hrefused : a.vm.sent[5]? = _ := congrArg (fun r => r.2.2) hend
  have hclears : a.vm.ClearsSucceed := by
    intro i id hi
    rw [(booked_of_run hrun).faults]
    by_cases hfive : i = 5
    · rw [hfive, hrefused] at hi
      cases hi
    · exact if_neg hfive
  exact ⟨a, hrun, hlines, hkeys,
    (breakpoints_mirror_debuggee refusingWorld (.attach false) hrun hclears).1⟩

end Adapter

end Debug
end JavaVsixLite
