import JavaVsixLite.Debug.Codec

/-!
# Composite event packets

The debuggee sends its events in composites: a suspend policy, a count and so many
events, each laid out by its kind.  A composite that is laid out as it should be is
read back event by event; whatever else is accepted has as many events as it declares.
-/

namespace JavaVsixLite
namespace Debug
namespace Codec

open Foundation

/-!
# Events
-/

namespace EventKind

def singleStep : UInt8 := 1
def breakpoint : UInt8 := 2
def exception : UInt8 := 4
def classPrepare : UInt8 := 8
def vmStart : UInt8 := 90
def vmDeath : UInt8 := 99

end EventKind

inductive Event where
  | vmStart (requestId : UInt32) (thread : UInt64)
  | singleStep (requestId : UInt32) (thread : UInt64) (location : Location)
  | breakpoint (requestId : UInt32) (thread : UInt64) (location : Location)
  | exception (requestId : UInt32) (thread : UInt64) (location : Location) (exception : UInt64)
      (catchLocation : Option Location)
  | classPrepare (requestId : UInt32) (thread : UInt64) (typeTag : UInt8) (typeId : UInt64)
      (signature : Text) (status : UInt32)
  | vmDeath (requestId : UInt32)

structure EventSet where
  suspendPolicy : UInt8
  events : List Event

def maxEventsPerComposite : UInt32 := 1024

namespace Reader

def eventBody (sizes : IdSizes) (kind : UInt8) (requestId : UInt32) : Decoder Event :=
  if kind = EventKind.vmStart then do
    let thread <- id sizes.object
    pure (.vmStart requestId thread)
  else if kind = EventKind.singleStep then do
    let thread <- id sizes.object
    let loc <- location sizes
    pure (.singleStep requestId thread loc)
  else if kind = EventKind.breakpoint then do
    let thread <- id sizes.object
    let loc <- location sizes
    pure (.breakpoint requestId thread loc)
  else if kind = EventKind.exception then do
    let thread <- id sizes.object
    let loc <- location sizes
    -- The exception object is a tagged id.
    let _tag <- u8
    let exception <- id sizes.object
    let catchLocation <- location sizes
    pure (.exception requestId thread loc exception
      (if catchLocation.classId != 0 then some catchLocation else none))
  else if kind = EventKind.classPrepare then do
    let thread <- id sizes.object
    let typeTag <- u8
    let typeId <- id sizes.referenceType
    let signature <- string
    let status <- u32
    pure (.classPrepare requestId thread typeTag typeId signature status)
  else if kind = EventKind.vmDeath then
    pure (.vmDeath requestId)
  else
    Decoder.fail s!"unknown event kind {kind}"

def event (sizes : IdSizes) : Decoder Event := do
  let kind <- u8
  let requestId <- u32
  eventBody sizes kind requestId

def events (sizes : IdSizes) : Nat -> Decoder (List Event)
  | 0 => pure []
  | n + 1 => do
      let first <- event sizes
      let rest <- events sizes n
      pure (first :: rest)

def composite (sizes : IdSizes) : Decoder EventSet := do
  let suspendPolicy <- u8
  let count <- u32
  if count > maxEventsPerComposite then
    Decoder.fail s!"composite event count {count}"
  else do
    let events <- events sizes count.toNat
    pure { suspendPolicy, events }

end Reader

def parseComposite (payload : List UInt8) (sizes : IdSizes) : Outcome EventSet :=
  (Reader.composite sizes (Reader.new payload)).1

/-!
# Events on the wire
-/

/-- An event as it is laid out; an exception that is not caught has a catch location of class 0. -/
inductive WireEvent where
  | vmStart (requestId : UInt32) (thread : UInt64)
  | singleStep (requestId : UInt32) (thread : UInt64) (location : Location)
  | breakpoint (requestId : UInt32) (thread : UInt64) (location : Location)
  | exception (requestId : UInt32) (thread : UInt64) (location : Location) (tag : UInt8)
      (thrown : UInt64) (catchLocation : Location)
  | classPrepare (requestId : UInt32) (thread : UInt64) (typeTag : UInt8) (typeId : UInt64)
      (signature : Text) (status : UInt32)
  | vmDeath (requestId : UInt32)

namespace WireEvent

def ops : WireEvent -> List WriteOp
  | vmStart requestId thread => [.u8 EventKind.vmStart, .u32 requestId, .id .object thread]
  | singleStep requestId thread loc =>
    [.u8 EventKind.singleStep, .u32 requestId, .id .object thread, .location loc]
  | breakpoint requestId thread loc =>
    [.u8 EventKind.breakpoint, .u32 requestId, .id .object thread, .location loc]
  | exception requestId thread loc tag thrown catchLocation =>
    [.u8 EventKind.exception, .u32 requestId, .id .object thread, .location loc, .u8 tag,
      .id .object thrown, .location catchLocation]
  | classPrepare requestId thread typeTag typeId signature status =>
    [.u8 EventKind.classPrepare, .u32 requestId, .id .object thread, .u8 typeTag,
      .id .referenceType typeId, .string signature, .u32 status]
  | vmDeath requestId => [.u8 EventKind.vmDeath, .u32 requestId]

/-- What the event says. -/
def event : WireEvent -> Event
  | vmStart requestId thread => .vmStart requestId thread
  | singleStep requestId thread loc => .singleStep requestId thread loc
  | breakpoint requestId thread loc => .breakpoint requestId thread loc
  | exception requestId thread loc _ thrown catchLocation =>
    .exception requestId thread loc thrown
      (if catchLocation.classId = 0 then none else some catchLocation)
  | classPrepare requestId thread typeTag typeId signature status =>
    .classPrepare requestId thread typeTag typeId signature status
  | vmDeath requestId => .vmDeath requestId

/-- The signature is not over the limit on strings. -/
def SignatureFits : WireEvent -> Prop
  | classPrepare _ _ _ _ signature _ => signature.byteLen ≤ maxStringLen
  | _ => True

end WireEvent

/-- The value has a form of the width it is written in. -/
def WriteOp.Encodable (sizes : IdSizes) : WriteOp -> Prop
  | id kind v => v.toNat < 256 ^ sizes.size kind
  | string s => s.byteLen < 4294967296
  | location loc =>
    loc.classId.toNat < 256 ^ sizes.referenceType ∧ loc.methodId.toNat < 256 ^ sizes.method
  | _ => True

def WireEvent.Encodable (sizes : IdSizes) (e : WireEvent) : Prop :=
  forall op, op ∈ e.ops -> op.Encodable sizes

instance (sizes : IdSizes) : DecidablePred (WriteOp.Encodable sizes)
  | .id kind v => inferInstanceAs (Decidable (v.toNat < 256 ^ sizes.size kind))
  | .string s => inferInstanceAs (Decidable (s.byteLen < 4294967296))
  | .location loc => inferInstanceAs (Decidable
      (loc.classId.toNat < 256 ^ sizes.referenceType ∧ loc.methodId.toNat < 256 ^ sizes.method))
  | .u8 _ => inferInstanceAs (Decidable True)
  | .u32 _ => inferInstanceAs (Decidable True)
  | .u64 _ => inferInstanceAs (Decidable True)

def composite (sizes : IdSizes) (suspendPolicy : UInt8) (events : List WireEvent) : List UInt8 :=
  writeAll sizes
    (.u8 suspendPolicy :: .u32 (UInt32.ofNat events.length) :: events.flatMap WireEvent.ops)

/-!
# Reading an event back
-/

theorem reads_idOf {sizes : IdSizes} (hsizes : sizes.valid = true) {kind : IdKind} {v : UInt64}
    (h : (WriteOp.id kind v).Encodable sizes) :
    Reads (Reader.id (sizes.size kind)) ((WriteOp.id kind v).bytes sizes) v :=
  reads_id (IdSizes.size_le hsizes kind) h

theorem reads_locationOf {sizes : IdSizes} (hsizes : sizes.valid = true) {loc : Location}
    (h : (WriteOp.location loc).Encodable sizes) :
    Reads (Reader.location sizes) ((WriteOp.location loc).bytes sizes) loc :=
  reads_location (IdSizes.size_le hsizes .referenceType) (IdSizes.size_le hsizes .method) h.1 h.2

namespace WireEvent

def bytes (sizes : IdSizes) (e : WireEvent) : List UInt8 :=
  e.ops.flatMap (WriteOp.bytes sizes)

theorem event_exception (requestId : UInt32) (thread : UInt64) (loc : Location) (tag : UInt8)
    (thrown : UInt64) (catchLocation : Location) :
    (exception requestId thread loc tag thrown catchLocation).event =
      .exception requestId thread loc thrown
        (if catchLocation.classId != 0 then some catchLocation else none) := by
  unfold event
  simp

theorem reads_event {sizes : IdSizes} (hsizes : sizes.valid = true) {e : WireEvent}
    (h : e.Encodable sizes) (hsignature : e.SignatureFits) :
    Reads (Reader.event sizes) (e.bytes sizes) e.event := by
  cases e with
  | vmStart requestId thread =>
    have hthread := h (.id .object thread) (by simp [ops])
    apply (reads_u8 _).bind
    apply (reads_u32 _).bind
    exact (reads_idOf hsizes hthread).bind (Reads.of_pure _)
  | singleStep requestId thread loc =>
    have hthread := h (.id .object thread) (by simp [ops])
    have hloc := h (.location loc) (by simp [ops])
    apply (reads_u8 _).bind
    apply (reads_u32 _).bind
    apply (reads_idOf hsizes hthread).bind
    exact (reads_locationOf hsizes hloc).bind (Reads.of_pure _)
  | breakpoint requestId thread loc =>
    have hthread := h (.id .object thread) (by simp [ops])
    have hloc := h (.location loc) (by simp [ops])
    apply (reads_u8 _).bind
    apply (reads_u32 _).bind
    apply (reads_idOf hsizes hthread).bind
    exact (reads_locationOf hsizes hloc).bind (Reads.of_pure _)
  | exception requestId thread loc tag thrown catchLocation =>
    have hthread := h (.id .object thread) (by simp [ops])
    have hloc := h (.location loc) (by simp [ops])
    have hthrown := h (.id .object thrown) (by simp [ops])
    have hcatch := h (.location catchLocation) (by simp [ops])
    rw [event_exception]
    apply (reads_u8 _).bind
    apply (reads_u32 _).bind
    apply (reads_idOf hsizes hthread).bind
    apply (reads_locationOf hsizes hloc).bind
    apply (reads_u8 _).bind
    apply (reads_idOf hsizes hthrown).bind
    exact (reads_locationOf hsizes hcatch).bind (Reads.of_pure _)
  | classPrepare requestId thread typeTag typeId signature status =>
    have hthread := h (.id .object thread) (by simp [ops])
    have htype := h (.id .referenceType typeId) (by simp [ops])
    apply (reads_u8 _).bind
    apply (reads_u32 _).bind
    apply (reads_idOf hsizes hthread).bind
    apply (reads_u8 _).bind
    apply (reads_idOf hsizes htype).bind
    apply (reads_string hsignature).bind
    exact (reads_u32 _).bind (Reads.of_pure _)
  | vmDeath requestId =>
    apply (reads_u8 _).bind
    exact (reads_u32 _).bind (Reads.of_pure _)

/-!
# Signatures over the limit
-/

end WireEvent

/-- Wherever the bytes stand in a buffer, reading from their start fails. -/
def Rejects {β : Type} (d : Decoder β) (bytes : List UInt8) (message : String) : Prop :=
  forall before after : List UInt8,
    (d { buf := before ++ (bytes ++ after), pos := before.length }).1 = .err message

namespace Rejects

variable {β γ : Type} {d : Decoder β} {next : β -> Decoder γ} {bytes : List UInt8}
  {message : String}

theorem bind (h : Rejects d bytes message) (more : List UInt8) :
    Rejects (d >>= next) (bytes ++ more) message := by
  intro before after
  have hfirst := h before (more ++ after)
  show (Decoder.bind d next _).1 = _
  unfold Decoder.bind
  rw [List.append_assoc]
  cases hstep : d { buf := before ++ (bytes ++ (more ++ after)), pos := before.length } with
  | mk outcome r =>
    rw [hstep] at hfirst
    simp only at hfirst
    rw [hfirst]

theorem map (h : Rejects d bytes message) (f : β -> γ) :
    Rejects (d >>= fun value => pure (f value)) bytes message := by
  have hmore : Rejects (d >>= fun value => pure (f value)) (bytes ++ []) message := h.bind []
  rw [List.append_nil] at hmore
  exact hmore

theorem behind {first : List UInt8} {value : β} (hd : Reads d first value)
    (h : Rejects (next value) bytes message) : Rejects (d >>= next) (first ++ bytes) message := by
  intro before after
  have hfirst := hd before (bytes ++ after)
  have hsecond := h (before ++ first) after
  show (Decoder.bind d next _).1 = _
  unfold Decoder.bind
  rw [List.append_assoc, hfirst]
  simp only [List.append_assoc, List.length_append] at hsecond ⊢
  rw [hsecond]

end Rejects

theorem rejects_string {s : Text} (hlong : maxStringLen < s.byteLen)
    (h : s.byteLen < 4294967296) :
    Rejects Reader.string
      (Endian.beBytes 4 (UInt32.ofNat s.byteLen).toNat ++ Utf8.encode s)
      s!"structural string too long: {s.byteLen}" := by
  apply Rejects.behind (reads_u32 (UInt32.ofNat s.byteLen))
  intro before after
  simp only [toNat_ofNat_byteLen h]
  rw [if_pos hlong]
  rfl

theorem WireEvent.rejects_event {sizes : IdSizes} (hsizes : sizes.valid = true) {e : WireEvent}
    (h : e.Encodable sizes) (hlong : ¬ e.SignatureFits) :
    exists message, Rejects (Reader.event sizes) (e.bytes sizes) message := by
  cases e with
  | classPrepare requestId thread typeTag typeId signature status =>
    have hthread := h (.id .object thread) (by simp [ops])
    have htype := h (.id .referenceType typeId) (by simp [ops])
    have hwidth := h (.string signature) (by simp [ops])
    exists s!"structural string too long: {signature.byteLen}"
    apply Rejects.behind (reads_u8 _)
    apply Rejects.behind (reads_u32 _)
    apply Rejects.behind (reads_idOf hsizes hthread)
    apply Rejects.behind (reads_u8 _)
    apply Rejects.behind (reads_idOf hsizes htype)
    exact (rejects_string (Nat.lt_of_not_le hlong) hwidth).bind _
  | _ => exact absurd trivial hlong

/-!
# Sequences of events
-/

def eventBytes (sizes : IdSizes) (events : List WireEvent) : List UInt8 :=
  events.flatMap (WireEvent.bytes sizes)

section Sequences

variable {sizes : IdSizes} {events : List WireEvent}

theorem reads_events (hsizes : sizes.valid = true)
    (h : forall e, e ∈ events -> e.Encodable sizes)
    (hfits : forall e, e ∈ events -> e.SignatureFits) :
    Reads (Reader.events sizes events.length) (eventBytes sizes events)
      (events.map WireEvent.event) := by
  induction events with
  | nil => exact Reads.of_pure []
  | cons e rest ih =>
    have hfirst := WireEvent.reads_event hsizes (h e List.mem_cons_self)
      (hfits e List.mem_cons_self)
    have hrest := ih (fun other hother => h other (List.mem_cons_of_mem e hother))
      (fun other hother => hfits other (List.mem_cons_of_mem e hother))
    exact hfirst.bind (hrest.bind_pure (fun found => e.event :: found))

theorem rejects_events (hsizes : sizes.valid = true)
    (h : forall e, e ∈ events -> e.Encodable sizes)
    (hlong : exists e, e ∈ events ∧ ¬ e.SignatureFits) :
    exists message,
      Rejects (Reader.events sizes events.length) (eventBytes sizes events) message := by
  induction events with
  | nil =>
    rcases hlong with ⟨e, he, _⟩
    cases he
  | cons e rest ih =>
    have hfirst := h e List.mem_cons_self
    by_cases hfits : e.SignatureFits
    · have hlater : exists e, e ∈ rest ∧ ¬ e.SignatureFits := by
        rcases hlong with ⟨long, hlong, hover⟩
        rcases List.mem_cons.mp hlong with rfl | hrest
        · exact absurd hfits hover
        · exact ⟨long, hrest, hover⟩
      rcases ih (fun other hother => h other (List.mem_cons_of_mem e hother)) hlater with
        ⟨message, hrest⟩
      exists message
      apply Rejects.behind (WireEvent.reads_event hsizes hfirst hfits)
      exact hrest.map _
    · rcases WireEvent.rejects_event hsizes hfirst hfits with ⟨message, hreject⟩
      exact ⟨message, hreject.bind _⟩

theorem composite_eq (hsizes : sizes.valid = true) (suspendPolicy : UInt8) :
    composite sizes suspendPolicy events =
      [suspendPolicy] ++
        (Endian.beBytes 4 (UInt32.ofNat events.length).toNat ++ eventBytes sizes events) := by
  unfold composite eventBytes
  rw [writeAll_eq hsizes, List.flatMap_cons, List.flatMap_cons, List.flatMap_assoc]
  rfl

theorem count_of_le (hcount : events.length ≤ 1024) :
    (UInt32.ofNat events.length).toNat = events.length ∧
      ¬ UInt32.ofNat events.length > maxEventsPerComposite := by
  have hnat : (UInt32.ofNat events.length).toNat = events.length := by
    rw [UInt32.toNat_ofNat']
    omega
  constructor
  · exact hnat
  · intro hover
    have hover : maxEventsPerComposite.toNat < (UInt32.ofNat events.length).toNat := hover
    rw [hnat] at hover
    have hmax : maxEventsPerComposite.toNat = 1024 := rfl
    omega

theorem parseComposite_of_reads {payload : List UInt8} {found : EventSet}
    (h : Reads (Reader.composite sizes) payload found) :
    parseComposite payload sizes = .ok found := by
  have hrun := h [] []
  rw [List.append_nil, List.nil_append] at hrun
  exact congrArg Prod.fst hrun

theorem parseComposite_of_rejects {payload : List UInt8} {message : String}
    (h : Rejects (Reader.composite sizes) payload message) :
    parseComposite payload sizes = .err message := by
  have hrun := h [] []
  rw [List.append_nil, List.nil_append] at hrun
  exact hrun

theorem parseComposite_composite (hsizes : sizes.valid = true) (suspendPolicy : UInt8)
    (hcount : events.length ≤ 1024) (h : forall e, e ∈ events -> e.Encodable sizes)
    (hfits : forall e, e ∈ events -> e.SignatureFits) :
    parseComposite (composite sizes suspendPolicy events) sizes =
      .ok { suspendPolicy := suspendPolicy, events := events.map WireEvent.event } := by
  rcases count_of_le hcount with ⟨hnat, hmax⟩
  apply parseComposite_of_reads
  rw [composite_eq hsizes]
  apply (reads_u8 suspendPolicy).bind
  apply (reads_u32 _).bind
  simp only [if_neg hmax, hnat]
  exact (reads_events hsizes h hfits).bind_pure (EventSet.mk suspendPolicy)

theorem parseComposite_rejects (hsizes : sizes.valid = true) (suspendPolicy : UInt8)
    (hcount : events.length ≤ 1024) (h : forall e, e ∈ events -> e.Encodable sizes)
    (hlong : exists e, e ∈ events ∧ ¬ e.SignatureFits) :
    exists message,
      parseComposite (composite sizes suspendPolicy events) sizes = .err message := by
  rcases count_of_le hcount with ⟨hnat, hmax⟩
  rcases rejects_events hsizes h hlong with ⟨message, hreject⟩
  exists message
  apply parseComposite_of_rejects
  rw [composite_eq hsizes]
  apply Rejects.behind (reads_u8 suspendPolicy)
  apply Rejects.behind (reads_u32 _)
  simp only [if_neg hmax, hnat]
  exact hreject.map _

end Sequences

/-!
# Any bytes
-/

theorem safe_event (sizes : IdSizes) : Safe (Reader.event sizes) (fun _ => True) := by
  apply safe_u8.bind
  intro kind _
  apply safe_u32.bind
  intro requestId _
  have hthread := safe_id sizes.object
  have hloc := safe_location sizes
  unfold Reader.eventBody
  split
  · exact hthread.bind (fun _ _ => .of_pure trivial)
  · split
    · exact hthread.bind (fun _ _ => hloc.bind (fun _ _ => .of_pure trivial))
    · split
      · exact hthread.bind (fun _ _ => hloc.bind (fun _ _ => .of_pure trivial))
      · split
        · apply hthread.bind
          intro _ _
          apply hloc.bind
          intro _ _
          apply safe_u8.bind
          intro _ _
          apply hthread.bind
          intro _ _
          exact hloc.bind (fun _ _ => .of_pure trivial)
        · split
          · apply hthread.bind
            intro _ _
            apply safe_u8.bind
            intro _ _
            apply (safe_id sizes.referenceType).bind
            intro _ _
            apply safe_string.bind
            intro _ _
            exact safe_u32.bind (fun _ _ => .of_pure trivial)
          · split
            · exact .of_pure trivial
            · exact .of_fail _

theorem safe_events (sizes : IdSizes) (n : Nat) :
    Safe (Reader.events sizes n) (fun found => found.length = n) := by
  induction n with
  | zero => exact .of_pure rfl
  | succ n ih =>
    apply (safe_event sizes).bind
    intro first _
    apply ih.bind
    intro rest hrest
    apply Safe.of_pure
    rw [List.length_cons, hrest]

theorem safe_composite (sizes : IdSizes) : Safe (Reader.composite sizes) (fun _ => True) := by
  apply safe_u8.bind
  intro suspendPolicy _
  apply safe_u32.bind
  intro count _
  by_cases hover : count > maxEventsPerComposite
  · simp only [if_pos hover]
    exact .of_fail _
  · simp only [if_neg hover]
    exact (safe_events sizes _).bind (fun _ _ => .of_pure trivial)

theorem bind_eq_ok {β γ : Type} {d : Decoder β} {next : β -> Decoder γ} {r last : Reader} {v : γ}
    (h : (d >>= next) r = (.ok v, last)) :
    exists value r', d r = (.ok value, r') ∧ next value r' = (.ok v, last) := by
  have hrun : Decoder.bind d next r = (.ok v, last) := h
  unfold Decoder.bind at hrun
  cases hstep : d r with
  | mk outcome r' =>
    rw [hstep] at hrun
    cases outcome with
    | ok value => exact ⟨value, r', rfl, hrun⟩
    | err message => cases hrun
    | panic => cases hrun

theorem take_eq_ok {r last : Reader} (hr : Inside r) {n : Nat} {b : List UInt8}
    (h : Reader.take n r = (.ok b, last)) :
    b = (r.buf.drop r.pos).take n ∧ b.length = n ∧ last = { r with pos := r.pos + n } := by
  rw [take_eq hr] at h
  split at h
  · cases h
  · cases h
    constructor
    · rfl
    · constructor
      · rw [List.length_take, List.length_drop]
        omega
      · rfl

theorem u8_eq_ok {r last : Reader} (hr : Inside r) {v : UInt8}
    (h : Reader.u8 r = (.ok v, last)) : last = { r with pos := r.pos + 1 } := by
  rcases bind_eq_ok h with ⟨b, r', htake, hrest⟩
  rcases take_eq_ok hr htake with ⟨_, hlength, hlast⟩
  rcases List.length_eq_one_iff.mp hlength with ⟨b0, rfl⟩
  cases hrest
  exact hlast

theorem u32_eq_ok {r last : Reader} (hr : Inside r) {v : UInt32}
    (h : Reader.u32 r = (.ok v, last)) :
    v.toNat = Endian.beNat ((r.buf.drop r.pos).take 4) ∧ Inside last := by
  constructor
  · rcases bind_eq_ok h with ⟨b, r', htake, hrest⟩
    rcases take_eq_ok hr htake with ⟨hb, hlength, _⟩
    rw [← hb]
    rcases List.length_eq_four.mp hlength with ⟨b0, b1, b2, b3, rfl⟩
    have hbound := Endian.beNat_lt [b0, b1, b2, b3]
    rw [hlength] at hbound
    cases hrest
    rw [UInt32.toNat_ofNat']
    exact Nat.mod_eq_of_lt (Nat.lt_of_lt_of_le hbound (by decide))
  · have hinside := safe_u32.inside r hr
    rw [h] at hinside
    exact hinside

/-- The number of events that a composite declares. -/
def declaredCount (payload : List UInt8) : Nat :=
  Endian.beNat ((payload.drop 1).take 4)

theorem length_events_of_parse {payload : List UInt8} {sizes : IdSizes} {found : EventSet}
    (h : parseComposite payload sizes = .ok found) :
    found.events.length = declaredCount payload := by
  have hrun : Reader.composite sizes (Reader.new payload) =
      (.ok found, (Reader.composite sizes (Reader.new payload)).2) := by
    rw [← h]
    rfl
  have hstart : Inside (Reader.new payload) := Nat.zero_le payload.length
  rcases bind_eq_ok hrun with ⟨suspendPolicy, r, hpolicy, hrest⟩
  rcases bind_eq_ok hrest with ⟨count, r', hcount, hrest⟩
  have hread := u8_eq_ok hstart hpolicy
  have hinside : Inside r := by
    have hafter := safe_u8.inside _ hstart
    rw [hpolicy] at hafter
    exact hafter
  rcases u32_eq_ok hinside hcount with ⟨hvalue, hinside'⟩
  rw [hread] at hvalue
  by_cases hover : count > maxEventsPerComposite
  · simp only [if_pos hover] at hrest
    cases hrest
  · simp only [if_neg hover] at hrest
    rcases bind_eq_ok hrest with ⟨events, last, hevents, hfound⟩
    have hlength := (safe_events sizes count.toNat).post r' events hinside'
      (congrArg Prod.fst hevents)
    cases hfound
    rw [hlength, hvalue]
    rfl

/--
A composite of at most 1024 events is read back event by event, unless it announces a
class under a signature over the limit on strings: then it is rejected.  Over any bytes
the decoder answers, and a composite it accepts has the number of events it declares.
-/
theorem composite_read_back_and_counted :
    (forall (sizes : IdSizes) (suspendPolicy : UInt8) (events : List WireEvent),
      sizes.valid = true -> events.length ≤ 1024 ->
      (forall e, e ∈ events -> e.Encodable sizes) ->
        ((forall e, e ∈ events -> e.SignatureFits) ->
          parseComposite (composite sizes suspendPolicy events) sizes =
            .ok { suspendPolicy := suspendPolicy, events := events.map WireEvent.event }) ∧
        ((exists e, e ∈ events ∧ ¬ e.SignatureFits) ->
          exists message,
            parseComposite (composite sizes suspendPolicy events) sizes = .err message)) ∧
    (forall (payload : List UInt8) (sizes : IdSizes),
      parseComposite payload sizes ≠ .panic ∧
        forall found, parseComposite payload sizes = .ok found ->
          found.events.length = declaredCount payload) := by
  constructor
  · intro sizes suspendPolicy events hsizes hcount h
    constructor
    · exact parseComposite_composite hsizes suspendPolicy hcount h
    · exact parseComposite_rejects hsizes suspendPolicy hcount h
  · intro payload sizes
    constructor
    · exact (safe_composite sizes).no_panic _ (Nat.zero_le payload.length)
    · intro found h
      exact length_events_of_parse h

/-- The sizes that a JVM of 64 bits answers. -/
def wideSizes : IdSizes where
  field := 8
  method := 8
  object := 8
  referenceType := 8
  frame := 8

namespace UncaughtException

def thrownAt : Location where
  typeTag := 1
  classId := 3
  methodId := 4
  index := 12

def nowhere : Location where
  typeTag := 0
  classId := 0
  methodId := 0
  index := 0

/-- An exception that nothing catches, and a class that is prepared. -/
def announced : List WireEvent :=
  [.exception 7 2 thrownAt 76 5 nowhere, .classPrepare 1 2 1 3 "LMain;".toList 7]

theorem read_back :
    wideSizes.valid = true ∧
      parseComposite (composite wideSizes 2 announced) wideSizes =
        .ok
          { suspendPolicy := 2
            events := [.exception 7 2 thrownAt 5 none, .classPrepare 1 2 1 3 "LMain;".toList 7] } :=
  by
  have hencodable : forall e, e ∈ announced -> e.Encodable wideSizes := by
    unfold WireEvent.Encodable
    decide +kernel
  have hfits : forall e, e ∈ announced -> e.SignatureFits := by
    intro e he
    simp only [announced, List.mem_cons, List.not_mem_nil, or_false] at he
    rcases he with rfl | rfl
    · trivial
    · show Text.byteLen "LMain;".toList ≤ maxStringLen
      decide
  exact ⟨by decide, (composite_read_back_and_counted.1 wideSizes 2 announced (by decide)
    (by decide) hencodable).1 hfits⟩

end UncaughtException

namespace LongSignature

def sizes : IdSizes := wideSizes

def announced : WireEvent :=
  .classPrepare 1 2 1 3 (List.replicate 65537 'a') 7

theorem byteLen_replicate (n : Nat) : Text.byteLen (List.replicate n 'a') = n := by
  induction n with
  | zero => rfl
  | succ n ih =>
    rw [List.replicate_succ, Text.byteLen_cons, ih, Nat.add_comm]
    rfl

theorem encodable : announced.Encodable sizes := by
  have hstring : (WriteOp.string (List.replicate 65537 'a')).Encodable sizes := by
    show Text.byteLen (List.replicate 65537 'a') < 4294967296
    rw [byteLen_replicate]
    decide
  intro op hop
  simp only [announced, WireEvent.ops, List.mem_cons, List.not_mem_nil, or_false] at hop
  rcases hop with rfl | rfl | rfl | rfl | rfl | rfl | rfl
  · trivial
  · trivial
  · show (2 : UInt64).toNat < 256 ^ 8
    decide
  · trivial
  · show (3 : UInt64).toNat < 256 ^ 8
    decide
  · exact hstring
  · trivial

/-- One event with a signature of 65537 bytes is laid out, and it is not read back. -/
theorem long_signature_rejected :
    (sizes.valid = true ∧ announced.Encodable sizes) ∧
      parseComposite (composite sizes 2 [announced]) sizes ≠
        .ok { suspendPolicy := 2, events := [announced.event] } := by
  have hlong : ¬ announced.SignatureFits := by
    show ¬ Text.byteLen (List.replicate 65537 'a') ≤ maxStringLen
    rw [byteLen_replicate]
    decide
  have hall : forall e, e ∈ [announced] -> e.Encodable sizes := by
    intro e he
    rw [List.mem_singleton.mp he]
    exact encodable
  have hvalid : sizes.valid = true := by decide
  constructor
  · exact ⟨hvalid, encodable⟩
  · rcases parseComposite_rejects hvalid 2 (by decide) hall
      ⟨announced, List.mem_cons_self, hlong⟩ with ⟨message, hreject⟩
    rw [hreject]
    exact nofun

end LongSignature

end Codec
end Debug
end JavaVsixLite
