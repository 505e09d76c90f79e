import Mathlib.Data.List.AList
import JavaVsixLite.Debug.Debuggee
import JavaVsixLite.Foundation.Runs

/-!
# Matching JDWP replies to commands

Every command takes an identifier, registers a one-shot sender under it, writes
its packet and awaits the receiver.  One reader task takes the senders out of the
pending map as replies arrive; when the connection ends it takes the map away and
closes what was left in it.  The callers and the reader interleave at every point
where they touch the map or a one-shot channel.
-/

namespace JavaVsixLite
namespace Debug

open Foundation

abbrev CallId := Nat

abbrev CommandResult := Except JdwpError (List UInt8)

structure Packet where
  length : Nat
  id : UInt32
  flags : UInt8
  high : UInt8
  low : UInt8
  payload : List UInt8

namespace Packet

def headerLen : Nat := 11
def maxPacketLen : Nat := 16777216

def inBounds (p : Packet) : Bool :=
  decide (headerLen ≤ p.length ∧ p.length ≤ maxPacketLen)

def isReply (p : Packet) : Bool :=
  p.flags &&& 0x80 != 0

def errorCode (p : Packet) : Nat :=
  p.high.toNat * 256 + p.low.toNat

def isComposite (p : Packet) : Bool :=
  p.high == 64 && p.low == 100

def result (p : Packet) : CommandResult :=
  if p.errorCode = 0 then .ok p.payload else .error (.code p.errorCode)

end Packet

/-- Where a caller of `command` is. -/
inductive Phase where
  | idle
  | numbered (id : UInt32)
  | writing (id : UInt32)
  | waiting (id : UInt32)
  | done (id : UInt32) (result : CommandResult)
deriving DecidableEq

/-- The one-shot channel of a caller. -/
inductive Slot where
  | empty
  | sent (result : CommandResult)
  | dropped

/-- `closing` has left the read loop; `draining` has taken the map away. -/
inductive ReaderState where
  | reading
  | delivering (call : CallId) (result : CommandResult)
  | closing
  | draining (calls : List CallId)

structure Connection where
  nextId : UInt32
  pending : Option (AList (fun _ : UInt32 => CallId))
  reader : ReaderState
  phase : CallId -> Phase
  slot : CallId -> Slot

namespace Connection

def initial : Connection where
  nextId := 1
  pending := some ∅
  reader := .reading
  phase := fun _ => .idle
  slot := fun _ => .empty

inductive Action where
  | takeId (call : CallId)
  | register (call : CallId)
  | writeOk (call : CallId)
  | writeFail (call : CallId) (message : String)
  | receive (call : CallId)
  | packet (p : Packet) (sessionAlive : Bool)
  | deliver
  | lost
  | teardown
  | drain (call : CallId)

def setPhase (c : Connection) (call : CallId) (phase : Phase) : Connection :=
  { c with phase := Function.update c.phase call phase }

def setSlot (c : Connection) (call : CallId) (slot : Slot) : Connection :=
  { c with slot := Function.update c.slot call slot }

def sender (c : Connection) (id : UInt32) : Option CallId :=
  c.pending.bind (AList.lookup id)

def dropSender (c : Connection) (id : UInt32) : Connection :=
  match c.sender id with
  | some call => c.setSlot call .dropped
  | none => c

def onPacket (c : Connection) (p : Packet) (sessionAlive : Bool) : Connection :=
  if !p.inBounds then { c with reader := .closing }
  else if p.isReply then
    match c.sender p.id with
    | some call =>
      { c with
        pending := c.pending.map (AList.erase p.id)
        reader := .delivering call p.result }
    | none => c
  else if p.isComposite && !sessionAlive then { c with reader := .closing }
  else c

def perform (c : Connection) : Action -> Option Connection
  | .takeId call =>
    match c.phase call with
    | .idle => some { c.setPhase call (.numbered c.nextId) with nextId := c.nextId + 1 }
    | _ => none
  | .register call =>
    match c.phase call with
    | .numbered id =>
      match c.pending with
      | some map =>
        some { (c.dropSender id).setPhase call (.writing id) with
          pending := some (map.insert id call) }
      | none => some (c.setPhase call (.done id (.error .closed)))
    | _ => none
  | .writeOk call =>
    match c.phase call with
    | .writing id => some (c.setPhase call (.waiting id))
    | _ => none
  | .writeFail call message =>
    match c.phase call with
    | .writing id =>
      some { (c.dropSender id).setPhase call (.done id (.error (.io message))) with
        pending := c.pending.map (AList.erase id) }
    | _ => none
  | .receive call =>
    match c.phase call with
    | .waiting id =>
      match c.slot call with
      | .empty => none
      | .sent result => some (c.setPhase call (.done id result))
      | .dropped => some (c.setPhase call (.done id (.error .closed)))
    | _ => none
  | .packet p sessionAlive =>
    match c.reader with
    | .reading => some (c.onPacket p sessionAlive)
    | _ => none
  | .deliver =>
    match c.reader with
    | .delivering call result => some { c.setSlot call (.sent result) with reader := .reading }
    | _ => none
  | .lost =>
    match c.reader with
    | .reading => some { c with reader := .closing }
    | _ => none
  | .teardown =>
    match c.reader with
    | .closing =>
      some { c with
        pending := none
        reader := .draining (c.pending.elim [] (fun map => map.entries.map Sigma.snd)) }
    | _ => none
  | .drain call =>
    match c.reader with
    | .draining calls =>
      if call ∈ calls then
        some { c.setSlot call (.sent (.error .closed)) with
          reader := .draining (calls.erase call) }
      else none
    | _ => none

variable {c : Connection} {map : AList (fun _ : UInt32 => CallId)} {k : CallId} {id : UInt32}

theorem perform_cases {d : Connection} {a : Action} (h : c.perform a = some d) :
    (exists k, a = .takeId k ∧ c.phase k = .idle ∧
      d = { c.setPhase k (.numbered c.nextId) with nextId := c.nextId + 1 }) ∨
    (exists k id map, a = .register k ∧ c.phase k = .numbered id ∧ c.pending = some map ∧
      d = { (c.dropSender id).setPhase k (.writing id) with
        pending := some (map.insert id k) }) ∨
    (exists k id, a = .register k ∧ c.phase k = .numbered id ∧ c.pending = none ∧
      d = c.setPhase k (.done id (.error .closed))) ∨
    (exists k id, a = .writeOk k ∧ c.phase k = .writing id ∧
      d = c.setPhase k (.waiting id)) ∨
    (exists k id message, a = .writeFail k message ∧ c.phase k = .writing id ∧
      d = { (c.dropSender id).setPhase k (.done id (.error (.io message))) with
        pending := c.pending.map (AList.erase id) }) ∨
    (exists k id result, a = .receive k ∧ c.phase k = .waiting id ∧
      (c.slot k = .sent result ∨ (c.slot k = .dropped ∧ result = .error .closed)) ∧
      d = c.setPhase k (.done id result)) ∨
    (exists p alive k, a = .packet p alive ∧ c.reader = .reading ∧ p.isReply = true ∧
      c.sender p.id = some k ∧
      d = { c with
        pending := c.pending.map (AList.erase p.id)
        reader := .delivering k p.result }) ∨
    (exists p alive, a = .packet p alive ∧ c.reader = .reading ∧
      (d = c ∨ d = { c with reader := .closing })) ∨
    (exists k result, a = .deliver ∧ c.reader = .delivering k result ∧
      d = { c.setSlot k (.sent result) with reader := .reading }) ∨
    (a = .lost ∧ c.reader = .reading ∧ d = { c with reader := .closing }) ∨
    (a = .teardown ∧ c.reader = .closing ∧
      d = { c with
        pending := none
        reader := .draining (c.pending.elim [] (fun map => map.entries.map Sigma.snd)) }) ∨
    (exists k calls, a = .drain k ∧ c.reader = .draining calls ∧ k ∈ calls ∧
      d = { c.setSlot k (.sent (.error .closed)) with
        reader := .draining (calls.erase k) }) := by
  cases a with
  | takeId k =>
    cases hphase : c.phase k <;> simp [perform, hphase] at h
    subst h
    simp [hphase]
  | register k =>
    cases hphase : c.phase k <;> simp [perform, hphase] at h
    cases hpending : c.pending <;> simp [hpending] at h
    · subst h
      simp [hphase]
    · subst h
      simp [hphase]
  | writeOk k =>
    cases hphase : c.phase k <;> simp [perform, hphase] at h
    subst h
    simp [hphase]
  | writeFail k message =>
    cases hphase : c.phase k <;> simp [perform, hphase] at h
    subst h
    simp [hphase]
  | receive k =>
    cases hphase : c.phase k <;> simp [perform, hphase] at h
    cases hslot : c.slot k <;> simp [hslot] at h
    · subst h
      simp [hphase, hslot]
    · subst h
      simp [hphase, hslot]
  | packet p alive =>
    cases hreader : c.reader <;> simp [perform, hreader] at h
    subst h
    unfold onPacket
    cases hbounds : p.inBounds with
    | false => simp
    | true =>
      cases hreply : p.isReply with
      | false =>
        by_cases hgone : (p.isComposite && !alive) = true
        · simp [hgone]
        · simp [hgone]
      | true =>
        cases hsender : c.sender p.id with
        | none => simp [hreply, hsender]
        | some k => simp [hreply, hsender]
  | deliver =>
    cases hreader : c.reader <;> simp [perform, hreader] at h
    subst h
    simp
  | lost =>
    cases hreader : c.reader <;> simp [perform, hreader] at h
    subst h
    simp
  | teardown =>
    cases hreader : c.reader <;> simp [perform, hreader] at h
    subst h
    simp
  | drain k =>
    cases hreader : c.reader <;> simp [perform, hreader] at h
    rcases h with ⟨hmem, rfl⟩
    simp [hmem]

/-!
# The pending map and the channels
-/

@[simp] theorem setPhase_phase (c : Connection) (k : CallId) (phase : Phase) (j : CallId) :
    (c.setPhase k phase).phase j = if j = k then phase else c.phase j := by
  simp [setPhase, Function.update_apply]

@[simp] theorem setSlot_slot (c : Connection) (k : CallId) (slot : Slot) (j : CallId) :
    (c.setSlot k slot).slot j = if j = k then slot else c.slot j := by
  simp [setSlot, Function.update_apply]

theorem dropSender_eq (c : Connection) (id : UInt32) :
    (c.dropSender id).pending = c.pending ∧ (c.dropSender id).reader = c.reader ∧
      (c.dropSender id).phase = c.phase ∧
      forall j, (c.dropSender id).slot j =
        if c.sender id = some j then .dropped else c.slot j := by
  unfold dropSender
  cases hsender : c.sender id with
  | none => simp
  | some call =>
    refine ⟨rfl, rfl, rfl, ?_⟩
    intro j
    by_cases hj : j = call
    · simp [hj]
    · simp [hj, Ne.symm hj]

theorem sender_insert (hpending : c.pending = some map) (id : UInt32) (k : CallId) (j : UInt32) :
    ((some (map.insert id k)).bind (AList.lookup j) : Option CallId) =
      if j = id then some k else c.sender j := by
  by_cases hj : j = id
  · subst hj
    simp
  · simp [hj, sender, hpending, AList.lookup_insert_ne hj]

theorem sender_erase (c : Connection) (id j : UInt32) :
    ((c.pending.map (AList.erase id)).bind (AList.lookup j) : Option CallId) =
      if j = id then none else c.sender j := by
  unfold sender
  cases c.pending with
  | none => simp
  | some map =>
    by_cases hj : j = id
    · subst hj
      simp
    · simp [hj, AList.lookup_erase_ne hj]

/-- The caller awaits its channel, or will once its packet is written. -/
def Holds (c : Connection) (k : CallId) (id : UInt32) : Prop :=
  c.phase k = .writing id ∨ c.phase k = .waiting id

def Phase.id? : Phase -> Option UInt32
  | .idle => none
  | .numbered _ => none
  | .writing id => some id
  | .waiting id => some id
  | .done id _ => some id

theorem Holds.id? (h : c.Holds k id) : Phase.id? (c.phase k) = some id := by
  rcases h with h | h <;> rw [h] <;> rfl

/-- The pending map holds the callers whose channel is still open, and nobody else. -/
structure Table (c : Connection) : Prop where
  drained : c.pending = none <-> exists calls, c.reader = .draining calls
  entry : forall id k, c.sender id = some k -> c.Holds k id ∧ c.slot k = .empty
  fresh : forall k, Phase.id? (c.phase k) = none -> c.slot k = .empty
  delivering : forall k r, c.reader = .delivering k r ->
    (Phase.id? (c.phase k)).isSome ∧ forall id, c.sender id ≠ some k
  draining : forall calls, c.reader = .draining calls -> forall k, k ∈ calls ->
    (Phase.id? (c.phase k)).isSome
  covered : forall k id, c.Holds k id -> c.slot k = .empty ->
    c.sender id = some k ∨ (exists r, c.reader = .delivering k r) ∨
      exists calls, c.reader = .draining calls ∧ k ∈ calls

theorem Table.pending_present (h : Table c) (hreader : forall calls, c.reader ≠ .draining calls) :
    c.pending ≠ none := by
  intro hnone
  rcases h.drained.mp hnone with ⟨calls, hcalls⟩
  exact hreader calls hcalls

theorem table_initial : Table initial := by
  refine ⟨?_, ?_, ?_, ?_, ?_, ?_⟩
  · simp [initial]
  · intro id k h
    simp [initial, sender] at h
  · intro k _
    rfl
  · intro k r h
    cases h
  · intro calls h
    cases h
  · intro k id h
    rcases h with h | h <;> cases h

theorem table_setPhase (h : Table c) {phase : Phase}
    (hid : Phase.id? phase = none -> Phase.id? (c.phase k) = none)
    (hsome : (Phase.id? (c.phase k)).isSome -> (Phase.id? phase).isSome)
    (hentry : forall id, c.sender id = some k -> (c.setPhase k phase).Holds k id)
    (hcovered : forall id, (c.setPhase k phase).Holds k id -> c.slot k = .empty -> c.Holds k id) :
    Table (c.setPhase k phase) := by
  have hother : forall {j : CallId} {id : UInt32}, j ≠ k ->
      ((c.setPhase k phase).Holds j id <-> c.Holds j id) := by
    intro j id hj
    simp [Holds, hj]
  refine ⟨h.drained, ?_, ?_, ?_, ?_, ?_⟩
  · intro id j hj
    rcases h.entry id j hj with ⟨hholds, hslot⟩
    by_cases hjk : j = k
    · subst hjk
      exact ⟨hentry id hj, hslot⟩
    · exact ⟨(hother hjk).mpr hholds, hslot⟩
  · intro j hj
    by_cases hjk : j = k
    · subst hjk
      refine h.fresh j (hid ?_)
      simpa using hj
    · refine h.fresh j ?_
      simpa [hjk] using hj
  · intro j r hj
    rcases h.delivering j r hj with ⟨hphase, hsender⟩
    refine ⟨?_, hsender⟩
    by_cases hjk : j = k
    · subst hjk
      simpa using hsome hphase
    · simpa [hjk] using hphase
  · intro calls hcalls j hj
    have hphase := h.draining calls hcalls j hj
    by_cases hjk : j = k
    · subst hjk
      simpa using hsome hphase
    · simpa [hjk] using hphase
  · intro j id hj hslot
    by_cases hjk : j = k
    · subst hjk
      exact h.covered j id (hcovered id hj hslot) hslot
    · exact h.covered j id ((hother hjk).mp hj) hslot

theorem Table.sender_ne (h : Table c) (hother : Phase.id? (c.phase k) ≠ some id) :
    c.sender id ≠ some k := by
  intro hsender
  exact hother (h.entry id k hsender).1.id?

theorem table_dropSender (h : Table c) (id : UInt32) :
    Table { c.dropSender id with pending := c.pending.map (AList.erase id) } := by
  rcases dropSender_eq c id with ⟨_, hreader, hphases, hslots⟩
  have hkeep : forall {k : CallId}, c.sender id ≠ some k ->
      (c.dropSender id).slot k = c.slot k := by
    intro k hk
    rw [hslots, if_neg hk]
  refine ⟨?_, ?_, ?_, ?_, ?_, ?_⟩
  · show c.pending.map (AList.erase id) = none <->
      exists calls, (c.dropSender id).reader = .draining calls
    rw [hreader, ← h.drained]
    cases c.pending <;> simp
  · intro i k hsender
    have hsender' := (sender_erase c id i).symm.trans hsender
    split at hsender'
    · cases hsender'
    · rename_i hi
      rcases h.entry i k hsender' with ⟨hholds, hslot⟩
      have hother : c.sender id ≠ some k := by
        apply h.sender_ne
        rw [hholds.id?]
        exact fun hsame => hi (Option.some.inj hsame)
      refine ⟨?_, (hkeep hother).trans hslot⟩
      simpa [Holds, hphases] using hholds
  · intro k hk
    have hk' : Phase.id? (c.phase k) = none := by
      rw [← hphases]
      exact hk
    have hother : c.sender id ≠ some k := by
      apply h.sender_ne
      rw [hk']
      exact fun hsame => nomatch hsame
    exact (hkeep hother).trans (h.fresh k hk')
  · intro k r hk
    rcases h.delivering k r (hreader ▸ hk) with ⟨hsome, hsender⟩
    refine ⟨by simpa [hphases] using hsome, ?_⟩
    intro i hi
    have hi' := (sender_erase c id i).symm.trans hi
    split at hi'
    · cases hi'
    · exact hsender i hi'
  · intro calls hcalls k hk
    simpa [hphases] using h.draining calls (hreader ▸ hcalls) k hk
  · intro k i hk hslot
    have hk' : c.Holds k i := by simpa [Holds, hphases] using hk
    have hslot' : (c.dropSender id).slot k = .empty := hslot
    rw [hslots] at hslot'
    split at hslot'
    · cases hslot'
    · rename_i hother
      rcases h.covered k i hk' hslot' with hsender | ⟨r, hr⟩ | ⟨calls, hcalls, hmem⟩
      · left
        refine (sender_erase c id i).trans ?_
        rw [if_neg (by rintro rfl; exact hother hsender)]
        exact hsender
      · exact Or.inr (Or.inl ⟨r, hreader.trans hr⟩)
      · exact Or.inr (Or.inr ⟨calls, hreader.trans hcalls, hmem⟩)

theorem table_insert (h : Table c) (hphase : c.phase k = .numbered id)
    (hpending : c.pending = some map) (hfree : c.sender id = none) :
    Table { c.setPhase k (.writing id) with pending := some (map.insert id k) } := by
  have hnone : Phase.id? (c.phase k) = none := by rw [hphase]; rfl
  have habsent : forall j, c.sender j ≠ some k := by
    intro j
    apply h.sender_ne
    rw [hnone]
    exact fun hsame => nomatch hsame
  have hopen : forall calls, c.reader ≠ .draining calls := by
    intro calls hcalls
    rw [h.drained.mpr ⟨calls, hcalls⟩] at hpending
    cases hpending
  refine ⟨?_, ?_, ?_, ?_, ?_, ?_⟩
  · constructor
    · intro himpossible
      cases himpossible
    · intro hdraining
      rcases hdraining with ⟨calls, hcalls⟩
      exact absurd hcalls (hopen calls)
  · intro i call hsender
    have hsender' := (sender_insert hpending id k i).symm.trans hsender
    split at hsender'
    · rename_i hi
      cases hsender'
      subst hi
      exact ⟨Or.inl (by simp), h.fresh k hnone⟩
    · rcases h.entry i call hsender' with ⟨hholds, hslot⟩
      have hne : call ≠ k := by
        intro hsame
        rw [hsame] at hsender'
        exact habsent i hsender'
      refine ⟨?_, hslot⟩
      simpa [Holds, hne] using hholds
  · intro j hj
    have hne : j ≠ k := by
      intro hsame
      rw [hsame] at hj
      simp [Phase.id?] at hj
    refine h.fresh j ?_
    simpa [hne] using hj
  · intro j r hj
    rcases h.delivering j r hj with ⟨hsome, hsender⟩
    have hne : j ≠ k := by
      intro hsame
      rw [hsame, hnone] at hsome
      cases hsome
    refine ⟨by simpa [hne] using hsome, ?_⟩
    intro i hi
    have hi' := (sender_insert hpending id k i).symm.trans hi
    split at hi'
    · exact hne (Option.some.inj hi').symm
    · exact hsender i hi'
  · intro calls hcalls
    exact absurd hcalls (hopen calls)
  · intro j i hj hslot
    by_cases hne : j = k
    · subst hne
      have hi : i = id := by
        have hheld := hj.id?
        simpa [Phase.id?] using hheld.symm
      left
      refine (sender_insert hpending id j i).trans ?_
      rw [if_pos hi]
    · have hj' : c.Holds j i := by simpa [Holds, hne] using hj
      rcases h.covered j i hj' hslot with hsender | hdelivering | ⟨calls, hcalls, _⟩
      · left
        refine (sender_insert hpending id k i).trans ?_
        have hi : i ≠ id := by
          intro hsame
          rw [hsame, hfree] at hsender
          cases hsender
        rw [if_neg hi]
        exact hsender
      · exact Or.inr (Or.inl hdelivering)
      · exact absurd hcalls (hopen calls)

theorem insert_erase (map : AList (fun _ : UInt32 => CallId)) (id : UInt32) (k : CallId) :
    (map.erase id).insert id k = map.insert id k := by
  apply AList.ext
  rw [AList.entries_insert, AList.entries_insert]
  exact congrArg _ (List.kerase_of_notMem_keys (List.notMem_keys_kerase id map.nodupKeys))

theorem table_register (h : Table c) (hphase : c.phase k = .numbered id)
    (hpending : c.pending = some map) :
    Table { (c.dropSender id).setPhase k (.writing id) with
      pending := some (map.insert id k) } := by
  have hdropped := table_dropSender h id
  have hphases := (dropSender_eq c id).2.2.1
  have hmap : c.pending.map (AList.erase id) = some (map.erase id) := by
    rw [hpending]
    rfl
  have hinserted := table_insert hdropped ((congrFun hphases k).trans hphase) hmap
    ((sender_erase c id id).trans (if_pos rfl))
  rw [insert_erase] at hinserted
  exact hinserted

theorem table_writeFail (h : Table c) (hphase : c.phase k = .writing id) (message : String) :
    Table { (c.dropSender id).setPhase k (.done id (.error (.io message))) with
      pending := c.pending.map (AList.erase id) } := by
  refine table_setPhase (table_dropSender h id) ?_ ?_ ?_ ?_
  · intro hnone
    cases hnone
  · intro _
    rfl
  · -- the call has lost its sender, and no other identifier leads to it
    intro i hsender
    have hsender' := (sender_erase c id i).symm.trans hsender
    split at hsender'
    · cases hsender'
    · rename_i hi
      have hheld := (h.entry i k hsender').1.id?
      rw [hphase] at hheld
      exact absurd (Option.some.inj hheld).symm hi
  · intro i hholds
    rcases hholds with hholds | hholds <;> simp at hholds

theorem table_reply (h : Table c) (hreader : c.reader = .reading) (hsender : c.sender id = some k)
    (result : CommandResult) :
    Table { c with
      pending := c.pending.map (AList.erase id)
      reader := .delivering k result } := by
  rcases h.entry id k hsender with ⟨hholds, _⟩
  refine ⟨?_, ?_, h.fresh, ?_, ?_, ?_⟩
  · constructor
    · intro hnone
      have hnone' : c.pending = none := by
        cases hp : c.pending with
        | none => rfl
        | some map =>
          simp only [hp] at hnone
          cases hnone
      exact absurd hnone' (h.pending_present (by simp [hreader]))
    · rintro ⟨calls, hcalls⟩
      cases hcalls
  · intro j call hcall
    have hcall' := (sender_erase c id j).symm.trans hcall
    split at hcall'
    · cases hcall'
    · exact h.entry j call hcall'
  · intro j r hj
    cases hj
    refine ⟨by simp [hholds.id?], ?_⟩
    intro i hi
    have hi' := (sender_erase c id i).symm.trans hi
    split at hi'
    · cases hi'
    · rename_i hne
      have heq := (h.entry i k hi').1.id?
      rw [hholds.id?] at heq
      exact hne (Option.some.inj heq).symm
  · intro calls hcalls
    cases hcalls
  · intro j i hj hslot
    rcases h.covered j i hj hslot with hs | ⟨r, hr⟩ | ⟨calls, hcalls, _⟩
    · by_cases hi : i = id
      · subst hi
        rw [hsender] at hs
        cases hs
        exact Or.inr (Or.inl ⟨result, rfl⟩)
      · left
        refine (sender_erase c id i).trans ?_
        rw [if_neg hi]
        exact hs
    · rw [hreader] at hr
      cases hr
    · rw [hreader] at hcalls
      cases hcalls

theorem table_closing (h : Table c) (hreader : c.reader = .reading) :
    Table { c with reader := .closing } := by
  refine ⟨?_, h.entry, h.fresh, (fun _ _ hr => nomatch hr), (fun _ hr => nomatch hr), ?_⟩
  · constructor
    · intro hnone
      exact absurd hnone (h.pending_present (by simp [hreader]))
    · rintro ⟨calls, hcalls⟩
      cases hcalls
  · intro j i hj hslot
    rcases h.covered j i hj hslot with hs | ⟨r, hr⟩ | ⟨calls, hcalls, _⟩
    · exact Or.inl hs
    · rw [hreader] at hr
      cases hr
    · rw [hreader] at hcalls
      cases hcalls

theorem table_deliver (h : Table c) {result : CommandResult}
    (hreader : c.reader = .delivering k result) :
    Table { c.setSlot k (.sent result) with reader := .reading } := by
  rcases h.delivering k result hreader with ⟨hsome, habsent⟩
  refine ⟨?_, ?_, ?_, (fun _ _ hr => nomatch hr), (fun _ hr => nomatch hr), ?_⟩
  · constructor
    · intro hnone
      exact absurd hnone (h.pending_present (by simp [hreader]))
    · rintro ⟨calls, hcalls⟩
      cases hcalls
  · intro j call hcall
    have hne : call ≠ k := by
      rintro rfl
      exact habsent j hcall
    rcases h.entry j call hcall with ⟨hholds, hslot⟩
    exact ⟨hholds, by simpa [hne] using hslot⟩
  · intro j hj
    have hne : j ≠ k := by
      rintro rfl
      have hj' : Phase.id? (c.phase j) = none := hj
      rw [hj'] at hsome
      cases hsome
    simpa [hne] using h.fresh j hj
  · intro j i hj hslot
    have hne : j ≠ k := by
      rintro rfl
      simp at hslot
    rcases h.covered j i hj (by simpa [hne] using hslot) with
      hs | ⟨r, hr⟩ | ⟨calls, hcalls, _⟩
    · exact Or.inl hs
    · rw [hreader] at hr
      cases hr
      exact absurd rfl hne
    · rw [hreader] at hcalls
      cases hcalls

theorem mem_values : k ∈ map.entries.map Sigma.snd <-> exists id, map.lookup id = some k := by
  constructor
  · intro hk
    rcases List.mem_map.mp hk with ⟨⟨id, call⟩, hentry, rfl⟩
    exact ⟨id, AList.mem_lookup_iff.mpr hentry⟩
  · rintro ⟨id, hid⟩
    exact List.mem_map.mpr ⟨⟨id, k⟩, AList.mem_lookup_iff.mp hid, rfl⟩

theorem mem_taken :
    k ∈ c.pending.elim [] (fun map => map.entries.map Sigma.snd) <->
      exists id, c.sender id = some k := by
  unfold sender
  cases c.pending with
  | none => simp
  | some map => exact mem_values

theorem table_teardown (h : Table c) (hreader : c.reader = .closing) :
    Table { c with
      pending := none
      reader := .draining (c.pending.elim [] (fun map => map.entries.map Sigma.snd)) } := by
  refine ⟨?_, (fun _ _ hs => nomatch hs), h.fresh, (fun _ _ hr => nomatch hr), ?_, ?_⟩
  · exact ⟨fun _ => ⟨_, rfl⟩, fun _ => rfl⟩
  · intro calls hcalls k hk
    cases hcalls
    rcases mem_taken.mp hk with ⟨id, hid⟩
    show (Phase.id? (c.phase k)).isSome
    simp [(h.entry id k hid).1.id?]
  · intro j i hj hslot
    rcases h.covered j i hj hslot with hs | ⟨r, hr⟩ | ⟨calls, hcalls, _⟩
    · exact Or.inr (Or.inr ⟨_, rfl, mem_taken.mpr ⟨i, hs⟩⟩)
    · rw [hreader] at hr
      cases hr
    · rw [hreader] at hcalls
      cases hcalls

theorem table_drain (h : Table c) {calls : List CallId} (hreader : c.reader = .draining calls)
    (hk : k ∈ calls) :
    Table { c.setSlot k (.sent (.error .closed)) with
      reader := .draining (calls.erase k) } := by
  have hnone : c.pending = none := h.drained.mpr ⟨calls, hreader⟩
  refine ⟨?_, ?_, ?_, (fun _ _ hr => nomatch hr), ?_, ?_⟩
  · exact ⟨fun _ => ⟨_, rfl⟩, fun _ => hnone⟩
  · intro j call hcall
    have hcall' : c.sender j = some call := hcall
    unfold sender at hcall'
    rw [hnone] at hcall'
    cases hcall'
  · intro j hj
    have hne : j ≠ k := by
      rintro rfl
      have hsome := h.draining calls hreader j hk
      have hj' : Phase.id? (c.phase j) = none := hj
      rw [hj'] at hsome
      cases hsome
    simpa [hne] using h.fresh j hj
  · intro others hothers j hj
    cases hothers
    exact h.draining calls hreader j (List.mem_of_mem_erase hj)
  · intro j i hj hslot
    have hne : j ≠ k := by
      rintro rfl
      simp at hslot
    rcases h.covered j i hj (by simpa [hne] using hslot) with
      hs | ⟨r, hr⟩ | ⟨others, hothers, hmem⟩
    · exact Or.inl hs
    · rw [hreader] at hr
      cases hr
    · rw [hreader] at hothers
      cases hothers
      exact Or.inr (Or.inr ⟨_, rfl, (List.mem_erase_of_ne hne).mpr hmem⟩)

theorem table_perform {d : Connection} {a : Action} (h : Table c) (hstep : c.perform a = some d) :
    Table d := by
  rcases perform_cases hstep with ⟨k, _, hphase, rfl⟩ |
    ⟨k, id, map, _, hphase, hpending, rfl⟩ | ⟨k, id, _, hphase, hpending, rfl⟩ |
    ⟨k, id, _, hphase, rfl⟩ | ⟨k, id, message, _, hphase, rfl⟩ |
    ⟨k, id, result, _, hphase, hslot, rfl⟩ | ⟨p, _, k, _, hreader, _, hsender, rfl⟩ |
    ⟨p, _, _, hreader, rfl | rfl⟩ | ⟨k, result, _, hreader, rfl⟩ | ⟨_, hreader, rfl⟩ |
    ⟨_, hreader, rfl⟩ | ⟨k, calls, _, hreader, hk, rfl⟩
  · have hmoved : Table (c.setPhase k (.numbered c.nextId)) := by
      refine table_setPhase h ?_ ?_ ?_ ?_
      · intro _
        rw [hphase]
        rfl
      · rw [hphase]
        intro hsome
        cases hsome
      · intro id hid
        have hheld := (h.entry id k hid).1.id?
        rw [hphase] at hheld
        cases hheld
      · intro id hid
        rcases hid with hid | hid <;> simp at hid
    exact ⟨hmoved.drained, hmoved.entry, hmoved.fresh, hmoved.delivering, hmoved.draining,
      hmoved.covered⟩
  · exact table_register h hphase hpending
  · refine table_setPhase h (fun hid => nomatch hid) (fun _ => rfl) ?_ ?_
    · intro j hj
      unfold sender at hj
      rw [hpending] at hj
      cases hj
    · intro j hj
      rcases hj with hj | hj <;> simp at hj
  · refine table_setPhase h (fun hid => nomatch hid) (fun _ => rfl) ?_ ?_
    · intro j hj
      have hheld := (h.entry j k hj).1.id?
      rw [hphase] at hheld
      have hid : j = id := (Option.some.inj hheld).symm
      exact Or.inr (by simp [hid])
    · intro j hj _
      rcases hj with hj | hj <;> simp at hj
      subst hj
      exact Or.inl hphase
  · exact table_writeFail h hphase message
  · refine table_setPhase h (fun hid => nomatch hid) (fun _ => rfl) ?_ ?_
    · intro j hj
      have hempty := (h.entry j k hj).2
      rcases hslot with hs | ⟨hs, _⟩ <;> rw [hs] at hempty <;> cases hempty
    · intro j hj
      rcases hj with hj | hj <;> simp at hj
  · exact table_reply h hreader hsender _
  · exact h
  · exact table_closing h hreader
  · exact table_deliver h hreader
  · exact table_closing h hreader
  · exact table_teardown h hreader
  · exact table_drain h hreader hk

end Connection

end Debug
end JavaVsixLite
