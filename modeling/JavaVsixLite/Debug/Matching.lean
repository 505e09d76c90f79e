import JavaVsixLite.Debug.Connection

/-!
# What a command gets

A result that reaches a caller was put into its channel by the reader: from a
reply, or when the reader closed what was left in the map.
-/

namespace JavaVsixLite
namespace Debug

open Foundation

namespace Connection

/-!
# Replies
-/

/-- A result that came in a reply packet. -/
def isReplyResult : CommandResult -> Bool
  | .ok _ => true
  | .error (.code _) => true
  | .error _ => false

/-- A reply with this identifier and result was read after the call was registered. -/
def Replied (past : List Action) (k : CallId) (id : UInt32) (result : CommandResult) : Prop :=
  exists before between after p alive,
    past = before ++ .register k :: between ++ .packet p alive :: after ∧
    p.isReply = true ∧ p.id = id ∧ p.result = result

variable {past : List Action} {k : CallId} {id : UInt32} {c : Connection} {a : Action}
  {d e : Connection} {since : List Action}

theorem Replied.snoc {result : CommandResult} (h : Replied past k id result) (a : Action) :
    Replied (past ++ [a]) k id result := by
  rcases h with ⟨before, between, after, p, alive, rfl, hp⟩
  exact ⟨before, between, after ++ [a], p, alive, by simp, hp⟩

structure Sourced (past : List Action) (c : Connection) : Prop where
  registered : forall k id, c.Holds k id -> .register k ∈ past
  delivering : forall k r, c.reader = .delivering k r ->
    exists id, Phase.id? (c.phase k) = some id ∧ Replied past k id r
  sent : forall k r, c.slot k = .sent r -> r = .error .closed ∨
    exists id, Phase.id? (c.phase k) = some id ∧ Replied past k id r
  done : forall k id r, c.phase k = .done id r -> isReplyResult r = true ->
    Replied past k id r

theorem sourced_initial : Sourced [] initial := by
  refine ⟨?_, (fun _ _ hr => nomatch hr), (fun _ _ hs => nomatch hs),
    (fun _ _ _ hd => nomatch hd)⟩
  intro k id h
  rcases h with h | h <;> cases h

theorem sourced_setPhase (h : Sourced past c) {phase : Phase}
    (hid : forall id, Phase.id? (c.phase k) = some id -> Phase.id? phase = some id)
    (hholds : forall id, (c.setPhase k phase).Holds k id -> c.Holds k id)
    (hdone : forall id r, phase = .done id r -> isReplyResult r = true -> Replied past k id r) :
    Sourced (past ++ [a]) (c.setPhase k phase) := by
  have hkeep : forall {j : CallId} {id : UInt32}, Phase.id? (c.phase j) = some id ->
      Phase.id? ((c.setPhase k phase).phase j) = some id := by
    intro j id hj
    by_cases hjk : j = k
    · subst hjk
      simpa using hid id hj
    · simpa [hjk] using hj
  refine ⟨?_, ?_, ?_, ?_⟩
  · intro j id hj
    refine List.mem_append_left _ (h.registered j id ?_)
    by_cases hjk : j = k
    · subst hjk
      exact hholds id hj
    · simpa [Holds, hjk] using hj
  · intro j r hj
    rcases h.delivering j r hj with ⟨id, hjid, hreplied⟩
    exact ⟨id, hkeep hjid, hreplied.snoc a⟩
  · intro j r hj
    rcases h.sent j r hj with hclosed | ⟨id, hjid, hreplied⟩
    · exact Or.inl hclosed
    · exact Or.inr ⟨id, hkeep hjid, hreplied.snoc a⟩
  · intro j id r hj hr
    by_cases hjk : j = k
    · subst hjk
      exact (hdone id r (by simpa using hj) hr).snoc a
    · exact (h.done j id r (by simpa [hjk] using hj) hr).snoc a

theorem sourced_of_same (h : Sourced past c) (hphase : d.phase = c.phase)
    (hslot : forall k r, d.slot k = .sent r -> c.slot k = .sent r ∨ r = .error .closed)
    (hreader : forall k r, d.reader = .delivering k r -> c.reader = .delivering k r) :
    Sourced (past ++ [a]) d := by
  refine ⟨?_, ?_, ?_, ?_⟩
  · intro k id hk
    unfold Holds at hk
    rw [hphase] at hk
    exact List.mem_append_left _ (h.registered k id hk)
  · intro k r hk
    rcases h.delivering k r (hreader k r hk) with ⟨id, hid, hreplied⟩
    exact ⟨id, by rw [hphase]; exact hid, hreplied.snoc a⟩
  · intro k r hk
    rcases hslot k r hk with hsame | hclosed
    · rcases h.sent k r hsame with hclosed | ⟨id, hid, hreplied⟩
      · exact Or.inl hclosed
      · exact Or.inr ⟨id, by rw [hphase]; exact hid, hreplied.snoc a⟩
    · exact Or.inl hclosed
  · intro k id r hk hr
    rw [hphase] at hk
    exact (h.done k id r hk hr).snoc a

theorem dropSender_sent {r : CommandResult} (h : (c.dropSender id).slot k = .sent r) :
    c.slot k = .sent r := by
  rw [(dropSender_eq c id).2.2.2] at h
  split at h
  · cases h
  · exact h

theorem sourced_dropSender (h : Sourced past c) (id : UInt32)
    (pending : Option (AList (fun _ : UInt32 => CallId))) :
    Sourced past { c.dropSender id with pending } := by
  rcases dropSender_eq c id with ⟨_, hreader, hphases, _⟩
  refine ⟨?_, ?_, ?_, ?_⟩
  · intro k i hk
    refine h.registered k i ?_
    have hk' : (c.dropSender id).Holds k i := hk
    unfold Holds at hk'
    rw [hphases] at hk'
    exact hk'
  · intro k r hk
    have hk' : (c.dropSender id).reader = .delivering k r := hk
    rw [hreader] at hk'
    rcases h.delivering k r hk' with ⟨i, hi, hreplied⟩
    exact ⟨i, by show Phase.id? ((c.dropSender id).phase k) = _; rw [hphases]; exact hi, hreplied⟩
  · intro k r hk
    rcases h.sent k r (dropSender_sent hk) with hclosed | ⟨i, hi, hreplied⟩
    · exact Or.inl hclosed
    · exact Or.inr ⟨i, by
        show Phase.id? ((c.dropSender id).phase k) = _
        rw [hphases]
        exact hi, hreplied⟩
  · intro k i r hk
    have hk' : (c.dropSender id).phase k = .done i r := hk
    rw [hphases] at hk'
    exact h.done k i r hk'

theorem sourced_register (h : Sourced past c) (hphase : c.phase k = .numbered id)
    (pending : Option (AList (fun _ : UInt32 => CallId))) :
    Sourced (past ++ [.register k])
      { (c.dropSender id).setPhase k (.writing id) with pending } := by
  have hdropped := sourced_dropSender h id pending
  have hphases := (dropSender_eq c id).2.2.1
  -- what has an identifier already is another call
  have hkeep : forall {j : CallId} {i : UInt32}, Phase.id? ((c.dropSender id).phase j) = some i ->
      Phase.id? (((c.dropSender id).setPhase k (.writing id)).phase j) = some i := by
    intro j i hj
    have hjk : j ≠ k := by
      intro hjk
      rw [hphases, hjk, hphase] at hj
      cases hj
    simpa [hjk] using hj
  refine ⟨?_, ?_, ?_, ?_⟩
  · intro j i hj
    by_cases hjk : j = k
    · rw [hjk]
      exact List.mem_append_right _ (List.mem_singleton_self _)
    · refine List.mem_append_left _ (hdropped.registered j i ?_)
      simpa [Holds, hjk] using hj
  · intro j r hj
    rcases hdropped.delivering j r hj with ⟨i, hi, hreplied⟩
    exact ⟨i, hkeep hi, hreplied.snoc _⟩
  · intro j r hj
    rcases hdropped.sent j r hj with hclosed | ⟨i, hi, hreplied⟩
    · exact Or.inl hclosed
    · exact Or.inr ⟨i, hkeep hi, hreplied.snoc _⟩
  · intro j i r hj hr
    have hjk : j ≠ k := by
      intro hjk
      rw [hjk] at hj
      simp at hj
    exact (hdropped.done j i r (by simpa [hjk] using hj) hr).snoc _

theorem sourced_reply (htable : Table c) (h : Sourced past c) {p : Packet} {alive : Bool}
    (hreply : p.isReply = true) (hsender : c.sender p.id = some k) :
    Sourced (past ++ [.packet p alive])
      { c with
        pending := c.pending.map (AList.erase p.id)
        reader := .delivering k p.result } := by
  rcases htable.entry p.id k hsender with ⟨hholds, _⟩
  rcases List.append_of_mem (h.registered k p.id hholds) with ⟨before, between, hpast⟩
  have hkept : Sourced (past ++ [.packet p alive])
      { c with pending := c.pending.map (AList.erase p.id) } :=
    sourced_of_same h rfl (fun _ _ hs => Or.inl hs) (fun _ _ hr => hr)
  refine ⟨hkept.registered, ?_, hkept.sent, hkept.done⟩
  intro j r hj
  cases hj
  refine ⟨p.id, hholds.id?, before, between, [], p, alive, ?_, hreply, rfl, rfl⟩
  rw [hpast]

theorem sourced_deliver (h : Sourced past c) {result : CommandResult}
    (hreader : c.reader = .delivering k result) :
    Sourced (past ++ [a]) { c.setSlot k (.sent result) with reader := .reading } := by
  rcases h.delivering k result hreader with ⟨id, hid, hreplied⟩
  refine ⟨?_, (fun _ _ hr => nomatch hr), ?_, ?_⟩
  · intro j i hj
    exact List.mem_append_left _ (h.registered j i hj)
  · intro j r hj
    by_cases hjk : j = k
    · subst hjk
      simp only [setSlot_slot, if_true] at hj
      cases hj
      exact Or.inr ⟨id, hid, hreplied.snoc a⟩
    · rcases h.sent j r (by simpa [hjk] using hj) with hclosed | ⟨i, hi, hr⟩
      · exact Or.inl hclosed
      · exact Or.inr ⟨i, hi, hr.snoc a⟩
  · intro j i r hj hr
    exact (h.done j i r hj hr).snoc a

theorem sourced_perform (htable : Table c) (h : Sourced past c) (hstep : c.perform a = some d) :
    Sourced (past ++ [a]) d := by
  rcases perform_cases hstep with ⟨k, _, hphase, rfl⟩ |
    ⟨k, id, map, rfl, hphase, hpending, rfl⟩ | ⟨k, id, _, hphase, hpending, rfl⟩ |
    ⟨k, id, _, hphase, rfl⟩ | ⟨k, id, message, _, hphase, rfl⟩ |
    ⟨k, id, result, _, hphase, hslot, rfl⟩ | ⟨p, alive, k, rfl, hreader, hreply, hsender, rfl⟩ |
    ⟨p, _, _, hreader, rfl | rfl⟩ | ⟨k, result, _, hreader, rfl⟩ | ⟨_, hreader, rfl⟩ |
    ⟨_, hreader, rfl⟩ | ⟨k, calls, _, hreader, hk, rfl⟩
  · have hmoved : Sourced (past ++ [a]) (c.setPhase k (.numbered c.nextId)) := by
      refine sourced_setPhase h ?_ ?_ ?_
      · intro id hid
        rw [hphase] at hid
        cases hid
      · intro id hid
        rcases hid with hid | hid <;> simp at hid
      · intro id r hdone
        cases hdone
    exact ⟨hmoved.registered, hmoved.delivering, hmoved.sent, hmoved.done⟩
  · exact sourced_register h hphase (some (map.insert id k))
  · refine sourced_setPhase h ?_ ?_ ?_
    · intro i hi
      rw [hphase] at hi
      cases hi
    · intro i hi
      rcases hi with hi | hi <;> simp at hi
    · intro i r hdone hr
      cases hdone
      cases hr
  · refine sourced_setPhase h ?_ ?_ ?_
    · intro i hi
      rw [hphase] at hi
      exact hi
    · intro i hi
      rcases hi with hi | hi <;> simp at hi
      subst hi
      exact Or.inl hphase
    · intro i r hdone
      cases hdone
  · have hdropped := sourced_dropSender h id (c.pending.map (AList.erase id))
    have hphases := (dropSender_eq c id).2.2.1
    refine sourced_setPhase hdropped ?_ ?_ ?_
    · intro i hi
      have hi' : Phase.id? ((c.dropSender id).phase k) = some i := hi
      rw [hphases, hphase] at hi'
      exact hi'
    · intro i hi
      rcases hi with hi | hi <;> simp at hi
    · intro i r hdone hr
      cases hdone
      cases hr
  · refine sourced_setPhase h ?_ ?_ ?_
    · intro i hi
      rw [hphase] at hi
      exact hi
    · intro i hi
      rcases hi with hi | hi <;> simp at hi
    · intro i r hdone hr
      cases hdone
      rcases hslot with hsent | ⟨_, hclosed⟩
      · rcases h.sent k result hsent with hclosed | ⟨i, hi, hreplied⟩
        · rw [hclosed] at hr
          cases hr
        · rw [hphase] at hi
          cases hi
          exact hreplied
      · rw [hclosed] at hr
        cases hr
  · exact sourced_reply htable h hreply hsender
  · exact sourced_of_same h rfl (fun _ _ hs => Or.inl hs) (fun _ _ hr => hr)
  · exact sourced_of_same h rfl (fun _ _ hs => Or.inl hs) (fun _ _ hr => nomatch hr)
  · exact sourced_deliver h hreader
  · exact sourced_of_same h rfl (fun _ _ hs => Or.inl hs) (fun _ _ hr => nomatch hr)
  · exact sourced_of_same h rfl (fun _ _ hs => Or.inl hs) (fun _ _ hr => nomatch hr)
  · refine sourced_of_same h rfl ?_ (fun _ _ hr => nomatch hr)
    intro j r hj
    by_cases hjk : j = k
    · subst hjk
      simp only [setSlot_slot, if_true] at hj
      cases hj
      exact Or.inr rfl
    · exact Or.inl (by simpa [hjk] using hj)

/-!
# Results and teardown
-/

theorem done_perform {r : CommandResult} (hdone : c.phase k = .done id r)
    (hstep : c.perform a = some d) :
    d.phase k = .done id r := by
  have hmoves : forall {b : Connection} {j : CallId} {phase : Phase}, b.phase = c.phase ->
      c.phase j ≠ .done id r -> (b.setPhase j phase).phase k = .done id r := by
    intro b j phase hb hj
    have hne : k ≠ j := by
      rintro rfl
      exact hj hdone
    simpa [hne, hb] using hdone
  rcases perform_cases hstep with ⟨j, _, hphase, rfl⟩ |
    ⟨j, i, map, _, hphase, hpending, rfl⟩ | ⟨j, i, _, hphase, hpending, rfl⟩ |
    ⟨j, i, _, hphase, rfl⟩ | ⟨j, i, message, _, hphase, rfl⟩ |
    ⟨j, i, result, _, hphase, hslot, rfl⟩ | ⟨p, _, j, _, _, _, _, rfl⟩ |
    ⟨p, _, _, _, rfl | rfl⟩ | ⟨j, result, _, _, rfl⟩ | ⟨_, _, rfl⟩ |
    ⟨_, _, rfl⟩ | ⟨j, calls, _, _, _, rfl⟩
  · exact hmoves rfl (by rw [hphase]; simp)
  · exact hmoves (dropSender_eq c i).2.2.1 (by rw [hphase]; simp)
  · exact hmoves rfl (by rw [hphase]; simp)
  · exact hmoves rfl (by rw [hphase]; simp)
  · exact hmoves (dropSender_eq c i).2.2.1 (by rw [hphase]; simp)
  · exact hmoves rfl (by rw [hphase]; simp)
  all_goals exact hdone

/-- A command that is registered and has no result on its way. -/
def Pending (c : Connection) (k : CallId) (id : UInt32) : Prop :=
  c.Holds k id ∧ c.slot k = .empty

/-- After the map of `c` was taken away: nothing but its own write can still fail a call. -/
structure TornDown (c : Connection) (since : List Action) (e : Connection) : Prop where
  pending : e.pending = none
  reader : exists calls, e.reader = .draining calls
  slots : forall k id, c.Pending k id -> e.slot k = .empty ∨ e.slot k = .sent (.error .closed)
  phases : forall k id, c.Pending k id -> e.Holds k id ∨
    e.phase k = .done id (.error .closed) ∨
    exists message, e.phase k = .done id (.error (.io message)) ∧ .writeFail k message ∈ since

theorem tornDown_setPhase (h : TornDown c since e) {phase : Phase}
    (hphase : forall id, c.Pending k id -> phase = .writing id ∨ phase = .waiting id ∨
      phase = .done id (.error .closed) ∨ exists message, phase = .done id (.error (.io message)) ∧
      a = .writeFail k message) :
    TornDown c (since ++ [a]) (e.setPhase k phase) := by
  refine ⟨h.pending, h.reader, h.slots, ?_⟩
  intro j id hj
  by_cases hjk : j = k
  · subst hjk
    rcases hphase id hj with rfl | rfl | rfl | ⟨message, rfl, rfl⟩
    · exact Or.inl (Or.inl (by simp))
    · exact Or.inl (Or.inr (by simp))
    · exact Or.inr (Or.inl (by simp))
    · exact Or.inr (Or.inr ⟨message, by simp, List.mem_append_right _ (by simp)⟩)
  · rcases h.phases j id hj with hholds | hclosed | ⟨message, hio, hmem⟩
    · exact Or.inl (by simpa [Holds, hjk] using hholds)
    · exact Or.inr (Or.inl (by simpa [hjk] using hclosed))
    · exact Or.inr (Or.inr ⟨message, by simpa [hjk] using hio,
        List.mem_append_left _ hmem⟩)

theorem TornDown.mono (h : TornDown c since e) (a : Action) : TornDown c (since ++ [a]) e := by
  refine ⟨h.pending, h.reader, h.slots, ?_⟩
  intro j id hj
  rcases h.phases j id hj with hholds | hclosed | ⟨message, hio, hmem⟩
  · exact Or.inl hholds
  · exact Or.inr (Or.inl hclosed)
  · exact Or.inr (Or.inr ⟨message, hio, List.mem_append_left _ hmem⟩)

theorem dropSender_of_none (h : c.pending = none) (id : UInt32) : c.dropSender id = c := by
  unfold dropSender sender
  rw [h]
  rfl

theorem TornDown.id_eq (h : TornDown c since e) {i : UInt32} (hk : c.Pending k id)
    (hphase : Phase.id? (e.phase k) = some i) : i = id := by
  rcases h.phases k id hk with hholds | hclosed | ⟨message, hio, _⟩
  · rw [hholds.id?] at hphase
    exact (Option.some.inj hphase).symm
  · rw [hclosed] at hphase
    exact (Option.some.inj hphase).symm
  · rw [hio] at hphase
    exact (Option.some.inj hphase).symm

theorem tornDown_perform {f : Connection} (h : TornDown c since e) (hstep : e.perform a = some f) :
    TornDown c (since ++ [a]) f := by
  rcases h.reader with ⟨calls, hcalls⟩
  have hnotFresh : forall {k : CallId} {id : UInt32}, c.Pending k id ->
      Phase.id? (e.phase k) ≠ none := by
    intro k id hk
    rcases h.phases k id hk with hholds | hclosed | ⟨message, hio, _⟩
    · simp [hholds.id?]
    · simp [hclosed, Phase.id?]
    · simp [hio, Phase.id?]
  rcases perform_cases hstep with ⟨k, _, hphase, rfl⟩ |
    ⟨k, i, map, _, _, hpending, _⟩ | ⟨k, i, _, hphase, _, rfl⟩ |
    ⟨k, i, _, hphase, rfl⟩ | ⟨k, i, message, rfl, hphase, rfl⟩ |
    ⟨k, i, result, _, hphase, hslot, rfl⟩ | ⟨p, _, k, _, hreader, _, _, _⟩ |
    ⟨p, _, _, hreader, _⟩ | ⟨k, result, _, hreader, _⟩ | ⟨_, hreader, _⟩ |
    ⟨_, hreader, _⟩ | ⟨k, others, _, hreader, hk, rfl⟩
  · have hmoved : TornDown c (since ++ [a]) (e.setPhase k (.numbered e.nextId)) := by
      refine tornDown_setPhase h ?_
      intro id hk
      exact absurd (by rw [hphase]; rfl) (hnotFresh hk)
    exact ⟨hmoved.pending, hmoved.reader, hmoved.slots, hmoved.phases⟩
  · rw [h.pending] at hpending
    cases hpending
  · refine tornDown_setPhase h ?_
    intro id hk
    exact absurd (by rw [hphase]; rfl) (hnotFresh hk)
  · refine tornDown_setPhase h ?_
    intro id hk
    have hi : i = id := h.id_eq hk (by rw [hphase]; rfl)
    rw [hi]
    exact Or.inr (Or.inl rfl)
  · rw [dropSender_of_none h.pending]
    have hmoved : TornDown c (since ++ [.writeFail k message])
        (e.setPhase k (.done i (.error (.io message)))) := by
      refine tornDown_setPhase h ?_
      intro id hk
      have hi : i = id := h.id_eq hk (by rw [hphase]; rfl)
      rw [hi]
      exact Or.inr (Or.inr (Or.inr ⟨message, rfl, rfl⟩))
    exact ⟨by rw [h.pending]; rfl, hmoved.reader, hmoved.slots, hmoved.phases⟩
  · refine tornDown_setPhase h ?_
    intro id hk
    have hclosed : result = .error .closed := by
      rcases h.slots k id hk with hempty | hsent
      · rcases hslot with hs | ⟨hs, _⟩ <;> rw [hempty] at hs <;> cases hs
      · rcases hslot with hs | ⟨hs, _⟩ <;> rw [hsent] at hs <;> cases hs
        rfl
    have hi : i = id := h.id_eq hk (by rw [hphase]; rfl)
    rw [hi, hclosed]
    exact Or.inr (Or.inr (Or.inl rfl))
  · rw [hcalls] at hreader
    cases hreader
  · rw [hcalls] at hreader
    cases hreader
  · rw [hcalls] at hreader
    cases hreader
  · rw [hcalls] at hreader
    cases hreader
  · rw [hcalls] at hreader
    cases hreader
  · have hkept := h.mono a
    refine ⟨h.pending, ⟨_, rfl⟩, ?_, hkept.phases⟩
    intro j id hj
    by_cases hjk : j = k
    · right
      simp [hjk]
    · simpa [hjk] using h.slots j id hj

/--
In every run of commands, packets and teardown: a command that has a result keeps
it; a result that is a reply was read, under the command's own identifier, after
the command was registered.  Once the connection is torn down, a command that was
pending gets `Closed`, or the error of its own failed write; nobody waits on a
channel that stays empty; new commands get `Closed`; and the map is gone.
-/
theorem commands_matched (as : List Action) (c : Connection)
    (hrun : run perform initial as = some c) :
    (forall k id r, c.phase k = .done id r ->
      forall bs d, run perform c bs = some d -> d.phase k = .done id r) ∧
    (forall k id r, c.phase k = .done id r -> isReplyResult r = true ->
      Replied as k id r) ∧
    (forall d, c.perform .teardown = some d ->
      forall bs e, run perform d bs = some e ->
        e.pending = none ∧
        (forall k id r, c.Pending k id -> e.phase k = .done id r ->
          r = .error .closed ∨
            exists message, r = .error (.io message) ∧ .writeFail k message ∈ bs) ∧
        (e.reader = .draining [] -> forall k id, e.Holds k id -> e.slot k ≠ .empty) ∧
        (forall k f, e.perform (.register k) = some f ->
          exists id, f.phase k = .done id (.error .closed))) := by
  have hsourced : Table c ∧ Sourced as c := by
    refine Run.history (fun past c => Table c ∧ Sourced past c) ?_
      ⟨table_initial, sourced_initial⟩ hrun
    intro past s a t hinv hstep
    exact ⟨table_perform hinv.1 hstep, sourced_perform hinv.1 hinv.2 hstep⟩
  refine ⟨?_, ?_, ?_⟩
  · intro k id r hdone bs d hbs
    exact Run.invariant (fun c => c.phase k = .done id r)
      (fun _ _ _ h hstep => done_perform h hstep) hdone hbs
  · exact hsourced.2.done
  · intro d hd bs e hbs
    have htable : Table d := table_perform hsourced.1 hd
    have hbegun : TornDown c [] d := by
      rcases perform_cases hd with ⟨_, ha, _⟩ | ⟨_, _, _, ha, _⟩ | ⟨_, _, ha, _⟩ |
        ⟨_, _, ha, _⟩ | ⟨_, _, _, ha, _⟩ | ⟨_, _, _, ha, _⟩ | ⟨_, _, _, ha, _⟩ |
        ⟨_, _, ha, _⟩ | ⟨_, _, ha, _⟩ | ⟨ha, _⟩ | ⟨_, _, rfl⟩ | ⟨_, _, ha, _⟩
      case inr.inr.inr.inr.inr.inr.inr.inr.inr.inr.inl =>
        refine ⟨rfl, ⟨_, rfl⟩, ?_, ?_⟩
        · intro k id hk
          exact Or.inl hk.2
        · intro k id hk
          exact Or.inl hk.1
      all_goals cases ha
    have htorn : TornDown c bs e :=
      Run.history (TornDown c) (fun _ _ _ _ h hstep => tornDown_perform h hstep) hbegun hbs
    have hend : Table e :=
      Run.invariant Table (fun _ _ _ h hstep => table_perform h hstep) htable hbs
    refine ⟨htorn.pending, ?_, ?_, ?_⟩
    · intro k id r hk hdone
      rcases htorn.phases k id hk with hholds | hclosed | ⟨message, hio, hmem⟩
      · rcases hholds with hw | hw <;> rw [hdone] at hw <;> cases hw
      · rw [hdone] at hclosed
        cases hclosed
        exact Or.inl rfl
      · rw [hdone] at hio
        cases hio
        exact Or.inr ⟨message, rfl, hmem⟩
    · intro hreader k id hk hempty
      rcases hend.covered k id hk hempty with hsender | ⟨r, hr⟩ | ⟨calls, hcalls, hmem⟩
      · unfold sender at hsender
        rw [htorn.pending] at hsender
        cases hsender
      · rw [hreader] at hr
        cases hr
      · rw [hreader] at hcalls
        cases hcalls
        cases hmem
    · intro k f hf
      rcases perform_cases hf with ⟨_, ha, _⟩ | ⟨_, _, _, ha, _, hpending, _⟩ |
        ⟨j, id, ha, _, _, rfl⟩ | ⟨_, _, ha, _⟩ | ⟨_, _, _, ha, _⟩ | ⟨_, _, _, ha, _⟩ |
        ⟨_, _, _, ha, _⟩ | ⟨_, _, ha, _⟩ | ⟨_, _, ha, _⟩ | ⟨ha, _⟩ | ⟨ha, _⟩ |
        ⟨_, _, ha, _⟩
      case inr.inl =>
        rw [htorn.pending] at hpending
        cases hpending
      case inr.inr.inl =>
        cases ha
        exact ⟨id, by simp⟩
      all_goals cases ha

def firstReply : Packet where
  length := 11
  id := 1
  flags := 0x80
  high := 0
  low := 0
  payload := []

def oneCommand : List Action :=
  [.takeId 0, .register 0, .writeOk 0, .packet firstReply true, .deliver, .receive 0]

theorem commands_matched_oneCommand :
    exists c, run perform initial oneCommand = some c ∧ c.phase 0 = .done 1 (.ok []) ∧
      Replied oneCommand 0 1 (.ok []) := by
  refine ⟨_, rfl, by decide +kernel, ?_⟩
  exact (commands_matched oneCommand _ rfl).2.1 0 1 (.ok []) (by decide +kernel) rfl

/-- A command pending at teardown whose write then fails gets that error. -/
theorem pending_command_not_closed :
    exists c d e, run perform initial [.takeId 0, .register 0, .lost] = some c ∧
      c.Pending 0 1 ∧ c.perform .teardown = some d ∧
      run perform d [.writeFail 0 "broken pipe"] = some e ∧
      e.phase 0 = .done 1 (.error (.io "broken pipe")) := by
  refine ⟨_, _, _, rfl, ⟨Or.inl rfl, rfl⟩, rfl, rfl, rfl⟩

end Connection

end Debug
end JavaVsixLite
