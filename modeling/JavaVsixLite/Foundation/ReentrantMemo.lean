import Mathlib.Data.Fintype.Card

/-!
# Memos that are asked again while they answer

The answer for a key may need the answers for other keys, and its own.  A memo keeps
the answers and marks the keys it is working on; who asks for one of those gets a
fixed answer that says nothing.  All computations of one memo share a counter of
nested scopes, and one that finds it at its limit goes on without the scope.
-/

namespace JavaVsixLite
namespace Foundation

/-- A computation that asks a memo for answers, and opens and closes scopes. -/
inductive Query (K V A : Type) where
  | done (a : A)
  | ask (k : K) (next : V -> Query K V A)
  | enter (capped inside : Query K V A)
  | leave (next : Query K V A)

namespace Query

variable {K V A B : Type}

def bind : Query K V A -> (A -> Query K V B) -> Query K V B
  | done a, f => f a
  | ask k next, f => ask k (fun v => (next v).bind f)
  | enter capped inside, f => enter (capped.bind f) (inside.bind f)
  | leave next, f => leave (next.bind f)

/-- A scope around a computation, with the answer there is when no scope can be opened. -/
def nested (capped : A) (inside : Query K V A) : Query K V A :=
  enter (done capped) (inside.bind (fun a => leave (done a)))

end Query

structure MemoProgram (K V : Type) where
  body : K -> Query K V V
  /-- The answer for a key that is being worked on. -/
  unsettled : V
  cap : Nat

namespace MemoProgram

variable {K V : Type}

/-- `some none` marks a key that is being worked on. -/
abbrev Memo (K V : Type) := K -> Option (Option V)

def empty : Memo K V :=
  fun _ => none

section Running

variable [DecidableEq K] (P : MemoProgram K V)

def Memo.insert (memo : Memo K V) (k : K) (entry : Option V) : Memo K V :=
  fun other => if other = k then some entry else memo other

@[grind =] def run (answer : Nat -> K -> Memo K V -> Option (V × Memo K V)) :
    Nat -> Query K V V -> Memo K V -> Option (V × Memo K V)
  | _, .done v, memo => some (v, memo)
  | level, .ask k next, memo =>
    match answer level k memo with
    | none => none
    | some (v, memo) => run answer level (next v) memo
  | level, .enter capped inside, memo =>
    if level < P.cap then run answer (level + 1) inside memo
    else run answer level capped memo
  | level, .leave next, memo => run answer (level - 1) next memo

@[grind =] def answer : Nat -> Nat -> K -> Memo K V -> Option (V × Memo K V)
  | 0, _, _, _ => none
  | fuel + 1, level, k, memo =>
    match memo k with
    | some (some v) => some (v, memo)
    | some none => some (P.unsettled, memo)
    | none =>
      match run P (answer fuel) level (P.body k) (Memo.insert memo k none) with
      | none => none
      | some (v, memo) => some (v, Memo.insert memo k (some v))

/-- There are never more keys worked on than there are keys. -/
def request [Fintype K] (level : Nat) (k : K) (memo : Memo K V) : Option (V × Memo K V) :=
  answer P (Fintype.card K + 1) level k memo

/-- The answers for one key after the other, each at its own level. -/
def session [Fintype K] : List (Nat × K) -> Memo K V -> Option (List V × Memo K V)
  | [], memo => some ([], memo)
  | (level, k) :: rest, memo =>
    match request P level k memo with
    | none => none
    | some (v, memo) =>
      match session rest memo with
      | none => none
      | some (answers, memo) => some (v :: answers, memo)

def fresh [Fintype K] (k : K) : Option V :=
  (request P 0 k empty).map Prod.fst

end Running

/-!
# Settled answers

A computation settles if it finds no scope closed to it and comes back to no key on
its way, except to the one it is for.
-/

/-- `size` counts the keys answered on the way, each as often as it is asked for. -/
inductive Settles (P : MemoProgram K V) : K -> Nat -> Query K V V -> V -> Nat -> Prop where
  | done {self level v} : Settles P self level (.done v) v 0
  | itself {self level next v size} (rest : Settles P self level (next P.unsettled) v size) :
      Settles P self level (.ask self next) v size
  | other {self level k next w v size left} (ne : k ≠ self)
      (asked : Settles P k level (P.body k) w size)
      (rest : Settles P self level (next w) v left) :
      Settles P self level (.ask k next) v (size + left + 1)
  | enter {self level capped inside v size} (room : level < P.cap)
      (rest : Settles P self (level + 1) inside v size) :
      Settles P self level (.enter capped inside) v size
  | leave {self level next v size} (rest : Settles P self (level - 1) next v size) :
      Settles P self level (.leave next) v size

def Settled (P : MemoProgram K V) (level : Nat) (k : K) : Prop :=
  exists v size, Settles P k level (P.body k) v size

def Kept (P : MemoProgram K V) (memo : Memo K V) : Prop :=
  forall k v, memo k = some (some v) ->
    exists level size, Settles P k level (P.body k) v size

structure Resting (P : MemoProgram K V) (memo : Memo K V) : Prop where
  kept : Kept P memo
  unmarked : forall k, memo k ≠ some none

variable {P : MemoProgram K V}

theorem resting_empty : Resting P empty := by
  constructor
  · intro k v h
    cases h
  · intro k h
    cases h

theorem Settles.unique {self : K} {level : Nat} {q : Query K V V} {v : V} {size : Nat}
    (h : Settles P self level q v size) :
    forall {level' v' size'}, Settles P self level' q v' size' -> v' = v ∧ size' = size := by
  induction h with
  | done =>
    intro level' v' size' h'
    cases h'
    exact ⟨rfl, rfl⟩
  | itself rest ih =>
    intro level' v' size' h'
    cases h' with
    | itself rest' => exact ih rest'
    | other ne' => exact absurd rfl ne'
  | other ne asked rest ihasked ihrest =>
    intro level' v' size' h'
    cases h' with
    | itself => exact absurd rfl ne
    | other ne' asked' rest' =>
      rcases ihasked asked' with ⟨hw, hsize⟩
      subst hw hsize
      rcases ihrest rest' with ⟨hv, hleft⟩
      exact ⟨hv, by rw [hleft]⟩
  | enter room rest ih =>
    intro level' v' size' h'
    cases h' with
    | enter room' rest' => exact ih rest'
  | leave rest ih =>
    intro level' v' size' h'
    cases h' with
    | leave rest' => exact ih rest'

theorem Settles.lower {self : K} {level : Nat} {q : Query K V V} {v : V} {size : Nat}
    (h : Settles P self level q v size) :
    forall {level'}, level' ≤ level -> Settles P self level' q v size := by
  induction h with
  | done => exact fun _ => .done
  | itself rest ih => exact fun hlevel => .itself (ih hlevel)
  | other ne asked rest ihasked ihrest =>
    exact fun hlevel => .other ne (ihasked hlevel) (ihrest hlevel)
  | enter room rest ih =>
    exact fun hlevel => .enter (Nat.lt_of_le_of_lt hlevel room) (ih (Nat.succ_le_succ hlevel))
  | leave rest ih => exact fun hlevel => .leave (ih (Nat.sub_le_sub_right hlevel 1))

def Behind (P : MemoProgram K V) (size : Nat) (memo : Memo K V) : Prop :=
  forall k, memo k = some none ->
    forall level v own, Settles P k level (P.body k) v own -> size ≤ own

def SameMarks (memo later : Memo K V) : Prop :=
  forall k, later k = some none <-> memo k = some none

theorem Behind.mono {size less : Nat} {memo : Memo K V} (h : Behind P size memo)
    (hle : less ≤ size) : Behind P less memo := by
  intro k hmark level v own hsettles
  exact Nat.le_trans hle (h k hmark level v own hsettles)

theorem Behind.of_sameMarks {size : Nat} {memo later : Memo K V} (h : Behind P size memo)
    (hmarks : SameMarks memo later) : Behind P size later := by
  intro k hmark
  exact h k ((hmarks k).mp hmark)

/-!
# Whether a computation settles
-/

section Checking

variable [DecidableEq K] (P : MemoProgram K V)

def settlesTo (other : Nat -> K -> Option V) (self : K) : Nat -> Query K V V -> Option V
  | _, .done v => some v
  | level, .ask k next =>
    if k = self then settlesTo other self level (next P.unsettled)
    else
      match other level k with
      | none => none
      | some w => settlesTo other self level (next w)
  | level, .enter _ inside =>
    if level < P.cap then settlesTo other self (level + 1) inside else none
  | level, .leave next => settlesTo other self (level - 1) next

/-- What a key settles to, found out without a memo. -/
def settled : Nat -> Nat -> K -> Option V
  | 0, _, _ => none
  | fuel + 1, level, k => settlesTo P (settled fuel) k level (P.body k)

theorem settlesTo_sound {other : Nat -> K -> Option V}
    (h : forall level k w, other level k = some w ->
      exists size, Settles P k level (P.body k) w size) {self : K} (q : Query K V V) :
    forall {level v}, settlesTo P other self level q = some v ->
      exists size, Settles P self level q v size := by
  induction q with
  | done w =>
    intro level v hv
    cases hv
    exact ⟨0, .done⟩
  | ask k next ih =>
    intro level v hv
    rw [settlesTo] at hv
    split at hv
    · rename_i hself
      subst hself
      rcases ih P.unsettled hv with ⟨size, hsettles⟩
      exact ⟨size, .itself hsettles⟩
    · rename_i hself
      cases hother : other level k with
      | none =>
        rw [hother] at hv
        cases hv
      | some w =>
        rw [hother] at hv
        rcases h level k w hother with ⟨size, hasked⟩
        rcases ih w hv with ⟨left, hsettles⟩
        exact ⟨size + left + 1, .other hself hasked hsettles⟩
  | enter capped inside ihcapped ihinside =>
    intro level v hv
    rw [settlesTo] at hv
    split at hv
    · rename_i hroom
      rcases ihinside hv with ⟨size, hsettles⟩
      exact ⟨size, .enter hroom hsettles⟩
    · cases hv
  | leave next ih =>
    intro level v hv
    rcases ih hv with ⟨size, hsettles⟩
    exact ⟨size, .leave hsettles⟩

theorem settled_sound (fuel : Nat) : forall {level k v}, settled P fuel level k = some v ->
    exists size, Settles P k level (P.body k) v size := by
  induction fuel with
  | zero =>
    intro level k v h
    cases h
  | succ fuel ih =>
    intro level k v h
    exact settlesTo_sound P (fun level k w => ih) (P.body k) h

end Checking

/-!
# Enough fuel
-/

theorem run_mono {a b : Nat -> K -> Memo K V -> Option (V × Memo K V)}
    (h : forall level k memo r, a level k memo = some r -> b level k memo = some r)
    (q : Query K V V) : forall {level memo r},
      run P a level q memo = some r -> run P b level q memo = some r := by
  induction q with
  | done v =>
    intro level memo r hrun
    exact hrun
  | ask k next ih =>
    intro level memo r hrun
    rw [run] at hrun
    rw [run]
    cases hanswer : a level k memo with
    | none =>
      rw [hanswer] at hrun
      cases hrun
    | some found =>
      rw [hanswer] at hrun
      rw [h level k memo found hanswer]
      exact ih found.1 hrun
  | enter capped inside ihcapped ihinside =>
    intro level memo r hrun
    rw [run] at hrun
    rw [run]
    split at hrun
    · rename_i hroom
      rw [if_pos hroom]
      exact ihinside hrun
    · rename_i hroom
      rw [if_neg hroom]
      exact ihcapped hrun
  | leave next ih =>
    intro level memo r hrun
    exact ih hrun

section Finite

variable [Fintype K]

def absent (memo : Memo K V) : Finset K :=
  Finset.univ.filter (fun k => (memo k).isNone = true)

theorem mem_absent {memo : Memo K V} {k : K} : k ∈ absent memo <-> memo k = none := by
  simp [absent]

theorem run_returns {a : Nat -> K -> Memo K V -> Option (V × Memo K V)} {bound : Finset K}
    (h : forall level k memo, absent memo ⊆ bound ->
      exists r, a level k memo = some r ∧ absent r.2 ⊆ absent memo)
    (q : Query K V V) : forall level memo, absent memo ⊆ bound ->
      exists r, run P a level q memo = some r ∧ absent r.2 ⊆ absent memo := by
  induction q with
  | done v =>
    intro level memo _
    exact ⟨(v, memo), rfl, Finset.Subset.refl _⟩
  | ask k next ih =>
    intro level memo hbound
    rcases h level k memo hbound with ⟨found, hfound, hless⟩
    rcases ih found.1 level found.2 (Finset.Subset.trans hless hbound) with ⟨r, hr, hrest⟩
    exists r
    constructor
    · rw [run, hfound]
      exact hr
    · exact Finset.Subset.trans hrest hless
  | enter capped inside ihcapped ihinside =>
    intro level memo hbound
    rw [run]
    split
    · exact ihinside (level + 1) memo hbound
    · exact ihcapped level memo hbound
  | leave next ih =>
    intro level memo hbound
    exact ih (level - 1) memo hbound

end Finite

section Memos

variable [DecidableEq K]

@[simp] theorem Memo.insert_self (memo : Memo K V) (k : K) (entry : Option V) :
    Memo.insert memo k entry k = some entry := by
  simp [Memo.insert]

theorem Memo.insert_of_ne {memo : Memo K V} {k other : K} {entry : Option V}
    (h : other ≠ k) : Memo.insert memo k entry other = memo other := by
  simp [Memo.insert, h]

theorem answer_succ {fuel : Nat} : forall {level k memo r},
    answer P fuel level k memo = some r -> answer P (fuel + 1) level k memo = some r := by
  induction fuel with
  | zero =>
    intro level k memo r h
    cases h
  | succ fuel ih =>
    intro level k memo r h
    rw [answer] at h
    rw [answer]
    cases hentry : memo k with
    | some entry =>
      rw [hentry] at h
      cases entry with
      | some v => exact h
      | none => exact h
    | none =>
      rw [hentry] at h
      cases hrun : run P (answer P fuel) level (P.body k) (Memo.insert memo k none) with
      | none =>
        simp only [hrun] at h
        cases h
      | some found =>
        have hmore : run P (answer P (fuel + 1)) level (P.body k)
            (Memo.insert memo k none) = some found :=
          run_mono (fun level k memo r => ih) (P.body k) hrun
        simp only [hrun] at h
        simp only [hmore]
        exact h

theorem answer_mono {fuel more level : Nat} {k : K} {memo : Memo K V} {r : V × Memo K V}
    (hle : fuel ≤ more) (h : answer P fuel level k memo = some r) :
    answer P more level k memo = some r := by
  induction hle with
  | refl => exact h
  | step _ ih => exact answer_succ ih

section Finite

variable [Fintype K]

theorem absent_insert (memo : Memo K V) (k : K) (entry : Option V) :
    absent (Memo.insert memo k entry) = (absent memo).erase k := by
  ext other
  rw [mem_absent, Finset.mem_erase, mem_absent]
  cases decEq other k with
  | isTrue heq =>
    subst heq
    simp
  | isFalse hne => simp [Memo.insert_of_ne hne, hne]

theorem answer_returns (fuel : Nat) : forall level k (memo : Memo K V),
    (absent memo).card < fuel ->
      exists r, answer P fuel level k memo = some r ∧ absent r.2 ⊆ absent memo := by
  induction fuel with
  | zero =>
    intro level k memo h
    cases h
  | succ fuel ih =>
    intro level k memo h
    rw [answer]
    cases hentry : memo k with
    | some entry =>
      cases entry with
      | some v => exact ⟨(v, memo), rfl, Finset.Subset.refl _⟩
      | none => exact ⟨(P.unsettled, memo), rfl, Finset.Subset.refl _⟩
    | none =>
      have hmem : k ∈ absent memo := mem_absent.mpr hentry
      have hfuel : ((absent memo).erase k).card < fuel := by
        rw [Finset.card_erase_of_mem hmem]
        have hpos := Finset.card_pos.mpr ⟨k, hmem⟩
        omega
      have hasks : forall level other (later : Memo K V),
          absent later ⊆ (absent memo).erase k ->
            exists r, answer P fuel level other later = some r ∧
              absent r.2 ⊆ absent later := by
        intro level other later hlater
        exact ih level other later (Nat.lt_of_le_of_lt (Finset.card_le_card hlater) hfuel)
      rcases run_returns hasks (P.body k) level (Memo.insert memo k none)
        (by rw [absent_insert]) with ⟨r, hr, hless⟩
      exists (r.1, Memo.insert r.2 k (some r.1))
      constructor
      · rw [hr]
      · rw [absent_insert]
        rw [absent_insert] at hless
        exact Finset.Subset.trans (Finset.erase_subset k _)
          (Finset.Subset.trans hless (Finset.erase_subset k _))

theorem request_of_answer {fuel level : Nat} {k : K} {memo : Memo K V} {r : V × Memo K V}
    (h : answer P fuel level k memo = some r) : request P level k memo = some r := by
  have henough : (absent memo).card < Fintype.card K + 1 :=
    Nat.lt_succ_of_le (Finset.card_le_univ (absent memo))
  rcases answer_returns (P := P) (Fintype.card K + 1) level k memo henough with ⟨found, hfound, _⟩
  have hless := answer_mono (Nat.le_max_left fuel (Fintype.card K + 1)) h
  have hmore := answer_mono (Nat.le_max_right fuel (Fintype.card K + 1)) hfound
  rw [hless] at hmore
  rw [request, hfound, hmore]

end Finite

/-!
# Settled answers are kept
-/

variable {memo : Memo K V} {k : K} {level : Nat} {w : V} {size : Nat}

theorem Kept.insert_mark (h : Kept P memo) (k : K) : Kept P (Memo.insert memo k none) := by
  intro other v hentry
  cases decEq other k with
  | isTrue heq =>
    subst heq
    rw [Memo.insert_self] at hentry
    cases hentry
  | isFalse hne =>
    rw [Memo.insert_of_ne hne] at hentry
    exact h other v hentry

theorem Kept.insert_settled (h : Kept P memo) (hsettles : Settles P k level (P.body k) w size) :
    Kept P (Memo.insert memo k (some w)) := by
  intro other v hentry
  cases decEq other k with
  | isTrue heq =>
    subst heq
    rw [Memo.insert_self] at hentry
    cases hentry
    exact ⟨level, size, hsettles⟩
  | isFalse hne =>
    rw [Memo.insert_of_ne hne] at hentry
    exact h other v hentry

theorem Behind.insert_mark (h : Behind P size memo)
    (hsettles : Settles P k level (P.body k) w size) :
    Behind P size (Memo.insert memo k none) := by
  intro other hmark level' v own hown
  cases decEq other k with
  | isTrue heq =>
    subst heq
    exact Nat.le_of_eq (hsettles.unique hown).right.symm
  | isFalse hne =>
    rw [Memo.insert_of_ne hne] at hmark
    exact h other hmark level' v own hown

theorem SameMarks.answered {later : Memo K V} (habsent : memo k = none)
    (h : SameMarks (Memo.insert memo k none) later) :
    SameMarks memo (Memo.insert later k (some w)) := by
  intro other
  cases decEq other k with
  | isTrue heq =>
    subst heq
    rw [Memo.insert_self, habsent]
    constructor
    · intro hmark
      cases hmark
    · intro hmark
      cases hmark
  | isFalse hne =>
    rw [Memo.insert_of_ne hne, h other, Memo.insert_of_ne hne]

theorem Settles.answered {k : K} {level : Nat} {w : V} {size : Nat}
    (h : Settles P k level (P.body k) w size)
    (hruns : forall {memo : Memo K V}, memo k = some none -> Kept P memo -> Behind P size memo ->
      exists fuel later, run P (answer P fuel) level (P.body k) memo = some (w, later) ∧
        Kept P later ∧ SameMarks memo later)
    {memo : Memo K V} (hmark : memo k ≠ some none) (hkept : Kept P memo)
    (hbehind : Behind P size memo) :
    exists fuel later, answer P fuel level k memo = some (w, later) ∧
      Kept P later ∧ SameMarks memo later := by
  cases hentry : memo k with
  | some entry =>
    cases entry with
    | none => exact absurd hentry hmark
    | some u =>
      rcases hkept k u hentry with ⟨level', own, hsettled⟩
      have hu : u = w := (h.unique hsettled).left
      subst hu
      exists 1, memo
      constructor
      · rw [answer, hentry]
      · exact ⟨hkept, fun _ => Iff.rfl⟩
  | none =>
    rcases hruns (Memo.insert_self memo k none) (hkept.insert_mark k) (hbehind.insert_mark h)
      with ⟨fuel, later, hrun, hlater, hmarks⟩
    exists fuel + 1, Memo.insert later k (some w)
    constructor
    · rw [answer, hentry]
      simp only [hrun]
    · exact ⟨hlater.insert_settled h, hmarks.answered hentry⟩

/-- Whatever is kept by then, a computation that settles comes to what it settles to. -/
theorem Settles.runs {self : K} {q : Query K V V} {v : V} (h : Settles P self level q v size) :
    forall {memo : Memo K V},
      memo self = some none -> Kept P memo -> Behind P size memo ->
        exists fuel later, run P (answer P fuel) level q memo = some (v, later) ∧
          Kept P later ∧ SameMarks memo later := by
  induction h with
  | done =>
    intro memo _ hkept _
    exact ⟨0, memo, rfl, hkept, fun _ => Iff.rfl⟩
  | @itself self level next v size rest ih =>
    intro memo hself hkept hbehind
    rcases ih hself hkept hbehind with ⟨fuel, later, hrun, hlater, hmarks⟩
    have hanswer : answer P (fuel + 1) level self memo = some (P.unsettled, memo) := by
      rw [answer, hself]
    exists fuel + 1, later
    constructor
    · rw [run, hanswer]
      exact run_mono (fun level k memo r => answer_succ) _ hrun
    · exact ⟨hlater, hmarks⟩
  | @other self level k next w v size left ne asked rest ihasked ihrest =>
    intro memo hself hkept hbehind
    have hmark : memo k ≠ some none := by
      intro hentry
      have hsize := hbehind k hentry level w size asked
      omega
    have hless : Behind P size memo := hbehind.mono (by omega)
    rcases asked.answered ihasked hmark hkept hless with ⟨fuel, middle, hanswer, hmiddle, hmarks⟩
    have hmore : Behind P left middle := (hbehind.mono (by omega)).of_sameMarks hmarks
    rcases ihrest ((hmarks self).mpr hself) hmiddle hmore with
      ⟨fuel', later, hrun, hlater, hmarks'⟩
    exists max fuel fuel', later
    constructor
    · rw [run, answer_mono (Nat.le_max_left fuel fuel') hanswer]
      exact run_mono (fun level k memo r => answer_mono (Nat.le_max_right fuel fuel')) _ hrun
    · exact ⟨hlater, fun other => (hmarks' other).trans (hmarks other)⟩
  | enter room rest ih =>
    intro memo hself hkept hbehind
    rcases ih hself hkept hbehind with ⟨fuel, later, hrun, hlater⟩
    exists fuel, later
    constructor
    · rw [run, if_pos room]
      exact hrun
    · exact hlater
  | leave rest ih =>
    intro memo hself hkept hbehind
    rcases ih hself hkept hbehind with ⟨fuel, later, hrun, hlater⟩
    exact ⟨fuel, later, hrun, hlater⟩

section Requests

variable [Fintype K]

theorem Settles.answers {k : K} {level : Nat} {v : V} {size : Nat}
    (h : Settles P k level (P.body k) v size) {memo : Memo K V} (hresting : Resting P memo) :
    exists later, request P level k memo = some (v, later) ∧ Resting P later := by
  have hbehind : Behind P size memo := by
    intro other hmark
    exact absurd hmark (hresting.unmarked other)
  rcases h.answered h.runs (hresting.unmarked k) hresting.kept hbehind with
    ⟨fuel, later, hanswer, hkept, hmarks⟩
  exists later
  constructor
  · exact request_of_answer hanswer
  · constructor
    · exact hkept
    · intro other hmark
      exact hresting.unmarked other ((hmarks other).mp hmark)

theorem Settles.fresh {k : K} {level : Nat} {v : V} {size : Nat}
    (h : Settles P k level (P.body k) v size) : fresh P k = some v := by
  rcases (h.lower (Nat.zero_le level)).answers resting_empty with ⟨later, hrequest, _⟩
  rw [MemoProgram.fresh, hrequest]
  rfl

/-- In every order of requests that settle the memo answers as an empty one would. -/
theorem session_settles {asks : List (Nat × K)}
    (h : forall a, a ∈ asks -> Settled P a.1 a.2) : forall {memo : Memo K V}, Resting P memo ->
      exists answers later, session P asks memo = some (answers, later) ∧
        answers.map some = asks.map (fun a => MemoProgram.fresh P a.2) ∧ Resting P later := by
  induction asks with
  | nil =>
    intro memo hresting
    exact ⟨[], memo, rfl, rfl, hresting⟩
  | cons a rest ih =>
    intro memo hresting
    rcases h a List.mem_cons_self with ⟨v, size, hsettles⟩
    rcases hsettles.answers hresting with ⟨middle, hrequest, hmiddle⟩
    rcases ih (fun b hb => h b (List.mem_cons_of_mem a hb)) hmiddle with
      ⟨answers, later, hsession, hanswers, hlater⟩
    exists v :: answers, later
    constructor
    · rw [session, hrequest]
      simp only [hsession]
    · constructor
      · rw [List.map_cons, List.map_cons, hanswers, hsettles.fresh]
      · exact hlater

theorem Resting.fresh {memo : Memo K V} (h : Resting P memo) {k : K} {v : V}
    (hentry : memo k = some (some v)) : MemoProgram.fresh P k = some v := by
  rcases h.kept k v hentry with ⟨level, size, hsettles⟩
  exact hsettles.fresh

end Requests

end Memos

end MemoProgram

end Foundation
end JavaVsixLite
