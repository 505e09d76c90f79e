import Mathlib.Data.List.Basic
import JavaVsixLite.Foundation.Utf8

/-!
# Recursive descent over bytes

A parser takes what is left of the input and hands back a value and the rest.  One
that fails keeps what it has read, so its caller may go on behind it.  The two loops
are those of hand-written parsers: items up to a closing byte, and a body repeated
as long as a byte comes next.

Two parsers agree when they succeed on the same inputs and leave the same rest.  A
parser reads some bytes when it takes exactly those, and rejects them when it fails,
whatever follows.
-/

namespace JavaVsixLite
namespace Foundation

def Parser (β : Type) : Type :=
  List UInt8 -> Option β × List UInt8

def ascii (c : Char) : UInt8 :=
  UInt8.ofNat c.toNat

namespace Parser

def pure {β : Type} (value : β) : Parser β :=
  fun rest => (some value, rest)

def bind {β γ : Type} (p : Parser β) (next : β -> Parser γ) : Parser γ :=
  fun rest =>
    match p rest with
    | (some value, rest') => next value rest'
    | (none, rest') => (none, rest')

instance : Monad Parser where
  pure := pure
  bind := bind

def fail {β : Type} : Parser β :=
  fun rest => (none, rest)

def look : Parser (Option UInt8) :=
  fun rest => (some rest.head?, rest)

def peek : Parser UInt8 :=
  fun rest => (rest.head?, rest)

def bump : Parser UInt8 :=
  fun rest =>
    match rest with
    | [] => (none, [])
    | b :: rest => (some b, rest)

def expect (b : UInt8) : Parser Unit := do
  let found <- bump
  if found = b then pure () else fail

def readUntil (stops : List UInt8) : Parser Text :=
  fun rest =>
    (some (Utf8.fromUtf8Lossy (rest.takeWhile (fun b => !stops.contains b))),
      rest.dropWhile (fun b => !stops.contains b))

/-- Whether or not `p` succeeds, what it has read is gone. -/
def attempt {β : Type} (p : Parser β) : Parser (Option β) :=
  fun rest => (some (p rest).1, (p rest).2)

def manyUntilFrom {β : Type} (stop : UInt8) (p : Parser β) : Nat -> Parser (List β)
  | 0 => fail
  | fuel + 1 => do
      let b <- peek
      if b = stop then pure []
      else do
        let value <- p
        let values <- manyUntilFrom stop p fuel
        pure (value :: values)

/-- Items up to the byte `stop`, which stays; each item takes a byte at least. -/
def manyUntil {β : Type} (stop : UInt8) (p : Parser β) : Parser (List β) :=
  fun rest => manyUntilFrom stop p rest.length rest

def whileNextFrom {σ : Type} (b : UInt8) (body : σ -> Parser σ) : Nat -> σ -> Parser σ
  | 0, s => pure s
  | fuel + 1, s => do
      let next <- look
      if next = some b then do
        let _ <- bump
        let s' <- body s
        whileNextFrom b body fuel s'
      else pure s

/-- The body, behind a byte `b`, as long as that byte comes next. -/
def whileNext {σ : Type} (b : UInt8) (body : σ -> Parser σ) (s : σ) : Parser σ :=
  fun rest => whileNextFrom b body rest.length s rest

/-!
# Agreement
-/

variable {β γ δ ε σ τ : Type}

theorem bind_of_eq_some {p : Parser β} (next : β -> Parser γ) {input rest : List UInt8}
    {value : β} (h : p input = (some value, rest)) : (p >>= next) input = next value rest := by
  show Parser.bind p next input = next value rest
  unfold Parser.bind
  rw [h]

theorem of_bind_eq_some {p : Parser β} {next : β -> Parser γ} {input rest : List UInt8} {last : γ}
    (h : (p >>= next) input = (some last, rest)) :
    exists value mid, p input = (some value, mid) ∧ next value mid = (some last, rest) := by
  have hbind : Parser.bind p next input = (some last, rest) := h
  unfold Parser.bind at hbind
  cases hp : p input with
  | mk found mid =>
    rw [hp] at hbind
    cases found with
    | none => cases hbind
    | some value => exact ⟨value, mid, rfl, hbind⟩

theorem bind_assoc (p : Parser β) (next : β -> Parser γ) (last : γ -> Parser δ) :
    (p >>= next) >>= last = p >>= fun value => next value >>= last := by
  funext rest
  show Parser.bind (Parser.bind p next) last rest = Parser.bind p _ rest
  unfold Parser.bind
  cases p rest with
  | mk found left =>
    cases found with
    | none => rfl
    | some value => rfl

def Agrees (R : β -> γ -> Prop) (p : Parser β) (q : Parser γ) : Prop :=
  forall rest, (p rest).2 = (q rest).2 ∧ Option.Rel R (p rest).1 (q rest).1

namespace Agrees

variable {R : β -> γ -> Prop} {S : δ -> ε -> Prop} {T : σ -> τ -> Prop}

theorem pure {value : β} {value' : γ} (h : R value value') :
    Agrees R (pure value : Parser β) (pure value' : Parser γ) :=
  fun _ => ⟨rfl, .some h⟩

theorem fail : Agrees R (fail : Parser β) (fail : Parser γ) :=
  fun _ => ⟨rfl, .none⟩

theorem bind {p : Parser β} {q : Parser γ} {next : β -> Parser δ} {next' : γ -> Parser ε}
    (h : Agrees R p q) (hnext : forall value value', R value value' ->
      Agrees S (next value) (next' value')) :
    Agrees S (p >>= next) (q >>= next') := by
  intro rest
  rcases h rest with ⟨hrest, hvalue⟩
  show (Parser.bind p next rest).2 = (Parser.bind q next' rest).2 ∧
    Option.Rel S (Parser.bind p next rest).1 (Parser.bind q next' rest).1
  unfold Parser.bind
  cases hp : p rest with
  | mk found left =>
    cases hq : q rest with
    | mk found' left' =>
      rw [hp, hq] at hrest hvalue
      cases hvalue with
      | none => exact ⟨hrest, .none⟩
      | some hvalue =>
        have hleft : left = left' := hrest
        subst hleft
        exact hnext _ _ hvalue left

theorem refl (p : Parser β) : Agrees Eq p p := by
  intro rest
  refine ⟨rfl, ?_⟩
  cases (p rest).1 with
  | none => exact .none
  | some value => exact .some rfl

theorem after (p : Parser β) {next : β -> Parser δ} {next' : β -> Parser ε}
    (h : forall value, Agrees S (next value) (next' value)) :
    Agrees S (p >>= next) (p >>= next') := by
  apply (refl p).bind
  rintro value _ rfl
  exact h value

theorem pure_left {p : Parser β} {q : Parser γ} {next : β -> Parser δ} {f : β -> δ}
    (h : Agrees (fun _ _ => True) p q) (hnext : forall value, next value = Parser.pure (f value)) :
    Agrees (fun _ _ => True) (p >>= next) q := by
  intro rest
  rcases h rest with ⟨hrest, hvalue⟩
  show (Parser.bind p next rest).2 = (q rest).2 ∧
    Option.Rel (fun _ _ => True) (Parser.bind p next rest).1 (q rest).1
  unfold Parser.bind
  cases hp : p rest with
  | mk found left =>
    rw [hp] at hrest hvalue
    cases found with
    | none =>
      refine ⟨hrest, ?_⟩
      cases hq : (q rest).1 with
      | none => exact .none
      | some value' =>
        rw [hq] at hvalue
        cases hvalue
    | some value =>
      show (next value left).2 = (q rest).2 ∧
        Option.Rel (fun _ _ => True) (next value left).1 (q rest).1
      rw [hnext]
      refine ⟨hrest, ?_⟩
      cases hq : (q rest).1 with
      | none =>
        rw [hq] at hvalue
        cases hvalue
      | some value' => exact .some trivial

theorem attempt {p : Parser β} {q : Parser γ} (h : Agrees R p q) :
    Agrees (fun _ _ => True) (attempt p) (attempt q) :=
  fun rest => ⟨(h rest).1, .some trivial⟩

theorem manyUntilFrom {p : Parser β} {q : Parser γ} (stop : UInt8) (h : Agrees R p q)
    (fuel : Nat) :
    Agrees (List.Forall₂ R) (manyUntilFrom stop p fuel) (manyUntilFrom stop q fuel) := by
  induction fuel with
  | zero => exact fail
  | succ fuel ih =>
    apply after
    intro b
    by_cases hb : b = stop
    · simp only [if_pos hb]
      exact pure .nil
    · simp only [if_neg hb]
      apply h.bind
      intro value value' hvalue
      apply ih.bind
      intro values values' hvalues
      exact pure (.cons hvalue hvalues)

theorem manyUntil {p : Parser β} {q : Parser γ} (stop : UInt8) (h : Agrees R p q) :
    Agrees (List.Forall₂ R) (manyUntil stop p) (manyUntil stop q) :=
  fun rest => manyUntilFrom stop h rest.length rest

theorem whileNextFrom {body : σ -> Parser σ} {body' : τ -> Parser τ} (b : UInt8)
    (h : forall s s', T s s' -> Agrees T (body s) (body' s')) (fuel : Nat) {s : σ} {s' : τ}
    (hs : T s s') :
    Agrees T (whileNextFrom b body fuel s) (whileNextFrom b body' fuel s') := by
  induction fuel generalizing s s' with
  | zero => exact pure hs
  | succ fuel ih =>
    apply after
    intro next
    by_cases hnext : next = some b
    · simp only [if_pos hnext]
      apply after
      intro _
      apply (h s s' hs).bind
      intro t t' ht
      exact ih ht
    · simp only [if_neg hnext]
      exact pure hs

theorem whileNext {body : σ -> Parser σ} {body' : τ -> Parser τ} (b : UInt8)
    (h : forall s s', T s s' -> Agrees T (body s) (body' s')) {s : σ} {s' : τ} (hs : T s s') :
    Agrees T (whileNext b body s) (whileNext b body' s') :=
  fun rest => whileNextFrom b h rest.length hs rest

theorem isSome_eq {p : Parser β} {q : Parser γ} (h : Agrees R p q) (rest : List UInt8) :
    (p rest).1.isSome = (q rest).1.isSome := by
  have hrel := (h rest).2
  cases hp : (p rest).1 with
  | none =>
    rw [hp] at hrel
    cases hq : (q rest).1 with
    | none => rfl
    | some value' =>
      rw [hq] at hrel
      cases hrel
  | some value =>
    rw [hp] at hrel
    cases hq : (q rest).1 with
    | none =>
      rw [hq] at hrel
      cases hrel
    | some value' => rfl

end Agrees

/-!
# Reading given bytes

`Reads ok p bytes value`: on the bytes, followed by anything that meets `ok`, the
parser takes exactly the bytes and gives the value.
-/

def Reads (ok : List UInt8 -> Prop) (p : Parser β) (bytes : List UInt8) (value : β) : Prop :=
  forall after, ok after -> p (bytes ++ after) = (some value, after)

def StopsAt (stops : List UInt8) (after : List UInt8) : Prop :=
  forall b, after.head? = some b -> b ∈ stops

def NotNext (b : UInt8) (after : List UInt8) : Prop :=
  after.head? ≠ some b

namespace Reads

variable {ok ok' : List UInt8 -> Prop} {bytes more : List UInt8} {value : β} {last : γ}

theorem pure (value : β) : Reads ok (pure value : Parser β) [] value :=
  fun _ _ => rfl

theorem bind {p : Parser β} {next : β -> Parser γ} (hp : Reads ok' p bytes value)
    (hok : forall after, ok after -> ok' (more ++ after))
    (hnext : Reads ok (next value) more last) :
    Reads ok (p >>= next) (bytes ++ more) last := by
  intro after hafter
  rw [List.append_assoc, bind_of_eq_some next (hp (more ++ after) (hok after hafter))]
  exact hnext after hafter

theorem map {p : Parser β} (hp : Reads ok p bytes value) (f : β -> γ) :
    Reads ok (p >>= fun value => Parser.pure (f value)) bytes (f value) := by
  have hall : Reads ok (p >>= fun value => Parser.pure (f value)) (bytes ++ []) (f value) :=
    hp.bind (fun _ hafter => hafter) (pure (f value))
  rw [List.append_nil] at hall
  exact hall

theorem weaken {p : Parser β} (hp : Reads ok' p bytes value)
    (hok : forall after, ok after -> ok' after) : Reads ok p bytes value :=
  fun after hafter => hp after (hok after hafter)

theorem look {next : Option UInt8 -> Parser γ} {b : UInt8}
    (h : Reads ok (next (some b)) (b :: bytes) last) :
    Reads ok (Parser.look >>= next) (b :: bytes) last :=
  fun after hafter => h after hafter

theorem peek {next : UInt8 -> Parser γ} {b : UInt8} (h : Reads ok (next b) (b :: bytes) last) :
    Reads ok (Parser.peek >>= next) (b :: bytes) last :=
  fun after hafter => h after hafter

theorem bump {next : UInt8 -> Parser γ} {b : UInt8} (h : Reads ok (next b) bytes last) :
    Reads ok (Parser.bump >>= next) (b :: bytes) last :=
  fun after hafter => h after hafter

theorem expect {next : Unit -> Parser γ} {b : UInt8} (h : Reads ok (next ()) bytes last) :
    Reads ok (Parser.expect b >>= next) (b :: bytes) last := by
  intro after hafter
  have hfound : Parser.expect b (b :: (bytes ++ after)) = (some (), bytes ++ after) := by
    show (if b = b then Parser.pure () else Parser.fail : Parser Unit) (bytes ++ after) = _
    rw [if_pos rfl]
    rfl
  show Parser.bind (Parser.expect b) next (b :: (bytes ++ after)) = _
  unfold Parser.bind
  rw [hfound]
  exact h after hafter

theorem attempt {p : Parser β} (hp : Reads ok p bytes value) :
    Reads ok (Parser.attempt p) bytes (some value) := by
  intro after hafter
  unfold Parser.attempt
  rw [hp after hafter]

theorem readUntil {stops : List UInt8} {text : Text}
    (h : forall b, b ∈ Utf8.encode text -> b ∉ stops) :
    Reads (StopsAt stops) (Parser.readUntil stops) (Utf8.encode text) text := by
  intro after hafter
  have hinside : forall b, b ∈ Utf8.encode text -> (!stops.contains b) = true := by
    intro b hb
    simpa using h b hb
  have htake : after.takeWhile (fun b => !stops.contains b) = [] := by
    cases after with
    | nil => rfl
    | cons b rest => simp [hafter b rfl]
  have hdrop : after.dropWhile (fun b => !stops.contains b) = after := by
    cases after with
    | nil => rfl
    | cons b rest => simp [hafter b rfl]
  unfold Parser.readUntil
  rw [List.takeWhile_append_of_pos hinside, List.dropWhile_append_of_pos hinside, htake, hdrop,
    List.append_nil, Utf8.fromUtf8Lossy_encode]

end Reads

def ManyReads (stop : UInt8) (p : Parser β) (bytes : List UInt8) (values : List β) : Prop :=
  forall after fuel, (bytes ++ stop :: after).length ≤ fuel ->
    manyUntilFrom stop p fuel (bytes ++ stop :: after) = (some values, stop :: after)

namespace ManyReads

variable {stop : UInt8} {p : Parser β} {bytes more : List UInt8} {value : β} {values : List β}

theorem nil : ManyReads stop p [] [] := by
  intro after fuel hfuel
  cases fuel with
  | zero => cases hfuel
  | succ fuel =>
    show (if stop = stop then Parser.pure [] else _ : Parser (List β)) (stop :: after) = _
    rw [if_pos rfl]
    rfl

theorem cons {b : UInt8} (hb : b ≠ stop) (hp : Reads (fun _ => True) p (b :: bytes) value)
    (h : ManyReads stop p more values) :
    ManyReads stop p (b :: bytes ++ more) (value :: values) := by
  intro after fuel hfuel
  cases fuel with
  | zero => simp at hfuel
  | succ fuel =>
    have hfirst := hp (more ++ stop :: after) trivial
    have hrest := h after fuel (by
      simp only [List.cons_append, List.length_cons, List.length_append] at hfuel ⊢
      omega)
    rw [← List.append_assoc] at hfirst
    show (if b = stop then Parser.pure [] else
      (p >>= fun value => manyUntilFrom stop p fuel >>= fun values =>
        Parser.pure (value :: values)) : Parser (List β)) (b :: bytes ++ more ++ stop :: after) = _
    rw [if_neg hb]
    rw [bind_of_eq_some _ hfirst, bind_of_eq_some _ hrest]
    rfl

theorem manyUntil (h : ManyReads stop p bytes values) :
    Reads (fun after => after.head? = some stop) (Parser.manyUntil stop p) bytes values := by
  intro after hafter
  cases after with
  | nil => cases hafter
  | cons b rest =>
    injection hafter with hb
    subst hb
    exact h rest _ (Nat.le_refl _)

end ManyReads

theorem whileNextFrom_cons (b : UInt8) (body : σ -> Parser σ) (fuel : Nat) (s : σ)
    (rest : List UInt8) :
    whileNextFrom b body (fuel + 1) s (b :: rest) =
      (body s >>= fun t => whileNextFrom b body fuel t) rest := by
  show (if some b = some b then
    (Parser.bump >>= fun _ => body s >>= fun t => whileNextFrom b body fuel t) else
      Parser.pure s : Parser σ) (b :: rest) = _
  rw [if_pos rfl]
  rfl

def WhileReads (ok : List UInt8 -> Prop) (b : UInt8) (body : σ -> Parser σ) (s : σ)
    (bytes : List UInt8) (t : σ) : Prop :=
  forall after fuel, ok after -> (bytes ++ after).length ≤ fuel ->
    whileNextFrom b body fuel s (bytes ++ after) = (some t, after)

namespace WhileReads

variable {ok ok' : List UInt8 -> Prop} {b : UInt8} {body : σ -> Parser σ} {s t u : σ}
  {bytes more : List UInt8}

theorem nil (hok : forall after, ok after -> NotNext b after) :
    WhileReads ok b body s [] s := by
  intro after fuel hafter _
  cases fuel with
  | zero => rfl
  | succ fuel =>
    show (if after.head? = some b then _ else Parser.pure s : Parser σ) after = _
    rw [if_neg (hok after hafter)]
    rfl

theorem cons (hbody : Reads ok' (body s) bytes t)
    (hok : forall after, ok after -> ok' (more ++ after)) (h : WhileReads ok b body t more u) :
    WhileReads ok b body s (b :: bytes ++ more) u := by
  intro after fuel hafter hfuel
  cases fuel with
  | zero => simp at hfuel
  | succ fuel =>
    have hlength : (more ++ after).length ≤ fuel := by
      simp only [List.cons_append, List.length_cons, List.length_append] at hfuel ⊢
      omega
    rw [List.append_assoc, List.cons_append, whileNextFrom_cons,
      bind_of_eq_some _ (hbody (more ++ after) (hok after hafter))]
    exact h after fuel hafter hlength

theorem weaken (h : WhileReads ok' b body s bytes t) (hok : forall after, ok after -> ok' after) :
    WhileReads ok b body s bytes t :=
  fun after fuel hafter => h after fuel (hok after hafter)

theorem whileNext (h : WhileReads ok b body s bytes t) :
    Reads ok (Parser.whileNext b body s) bytes t :=
  fun after hafter => h after _ hafter (Nat.le_refl _)

end WhileReads

/-!
# Failing on given bytes
-/

def Rejects (p : Parser β) (bytes : List UInt8) : Prop :=
  forall after, (p (bytes ++ after)).1 = none

namespace Rejects

variable {bytes more : List UInt8} {value : β}

theorem fail : Rejects (fail : Parser β) bytes :=
  fun _ => rfl

theorem append {p : Parser β} (h : Rejects p bytes) (more : List UInt8) :
    Rejects p (bytes ++ more) := by
  intro after
  rw [List.append_assoc]
  exact h (more ++ after)

theorem bind {p : Parser β} (h : Rejects p bytes) (next : β -> Parser γ) :
    Rejects (p >>= next) bytes := by
  intro after
  show (Parser.bind p next (bytes ++ after)).1 = none
  have hnone := h after
  unfold Parser.bind
  cases hp : p (bytes ++ after) with
  | mk found rest =>
    rw [hp] at hnone
    cases hnone
    rfl

theorem behind {p : Parser β} {next : β -> Parser γ} {ok : List UInt8 -> Prop}
    (hp : Reads ok p bytes value) (hok : forall after, ok (more ++ after))
    (h : Rejects (next value) more) : Rejects (p >>= next) (bytes ++ more) := by
  intro after
  rw [List.append_assoc, bind_of_eq_some next (hp (more ++ after) (hok after))]
  exact h after

theorem look {next : Option UInt8 -> Parser γ} {b : UInt8}
    (h : Rejects (next (some b)) (b :: bytes)) : Rejects (Parser.look >>= next) (b :: bytes) :=
  fun after => h after

theorem peek {next : UInt8 -> Parser γ} {b : UInt8} (h : Rejects (next b) (b :: bytes)) :
    Rejects (Parser.peek >>= next) (b :: bytes) :=
  fun after => h after

theorem bump {next : UInt8 -> Parser γ} {b : UInt8} (h : Rejects (next b) bytes) :
    Rejects (Parser.bump >>= next) (b :: bytes) :=
  fun after => h after

theorem expect {next : Unit -> Parser γ} {b : UInt8} (h : Rejects (next ()) bytes) :
    Rejects (Parser.expect b >>= next) (b :: bytes) := by
  have hfound : Reads (fun _ => True) (Parser.expect b) [b] () := by
    intro after _
    show (if b = b then Parser.pure () else Parser.fail : Parser Unit) after = _
    rw [if_pos rfl]
    rfl
  exact behind hfound (fun _ => trivial) h

end Rejects

def ManyRejects (stop : UInt8) (p : Parser β) (bytes : List UInt8) : Prop :=
  forall after fuel, (manyUntilFrom stop p fuel (bytes ++ after)).1 = none

namespace ManyRejects

variable {stop b : UInt8} {p : Parser β} {bytes more : List UInt8} {value : β}

theorem round (hb : b ≠ stop) {fuel : Nat}
    (h : Rejects (p >>= fun value => manyUntilFrom stop p fuel >>= fun values =>
      Parser.pure (value :: values)) (b :: bytes)) :
    Rejects (manyUntilFrom stop p (fuel + 1)) (b :: bytes) := by
  apply Rejects.peek
  rw [if_neg hb]
  exact h

theorem here (hb : b ≠ stop) (h : Rejects p (b :: bytes)) : ManyRejects stop p (b :: bytes) := by
  intro after fuel
  cases fuel with
  | zero => rfl
  | succ fuel => exact round hb (h.bind _) after

theorem cons (hb : b ≠ stop) (hp : Reads (fun _ => True) p (b :: bytes) value)
    (h : ManyRejects stop p more) : ManyRejects stop p (b :: bytes ++ more) := by
  intro after fuel
  cases fuel with
  | zero => rfl
  | succ fuel =>
    have hrest : Rejects (manyUntilFrom stop p fuel) more := fun after => h after fuel
    exact round hb (Rejects.behind hp (fun _ => trivial) (hrest.bind _)) after

theorem append (h : ManyRejects stop p bytes) (more : List UInt8) :
    ManyRejects stop p (bytes ++ more) := by
  intro after fuel
  rw [List.append_assoc]
  exact h (more ++ after) fuel

theorem manyUntil (h : ManyRejects stop p bytes) : Rejects (Parser.manyUntil stop p) bytes :=
  fun after => h after _

end ManyRejects

def WhileRejects (b : UInt8) (body : σ -> Parser σ) (s : σ) (bytes : List UInt8) : Prop :=
  forall after fuel, (bytes ++ after).length ≤ fuel ->
    (whileNextFrom b body fuel s (bytes ++ after)).1 = none

namespace WhileRejects

variable {b : UInt8} {body : σ -> Parser σ} {s t : σ} {bytes more : List UInt8}

theorem here (h : Rejects (body s) bytes) : WhileRejects b body s (b :: bytes) := by
  intro after fuel hfuel
  cases fuel with
  | zero => cases hfuel
  | succ fuel =>
    rw [List.cons_append, whileNextFrom_cons]
    exact h.bind _ after

theorem cons {ok : List UInt8 -> Prop} (hbody : Reads ok (body s) bytes t)
    (hok : forall after, ok (more ++ after)) (h : WhileRejects b body t more) :
    WhileRejects b body s (b :: bytes ++ more) := by
  intro after fuel hfuel
  cases fuel with
  | zero => simp at hfuel
  | succ fuel =>
    have hlength : (more ++ after).length ≤ fuel := by
      simp only [List.cons_append, List.length_cons, List.length_append] at hfuel ⊢
      omega
    rw [List.append_assoc, List.cons_append, whileNextFrom_cons,
      bind_of_eq_some _ (hbody (more ++ after) (hok after))]
    exact h after fuel hlength

theorem append (h : WhileRejects b body s bytes) (more : List UInt8) :
    WhileRejects b body s (bytes ++ more) := by
  intro after fuel hfuel
  rw [List.append_assoc] at hfuel ⊢
  exact h (more ++ after) fuel hfuel

theorem whileNext (h : WhileRejects b body s bytes) : Rejects (Parser.whileNext b body s) bytes :=
  fun after => h after _ (Nat.le_refl _)

end WhileRejects

/-!
# Parsers that do not fail
-/

def Yields (post : β -> Prop) (p : Parser β) (input : List UInt8) : Prop :=
  exists value, (p input).1 = some value ∧ post value

namespace Yields

variable {mid : β -> Prop} {post : γ -> Prop} {input : List UInt8}

theorem pure {value : γ} (h : post value) : Yields post (pure value) input :=
  ⟨value, rfl, h⟩

theorem bind {p : Parser β} {next : β -> Parser γ} (hp : Yields mid p input)
    (hnext : forall value, mid value -> forall rest, Yields post (next value) rest) :
    Yields post (p >>= next) input := by
  rcases hp with ⟨value, hvalue, hmid⟩
  show exists last, (Parser.bind p next input).1 = some last ∧ post last
  unfold Parser.bind
  cases hresult : p input with
  | mk found rest =>
    rw [hresult] at hvalue
    cases hvalue
    exact hnext value hmid rest

theorem bump {next : UInt8 -> Parser γ} {b : UInt8} {rest : List UInt8}
    (h : Yields post (next b) rest) : Yields post (Parser.bump >>= next) (b :: rest) :=
  h

theorem attempt (p : Parser β) : Yields (fun _ => True) (Parser.attempt p) input :=
  ⟨(p input).1, rfl, trivial⟩

theorem readUntil (stops : List UInt8) : Yields (fun _ => True) (Parser.readUntil stops) input :=
  ⟨_, rfl, trivial⟩

variable {inv : σ -> Prop} {b : UInt8} {body : σ -> Parser σ}

theorem whileNextFrom (hbody : forall s, inv s -> forall input, Yields inv (body s) input)
    (fuel : Nat) {s : σ} (hs : inv s) (input : List UInt8) :
    Yields inv (Parser.whileNextFrom b body fuel s) input := by
  induction fuel generalizing s input with
  | zero => exact pure hs
  | succ fuel ih =>
    cases input with
    | nil => exact pure hs
    | cons c rest =>
      show Yields inv (if some c = some b then
        (Parser.bump >>= fun _ => body s >>= fun t => Parser.whileNextFrom b body fuel t)
        else Parser.pure s) (c :: rest)
      split
      · exact bump ((hbody s hs rest).bind (fun t ht rest => ih ht rest))
      · exact pure hs


end Yields

end Parser

end Foundation
end JavaVsixLite
