import JavaVsixLite.Foundation.Endian
import JavaVsixLite.Foundation.Utf8

/-!
# The JDWP wire codec

Payloads are read and written big-endian.  Object, type, method, field and frame
ids have the widths that the debuggee reports.  Everything that is read came from
the debuggee, so each read checks the bounds first; an index or a slice that would
still be out of range ends in `Outcome.panic`.
-/

namespace JavaVsixLite
namespace Debug
namespace Codec

open Foundation

/-- Structural strings are rejected beyond this, value strings are cut. -/
def maxStringLen : Nat := 64 * 1024

structure IdSizes where
  field : Nat
  method : Nat
  object : Nat
  referenceType : Nat
  frame : Nat

def IdSizes.valid (sizes : IdSizes) : Bool :=
  [sizes.field, sizes.method, sizes.object, sizes.referenceType, sizes.frame].all
    (fun s => 1 ≤ s && s ≤ 8)

structure Location where
  typeTag : UInt8
  classId : UInt64
  methodId : UInt64
  index : UInt64

inductive Value where
  | void
  | boolean (v : Bool)
  | byte (v : Int8)
  | char (v : UInt16)
  | short (v : Int16)
  | int (v : Int32)
  | long (v : Int64)
  | float (bits : UInt32)
  | double (bits : UInt64)
  | object (tag : UInt8) (id : UInt64)

/-!
# Reading

A failed read keeps what it has consumed, so the reader comes back with every
outcome.
-/

inductive Outcome (β : Type) where
  | ok (value : β)
  | err (message : String)
  | panic

structure Reader where
  buf : List UInt8
  pos : Nat

def Decoder (β : Type) : Type :=
  Reader -> Outcome β × Reader

namespace Decoder

def pure {β : Type} (value : β) : Decoder β :=
  fun r => (.ok value, r)

/-- The `?` of the source. -/
def bind {β γ : Type} (d : Decoder β) (next : β -> Decoder γ) : Decoder γ :=
  fun r =>
    match d r with
    | (.ok value, r') => next value r'
    | (.err message, r') => (.err message, r')
    | (.panic, r') => (.panic, r')

instance : Monad Decoder where
  pure := pure
  bind := bind

def fail {β : Type} (message : String) : Decoder β :=
  fun r => (.err message, r)

/-- `bytes[i]` -/
def index (bytes : List UInt8) (i : Nat) : Decoder UInt8 :=
  fun r =>
    match bytes[i]? with
    | some b => (.ok b, r)
    | none => (.panic, r)

end Decoder

namespace Reader

def new (buf : List UInt8) : Reader where
  buf := buf
  pos := 0

/-- An unsigned difference. -/
def remaining : Decoder Nat :=
  fun r => if r.pos ≤ r.buf.length then (.ok (r.buf.length - r.pos), r) else (.panic, r)

/-- `buf[pos..pos + n]`, and the cursor behind it. -/
def slice (n : Nat) : Decoder (List UInt8) :=
  fun r =>
    if r.pos + n ≤ r.buf.length then
      (.ok ((r.buf.drop r.pos).take n), { r with pos := r.pos + n })
    else (.panic, r)

def take (n : Nat) : Decoder (List UInt8) := do
  let left <- remaining
  if left < n then
    Decoder.fail s!"truncated payload: wanted {n} bytes, {left} left"
  else
    slice n

def u8 : Decoder UInt8 := do
  let b <- take 1
  Decoder.index b 0

def u16 : Decoder UInt16 := do
  let b <- take 2
  let b0 <- Decoder.index b 0
  let b1 <- Decoder.index b 1
  pure (UInt16.ofNat (Endian.beNat [b0, b1]))

def u32 : Decoder UInt32 := do
  let b <- take 4
  let b0 <- Decoder.index b 0
  let b1 <- Decoder.index b 1
  let b2 <- Decoder.index b 2
  let b3 <- Decoder.index b 3
  pure (UInt32.ofNat (Endian.beNat [b0, b1, b2, b3]))

def u64 : Decoder UInt64 := do
  let b <- take 8
  let b0 <- Decoder.index b 0
  let b1 <- Decoder.index b 1
  let b2 <- Decoder.index b 2
  let b3 <- Decoder.index b 3
  let b4 <- Decoder.index b 4
  let b5 <- Decoder.index b 5
  let b6 <- Decoder.index b 6
  let b7 <- Decoder.index b 7
  pure (UInt64.ofNat (Endian.beNat [b0, b1, b2, b3, b4, b5, b6, b7]))

def shiftIn (v : UInt64) (byte : UInt8) : UInt64 :=
  (v <<< 8) ||| byte.toUInt64

def id (size : Nat) : Decoder UInt64 := do
  let b <- take size
  pure (b.foldl shiftIn 0)

def string : Decoder Text := do
  let declared <- u32
  let len := declared.toNat
  if len > maxStringLen then
    Decoder.fail s!"structural string too long: {len}"
  else
    let bytes <- take len
    pure (Utf8.fromUtf8Lossy bytes)

def valueString : Decoder Text := do
  let declared <- u32
  let len := declared.toNat
  let keep := min len maxStringLen
  let bytes <- take keep
  let s := Utf8.fromUtf8Lossy bytes
  if len > keep then
    let _ <- take (len - keep)
    pure s
  else
    pure s

def location (sizes : IdSizes) : Decoder Location := do
  let typeTag <- u8
  let classId <- id sizes.referenceType
  let methodId <- id sizes.method
  let index <- u64
  pure { typeTag, classId, methodId, index }

def objectTags : List UInt8 :=
  ['L', 's', '[', 't', 'g', 'l', 'c'].map (fun c => UInt8.ofNat c.toNat)

def untaggedValue (t : UInt8) (sizes : IdSizes) : Decoder Value :=
  match Char.ofNat t.toNat with
  | 'V' => pure .void
  | 'Z' => do
      let v <- u8
      pure (.boolean (v != 0))
  | 'B' => do
      let v <- u8
      pure (.byte v.toInt8)
  | 'C' => do
      let v <- u16
      pure (.char v)
  | 'S' => do
      let v <- u16
      pure (.short v.toInt16)
  | 'I' => do
      let v <- u32
      pure (.int v.toInt32)
  | 'J' => do
      let v <- u64
      pure (.long v.toInt64)
  | 'F' => do
      let v <- u32
      pure (.float v)
  | 'D' => do
      let v <- u64
      pure (.double v)
  | _ =>
    if objectTags.contains t then do
      let objectId <- id sizes.object
      pure (.object t objectId)
    else
      Decoder.fail s!"unknown value tag {t}"

def taggedValue (sizes : IdSizes) : Decoder Value := do
  let t <- u8
  untaggedValue t sizes

end Reader

/-!
# Writing
-/

structure Writer where
  buf : List UInt8

namespace Writer

def new : Writer where
  buf := []

def u8 (w : Writer) (v : UInt8) : Writer :=
  { w with buf := w.buf ++ [v] }

def u32 (w : Writer) (v : UInt32) : Writer :=
  { w with buf := w.buf ++ Endian.beBytes 4 v.toNat }

def u64 (w : Writer) (v : UInt64) : Writer :=
  { w with buf := w.buf ++ Endian.beBytes 8 v.toNat }

/-- The `size` low-order bytes, pushed one by one. -/
def id (w : Writer) (size : Nat) (v : UInt64) : Writer :=
  { w with
    buf := (List.range size).reverse.foldl
      (fun buf i => buf ++ [(v >>> UInt64.ofNat (8 * i)).toUInt8]) w.buf }

def string (w : Writer) (s : Text) : Writer :=
  let w := w.u32 (UInt32.ofNat s.byteLen)
  { w with buf := w.buf ++ Utf8.encode s }

def location (w : Writer) (sizes : IdSizes) (loc : Location) : Writer :=
  (((w.u8 loc.typeTag).id sizes.referenceType loc.classId).id sizes.method loc.methodId).u64
    loc.index

end Writer

/-!
# Sequences of operations
-/

inductive IdKind where
  | field
  | method
  | object
  | referenceType
  | frame

def IdSizes.size (sizes : IdSizes) : IdKind -> Nat
  | .field => sizes.field
  | .method => sizes.method
  | .object => sizes.object
  | .referenceType => sizes.referenceType
  | .frame => sizes.frame

/-- What a read operation hands back. -/
inductive Item where
  | u8 (v : UInt8)
  | u16 (v : UInt16)
  | u32 (v : UInt32)
  | u64 (v : UInt64)
  | string (s : Text)
  | location (loc : Location)
  | value (v : Value)

inductive ReadOp where
  | u8
  | u16
  | u32
  | u64
  | id (size : Nat)
  | string
  | valueString
  | location (sizes : IdSizes)
  | taggedValue (sizes : IdSizes)
  | untaggedValue (t : UInt8) (sizes : IdSizes)

def ReadOp.run : ReadOp -> Decoder Item
  | .u8 => Functor.map Item.u8 Reader.u8
  | .u16 => Functor.map Item.u16 Reader.u16
  | .u32 => Functor.map Item.u32 Reader.u32
  | .u64 => Functor.map Item.u64 Reader.u64
  | .id size => Functor.map Item.u64 (Reader.id size)
  | .string => Functor.map Item.string Reader.string
  | .valueString => Functor.map Item.string Reader.valueString
  | .location sizes => Functor.map Item.location (Reader.location sizes)
  | .taggedValue sizes => Functor.map Item.value (Reader.taggedValue sizes)
  | .untaggedValue t sizes => Functor.map Item.value (Reader.untaggedValue t sizes)

/-- One operation after the other, also after one that failed. -/
def readAll : List ReadOp -> Reader -> List (Outcome Item) × Reader
  | [], r => ([], r)
  | op :: rest, r =>
    let (outcome, r') := op.run r
    let (outcomes, last) := readAll rest r'
    (outcome :: outcomes, last)

inductive WriteOp where
  | u8 (v : UInt8)
  | u32 (v : UInt32)
  | u64 (v : UInt64)
  | id (kind : IdKind) (v : UInt64)
  | string (s : Text)
  | location (loc : Location)

namespace WriteOp

def write (sizes : IdSizes) (w : Writer) : WriteOp -> Writer
  | u8 v => w.u8 v
  | u32 v => w.u32 v
  | u64 v => w.u64 v
  | id kind v => w.id (sizes.size kind) v
  | string s => w.string s
  | location loc => w.location sizes loc

/-- The read operation of the same kind. -/
def reader (sizes : IdSizes) : WriteOp -> ReadOp
  | u8 _ => .u8
  | u32 _ => .u32
  | u64 _ => .u64
  | id kind _ => .id (sizes.size kind)
  | string _ => .string
  | location _ => .location sizes

def item : WriteOp -> Item
  | u8 v => .u8 v
  | u32 v => .u32 v
  | u64 v => .u64 v
  | id _ v => .u64 v
  | string s => .string s
  | location loc => .location loc

/-- Ids fit their width and strings the limit. -/
def Fits (sizes : IdSizes) : WriteOp -> Prop
  | id kind v => v.toNat < 256 ^ sizes.size kind
  | string s => s.byteLen ≤ maxStringLen
  | location loc =>
    loc.classId.toNat < 256 ^ sizes.referenceType ∧ loc.methodId.toNat < 256 ^ sizes.method
  | _ => True

instance (sizes : IdSizes) (op : WriteOp) : Decidable (op.Fits sizes) :=
  match op with
  | u8 _ => inferInstanceAs (Decidable True)
  | u32 _ => inferInstanceAs (Decidable True)
  | u64 _ => inferInstanceAs (Decidable True)
  | id kind v => inferInstanceAs (Decidable (v.toNat < 256 ^ sizes.size kind))
  | string s => inferInstanceAs (Decidable (s.byteLen ≤ maxStringLen))
  | location loc =>
    inferInstanceAs (Decidable (loc.classId.toNat < 256 ^ sizes.referenceType ∧
      loc.methodId.toNat < 256 ^ sizes.method))

end WriteOp

/-- The bytes of a sequence of writes. -/
def writeAll (sizes : IdSizes) (ops : List WriteOp) : List UInt8 :=
  (ops.foldl (WriteOp.write sizes) Writer.new).buf

/-!
# No read passes the end

A read is safe when it keeps the cursor inside the buffer and does not panic; what
it hands back meets `P`.
-/

def Inside (r : Reader) : Prop :=
  r.pos ≤ r.buf.length

structure Safe {β : Type} (d : Decoder β) (P : β -> Prop) : Prop where
  no_panic : forall r, Inside r -> (d r).1 ≠ .panic
  inside : forall r, Inside r -> Inside (d r).2
  same_buf : forall r, Inside r -> (d r).2.buf = r.buf
  post : forall r value, Inside r -> (d r).1 = .ok value -> P value

namespace Safe

variable {β γ : Type} {P : β -> Prop} {Q : γ -> Prop}

theorem of_pure {value : β} (h : P value) : Safe (pure value : Decoder β) P where
  no_panic := by
    intro r _ heq
    cases heq
  inside := fun _ hr => hr
  same_buf := fun _ _ => rfl
  post := by
    intro r found _ heq
    cases heq
    exact h

theorem of_fail (message : String) : Safe (Decoder.fail message) P where
  no_panic := by
    intro r _ heq
    cases heq
  inside := fun _ hr => hr
  same_buf := fun _ _ => rfl
  post := by
    intro r found _ heq
    cases heq

theorem bind {d : Decoder β} {next : β -> Decoder γ} (hd : Safe d P)
    (hnext : forall value, P value -> Safe (next value) Q) : Safe (d >>= next) Q := by
  have hrun : forall r, Inside r -> ((d >>= next) r).1 ≠ .panic ∧ Inside ((d >>= next) r).2 ∧
      ((d >>= next) r).2.buf = r.buf ∧
        forall found, ((d >>= next) r).1 = .ok found -> Q found := by
    intro r hr
    have hinside := hd.inside r hr
    have hbuf := hd.same_buf r hr
    show (Decoder.bind d next r).1 ≠ .panic ∧ Inside (Decoder.bind d next r).2 ∧
      (Decoder.bind d next r).2.buf = r.buf ∧
        forall found, (Decoder.bind d next r).1 = .ok found -> Q found
    unfold Decoder.bind
    cases hstep : d r with
    | mk outcome r' =>
      rw [hstep] at hinside hbuf
      cases outcome with
      | ok value =>
        have hvalue := hnext value (hd.post r value hr (by rw [hstep]))
        exact ⟨hvalue.no_panic r' hinside, hvalue.inside r' hinside,
          (hvalue.same_buf r' hinside).trans hbuf,
          fun found => hvalue.post r' found hinside⟩
      | err message => exact ⟨nofun, hinside, hbuf, nofun⟩
      | panic => exact absurd (congrArg Prod.fst hstep) (hd.no_panic r hr)
  exact ⟨fun r hr => (hrun r hr).1, fun r hr => (hrun r hr).2.1,
    fun r hr => (hrun r hr).2.2.1, fun r found hr => (hrun r hr).2.2.2 found⟩

theorem map {d : Decoder β} (f : β -> γ) (hd : Safe d P) :
    Safe (Functor.map f d) (fun _ => True) :=
  bind hd (fun _ _ => of_pure trivial)

theorem index {bytes : List UInt8} {i : Nat} (h : i < bytes.length) :
    Safe (Decoder.index bytes i) (fun _ => True) := by
  have hbyte : bytes[i]? = some bytes[i] := List.getElem?_eq_getElem h
  have hrun : forall r, Decoder.index bytes i r = (.ok bytes[i], r) := by
    intro r
    unfold Decoder.index
    rw [hbyte]
  constructor
  · intro r _
    rw [hrun]
    nofun
  · intro r hr
    rw [hrun]
    exact hr
  · intro r _
    rw [hrun]
  · intro r value _ _
    trivial

end Safe

theorem take_eq {r : Reader} (hr : Inside r) (n : Nat) :
    Reader.take n r =
      if r.buf.length - r.pos < n then
        (.err s!"truncated payload: wanted {n} bytes, {r.buf.length - r.pos} left", r)
      else (.ok ((r.buf.drop r.pos).take n), { r with pos := r.pos + n }) := by
  show Decoder.bind Reader.remaining _ r = _
  have hpos : r.pos ≤ r.buf.length := hr
  unfold Decoder.bind Reader.remaining
  rw [if_pos hpos]
  show (if r.buf.length - r.pos < n then _ else Reader.slice n : Decoder (List UInt8)) r = _
  by_cases hshort : r.buf.length - r.pos < n
  · rw [if_pos hshort, if_pos hshort]
    rfl
  · have hfits : r.pos + n ≤ r.buf.length := by
      unfold Inside at hr
      omega
    rw [if_neg hshort, if_neg hshort]
    unfold Reader.slice
    rw [if_pos hfits]

theorem safe_take (n : Nat) : Safe (Reader.take n) (fun bytes => bytes.length = n) := by
  have hrun : forall r, Inside r -> (Reader.take n r).1 ≠ .panic ∧ Inside (Reader.take n r).2 ∧
      (Reader.take n r).2.buf = r.buf ∧
        forall bytes, (Reader.take n r).1 = .ok bytes -> bytes.length = n := by
    intro r hr
    rw [take_eq hr]
    by_cases hshort : r.buf.length - r.pos < n
    · rw [if_pos hshort]
      exact ⟨nofun, hr, rfl, nofun⟩
    · rw [if_neg hshort]
      unfold Inside at hr
      refine ⟨nofun, ?_, rfl, ?_⟩
      · show r.pos + n ≤ r.buf.length
        omega
      · intro bytes heq
        injection heq with heq
        rw [← heq, List.length_take, List.length_drop]
        omega
  exact ⟨fun r hr => (hrun r hr).1, fun r hr => (hrun r hr).2.1,
    fun r hr => (hrun r hr).2.2.1, fun r bytes hr => (hrun r hr).2.2.2 bytes⟩

theorem safe_u8 : Safe Reader.u8 (fun _ => True) := by
  apply (safe_take 1).bind
  intro b hb
  exact .index (by omega)

theorem safe_u16 : Safe Reader.u16 (fun _ => True) := by
  apply (safe_take 2).bind
  intro b hb
  refine (Safe.index (by omega)).bind (fun _ _ => ?_)
  refine (Safe.index (by omega)).bind (fun _ _ => ?_)
  exact .of_pure trivial

theorem safe_u32 : Safe Reader.u32 (fun _ => True) := by
  apply (safe_take 4).bind
  intro b hb
  refine (Safe.index (by omega)).bind (fun _ _ => ?_)
  refine (Safe.index (by omega)).bind (fun _ _ => ?_)
  refine (Safe.index (by omega)).bind (fun _ _ => ?_)
  refine (Safe.index (by omega)).bind (fun _ _ => ?_)
  exact .of_pure trivial

theorem safe_u64 : Safe Reader.u64 (fun _ => True) := by
  apply (safe_take 8).bind
  intro b hb
  refine (Safe.index (by omega)).bind (fun _ _ => ?_)
  refine (Safe.index (by omega)).bind (fun _ _ => ?_)
  refine (Safe.index (by omega)).bind (fun _ _ => ?_)
  refine (Safe.index (by omega)).bind (fun _ _ => ?_)
  refine (Safe.index (by omega)).bind (fun _ _ => ?_)
  refine (Safe.index (by omega)).bind (fun _ _ => ?_)
  refine (Safe.index (by omega)).bind (fun _ _ => ?_)
  refine (Safe.index (by omega)).bind (fun _ _ => ?_)
  exact .of_pure trivial

theorem safe_id (size : Nat) : Safe (Reader.id size) (fun _ => True) :=
  (safe_take size).bind (fun _ _ => .of_pure trivial)

theorem safe_string : Safe Reader.string (fun _ => True) := by
  apply safe_u32.bind
  intro declared _
  by_cases hlong : declared.toNat > maxStringLen
  · simp only [if_pos hlong]
    exact .of_fail _
  · simp only [if_neg hlong]
    exact (safe_take _).bind (fun _ _ => .of_pure trivial)

theorem safe_valueString : Safe Reader.valueString (fun _ => True) := by
  apply safe_u32.bind
  intro declared _
  apply (safe_take _).bind
  intro bytes _
  by_cases hlong : declared.toNat > min declared.toNat maxStringLen
  · simp only [if_pos hlong]
    exact (safe_take _).bind (fun _ _ => .of_pure trivial)
  · simp only [if_neg hlong]
    exact .of_pure trivial

theorem safe_location (sizes : IdSizes) : Safe (Reader.location sizes) (fun _ => True) := by
  refine safe_u8.bind (fun _ _ => ?_)
  refine (safe_id _).bind (fun _ _ => ?_)
  refine (safe_id _).bind (fun _ _ => ?_)
  refine safe_u64.bind (fun _ _ => ?_)
  exact .of_pure trivial

theorem safe_untaggedValue (t : UInt8) (sizes : IdSizes) :
    Safe (Reader.untaggedValue t sizes) (fun _ => True) := by
  unfold Reader.untaggedValue
  split
  · exact .of_pure trivial
  · exact safe_u8.bind (fun _ _ => .of_pure trivial)
  · exact safe_u8.bind (fun _ _ => .of_pure trivial)
  · exact safe_u16.bind (fun _ _ => .of_pure trivial)
  · exact safe_u16.bind (fun _ _ => .of_pure trivial)
  · exact safe_u32.bind (fun _ _ => .of_pure trivial)
  · exact safe_u64.bind (fun _ _ => .of_pure trivial)
  · exact safe_u32.bind (fun _ _ => .of_pure trivial)
  · exact safe_u64.bind (fun _ _ => .of_pure trivial)
  · split
    · exact (safe_id _).bind (fun _ _ => .of_pure trivial)
    · exact .of_fail _

theorem safe_taggedValue (sizes : IdSizes) : Safe (Reader.taggedValue sizes) (fun _ => True) :=
  safe_u8.bind (fun t _ => safe_untaggedValue t sizes)

theorem safe_run (op : ReadOp) : Safe op.run (fun _ => True) := by
  cases op with
  | u8 => exact safe_u8.map _
  | u16 => exact safe_u16.map _
  | u32 => exact safe_u32.map _
  | u64 => exact safe_u64.map _
  | id size => exact (safe_id size).map _
  | string => exact safe_string.map _
  | valueString => exact safe_valueString.map _
  | location sizes => exact (safe_location sizes).map _
  | taggedValue sizes => exact (safe_taggedValue sizes).map _
  | untaggedValue t sizes => exact (safe_untaggedValue t sizes).map _

/-- Every operation of a sequence leaves the cursor where the next one may start. -/
theorem readAll_inside (ops : List ReadOp) {r : Reader} (hr : Inside r) :
    Inside (readAll ops r).2 ∧ (readAll ops r).2.buf = r.buf ∧
      forall outcome, outcome ∈ (readAll ops r).1 -> outcome ≠ .panic := by
  induction ops generalizing r with
  | nil => exact ⟨hr, rfl, nofun⟩
  | cons op rest ih =>
    have hop := safe_run op
    rcases ih (hop.inside r hr) with ⟨hinside, hbuf, hrest⟩
    refine ⟨hinside, hbuf.trans (hop.same_buf r hr), ?_⟩
    intro outcome hmem
    rcases List.mem_cons.mp hmem with rfl | hmem
    · exact hop.no_panic r hr
    · exact hrest outcome hmem

/-!
# Reading back what was written

`Reads d bytes value`: wherever the bytes stand in a buffer, reading from their
start gives the value and stops behind them.
-/

def Reads {β : Type} (d : Decoder β) (bytes : List UInt8) (value : β) : Prop :=
  forall before after : List UInt8,
    d { buf := before ++ (bytes ++ after), pos := before.length } =
      (.ok value, { buf := before ++ (bytes ++ after), pos := before.length + bytes.length })

namespace Reads

variable {β γ : Type}

theorem of_pure (value : β) : Reads (pure value : Decoder β) [] value := by
  intro before after
  rfl

theorem bind {d : Decoder β} {next : β -> Decoder γ} {bytes more : List UInt8} {value : β}
    {last : γ} (hd : Reads d bytes value) (hnext : Reads (next value) more last) :
    Reads (d >>= next) (bytes ++ more) last := by
  intro before after
  have hfirst := hd before (more ++ after)
  have hsecond := hnext (before ++ bytes) after
  show Decoder.bind d next _ = _
  unfold Decoder.bind
  rw [List.append_assoc, hfirst]
  simp only [List.append_assoc, List.length_append] at hsecond ⊢
  rw [hsecond, Nat.add_assoc]

theorem bind_pure {d : Decoder β} {bytes : List UInt8} {value : β} (f : β -> γ)
    (hd : Reads d bytes value) : Reads (d >>= fun found => pure (f found)) bytes (f value) := by
  have hbind : Reads (d >>= fun found => pure (f found)) (bytes ++ []) (f value) :=
    hd.bind (of_pure (f value))
  rw [List.append_nil] at hbind
  exact hbind

theorem map {d : Decoder β} {bytes : List UInt8} {value : β} (f : β -> γ)
    (hd : Reads d bytes value) : Reads (Functor.map f d) bytes (f value) :=
  hd.bind_pure f

theorem take (bytes : List UInt8) : Reads (Reader.take bytes.length) bytes bytes := by
  intro before after
  have hinside : Inside { buf := before ++ (bytes ++ after), pos := before.length } := by
    show before.length ≤ (before ++ (bytes ++ after)).length
    rw [List.length_append]
    omega
  have hfits : ¬ (before ++ (bytes ++ after)).length - before.length < bytes.length := by
    simp only [List.length_append]
    omega
  rw [take_eq hinside, if_neg hfits, List.drop_left, List.take_left]

theorem index {bytes : List UInt8} {i : Nat} {b : UInt8} (h : bytes[i]? = some b) :
    Reads (Decoder.index bytes i) [] b := by
  intro before after
  unfold Decoder.index
  rw [h]
  rfl

end Reads

theorem reads_u8 (v : UInt8) : Reads Reader.u8 [v] v := by
  have htake := Reads.take [v]
  exact htake.bind (Reads.index rfl)

theorem reads_u32 (v : UInt32) : Reads Reader.u32 (Endian.beBytes 4 v.toNat) v := by
  have hlength := Endian.length_beBytes 4 v.toNat
  have hvalue : UInt32.ofNat (Endian.beNat (Endian.beBytes 4 v.toNat)) = v := by
    rw [Endian.beNat_beBytes v.toNat_lt]
    exact UInt32.ofNat_toNat
  generalize Endian.beBytes 4 v.toNat = bytes at hlength hvalue
  match bytes, hlength with
  | [b0, b1, b2, b3], _ =>
    have htake := Reads.take [b0, b1, b2, b3]
    rw [← hvalue]
    exact htake.bind ((Reads.index rfl).bind ((Reads.index rfl).bind
      ((Reads.index rfl).bind ((Reads.index rfl).bind (Reads.of_pure _)))))

theorem reads_u64 (v : UInt64) : Reads Reader.u64 (Endian.beBytes 8 v.toNat) v := by
  have hlength := Endian.length_beBytes 8 v.toNat
  have hvalue : UInt64.ofNat (Endian.beNat (Endian.beBytes 8 v.toNat)) = v := by
    rw [Endian.beNat_beBytes v.toNat_lt]
    exact UInt64.ofNat_toNat
  generalize Endian.beBytes 8 v.toNat = bytes at hlength hvalue
  match bytes, hlength with
  | [b0, b1, b2, b3, b4, b5, b6, b7], _ =>
    have htake := Reads.take [b0, b1, b2, b3, b4, b5, b6, b7]
    rw [← hvalue]
    exact htake.bind ((Reads.index rfl).bind ((Reads.index rfl).bind
      ((Reads.index rfl).bind ((Reads.index rfl).bind ((Reads.index rfl).bind
        ((Reads.index rfl).bind ((Reads.index rfl).bind ((Reads.index rfl).bind
          (Reads.of_pure _)))))))))

theorem shifted_byte (v : UInt64) {i : Nat} (h : i < 8) :
    (v >>> UInt64.ofNat (8 * i)).toUInt8 = UInt8.ofNat (v.toNat / 256 ^ i) := by
  have hshift : (UInt64.ofNat (8 * i)).toNat % 64 = 8 * i := by
    rw [UInt64.toNat_ofNat']
    omega
  have hpow : 2 ^ (8 * i) = 256 ^ i := pow_mul 2 8 i
  apply UInt8.toNat_inj.mp
  rw [UInt64.toNat_toUInt8, UInt64.toNat_shiftRight, hshift, Nat.shiftRight_eq_div_pow, hpow,
    UInt8.toNat_ofNat']

theorem shifted_bytes (v : UInt64) {size : Nat} (h : size ≤ 8) :
    (List.range size).reverse.flatMap (fun i => [(v >>> UInt64.ofNat (8 * i)).toUInt8]) =
      Endian.beBytes size v.toNat := by
  induction size with
  | zero => rfl
  | succ size ih =>
    rw [List.range_succ, List.reverse_append, List.flatMap_append, ih (by omega),
      Endian.beBytes_succ, ← shifted_byte v h]
    rfl

theorem shifted_in (v : UInt64) (b : UInt8) (h : v.toNat < 256 ^ 7) :
    (Reader.shiftIn v b).toNat = v.toNat * 256 + b.toNat := by
  have hb : b.toNat < 2 ^ 8 := b.toNat_lt
  have hv : v.toNat <<< 8 < 2 ^ 64 := by
    rw [Nat.shiftLeft_eq]
    omega
  have hshift : (v <<< 8).toNat = v.toNat <<< 8 := by
    rw [UInt64.toNat_shiftLeft]
    exact Nat.mod_eq_of_lt hv
  rw [Reader.shiftIn, UInt64.toNat_or, hshift, UInt8.toNat_toUInt64,
    ← Nat.shiftLeft_add_eq_or_of_lt hb,
    Nat.shiftLeft_eq]

theorem foldl_shifted_in (bytes : List UInt8) {v : UInt64} {used : Nat}
    (hused : used + bytes.length ≤ 8) (hv : v.toNat < 256 ^ used) :
    (bytes.foldl Reader.shiftIn v).toNat =
      bytes.foldl (fun v byte => v * 256 + byte.toNat) v.toNat := by
  induction bytes generalizing v used with
  | nil => rfl
  | cons b rest ih =>
    rw [List.length_cons] at hused
    have hb : b.toNat < 256 := b.toNat_lt
    have hfree : v.toNat < 256 ^ 7 :=
      lt_of_lt_of_le hv (Nat.pow_le_pow_right (by decide) (by omega))
    have hstep := shifted_in v b hfree
    have hnext : (Reader.shiftIn v b).toNat < 256 ^ (used + 1) := by
      rw [hstep, pow_succ]
      omega
    rw [List.foldl_cons, List.foldl_cons, ih (by omega) hnext, hstep]

theorem reads_id {size : Nat} (hsize : size ≤ 8) {v : UInt64} (h : v.toNat < 256 ^ size) :
    Reads (Reader.id size) (Endian.beBytes size v.toNat) v := by
  have htake := Reads.take (Endian.beBytes size v.toNat)
  rw [Endian.length_beBytes] at htake
  have hfold : (Endian.beBytes size v.toNat).foldl Reader.shiftIn 0 = v := by
    apply UInt64.toNat_inj.mp
    have hused : 0 + (Endian.beBytes size v.toNat).length ≤ 8 := by
      rw [Endian.length_beBytes]
      omega
    rw [foldl_shifted_in _ hused (by decide)]
    exact Endian.beNat_beBytes h
  have hread := htake.bind_pure (fun b => b.foldl Reader.shiftIn 0)
  rw [hfold] at hread
  exact hread

theorem toNat_ofNat_byteLen {s : Text} (h : s.byteLen < 4294967296) :
    (UInt32.ofNat s.byteLen).toNat = s.byteLen := by
  rw [UInt32.toNat_ofNat']
  exact Nat.mod_eq_of_lt h

theorem reads_string {s : Text} (h : s.byteLen ≤ maxStringLen) :
    Reads Reader.string
      (Endian.beBytes 4 (UInt32.ofNat s.byteLen).toNat ++ Utf8.encode s) s := by
  have hlen : (UInt32.ofNat s.byteLen).toNat = s.byteLen :=
    toNat_ofNat_byteLen (Nat.lt_of_le_of_lt h (by decide))
  apply (reads_u32 (UInt32.ofNat s.byteLen)).bind
  have hshort : ¬ s.byteLen > maxStringLen := by omega
  have htake := Reads.take (Utf8.encode s)
  rw [Utf8.length_encode] at htake
  have hread := htake.bind_pure Utf8.fromUtf8Lossy
  rw [Utf8.fromUtf8Lossy_encode] at hread
  simp only [hlen, if_neg hshort]
  exact hread

theorem reads_location {sizes : IdSizes} {loc : Location} (href : sizes.referenceType ≤ 8)
    (hmethod : sizes.method ≤ 8) (hclass : loc.classId.toNat < 256 ^ sizes.referenceType)
    (hmethodId : loc.methodId.toNat < 256 ^ sizes.method) :
    Reads (Reader.location sizes)
      ([loc.typeTag] ++ (Endian.beBytes sizes.referenceType loc.classId.toNat ++
        (Endian.beBytes sizes.method loc.methodId.toNat ++
          (Endian.beBytes 8 loc.index.toNat ++ [])))) loc :=
  (reads_u8 loc.typeTag).bind ((reads_id href hclass).bind ((reads_id hmethod hmethodId).bind
    ((reads_u64 loc.index).bind (Reads.of_pure loc))))

/-!
# What each operation appends
-/

theorem IdSizes.size_le {sizes : IdSizes} (h : sizes.valid = true) (kind : IdKind) :
    sizes.size kind ≤ 8 := by
  unfold IdSizes.valid at h
  simp only [List.all_cons, List.all_nil, Bool.and_eq_true, decide_eq_true_eq] at h
  cases kind with
  | field => exact h.1.2
  | method => exact h.2.1.2
  | object => exact h.2.2.1.2
  | referenceType => exact h.2.2.2.1.2
  | frame => exact h.2.2.2.2.1.2

theorem Writer.id_buf (w : Writer) {size : Nat} (h : size ≤ 8) (v : UInt64) :
    (w.id size v).buf = w.buf ++ Endian.beBytes size v.toNat := by
  rw [← shifted_bytes v h]
  exact List.foldl_append_eq_append

/-- The bytes of one operation. -/
def WriteOp.bytes (sizes : IdSizes) : WriteOp -> List UInt8
  | u8 v => [v]
  | u32 v => Endian.beBytes 4 v.toNat
  | u64 v => Endian.beBytes 8 v.toNat
  | id kind v => Endian.beBytes (sizes.size kind) v.toNat
  | string s => Endian.beBytes 4 (UInt32.ofNat s.byteLen).toNat ++ Utf8.encode s
  | location loc =>
    [loc.typeTag] ++ (Endian.beBytes sizes.referenceType loc.classId.toNat ++
      (Endian.beBytes sizes.method loc.methodId.toNat ++
        (Endian.beBytes 8 loc.index.toNat ++ [])))

theorem WriteOp.write_buf {sizes : IdSizes} (hsizes : sizes.valid = true) (op : WriteOp)
    (w : Writer) : (op.write sizes w).buf = w.buf ++ op.bytes sizes := by
  cases op with
  | u8 v => rfl
  | u32 v => rfl
  | u64 v => rfl
  | id kind v => exact w.id_buf (IdSizes.size_le hsizes kind) v
  | string s =>
    show w.buf ++ Endian.beBytes 4 (UInt32.ofNat s.byteLen).toNat ++ Utf8.encode s = _
    rw [List.append_assoc]
    rfl
  | location loc =>
    have href : sizes.referenceType ≤ 8 := IdSizes.size_le hsizes .referenceType
    have hmethod : sizes.method ≤ 8 := IdSizes.size_le hsizes .method
    show ((((w.u8 loc.typeTag).id sizes.referenceType loc.classId).id sizes.method
      loc.methodId).u64 loc.index).buf = _
    unfold Writer.u64
    rw [Writer.id_buf _ hmethod, Writer.id_buf _ href]
    simp [Writer.u8, WriteOp.bytes]

theorem writeAll_eq {sizes : IdSizes} (hsizes : sizes.valid = true) (ops : List WriteOp) :
    writeAll sizes ops = ops.flatMap (WriteOp.bytes sizes) := by
  have hrun : forall w : Writer,
      (ops.foldl (WriteOp.write sizes) w).buf = w.buf ++ ops.flatMap (WriteOp.bytes sizes) := by
    induction ops with
    | nil => simp
    | cons op rest ih =>
      intro w
      rw [List.foldl_cons, ih, WriteOp.write_buf hsizes, List.flatMap_cons, List.append_assoc]
  exact hrun Writer.new

theorem WriteOp.appends {sizes : IdSizes} (hsizes : sizes.valid = true) {op : WriteOp}
    (h : op.Fits sizes) :
    exists bytes, Reads (op.reader sizes).run bytes op.item ∧
      forall w : Writer, (op.write sizes w).buf = w.buf ++ bytes := by
  exists op.bytes sizes
  constructor
  · cases op with
    | u8 v => exact (reads_u8 v).map _
    | u32 v => exact (reads_u32 v).map _
    | u64 v => exact (reads_u64 v).map _
    | id kind v => exact (reads_id (IdSizes.size_le hsizes kind) h).map _
    | string s => exact (reads_string h).map _
    | location loc =>
      have href : sizes.referenceType ≤ 8 := IdSizes.size_le hsizes .referenceType
      have hmethod : sizes.method ≤ 8 := IdSizes.size_le hsizes .method
      exact (reads_location href hmethod h.1 h.2).map _
  · exact WriteOp.write_buf hsizes op

/-- The run over a sequence: what is behind the cursor is what was written so far. -/
theorem readAll_written {sizes : IdSizes} (hsizes : sizes.valid = true) {ops : List WriteOp}
    (h : forall op, op ∈ ops -> op.Fits sizes) (w : Writer) :
    exists bytes, (ops.foldl (WriteOp.write sizes) w).buf = w.buf ++ bytes ∧
      forall after : List UInt8,
        readAll (ops.map (WriteOp.reader sizes))
            { buf := w.buf ++ (bytes ++ after), pos := w.buf.length } =
          (ops.map (fun op => .ok op.item),
            { buf := w.buf ++ (bytes ++ after), pos := w.buf.length + bytes.length }) := by
  induction ops generalizing w with
  | nil => exact ⟨[], by simp, fun after => rfl⟩
  | cons op rest ih =>
    rcases WriteOp.appends hsizes (h op List.mem_cons_self) with ⟨first, hreads, hwrite⟩
    have hrest : forall other, other ∈ rest -> other.Fits sizes :=
      fun other hother => h other (List.mem_cons_of_mem op hother)
    rcases ih hrest (op.write sizes w) with ⟨others, hbuf, hall⟩
    rw [hwrite] at hbuf hall
    refine ⟨first ++ others, ?_, ?_⟩
    · rw [List.foldl_cons, hbuf, List.append_assoc]
    · intro after
      have hop := hreads w.buf (others ++ after)
      have hothers := hall after
      rw [List.append_assoc, List.length_append] at hothers
      rw [List.map_cons, List.map_cons, readAll, List.append_assoc, hop]
      simp only [hothers, List.length_append, Nat.add_assoc]

/-!
# The codec
-/

/--
What was written is read back by the same operations, to the last byte; and over
any bytes every read stays inside them and answers.
-/
theorem written_read_back_and_reads_bounded :
    (forall (sizes : IdSizes) (ops : List WriteOp), sizes.valid = true ->
      (forall op, op ∈ ops -> op.Fits sizes) ->
        (readAll (ops.map (WriteOp.reader sizes)) (Reader.new (writeAll sizes ops))).1 =
            ops.map (fun op => .ok op.item) ∧
          (Reader.remaining
            (readAll (ops.map (WriteOp.reader sizes)) (Reader.new (writeAll sizes ops))).2).1 =
              .ok 0) ∧
    (forall (bytes : List UInt8) (ops : List ReadOp),
      (readAll ops (Reader.new bytes)).2.buf = bytes ∧
        (readAll ops (Reader.new bytes)).2.pos ≤ bytes.length ∧
          forall outcome, outcome ∈ (readAll ops (Reader.new bytes)).1 -> outcome ≠ .panic) := by
  constructor
  · intro sizes ops hsizes hfits
    rcases readAll_written hsizes hfits Writer.new with ⟨bytes, hbuf, hread⟩
    have hall : writeAll sizes ops = bytes := by
      unfold writeAll
      rw [hbuf]
      rfl
    have hrun := hread []
    rw [List.append_nil] at hrun
    rw [hall]
    show (readAll (ops.map (WriteOp.reader sizes)) { buf := [] ++ bytes, pos := 0 }).1 = _ ∧
      (Reader.remaining
        (readAll (ops.map (WriteOp.reader sizes)) { buf := [] ++ bytes, pos := 0 }).2).1 = _
    rw [show ({ buf := [] ++ bytes, pos := 0 } : Reader) =
      { buf := Writer.new.buf ++ bytes, pos := Writer.new.buf.length } from rfl, hrun]
    refine ⟨rfl, ?_⟩
    unfold Reader.remaining
    simp [Writer.new]
  · intro bytes ops
    have hstart : Inside (Reader.new bytes) := Nat.zero_le bytes.length
    rcases readAll_inside ops hstart with ⟨hinside, hbuf, hpanic⟩
    refine ⟨hbuf, ?_, hpanic⟩
    unfold Inside at hinside
    rw [hbuf] at hinside
    exact hinside

namespace OddSizes

def sizes : IdSizes where
  field := 4
  method := 4
  object := 5
  referenceType := 3
  frame := 2

def location : Location where
  typeTag := 1
  classId := 0x0ABBCC
  methodId := 0xDEADBEEF
  index := 42

def ops : List WriteOp :=
  [.u8 7, .u32 0x01020304, .u64 0x1122334455667788, .id .object 0x1F22334455,
    .string "Ldemo/Main;".toList, .location location]

theorem odd_sizes_read_back :
    (readAll (ops.map (WriteOp.reader sizes)) (Reader.new (writeAll sizes ops))).1 =
      ops.map (fun op => .ok op.item) :=
  (written_read_back_and_reads_bounded.1 sizes ops (by decide) (by decide)).1

end OddSizes

end Codec
end Debug
end JavaVsixLite
