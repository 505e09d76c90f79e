import JavaVsixLite.Documents.RoundTrip
import JavaVsixLite.Foundation.Substrings
import JavaVsixLite.Help.Labels

/-!
# Offsets of the parameters in a label

Signature help marks every parameter in the rendered label.  For a class file the label is
split again at its commas; for source the label of each parameter is searched behind the
one before.  Both keep the offsets in 32 bits, and the client gets them in UTF-16 units.
-/

namespace JavaVsixLite
namespace Help

open Classpath (isWhitespace trim trimStart)
open Documents (PositionEncoding asU32 asU32_of_lt asU32_of_ge)
open Foundation

/-- `[u32; 2]` -/
abbrev Span := Nat × Nat

/-- `param_span`; `none` where the slice panics. -/
def paramSpan (inner : Text) (start stop base : Nat) : Option Span :=
  (Text.slice? inner start stop).map (fun seg =>
    let lead := Text.byteLen seg - Text.byteLen (trimStart seg)
    let a := asU32 (base + start + lead)
    (a, asU32 (a + asU32 (Text.byteLen (trim seg)))))

/-- The loop of `external_param_offsets`, and the segment behind the last comma. -/
@[grind =] def segmentsFrom (inner : Text) (base : Nat) :
    Int32 -> Nat -> Nat -> List UInt8 -> Option (List Span)
  | _, start, _, [] =>
    (paramSpan inner start (Text.byteLen inner) base).map (fun span => [span])
  | depth, start, i, b :: rest =>
    if b = byte '(' ∨ b = byte '[' ∨ b = byte '<' then
      segmentsFrom inner base (depth + 1) start (i + 1) rest
    else if b = byte ')' ∨ b = byte ']' ∨ b = byte '>' then
      segmentsFrom inner base (depth - 1) start (i + 1) rest
    else if b = byte ',' ∧ depth = 0 then
      (paramSpan inner start i base).bind (fun span =>
        (segmentsFrom inner base depth (i + 1) (i + 1) rest).map (fun spans => span :: spans))
    else segmentsFrom inner base depth start (i + 1) rest

/-- `external_param_offsets`; `none` where a slice panics. -/
def externalParamOffsets (label : Text) : Option (List Span) :=
  match paramListSpan label with
  | none => some []
  | some (left, right) =>
    (Text.slice? label (left + 1) right).bind (fun inner =>
      if trim inner = [] then some []
      else segmentsFrom inner (left + 1) 0 0 0 (Utf8.encode inner))

/-- The loop of `signature_with_param_offsets`. -/
def offsetsFrom (label : Text) (close : Nat) : Nat -> List Text -> Option (Option (List Span))
  | _, [] => some (some [])
  | searchFrom, param :: rest =>
    (Text.slice? label searchFrom close).bind (fun room =>
      match Text.find? param room with
      | none => some none
      | some idx =>
        let start := searchFrom + idx
        let stop := start + Text.byteLen param
        (offsetsFrom label close stop rest).map
          (Option.map (fun offsets => (asU32 start, asU32 stop) :: offsets)))

/-- `signature_with_param_offsets`; the outer `none` stands for a panic of a slice. -/
def signatureWithParamOffsets (node : Declaration) : Option (Option (Text × List Span)) :=
  let label := signature node
  let params := paramLabels node
  if params = [] then some (some (label, []))
  else
    match paramListSpan label with
    | none => some none
    | some (left, right) =>
      (offsetsFrom label right (left + 1) params).map
        (Option.map (fun offsets => (label, offsets)))

structure SignatureInformation where
  label : Text
  documentation : Option Text
  parameters : Option (List Span)

def utf16Offset (s : Text) (byte : Nat) : Nat :=
  match Text.takeBytes? byte s with
  | none => byte
  | some front => asU32 (PositionEncoding.utf16.width front)

def buildSignature (label : Text) (offsets : List Span) (doc : Option Text) :
    SignatureInformation :=
  { label := label
    documentation := doc
    parameters :=
      if offsets = [] then none
      else some (offsets.map (fun o => (utf16Offset label o.1, utf16Offset label o.2))) }

/-!
# What the offsets say
-/

/-- One span for each parameter, in order and apart, that cuts it out of the parentheses. -/
structure Marks (l : RenderedLabel) (spans : List Span) : Prop where
  slices : List.Forall₂ (fun span param => Text.slice? l.text span.1 span.2 = some param)
    spans l.parameters
  ordered : spans.Pairwise (fun earlier later => earlier.1 < later.1 ∧ earlier.2 ≤ later.1)
  inside : forall span, span ∈ spans -> l.base ≤ span.1 ∧ span.2 ≤ l.close

/-- The units denote the same part of the label as the bytes. -/
def SamePlace (label : Text) (bytes units : Span) : Prop :=
  exists before param after, label = before ++ (param ++ after) ∧
    bytes = (Text.byteLen before, Text.byteLen (before ++ param)) ∧
    units = (PositionEncoding.utf16.width before, PositionEncoding.utf16.width (before ++ param))

/-- The spans mark the parameters, and so do the units that are sent. -/
def Located (l : RenderedLabel) (spans : List Span) : Prop :=
  Marks l spans ∧ forall doc,
    List.Forall₂ (SamePlace l.text) spans ((buildSignature l.text spans doc).parameters.getD [])

/-- The last parameter ends at an offset of 32 bits. -/
def RenderedLabel.Addressable (l : RenderedLabel) : Prop :=
  l.parameters = [] ∨ l.close < 4294967296

/-!
# One segment
-/

theorem trimStart_of_trim {param : Text} (h : trim param = param) : trimStart param = param := by
  have hfront : trim param <+: trimStart param := by
    have hback := List.dropWhile_suffix (l := (trimStart param).reverse) isWhitespace
    have hprefix := List.reverse_prefix.mpr hback
    rw [List.reverse_reverse] at hprefix
    exact hprefix
  have hshorter := hfront.length_le
  rw [h] at hshorter
  exact (List.dropWhile_suffix isWhitespace).eq_of_length_le hshorter

theorem head_of_trim {c : Char} {rest : Text} (h : trim (c :: rest) = c :: rest) :
    isWhitespace c = false := by
  have hstart := trimStart_of_trim h
  unfold trimStart at hstart
  by_cases hc : isWhitespace c = true
  · rw [List.dropWhile_cons_of_pos hc] at hstart
    have hshorter := (List.dropWhile_suffix (l := rest) isWhitespace).length_le
    rw [hstart, List.length_cons] at hshorter
    omega
  · exact eq_false_of_ne_true hc

theorem trimStart_white {lead : Text} (hlead : forall c, c ∈ lead -> isWhitespace c = true)
    {param : Text} (h : trim param = param) : trimStart (lead ++ param) = param := by
  unfold trimStart
  rw [List.dropWhile_append_of_pos hlead]
  exact trimStart_of_trim h

theorem trim_white {lead : Text} (hlead : forall c, c ∈ lead -> isWhitespace c = true)
    {param : Text} (h : trim param = param) : trim (lead ++ param) = param := by
  have hstart := trimStart_white hlead h
  have hsame := trimStart_of_trim h
  unfold trimStart at hstart hsame
  have htrim := h
  unfold trim at htrim ⊢
  rw [hsame] at htrim
  rw [hstart, htrim]

def cut32 (span : Span) : Span :=
  (asU32 span.1, asU32 span.2)

theorem asU32_add (a n : Nat) : asU32 (asU32 a + asU32 n) = asU32 (a + n) := by
  unfold asU32
  omega

theorem paramSpan_eq {lead : Text} (hlead : forall c, c ∈ lead -> isWhitespace c = true)
    {param : Text} (h : trim param = param) (before after : Text) (base : Nat) :
    paramSpan (before ++ (lead ++ param) ++ after) (Text.byteLen before)
        (Text.byteLen before + Text.byteLen (lead ++ param)) base =
      some (cut32 (base + Text.byteLen before + Text.byteLen lead,
        base + Text.byteLen before + Text.byteLen lead + Text.byteLen param)) := by
  have hlen : Text.byteLen (lead ++ param) - Text.byteLen param = Text.byteLen lead := by
    rw [Text.byteLen_append, Nat.add_sub_cancel]
  rw [paramSpan, Text.slice?_append, Option.map_some]
  simp only [trimStart_white hlead h, trim_white hlead h, hlen, asU32_add]
  rfl

/-!
# The segments of the parameter list
-/

def bracket (c : Char) : Int :=
  round c + square c + angle c

theorem depth_bracket (xs : Text) :
    depth bracket xs = depth round xs + depth square xs + depth angle xs := by
  unfold bracket
  rw [depth_add, depth_add]

theorem unitWeight_bracket : UnitWeight bracket := by
  intro c
  unfold bracket round square angle pair
  split_ifs <;> simp_all

theorem balanced_bracket {param : Text} (h : ParameterLabel param) : Balanced bracket param :=
  balanced_add (balanced_add h.round h.square) h.angle

theorem depth_at_comma {param before after : Text} (h : ParameterLabel param)
    (hparam : param = before ++ (',' :: after)) : depth bracket before ≠ 0 := by
  intro hzero
  have hprefix : before <+: param := by
    rw [hparam]
    exact List.prefix_append before _
  have hround := h.round.inside before hprefix
  have hsquare := h.square.inside before hprefix
  have hangle := h.angle.inside before hprefix
  rw [depth_bracket] at hzero
  exact h.noComma before after hparam (by omega)

theorem segmentsFrom_skip {bytes : List UInt8}
    (h : forall b, b ∈ bytes -> forall c, c ∈ ['(', '[', '<', ')', ']', '>', ','] -> b ≠ byte c)
    (inner : Text) (base : Nat) (depth : Int32) (start i : Nat) (rest : List UInt8) :
    segmentsFrom inner base depth start i (bytes ++ rest) =
      segmentsFrom inner base depth start (i + bytes.length) rest := by
  induction bytes generalizing i with
  | nil => rfl
  | cons b others ih =>
    have hb := h b List.mem_cons_self
    simp only [List.mem_cons, List.not_mem_nil, or_false, forall_eq_or_imp, forall_eq] at hb
    have hrest := ih (fun a ha => h a (List.mem_cons_of_mem b ha)) (i + 1)
    rw [List.cons_append, segmentsFrom, if_neg (by simp [hb]), if_neg (by simp [hb]),
      if_neg (by simp [hb]), hrest, List.length_cons, Nat.add_assoc, Nat.add_comm 1]

theorem segmentsFrom_char (inner : Text) (base : Nat) (d : Int) (start i : Nat) (c : Char)
    (rest : Text) :
    segmentsFrom inner base (Int32.ofInt d) start i (Utf8.encode (c :: rest)) =
      if c = ',' ∧ Int32.ofInt d = 0 then
        (paramSpan inner start i base).bind (fun span =>
          (segmentsFrom inner base (Int32.ofInt d) (i + 1) (i + 1) (Utf8.encode rest)).map
            (fun spans => span :: spans))
      else
        segmentsFrom inner base (Int32.ofInt (d + bracket c)) start (i + c.utf8Size)
          (Utf8.encode rest) := by
  by_cases hopens : c = '(' ∨ c = '[' ∨ c = '<'
  · have hc : c.toNat < 128 ∧ c.utf8Size = 1 ∧ bracket c = 1 ∧ c ≠ ',' := by
      rcases hopens with rfl | rfl | rfl <;> decide
    have hbyte : byte c = byte '(' ∨ byte c = byte '[' ∨ byte c = byte '<' := by
      rcases hopens with rfl | rfl | rfl <;> simp
    rw [encode_ascii hc.1, segmentsFrom, if_pos hbyte, if_neg (fun hand => hc.2.2.2 hand.1),
      hc.2.1, hc.2.2.1, Int32.ofInt_add]
    rfl
  · by_cases hcloses : c = ')' ∨ c = ']' ∨ c = '>'
    · have hc : c.toNat < 128 ∧ c.utf8Size = 1 ∧ bracket c = -1 ∧ c ≠ ',' := by
        rcases hcloses with rfl | rfl | rfl <;> decide
      have hbyte : byte c = byte ')' ∨ byte c = byte ']' ∨ byte c = byte '>' := by
        rcases hcloses with rfl | rfl | rfl <;> simp
      have hnot : ¬ (byte c = byte '(' ∨ byte c = byte '[' ∨ byte c = byte '<') := by
        rcases hcloses with rfl | rfl | rfl <;> decide
      have hstep : d + bracket c = d - 1 := by
        rw [hc.2.2.1]
        rfl
      rw [encode_ascii hc.1, segmentsFrom, if_neg hnot, if_pos hbyte,
        if_neg (fun hand => hc.2.2.2 hand.1), hc.2.1, hstep, Int32.ofInt_sub]
      rfl
    · have hweight : d + bracket c = d := by
        unfold bracket round square angle pair
        simp only [not_or] at hopens hcloses
        simp [hopens, hcloses]
      by_cases hcomma : c = ','
      · subst hcomma
        have hopen : ¬ (byte ',' = byte '(' ∨ byte ',' = byte '[' ∨ byte ',' = byte '<') := by
          decide
        have hclose : ¬ (byte ',' = byte ')' ∨ byte ',' = byte ']' ∨ byte ',' = byte '>') := by
          decide
        rw [encode_ascii (by decide), segmentsFrom, if_neg hopen, if_neg hclose, hweight]
        simp only [true_and]
        rfl
      · have hbytes : forall b, b ∈ String.utf8EncodeChar c ->
            forall e, e ∈ ['(', '[', '<', ')', ']', '>', ','] -> b ≠ byte e := by
          intro b hb e he
          have hascii : e.toNat < 128 := by
            revert he
            revert e
            exact forall_mem_of_all (by decide)
          apply ne_byte hascii _ hb
          rintro rfl
          simp only [not_or] at hopens hcloses
          simp [hopens, hcloses, hcomma] at he
        rw [Utf8.encode, segmentsFrom_skip hbytes, String.length_utf8EncodeChar, hweight,
          if_neg (fun hand => hcomma hand.1)]

theorem segmentsFrom_param {param : Text} {d : Int}
    (hinside : forall front, front <+: param ->
      0 ≤ d + depth bracket front ∧ d + depth bracket front < 4294967296)
    (hcomma : forall before after, param = before ++ (',' :: after) ->
      d + depth bracket before ≠ 0)
    (inner : Text) (base start i : Nat) (rest : Text) :
    segmentsFrom inner base (Int32.ofInt d) start i (Utf8.encode (param ++ rest)) =
      segmentsFrom inner base (Int32.ofInt (d + depth bracket param)) start
        (i + Text.byteLen param) (Utf8.encode rest) := by
  induction param generalizing d i with
  | nil =>
    rw [depth_nil, Int.add_zero]
    rfl
  | cons c others ih =>
    have hhere : ¬ (c = ',' ∧ Int32.ofInt d = 0) := by
      rintro ⟨rfl, hzero⟩
      have hstart := hinside [] List.nil_prefix
      have hdepth := hcomma [] others rfl
      rw [depth_nil, Int.add_zero] at hstart hdepth
      exact hdepth ((ofInt_eq_zero_iff hstart.left hstart.right).mp hzero)
    have hrest : forall front, front <+: others ->
        0 ≤ d + bracket c + depth bracket front ∧
          d + bracket c + depth bracket front < 4294967296 := by
      intro front hfront
      have hlonger := hinside (c :: front) ((List.prefix_cons_inj c).mpr hfront)
      rw [depth_cons, ← Int.add_assoc] at hlonger
      exact hlonger
    have hrestComma : forall before after, others = before ++ (',' :: after) ->
        d + bracket c + depth bracket before ≠ 0 := by
      intro before after hothers
      have hlonger := hcomma (c :: before) after (by rw [hothers]; rfl)
      rw [depth_cons, ← Int.add_assoc] at hlonger
      exact hlonger
    rw [List.cons_append, segmentsFrom_char, if_neg hhere, ih hrest hrestComma, depth_cons,
      Text.byteLen_cons, Nat.add_assoc, Int.add_assoc]

def spansFrom : Nat -> List Text -> List Span
  | _, [] => []
  | start, param :: rest =>
    (start, start + Text.byteLen param) :: spansFrom (start + Text.byteLen param + 2) rest

theorem segmentsFrom_whole {param : Text} (h : ParameterLabel param)
    (hshort : Text.byteLen param < 4294967296) (inner : Text) (base start i : Nat) (rest : Text) :
    segmentsFrom inner base 0 start i (Utf8.encode (param ++ rest)) =
      segmentsFrom inner base 0 start (i + Text.byteLen param) (Utf8.encode rest) := by
  have hbalanced := balanced_bracket h
  have hlength := Text.length_le_byteLen param
  have hinside : forall front, front <+: param ->
      0 ≤ 0 + depth bracket front ∧ 0 + depth bracket front < 4294967296 := by
    intro front hfront
    have hdepth := (nested_of_balanced unitWeight_bracket hbalanced).inside front hfront
    omega
  have hcomma : forall before after, param = before ++ (',' :: after) ->
      0 + depth bracket before ≠ 0 := by
    intro before after hparam
    rw [Int.zero_add]
    exact depth_at_comma h hparam
  have hrun := segmentsFrom_param hinside hcomma inner base start i rest
  rw [hbalanced.closed] at hrun
  exact hrun

theorem segmentsFrom_list {params : List Text} (hne : params ≠ [])
    (hparams : forall param, param ∈ params -> ParameterLabel param)
    (hshort : forall param, param ∈ params -> Text.byteLen param < 4294967296)
    {lead : Text} (hlead : forall c, c ∈ lead -> isWhitespace c = true) {inner before : Text}
    (hinner : inner = before ++ (lead ++ [',', ' '].intercalate params)) (base : Nat) :
    segmentsFrom inner base 0 (Text.byteLen before) (Text.byteLen before + Text.byteLen lead)
        (Utf8.encode ([',', ' '].intercalate params)) =
      some ((spansFrom (base + Text.byteLen before + Text.byteLen lead) params).map cut32) := by
  have hblank : forall c, c ∈ [' '] -> isWhitespace c = true := forall_mem_of_all (by decide)
  induction params generalizing before lead with
  | nil => exact absurd rfl hne
  | cons param rest ih =>
    have hparam := hparams param List.mem_cons_self
    have hwhole := segmentsFrom_whole hparam (hshort param List.mem_cons_self) inner base
      (Text.byteLen before) (Text.byteLen before + Text.byteLen lead)
    have hspan := paramSpan_eq hlead hparam.trimmed before
    rw [Text.byteLen_append, ← Nat.add_assoc] at hspan
    cases rest with
    | nil =>
      have hlast := hspan [] base
      have hend := hwhole []
      rw [List.intercalate_singleton] at hinner ⊢
      have hlen : Text.byteLen before + Text.byteLen lead + Text.byteLen param =
          Text.byteLen inner := by
        rw [hinner, Text.byteLen_append, Text.byteLen_append, Nat.add_assoc]
      rw [List.append_nil, ← hinner, hlen] at hlast
      rw [List.append_nil] at hend
      rw [hend, Utf8.encode, segmentsFrom, hlast]
      rfl
    | cons next rest =>
      have hjoin : [',', ' '].intercalate (param :: next :: rest) =
          param ++ (',' :: ' ' :: [',', ' '].intercalate (next :: rest)) := by
        rw [List.intercalate_cons_of_ne_nil (List.cons_ne_nil next rest), List.append_assoc]
        rfl
      rw [hjoin] at hinner ⊢
      have hfront : Text.byteLen (before ++ (lead ++ (param ++ [',']))) =
          Text.byteLen before + Text.byteLen lead + Text.byteLen param + 1 := by
        simp only [Text.byteLen_append, Nat.add_assoc]
        rfl
      have hnext : inner = before ++ (lead ++ (param ++ [','])) ++
          ([' '] ++ [',', ' '].intercalate (next :: rest)) := by
        rw [hinner]
        simp
      have hrest := ih (List.cons_ne_nil next rest)
        (fun other hother => hparams other (List.mem_cons_of_mem param hother))
        (fun other hother => hshort other (List.mem_cons_of_mem param hother))
        hblank hnext
      have hcut := hspan (',' :: ' ' :: [',', ' '].intercalate (next :: rest)) base
      rw [List.append_assoc, List.append_assoc, ← hinner] at hcut
      rw [hfront] at hrest
      -- the comma ends the segment, and the blank behind it starts the next one
      have hcomma := segmentsFrom_char inner base 0 (Text.byteLen before)
        (Text.byteLen before + Text.byteLen lead + Text.byteLen param) ','
        (' ' :: [',', ' '].intercalate (next :: rest))
      have hskip := segmentsFrom_char inner base 0
        (Text.byteLen before + Text.byteLen lead + Text.byteLen param + 1)
        (Text.byteLen before + Text.byteLen lead + Text.byteLen param + 1) ' '
        ([',', ' '].intercalate (next :: rest))
      rw [if_pos ⟨rfl, rfl⟩, hcut, Option.bind_some, hskip, if_neg (by decide)] at hcomma
      rw [hwhole]
      have hplace : base + (Text.byteLen before + Text.byteLen lead + Text.byteLen param + 1) +
          Text.byteLen [' '] =
            base + Text.byteLen before + Text.byteLen lead + Text.byteLen param + 2 := by
        have hone : Text.byteLen [' '] = 1 := rfl
        omega
      rw [hplace] at hrest
      exact hcomma.trans (congrArg _ hrest)

theorem trim_list_ne_nil (l : RenderedLabel) {param : Text} (hmem : param ∈ l.parameters) :
    trim l.list ≠ [] := by
  have hlabel := l.wellformed param hmem
  cases param with
  | nil => exact absurd rfl hlabel.nonempty
  | cons c tail =>
    have hlist : c ∈ l.list := mem_intercalate hmem List.mem_cons_self
    have hkept := Classpath.mem_trim hlist (head_of_trim hlabel.trimmed)
    exact List.ne_nil_of_mem hkept

/-- Short parameters of a class-file label are found, up to the width of the offsets. -/
theorem externalParamOffsets_text (l : RenderedLabel)
    (hshort : forall param, param ∈ l.parameters -> Text.byteLen param < 4294967296) :
    externalParamOffsets l.text = some ((spansFrom l.base l.parameters).map cut32) := by
  have hslice : Text.slice? l.text (Text.byteLen l.front + 1) l.close = some l.list := by
    have hcut := Text.slice?_append (l.front ++ ['(']) l.list (')' :: l.behind)
    rw [List.append_assoc, List.append_assoc, Text.byteLen_append] at hcut
    exact hcut
  unfold externalParamOffsets
  rw [paramListSpan_text l hshort]
  simp only [hslice, Option.bind_some]
  cases hparams : l.parameters with
  | nil =>
    have hlist : l.list = [] := by
      rw [RenderedLabel.list, hparams]
      rfl
    rw [hlist]
    rfl
  | cons param rest =>
    have hne : l.parameters ≠ [] := by
      rw [hparams]
      exact List.cons_ne_nil param rest
    have hnone : forall c, c ∈ ([] : Text) -> isWhitespace c = true := by simp
    have hwhole : l.list = [] ++ ([] ++ [',', ' '].intercalate l.parameters) := rfl
    have hfound : segmentsFrom l.list (Text.byteLen l.front + 1) 0 0 0 (Utf8.encode l.list) =
        some ((spansFrom l.base l.parameters).map cut32) :=
      segmentsFrom_list hne l.wellformed hshort hnone hwhole _
    have hmem : param ∈ l.parameters := by
      rw [hparams]
      exact List.mem_cons_self
    rw [if_neg (trim_list_ne_nil l hmem), hfound, hparams]

/-!
# The search in a source label
-/

theorem startsNotIn_separator {param lead rest : Text} (h : ParameterLabel param)
    (hlead : lead ⊆ [',', ' ']) : StartsNotIn param lead rest := by
  cases param with
  | nil => exact absurd rfl h.nonempty
  | cons c tail =>
    apply startsNotIn_of_head
    intro hc
    rcases List.mem_cons.mp (hlead hc) with rfl | hblank
    · have hcomma : ',' :: tail = [] ++ (',' :: tail) := rfl
      exact depth_at_comma h hcomma rfl
    · rw [List.mem_singleton.mp hblank] at h
      have hstart := head_of_trim h.trimmed
      exact absurd hstart (by decide)

theorem offsetsFrom_list {params : List Text}
    (hparams : forall param, param ∈ params -> ParameterLabel param)
    {lead : Text} (hlead : lead ⊆ [',', ' ']) {label before behind : Text}
    (hlabel : label = before ++ (lead ++ [',', ' '].intercalate params) ++ behind) {close : Nat}
    (hclose : close = Text.byteLen before +
      Text.byteLen (lead ++ [',', ' '].intercalate params)) :
    offsetsFrom label close (Text.byteLen before) params =
      some (some ((spansFrom (Text.byteLen before + Text.byteLen lead) params).map cut32)) := by
  induction params generalizing before lead with
  | nil => rfl
  | cons param rest ih =>
    have hparam := hparams param List.mem_cons_self
    have hslice := Text.slice?_append before (lead ++ [',', ' '].intercalate (param :: rest)) behind
    rw [← hlabel, ← hclose] at hslice
    cases rest with
    | nil =>
      have hstart : StartsNotIn param lead (param ++ []) := startsNotIn_separator hparam hlead
      have hfind := Text.find?_of_startsNotIn hparam.nonempty hstart
      rw [List.append_nil] at hfind
      rw [List.intercalate_singleton] at hslice
      rw [offsetsFrom, hslice, Option.bind_some, hfind]
      rfl
    | cons next rest =>
      have hjoin : [',', ' '].intercalate (param :: next :: rest) =
          param ++ ([',', ' '] ++ [',', ' '].intercalate (next :: rest)) := by
        rw [List.intercalate_cons_of_ne_nil (List.cons_ne_nil next rest), List.append_assoc]
      have hstart : StartsNotIn param lead
          (param ++ ([',', ' '] ++ [',', ' '].intercalate (next :: rest))) :=
        startsNotIn_separator hparam hlead
      have hfind := Text.find?_of_startsNotIn hparam.nonempty hstart
      have hnext : label = before ++ (lead ++ param) ++
          ([',', ' '] ++ [',', ' '].intercalate (next :: rest)) ++ behind := by
        rw [hlabel, hjoin]
        simp
      have hend : close = Text.byteLen (before ++ (lead ++ param)) +
          Text.byteLen ([',', ' '] ++ [',', ' '].intercalate (next :: rest)) := by
        rw [hclose, hjoin]
        simp only [Text.byteLen_append, Nat.add_assoc]
      have hrest := ih (fun other hother => hparams other (List.mem_cons_of_mem param hother))
        (List.Subset.refl _) hnext hend
      have hfront : Text.byteLen before + Text.byteLen lead + Text.byteLen param =
          Text.byteLen (before ++ (lead ++ param)) := by
        rw [Text.byteLen_append, Text.byteLen_append, Nat.add_assoc]
      rw [hjoin] at hslice
      rw [offsetsFrom, hslice, Option.bind_some, hfind]
      simp only [hfront, hrest, Option.map_some, spansFrom, List.map_cons]
      rfl

theorem signatureWithParamOffsets_text {node : Declaration} {l : RenderedLabel}
    (hrenders : node.Renders l)
    (hshort : forall param, param ∈ l.parameters -> Text.byteLen param < 4294967296) :
    signatureWithParamOffsets node =
      some (some (l.text, (spansFrom l.base l.parameters).map cut32)) := by
  simp only [signatureWithParamOffsets, hrenders.left, hrenders.right]
  by_cases hparams : l.parameters = []
  · rw [if_pos hparams, hparams]
    rfl
  · have hlabel : l.text = l.front ++ ['('] ++ ([] ++ [',', ' '].intercalate l.parameters) ++
        (')' :: l.behind) := by
      simp [RenderedLabel.text, RenderedLabel.list]
    have hbase : Text.byteLen (l.front ++ ['(']) = l.base := Text.byteLen_append l.front ['(']
    have hclose : l.close = Text.byteLen (l.front ++ ['(']) +
        Text.byteLen ([] ++ [',', ' '].intercalate l.parameters) := by
      rw [hbase]
      rfl
    have hfound := offsetsFrom_list l.wellformed (List.nil_subset _) hlabel hclose
    rw [hbase] at hfound
    rw [if_neg hparams, paramListSpan_text l hshort]
    simp only [RenderedLabel.base] at hfound
    simp only [hfound, Option.map_some, RenderedLabel.base]
    rfl

/-!
# Offsets that fit
-/

theorem byteLen_pos {text : Text} (h : text ≠ []) : 0 < Text.byteLen text := by
  cases text with
  | nil => exact absurd rfl h
  | cons c rest =>
    have hpos := c.utf8Size_pos
    rw [Text.byteLen_cons]
    omega

theorem byteLen_join (param next : Text) (rest : List Text) :
    Text.byteLen ([',', ' '].intercalate (param :: next :: rest)) =
      Text.byteLen param + 2 + Text.byteLen ([',', ' '].intercalate (next :: rest)) := by
  rw [List.intercalate_cons_of_ne_nil (List.cons_ne_nil next rest), Text.byteLen_append,
    Text.byteLen_append]
  rfl

theorem spansFrom_inside {params : List Text} (hne : forall param, param ∈ params -> param ≠ [])
    {start : Nat} {span : Span} (h : span ∈ spansFrom start params) :
    start ≤ span.1 ∧ span.1 < span.2 ∧
      span.2 ≤ start + Text.byteLen ([',', ' '].intercalate params) := by
  induction params generalizing start with
  | nil => exact absurd h List.not_mem_nil
  | cons param rest ih =>
    have hpos := byteLen_pos (hne param List.mem_cons_self)
    have hothers : forall other, other ∈ rest -> other ≠ [] :=
      fun other hother => hne other (List.mem_cons_of_mem param hother)
    cases rest with
    | nil =>
      rw [List.mem_singleton.mp h, List.intercalate_singleton]
      exact ⟨Nat.le_refl _, Nat.lt_add_of_pos_right hpos, Nat.le_refl _⟩
    | cons next rest =>
      rw [byteLen_join]
      rcases List.mem_cons.mp h with rfl | hspan
      · exact ⟨Nat.le_refl _, Nat.lt_add_of_pos_right hpos, by omega⟩
      · have hbounds := ih hothers hspan
        omega

theorem spansFrom_ordered {params : List Text} (hne : forall param, param ∈ params -> param ≠ [])
    (start : Nat) :
    (spansFrom start params).Pairwise
      (fun earlier later => earlier.1 < later.1 ∧ earlier.2 ≤ later.1) := by
  induction params generalizing start with
  | nil => exact List.Pairwise.nil
  | cons param rest ih =>
    have hpos := byteLen_pos (hne param List.mem_cons_self)
    have hothers : forall other, other ∈ rest -> other ≠ [] :=
      fun other hother => hne other (List.mem_cons_of_mem param hother)
    refine List.Pairwise.cons ?_ (ih hothers _)
    intro later hlater
    have hbounds := spansFrom_inside hothers hlater
    exact ⟨by omega, by omega⟩

theorem spansFrom_places (params : List Text) (before behind : Text) :
    List.Forall₂ (fun span param => exists front back,
        before ++ [',', ' '].intercalate params ++ behind = front ++ (param ++ back) ∧
          span = (Text.byteLen front, Text.byteLen (front ++ param)))
      (spansFrom (Text.byteLen before) params) params := by
  induction params generalizing before with
  | nil => exact List.Forall₂.nil
  | cons param rest ih =>
    cases rest with
    | nil =>
      refine List.Forall₂.cons ⟨before, behind, ?_, ?_⟩ List.Forall₂.nil
      · rw [List.intercalate_singleton, List.append_assoc]
      · rw [Text.byteLen_append]
    | cons next rest =>
      have hjoin : [',', ' '].intercalate (param :: next :: rest) =
          param ++ ([',', ' '] ++ [',', ' '].intercalate (next :: rest)) := by
        rw [List.intercalate_cons_of_ne_nil (List.cons_ne_nil next rest), List.append_assoc]
      have htext : before ++ (param ++ [',', ' ']) ++ [',', ' '].intercalate (next :: rest) =
          before ++ [',', ' '].intercalate (param :: next :: rest) := by
        rw [hjoin]
        simp
      have hlen : Text.byteLen (before ++ (param ++ [',', ' '])) =
          Text.byteLen before + Text.byteLen param + 2 := by
        rw [Text.byteLen_append, Text.byteLen_append, Nat.add_assoc]
        rfl
      have hrest := ih (before ++ (param ++ [',', ' ']))
      rw [htext, hlen] at hrest
      refine List.Forall₂.cons ⟨before, [',', ' '] ++ [',', ' '].intercalate (next :: rest) ++
        behind, ?_, ?_⟩ hrest
      · rw [hjoin]
        simp
      · rw [Text.byteLen_append]

theorem text_eq (l : RenderedLabel) :
    l.text = l.front ++ ['('] ++ [',', ' '].intercalate l.parameters ++ (')' :: l.behind) := by
  simp [RenderedLabel.text, RenderedLabel.list]

theorem marks_spansFrom (l : RenderedLabel) : Marks l (spansFrom l.base l.parameters) := by
  have hne : forall param, param ∈ l.parameters -> param ≠ [] :=
    fun param hparam => (l.wellformed param hparam).nonempty
  have hbase : Text.byteLen (l.front ++ ['(']) = l.base := Text.byteLen_append l.front ['(']
  constructor
  · have hplaces := spansFrom_places l.parameters (l.front ++ ['(']) (')' :: l.behind)
    rw [hbase, ← text_eq] at hplaces
    refine hplaces.imp ?_
    rintro span param ⟨front, back, htext, rfl⟩
    rw [htext, ← List.append_assoc, Text.byteLen_append]
    exact Text.slice?_append front param back
  · exact spansFrom_ordered hne l.base
  · intro span hspan
    have hbounds := spansFrom_inside hne hspan
    exact ⟨hbounds.left, hbounds.right.right⟩

theorem utf16Offset_eq (front back : Text) (hfits : Text.byteLen front < 4294967296) :
    utf16Offset (front ++ back) (Text.byteLen front) = PositionEncoding.utf16.width front := by
  have hwidth := Documents.width_le_byteLen .utf16 front
  rw [utf16Offset, Text.takeBytes?_append]
  exact asU32_of_lt (Nat.lt_of_le_of_lt hwidth hfits)

theorem parameters_buildSignature (label : Text) (offsets : List Span) (doc : Option Text) :
    (buildSignature label offsets doc).parameters.getD [] =
      offsets.map (fun o => (utf16Offset label o.1, utf16Offset label o.2)) := by
  unfold buildSignature
  cases offsets with
  | nil => rfl
  | cons o rest => rfl

/-- Spans whose ends fit into 32 bits are sent as the units of the same places. -/
theorem samePlace_spansFrom {l : RenderedLabel} (h : l.close < 4294967296) (doc : Option Text) :
    List.Forall₂ (SamePlace l.text) (spansFrom l.base l.parameters)
      ((buildSignature l.text (spansFrom l.base l.parameters) doc).parameters.getD []) := by
  have hne : forall param, param ∈ l.parameters -> param ≠ [] :=
    fun param hparam => (l.wellformed param hparam).nonempty
  have hplaces := spansFrom_places l.parameters (l.front ++ ['(']) (')' :: l.behind)
  have hbase : Text.byteLen (l.front ++ ['(']) = l.base := Text.byteLen_append l.front ['(']
  rw [hbase, ← text_eq] at hplaces
  rw [parameters_buildSignature, List.forall₂_map_right_iff, List.forall₂_same]
  intro span hspan
  rcases forall₂_mem_left hplaces hspan with ⟨param, _, front, back, htext, rfl⟩
  have hend := (spansFrom_inside hne hspan).right.right
  have hclose : Text.byteLen (front ++ param) < 4294967296 := Nat.lt_of_le_of_lt hend h
  have hopen : Text.byteLen front < 4294967296 := by
    rw [Text.byteLen_append] at hclose
    omega
  refine ⟨front, param, back, htext, rfl, ?_⟩
  have hfirst := utf16Offset_eq front (param ++ back) hopen
  have hsecond := utf16Offset_eq (front ++ param) back hclose
  rw [List.append_assoc] at hsecond
  simp only [htext, hfirst, hsecond]

theorem located_of_addressable {l : RenderedLabel} (h : l.Addressable) :
    Located l ((spansFrom l.base l.parameters).map cut32) := by
  rcases h with hnone | hclose
  · have hmarks := marks_spansFrom l
    rw [hnone] at hmarks ⊢
    exact ⟨hmarks, fun doc => List.Forall₂.nil⟩
  · have hne : forall param, param ∈ l.parameters -> param ≠ [] :=
      fun param hparam => (l.wellformed param hparam).nonempty
    have hsame : (spansFrom l.base l.parameters).map cut32 = spansFrom l.base l.parameters := by
      conv => rhs; rw [← List.map_id (spansFrom l.base l.parameters)]
      apply List.map_congr_left
      intro span hspan
      have hbounds := spansFrom_inside hne hspan
      have hend : span.2 < 4294967296 := Nat.lt_of_le_of_lt hbounds.right.right hclose
      rw [cut32, asU32_of_lt hend, asU32_of_lt (Nat.lt_trans hbounds.right.left hend)]
      rfl
    rw [hsame]
    exact ⟨marks_spansFrom l, samePlace_spansFrom hclose⟩

/-!
# Offsets that do not fit
-/

theorem asU32_lt (n : Nat) : asU32 n < 4294967296 :=
  Nat.mod_lt n (by decide)

theorem paramSpan_lt {inner : Text} {start stop base : Nat} {span : Span}
    (h : paramSpan inner start stop base = some span) : span.2 < 4294967296 := by
  rcases Option.map_eq_some_iff.mp h with ⟨seg, _, rfl⟩
  exact asU32_lt _

theorem segmentsFrom_lt {inner : Text} {base : Nat} {bytes : List UInt8} {depth : Int32}
    {start i : Nat} {spans : List Span}
    (h : segmentsFrom inner base depth start i bytes = some spans) :
    forall span, span ∈ spans -> span.2 < 4294967296 := by
  induction bytes generalizing depth start i spans with
  | nil =>
    rcases Option.map_eq_some_iff.mp h with ⟨span, hspan, rfl⟩
    intro other hother
    rw [List.mem_singleton.mp hother]
    exact paramSpan_lt hspan
  | cons b rest ih =>
    rw [segmentsFrom] at h
    split at h
    · exact ih h
    · split at h
      · exact ih h
      · split at h
        · rcases Option.bind_eq_some_iff.mp h with ⟨span, hspan, hrest⟩
          rcases Option.map_eq_some_iff.mp hrest with ⟨others, hothers, rfl⟩
          intro other hother
          rcases List.mem_cons.mp hother with rfl | hin
          · exact paramSpan_lt hspan
          · exact ih hothers other hin
        · exact ih h

theorem externalParamOffsets_lt {label : Text} {spans : List Span}
    (h : externalParamOffsets label = some spans) :
    forall span, span ∈ spans -> span.2 < 4294967296 := by
  unfold externalParamOffsets at h
  split at h
  · cases h
    exact fun span hspan => absurd hspan List.not_mem_nil
  · rcases Option.bind_eq_some_iff.mp h with ⟨inner, _, hinner⟩
    split at hinner
    · cases hinner
      exact fun span hspan => absurd hspan List.not_mem_nil
    · exact segmentsFrom_lt hinner

theorem offsetsFrom_lt {label : Text} {close searchFrom : Nat} {params : List Text}
    {spans : List Span} (h : offsetsFrom label close searchFrom params = some (some spans)) :
    forall span, span ∈ spans -> span.2 < 4294967296 := by
  induction params generalizing searchFrom spans with
  | nil =>
    cases h
    exact fun span hspan => absurd hspan List.not_mem_nil
  | cons param rest ih =>
    rw [offsetsFrom] at h
    rcases Option.bind_eq_some_iff.mp h with ⟨room, _, hroom⟩
    split at hroom
    · cases hroom
    · rcases Option.map_eq_some_iff.mp hroom with ⟨found, hfound, hspans⟩
      rcases Option.map_eq_some_iff.mp hspans with ⟨others, rfl, rfl⟩
      intro span hspan
      rcases List.mem_cons.mp hspan with rfl | hin
      · exact asU32_lt _
      · exact ih hfound span hin

theorem signatureWithParamOffsets_lt {node : Declaration} {label : Text} {spans : List Span}
    (h : signatureWithParamOffsets node = some (some (label, spans))) :
    forall span, span ∈ spans -> span.2 < 4294967296 := by
  simp only [signatureWithParamOffsets] at h
  split at h
  · cases h
    exact fun span hspan => absurd hspan List.not_mem_nil
  · split at h
    · cases h
    · rcases Option.map_eq_some_iff.mp h with ⟨found, hfound, hlabel⟩
      rcases Option.map_eq_some_iff.mp hlabel with ⟨others, rfl, hothers⟩
      cases hothers
      exact offsetsFrom_lt hfound

theorem byteLen_of_slice? {text taken : Text} {start stop : Nat}
    (h : Text.slice? text start stop = some taken) : Text.byteLen taken = stop - start := by
  rcases Option.bind_eq_some_iff.mp h with ⟨rest, _, htaken⟩
  exact (Text.takeBytes?_eq_some_iff.mp htaken).left

theorem short_of_marks {l : RenderedLabel} {spans : List Span} (h : Marks l spans)
    (hlt : forall span, span ∈ spans -> span.2 < 4294967296) :
    forall param, param ∈ l.parameters -> Text.byteLen param < 4294967296 := by
  intro param hparam
  rcases forall₂_mem_right h.slices hparam with ⟨span, hspan, hslice⟩
  have hlen := byteLen_of_slice? hslice
  have hend := hlt span hspan
  omega

/--
Offsets that are kept in 32 bits and still mark the parameters have not been cut: a start
that is cut lies at the front of the label, before the parameter in front of it.
-/
theorem end_lt_of_cut {text : Text} {params : List Text} (hne : params ≠ [])
    (hparams : forall param, param ∈ params -> param ≠ []) {lower start : Nat}
    (hstart : start ≤ lower + 2)
    (hslices : List.Forall₂ (fun span param => Text.slice? text span.1 span.2 = some param)
      ((spansFrom start params).map cut32) params)
    (hordered : ((spansFrom start params).map cut32).Pairwise
      (fun earlier later => earlier.1 < later.1 ∧ earlier.2 ≤ later.1))
    (hinside : forall span, span ∈ (spansFrom start params).map cut32 -> lower ≤ span.1) :
    start + Text.byteLen ([',', ' '].intercalate params) < 4294967296 := by
  induction params generalizing lower start with
  | nil => exact absurd rfl hne
  | cons param rest ih =>
    have hlen := byteLen_pos (hparams param List.mem_cons_self)
    have hfirst : lower ≤ asU32 start := hinside _ List.mem_cons_self
    have hkept : start < 4294967296 := by
      by_contra hge
      have hcut := asU32_of_ge (Nat.le_of_not_lt hge)
      omega
    rcases List.forall₂_cons.mp hslices with ⟨hslice, hothers⟩
    have hcutLen := byteLen_of_slice? hslice
    have hend : start + Text.byteLen param < 4294967296 := by
      by_contra hge
      have hcut := asU32_of_ge (Nat.le_of_not_lt hge)
      simp only [cut32, asU32_of_lt hkept] at hcutLen
      omega
    cases rest with
    | nil =>
      rw [List.intercalate_singleton]
      exact hend
    | cons next rest =>
      rcases List.pairwise_cons.mp hordered with ⟨hafter, hpairs⟩
      have hbehind : forall span,
          span ∈ (spansFrom (start + Text.byteLen param + 2) (next :: rest)).map cut32 ->
            start + Text.byteLen param ≤ span.1 := by
        intro span hspan
        have hle := (hafter span hspan).right
        simp only [cut32, asU32_of_lt hend] at hle
        exact hle
      have hrest := ih (List.cons_ne_nil next rest)
        (fun other hother => hparams other (List.mem_cons_of_mem param hother))
        (Nat.le_refl _) hothers hpairs hbehind
      rw [byteLen_join]
      omega

theorem addressable_of_marks {l : RenderedLabel}
    (h : Marks l ((spansFrom l.base l.parameters).map cut32)) : l.Addressable := by
  by_cases hnone : l.parameters = []
  · exact .inl hnone
  · have hne : forall param, param ∈ l.parameters -> param ≠ [] :=
      fun param hparam => (l.wellformed param hparam).nonempty
    exact .inr (end_lt_of_cut hnone hne (Nat.le_add_right _ _) h.slices h.ordered
      (fun span hspan => (h.inside span hspan).left))

theorem short_of_addressable {l : RenderedLabel} (h : l.Addressable) :
    forall param, param ∈ l.parameters -> Text.byteLen param < 4294967296 := by
  rcases h with hnone | hclose
  · rw [hnone]
    exact fun param hparam => absurd hparam List.not_mem_nil
  · have hne : forall param, param ∈ l.parameters -> param ≠ [] :=
      fun param hparam => (l.wellformed param hparam).nonempty
    exact short_of_marks (marks_spansFrom l) (fun span hspan =>
      Nat.lt_of_le_of_lt (spansFrom_inside hne hspan).right.right hclose)

theorem external_located_iff (l : RenderedLabel) :
    (exists spans, externalParamOffsets l.text = some spans ∧ Located l spans) <->
      l.Addressable := by
  constructor
  · rintro ⟨spans, hspans, hlocated⟩
    have hshort := short_of_marks hlocated.left (externalParamOffsets_lt hspans)
    have hfound := externalParamOffsets_text l hshort
    rw [hspans] at hfound
    cases hfound
    exact addressable_of_marks hlocated.left
  · intro h
    exact ⟨_, externalParamOffsets_text l (short_of_addressable h), located_of_addressable h⟩

theorem source_located_iff {node : Declaration} {l : RenderedLabel} (hrenders : node.Renders l) :
    (exists spans, signatureWithParamOffsets node = some (some (l.text, spans)) ∧
        Located l spans) <-> l.Addressable := by
  constructor
  · rintro ⟨spans, hspans, hlocated⟩
    have hshort := short_of_marks hlocated.left (signatureWithParamOffsets_lt hspans)
    have hfound := signatureWithParamOffsets_text hrenders hshort
    rw [hspans] at hfound
    cases hfound
    exact addressable_of_marks hlocated.left
  · intro h
    exact ⟨_, signatureWithParamOffsets_text hrenders (short_of_addressable h),
      located_of_addressable h⟩

/--
The offsets cut exactly the parameters out of the label, and the client gets the same places
in UTF-16 units, unless the last parameter ends at an offset that 32 bits do not hold.
-/
theorem parameter_offsets_iff (l : RenderedLabel) :
    ((exists spans, externalParamOffsets l.text = some spans ∧ Located l spans) <->
        l.Addressable) ∧
      forall node : Declaration, node.Renders l ->
        ((exists spans, signatureWithParamOffsets node = some (some (l.text, spans)) ∧
            Located l spans) <-> l.Addressable) :=
  ⟨external_located_iff l, fun _ hrenders => source_located_iff hrenders⟩

namespace Put

/-- `public void put(Map<K, V> m, V m)`, with a line break in the first type. -/
def node : Declaration :=
  { kind := .method
    modifiers := some [.keyword "public".toList]
    type := some "void".toList
    name := some "put".toList
    parameters := some
      [{ kind := .formal, type := some "Map<K,\n  V>".toList, name := some "m".toList },
        { kind := .formal, type := some "V".toList, name := some "m".toList }]
    throws := none }

def label : RenderedLabel :=
  { front := "public void put".toList
    parameters := ["Map<K, V> m".toList, "V m".toList]
    behind := []
    frontPlain := by decide
    wellformed := by decide }

theorem parameters_are_found :
    (exists spans, externalParamOffsets label.text = some spans ∧ Located label spans) ∧
      exists spans, signatureWithParamOffsets node = some (some (label.text, spans)) ∧
        Located label spans := by
  have hfits : label.Addressable := .inr (by decide)
  have hoffsets := parameter_offsets_iff label
  exact ⟨hoffsets.left.mpr hfits, (hoffsets.right node (by decide)).mpr hfits⟩

end Put

/-!
# A label of more than four gigabytes
-/

theorem parameterLabel_longLine (n : Nat) : ParameterLabel (Documents.longLine (n + 1)) := by
  have hmem : forall c, c ∈ Documents.longLine (n + 1) -> c = 'a' :=
    fun c hc => List.eq_of_mem_replicate hc
  have hplain : forall weight : Char -> Int, weight 'a' = 0 ->
      Balanced weight (Documents.longLine (n + 1)) := by
    intro weight hweight
    apply nested_of_plain (Int.le_refl 0)
    intro c hc
    rw [hmem c hc]
    exact hweight
  have hfirst : (Documents.longLine (n + 1)).head? = some 'a' := rfl
  have hlast : (Documents.longLine (n + 1)).getLast? = some 'a' := by
    rw [Documents.longLine, List.getLast?_replicate, if_neg (Nat.succ_ne_zero n)]
  constructor
  · exact List.cons_ne_nil 'a' _
  · exact dropWhile_ends_eq_self hfirst hlast (by decide) (by decide)
  · exact hplain round rfl
  · exact hplain square rfl
  · exact hplain angle rfl
  · intro before after hcomma
    have hin : ',' ∈ Documents.longLine (n + 1) := by
      rw [hcomma]
      simp
    exact absurd (hmem ',' hin) (by decide)

namespace Box

/-- `Box(X, X)`, where the name of the class `X` has `n + 1` letters. -/
def label (n : Nat) : RenderedLabel :=
  { front := "Box".toList
    parameters := [Documents.longLine (n + 1), Documents.longLine (n + 1)]
    behind := []
    frontPlain := by decide
    wellformed := by
      intro param hparam
      simp only [List.mem_cons, List.not_mem_nil, or_false, or_self] at hparam
      rw [hparam]
      exact parameterLabel_longLine n }

theorem close_label (n : Nat) : (label n).close = 4 + (n + 1 + 2 + (n + 1)) := by
  have hlist : Text.byteLen (label n).list = n + 1 + 2 + (n + 1) := by
    rw [RenderedLabel.list, label, byteLen_join, List.intercalate_singleton,
      Documents.byteLen_longLine]
  have hclose : (label n).close = 4 + Text.byteLen (label n).list := rfl
  rw [hclose, hlist]

/-- With a name of two gigabytes the end of the second parameter wraps around. -/
theorem second_parameter_is_lost :
    ¬ exists spans, externalParamOffsets (label 2147483647).text = some spans ∧
      Located (label 2147483647) spans := by
  intro hlocated
  rcases (external_located_iff (label 2147483647)).mp hlocated with hnone | hclose
  · cases hnone
  · rw [close_label] at hclose
    omega

end Box

end Help
end JavaVsixLite
