import Mathlib.Logic.Function.Basic
import JavaVsixLite.Classpath.Pom
import JavaVsixLite.Foundation.Decimals
import JavaVsixLite.Foundation.Substrings
import JavaVsixLite.Foundation.Utf8Pieces

/-!
# The output of the debuggee

Both streams of the debuggee are read until the line with the port turns up on one of them.
What was read besides that line is sent on, and from then on each stream by itself is sent
line by line, an unfinished line when it has grown long.  Every piece is decoded by itself.

The reads of both streams come in any order.  A stream that ends before the line with the
port is an error, and ends the list of the reads here.
-/

namespace JavaVsixLite
namespace Debug

open Foundation
open Foundation.Utf8

/-!
# Waiting for the port
-/

inductive ChildStream where
  | stdout
  | stderr
deriving DecidableEq

def ChildStream.other : ChildStream -> ChildStream
  | .stdout => .stderr
  | .stderr => .stdout

/-- A read that did not meet the end of its stream. -/
structure Read where
  stream : ChildStream
  bytes : List UInt8
  nonempty : bytes ≠ []
deriving DecidableEq

def listenPattern : Text :=
  "Listening for transport dt_socket at address: ".toList

/-- What stands before the pattern, between it and the end of its line, and behind. -/
def splitListenLine (text : Text) : Option (Text × Text × Text) :=
  match splitOnce listenPattern text with
  | none => none
  | some (before, after) =>
    match splitOnce ['\n'] after with
    | none => none
    | some (line, rest) => some (before, line, rest)

/-- `heard` is the stream with the port, and `rest` are the reads that are left. -/
structure HandOver where
  port : Nat
  heard : ChildStream
  early : List (ChildStream × Text)
  rest : List Read
deriving DecidableEq

def earlyOutput (heard : ChildStream) (kept : Text) (other : List UInt8) :
    List (ChildStream × Text) :=
  (if kept = [] then [] else [(heard, kept)]) ++
    (if other = [] then [] else [(heard.other, fromUtf8Lossy other)])

def waitForListenPort (buf : ChildStream -> List UInt8) : List Read -> Except Text HandOver
  | [] => .error "output ended before the JDWP listen line".toList
  | read :: rest =>
    let buf := Function.update buf read.stream (buf read.stream ++ read.bytes)
    match splitListenLine (fromUtf8Lossy (buf read.stream)) with
    | none => waitForListenPort buf rest
    | some (before, line, after) =>
      match parseUnsigned 65536 (Classpath.trim line) with
      | none => .error ("unparseable JDWP listen line: ".toList ++ line)
      | some port =>
        .ok
          { port := port
            heard := read.stream
            early := earlyOutput read.stream (before ++ after) (buf read.stream.other)
            rest := rest }

/-!
# Forwarding
-/

def outputChunkCap : Nat := 8 * 1024

def newline : UInt8 := 0x0A

/-- The complete lines and what is left, where `line` is what was read of a line so far. -/
@[grind =] def completeLines (line : List UInt8) : List UInt8 -> List (List UInt8) × List UInt8
  | [] => ([], line)
  | b :: rest =>
    if b = newline then
      ((line ++ [b]) :: (completeLines [] rest).1, (completeLines [] rest).2)
    else completeLines (line ++ [b]) rest

def flush (pending : List UInt8) : List (List UInt8) × List UInt8 :=
  let (lines, line) := completeLines [] pending
  if outputChunkCap ≤ line.length then (lines ++ [line], []) else (lines, line)

@[grind =] def forwardPieces (pending : List UInt8) : List (List UInt8) -> List (List UInt8)
  | [] => (flush pending).1 ++ (if (flush pending).2 = [] then [] else [(flush pending).2])
  | read :: rest => (flush pending).1 ++ forwardPieces ((flush pending).2 ++ read) rest

def forwardStream (pending : List UInt8) (reads : List (List UInt8)) : List Text :=
  (forwardPieces pending reads).map fromUtf8Lossy

/-- The reads of one stream. -/
def streamReads (reads : List Read) (stream : ChildStream) : List (List UInt8) :=
  (reads.filter (fun read => read.stream = stream)).map Read.bytes

/-- The chunks that are sent for a stream. -/
def chunks (found : HandOver) (stream : ChildStream) : List Text :=
  (found.early.filter (fun entry => entry.1 = stream)).map Prod.snd ++
    forwardStream [] (streamReads found.rest stream)

/-!
# Pieces of a stream
-/

theorem completeLines_flatten (line bytes : List UInt8) :
    (completeLines line bytes).1.flatten ++ (completeLines line bytes).2 = line ++ bytes := by
  induction bytes generalizing line with
  | nil => simp [completeLines]
  | cons b rest ih =>
    rw [completeLines]
    split
    · have hrest := ih []
      rw [List.flatten_cons, List.append_assoc, hrest, List.nil_append, List.append_assoc]
      rfl
    · rw [ih, List.append_assoc]
      rfl

theorem newline_notMem_completeLines {line : List UInt8} (h : newline ∉ line)
    (bytes : List UInt8) : newline ∉ (completeLines line bytes).2 := by
  induction bytes generalizing line with
  | nil => exact h
  | cons b rest ih =>
    rw [completeLines]
    split
    · exact ih (List.not_mem_nil)
    · rename_i hb
      apply ih
      rw [List.mem_append, List.mem_singleton]
      rintro (hline | heq)
      · exact h hline
      · exact hb heq.symm

theorem completeLines_append {line : List UInt8} (h : newline ∉ line) (start bytes : List UInt8) :
    completeLines start (line ++ bytes) = completeLines (start ++ line) bytes := by
  induction line generalizing start with
  | nil => rw [List.nil_append, List.append_nil]
  | cons b rest ih =>
    rw [List.mem_cons, not_or] at h
    have hb : b ≠ newline := fun heq => h.1 heq.symm
    rw [List.cons_append, completeLines, if_neg hb, ih h.2, List.append_assoc]
    rfl

def Steady (line : List UInt8) : Prop :=
  newline ∉ line ∧ line.length < outputChunkCap

theorem steady_nil : Steady [] :=
  ⟨List.not_mem_nil, by decide⟩

theorem Steady.completeLines_append {line : List UInt8} (h : Steady line) (bytes : List UInt8) :
    completeLines [] (line ++ bytes) = completeLines line bytes :=
  Debug.completeLines_append h.1 [] bytes

theorem Steady.flush {line : List UInt8} (h : Steady line) : Debug.flush line = ([], line) := by
  have hlines := h.completeLines_append []
  rw [List.append_nil] at hlines
  rw [Debug.flush, hlines]
  exact if_neg (Nat.not_le.mpr h.2)

theorem flush_steady (pending : List UInt8) : Steady (flush pending).2 := by
  unfold flush
  dsimp only
  split
  · exact steady_nil
  · rename_i hshort
    exact ⟨newline_notMem_completeLines List.not_mem_nil pending, Nat.lt_of_not_le hshort⟩

theorem flush_flatten (pending : List UInt8) :
    (flush pending).1.flatten ++ (flush pending).2 = pending := by
  have hparts := completeLines_flatten [] pending
  rw [List.nil_append] at hparts
  unfold flush
  dsimp only
  split
  · rw [List.flatten_append, List.flatten_singleton, List.append_nil, hparts]
  · exact hparts

theorem forwardPieces_flush (pending : List UInt8) (reads : List (List UInt8)) :
    forwardPieces pending reads = (flush pending).1 ++ forwardPieces (flush pending).2 reads := by
  have hsteady := (flush_steady pending).flush
  cases reads with
  | nil => simp only [forwardPieces, hsteady, List.nil_append]
  | cons read rest => simp only [forwardPieces, hsteady, List.nil_append]

theorem forwardPieces_flatten (pending : List UInt8) (reads : List (List UInt8)) :
    (forwardPieces pending reads).flatten = pending ++ reads.flatten := by
  induction reads generalizing pending with
  | nil =>
    have hparts := flush_flatten pending
    rw [forwardPieces]
    split
    · rename_i hnil
      rw [hnil, List.append_nil] at hparts
      rw [List.append_nil, hparts, List.flatten_nil, List.append_nil]
    · rw [List.flatten_append, List.flatten_singleton, hparts, List.flatten_nil, List.append_nil]
  | cons read rest ih =>
    rw [forwardPieces, List.flatten_append, ih, List.append_assoc, ← List.append_assoc,
      flush_flatten, List.flatten_cons]

theorem isText_completeLines {line bytes back : List UInt8}
    (h : IsText (line ++ bytes ++ back)) :
    (forall piece, piece ∈ (completeLines line bytes).1 -> IsText piece) ∧
      IsText ((completeLines line bytes).2 ++ back) := by
  induction bytes generalizing line with
  | nil =>
    refine ⟨?_, ?_⟩
    · intro piece hpiece
      cases hpiece
    · rwa [List.append_nil] at h
  | cons b rest ih =>
    have hsplit : line ++ b :: rest ++ back = (line ++ [b]) ++ (rest ++ back) := by simp
    rw [completeLines]
    split
    · rename_i hb
      subst hb
      rcases h with ⟨text, htext⟩
      have hline : IsText (line ++ [newline]) :=
        isText_of_append_eq_encode (by decide) (hsplit.symm.trans htext.symm)
      have hrest : IsText (rest ++ back) := by
        rw [← hline.append_iff, ← hsplit]
        exact ⟨text, htext⟩
      have hnext : IsText ([] ++ rest ++ back) := hrest
      rcases ih hnext with ⟨hlines, hback⟩
      refine ⟨?_, hback⟩
      intro piece hpiece
      rcases List.mem_cons.mp hpiece with rfl | hlater
      · exact hline
      · exact hlines piece hlater
    · apply ih
      rw [← List.append_assoc] at hsplit
      rwa [← hsplit]

/-- Each unfinished line that is sent for its length ends between two characters. -/
def CapCutsFit (line : List UInt8) : List (List UInt8) -> Prop
  | [] => True
  | read :: rest =>
    if outputChunkCap ≤ (completeLines line read).2.length then
      IsText (completeLines line read).2 ∧ CapCutsFit [] rest
    else CapCutsFit (completeLines line read).2 rest

instance decidableCapCutsFit : forall (line : List UInt8) (reads : List (List UInt8)),
    Decidable (CapCutsFit line reads)
  | _, [] => inferInstanceAs (Decidable True)
  | line, read :: rest =>
    have : Decidable (CapCutsFit [] rest) := decidableCapCutsFit [] rest
    have : Decidable (CapCutsFit (completeLines line read).2 rest) :=
      decidableCapCutsFit (completeLines line read).2 rest
    inferInstanceAs (Decidable (if outputChunkCap ≤ (completeLines line read).2.length then
      IsText (completeLines line read).2 ∧ CapCutsFit [] rest
    else CapCutsFit (completeLines line read).2 rest))

theorem forwardPieces_isText_iff {line : List UInt8} {reads : List (List UInt8)}
    (hsteady : Steady line) (h : IsText (line ++ reads.flatten)) :
    (forall piece, piece ∈ forwardPieces line reads -> IsText piece) <->
      CapCutsFit line reads := by
  induction reads generalizing line with
  | nil =>
    rw [List.flatten_nil, List.append_nil] at h
    refine iff_of_true ?_ trivial
    intro piece hpiece
    rw [forwardPieces, hsteady.flush, List.nil_append] at hpiece
    split at hpiece
    · cases hpiece
    · rw [List.mem_singleton.mp hpiece]
      exact h
  | cons read rest ih =>
    rw [List.flatten_cons, ← List.append_assoc] at h
    rcases isText_completeLines h with ⟨hlines, hback⟩
    have hpieces : forwardPieces line (read :: rest) =
        (flush (line ++ read)).1 ++ forwardPieces (flush (line ++ read)).2 rest := by
      rw [forwardPieces, hsteady.flush, List.nil_append, forwardPieces_flush]
    rw [hpieces, CapCutsFit, flush, hsteady.completeLines_append]
    dsimp only
    split
    · rename_i hlong
      constructor
      · intro hall
        have hline : IsText (completeLines line read).2 := hall _ (by simp)
        refine ⟨hline, (ih steady_nil (hline.append_iff.mp hback)).mp ?_⟩
        intro piece hpiece
        exact hall piece (List.mem_append_right _ hpiece)
      · rintro ⟨hline, hfit⟩ piece hpiece
        rcases List.mem_append.mp hpiece with hflushed | hlater
        · rcases List.mem_append.mp hflushed with hcomplete | hlong
          · exact hlines piece hcomplete
          · rw [List.mem_singleton.mp hlong]
            exact hline
        · exact (ih steady_nil (hline.append_iff.mp hback)).mpr hfit piece hlater
    · rename_i hshort
      have hnext : Steady (completeLines line read).2 :=
        ⟨newline_notMem_completeLines hsteady.1 read, Nat.lt_of_not_le hshort⟩
      rw [← ih hnext hback]
      constructor
      · intro hall piece hpiece
        exact hall piece (List.mem_append_right _ hpiece)
      · intro hall piece hpiece
        rcases List.mem_append.mp hpiece with hcomplete | hlater
        · exact hlines piece hcomplete
        · exact hall piece hlater

/-!
# The line with the port
-/

section ListenLine

theorem splitOnce_append {α : Type} [DecidableEq α] {needle text front rest : List α}
    (hneedle : needle ≠ []) (h : splitOnce needle text = some (front, rest)) (rest' : List α) :
    splitOnce needle (front ++ (needle ++ rest')) = some (front, rest') := by
  apply splitOnce_of_startsNotIn hneedle
  intro t ht hsuffix hstarts
  apply startsNotIn_of_splitOnce h t ht hsuffix
  -- Where the needle starts in the front part, it ends in the first needle behind it.
  have hwithin : needle <+: t ++ needle := by
    apply List.prefix_of_prefix_length_le hstarts
    · rw [← List.append_assoc]
      exact List.prefix_append _ _
    · rw [List.length_append]
      exact Nat.le_add_left _ _
  rw [← List.append_assoc]
  exact hwithin.trans (List.prefix_append _ _)

theorem eq_of_splitListenLine {text before line after : Text}
    (h : splitListenLine text = some (before, line, after)) :
    text = before ++ (listenPattern ++ (line ++ ['\n'])) ++ after := by
  unfold splitListenLine at h
  cases hpattern : splitOnce listenPattern text with
  | none =>
    rw [hpattern] at h
    cases h
  | some halves =>
    simp only [hpattern] at h
    cases hline : splitOnce ['\n'] halves.2 with
    | none =>
      rw [hline] at h
      cases h
    | some inner =>
      rw [hline] at h
      cases h
      rw [eq_of_splitOnce hpattern, eq_of_splitOnce hline]
      simp

theorem splitListenLine_append {text before line after : Text}
    (h : splitListenLine text = some (before, line, after)) (after' : Text) :
    splitListenLine (before ++ (listenPattern ++ (line ++ ['\n'])) ++ after') =
      some (before, line, after') := by
  unfold splitListenLine at h ⊢
  cases hpattern : splitOnce listenPattern text with
  | none =>
    rw [hpattern] at h
    cases h
  | some halves =>
    simp only [hpattern] at h
    cases hline : splitOnce ['\n'] halves.2 with
    | none =>
      rw [hline] at h
      cases h
    | some inner =>
      rw [hline] at h
      cases h
      have houter := splitOnce_append (by decide) hpattern (inner.1 ++ (['\n'] ++ after'))
      have hinner := splitOnce_append (List.cons_ne_nil _ _) hline after'
      simp only [List.append_assoc, houter, hinner]

def withoutListenLine (text : Text) : Text :=
  match splitListenLine text with
  | some (before, _, after) => before ++ after
  | none => text

theorem withoutListenLine_of_found {text tail before line after : Text} (htail : '\n' ∉ tail)
    (h : splitListenLine (text ++ tail) = some (before, line, after)) (others : Text) :
    exists kept, before ++ after = kept ++ tail ∧
      withoutListenLine (text ++ others) = kept ++ others := by
  have htext := eq_of_splitListenLine h
  rcases List.append_eq_append_iff.mp htext with ⟨cut, hfound, hcut⟩ | ⟨cut, hfound, hcut⟩
  · by_cases hnil : cut = []
    · subst hnil
      rw [List.append_nil] at hfound
      refine ⟨before, by rw [hcut, List.nil_append], ?_⟩
      rw [withoutListenLine, ← hfound, splitListenLine_append h]
    · -- Otherwise the line feed would stand behind the text.
      have hlast := congrArg List.getLast? hfound
      rw [List.getLast?_append_of_ne_nil _ hnil, ← List.append_assoc, ← List.append_assoc,
        List.getLast?_concat] at hlast
      apply absurd _ htail
      rw [hcut]
      exact List.mem_append_left _ (List.mem_of_getLast? hlast.symm)
  · refine ⟨before ++ cut, by rw [hcut, List.append_assoc], ?_⟩
    have hsplit := splitListenLine_append h (cut ++ others)
    rw [← List.append_assoc] at hsplit
    rw [withoutListenLine, hfound, hsplit]
    exact (List.append_assoc before cut others).symm

end ListenLine

/-!
# The hand-over
-/

section HandingOver

variable {reads front : List Read} {found : HandOver} {stream : ChildStream}

theorem streamReads_append (xs ys : List Read) (stream : ChildStream) :
    streamReads (xs ++ ys) stream = streamReads xs stream ++ streamReads ys stream := by
  unfold streamReads
  rw [List.filter_append, List.map_append]

theorem update_streamReads (buf : ChildStream -> List UInt8) (read : Read) (front : List Read)
    (stream : ChildStream) :
    Function.update buf read.stream (buf read.stream ++ read.bytes) stream ++
        (streamReads front stream).flatten =
      buf stream ++ (streamReads (read :: front) stream).flatten := by
  by_cases hstream : stream = read.stream
  · subst hstream
    simp [streamReads]
  · have hother : ¬ read.stream = stream := fun heq => hstream heq.symm
    simp [streamReads, hstream, hother]

/-- The line is found in what was read of its stream, and all that was read of the other stream
is sent with the rest. -/
theorem waitForListenPort_ok {buf : ChildStream -> List UInt8}
    (h : waitForListenPort buf reads = .ok found) :
    exists front before line after, reads = front ++ found.rest ∧
      splitListenLine (fromUtf8Lossy (buf found.heard ++
        (streamReads front found.heard).flatten)) = some (before, line, after) ∧
      found.early = earlyOutput found.heard (before ++ after) (buf found.heard.other ++
        (streamReads front found.heard.other).flatten) := by
  induction reads generalizing buf with
  | nil => cases h
  | cons read rest ih =>
    rw [waitForListenPort] at h
    split at h
    · rcases ih h with ⟨front, before, line, after, rfl, hsplit, hearly⟩
      rw [update_streamReads] at hsplit hearly
      exact ⟨read :: front, before, line, after, rfl, hsplit, hearly⟩
    · rename_i before line after hsplit
      split at h
      · cases h
      · cases h
        refine ⟨[read], before, line, after, rfl, ?_, ?_⟩
        · rw [← update_streamReads, streamReads, List.filter_nil, List.map_nil,
            List.flatten_nil, List.append_nil]
          exact hsplit
        · rw [← update_streamReads, streamReads, List.filter_nil, List.map_nil,
            List.flatten_nil, List.append_nil]

theorem ChildStream.eq_or_eq_other (stream heard : ChildStream) :
    stream = heard ∨ stream = heard.other := by
  cases stream <;> cases heard <;> simp [ChildStream.other]

theorem ChildStream.other_ne (heard : ChildStream) : heard.other ≠ heard := by
  cases heard <;> simp [ChildStream.other]

theorem earlyOutput_heard (heard : ChildStream) (kept : Text) (other : List UInt8) :
    (((earlyOutput heard kept other).filter (fun entry => entry.1 = heard)).map
      Prod.snd).flatten = kept := by
  have hother := heard.other_ne
  unfold earlyOutput
  by_cases hkept : kept = [] <;> by_cases hnil : other = [] <;> simp [hkept, hnil, hother]

theorem earlyOutput_other (heard : ChildStream) (kept : Text) (other : List UInt8) :
    (((earlyOutput heard kept other).filter (fun entry => entry.1 = heard.other)).map
      Prod.snd).flatten = fromUtf8Lossy other := by
  have hne := heard.other_ne.symm
  unfold earlyOutput
  by_cases hkept : kept = [] <;> by_cases hnil : other = [] <;>
    simp [hkept, hnil, hne, fromUtf8Lossy]

/-- What was read of a stream before the hand-over and the pieces that are sent then. -/
def piecesOf (front : List Read) (found : HandOver) (stream : ChildStream) :
    List (List UInt8) :=
  (streamReads front stream).flatten :: forwardPieces [] (streamReads found.rest stream)

theorem piecesOf_flatten (h : reads = front ++ found.rest) :
    (piecesOf front found stream).flatten = (streamReads reads stream).flatten := by
  rw [piecesOf, List.flatten_cons, forwardPieces_flatten, List.nil_append, h, streamReads_append,
    List.flatten_append]

/-- No piece is cut inside a character if and only if neither the hand-over nor the cap cuts
there. -/
theorem piecesOf_isText_iff (h : IsText (piecesOf front found stream).flatten) :
    (forall piece, piece ∈ piecesOf front found stream -> IsText piece) <->
      IsText (streamReads front stream).flatten ∧
        CapCutsFit [] (streamReads found.rest stream) := by
  rw [piecesOf, List.flatten_cons, forwardPieces_flatten, List.nil_append] at h
  unfold piecesOf
  constructor
  · intro hall
    have hfront := hall _ List.mem_cons_self
    refine ⟨hfront, (forwardPieces_isText_iff steady_nil ?_).mp ?_⟩
    · exact hfront.append_iff.mp h
    · exact fun piece hpiece => hall piece (List.mem_cons_of_mem _ hpiece)
  · rintro ⟨hfront, hfit⟩ piece hpiece
    rcases List.mem_cons.mp hpiece with rfl | hlater
    · exact hfront
    · exact (forwardPieces_isText_iff steady_nil (hfront.append_iff.mp h)).mpr hfit piece hlater

theorem flatten_forwardStream (pending : List UInt8) (reads : List (List UInt8)) :
    (forwardStream pending reads).flatten =
      (forwardPieces pending reads).flatMap fromUtf8Lossy := by
  rw [forwardStream, List.flatMap_def]

theorem fromUtf8Lossy_front {bytes back : List UInt8} {text : Text}
    (h : bytes ++ back = encode text) :
    exists before after tail, text = before ++ after ∧ fromUtf8Lossy bytes = before ++ tail ∧
      '\n' ∉ tail := by
  rcases append_eq_encode h with ⟨before, after, rfl, ⟨rfl, _⟩ | hcut⟩
  · exact ⟨before, after, [], rfl, by rw [fromUtf8Lossy_encode, List.append_nil],
      List.not_mem_nil⟩
  · rcases hcut with ⟨c, others, inside, outside, rfl, hinside, houtside, hchar, rfl, _⟩
    refine ⟨before, c :: others, fromUtf8Lossy inside, rfl, fromUtf8Lossy_encode_append before _,
      ?_⟩
    intro hnewline
    have hbyte := mem_of_mem_fromUtf8Lossy (by decide) hnewline
    have hmem : newline ∈ String.utf8EncodeChar c := by
      rw [hchar]
      exact List.mem_append_left _ hbyte
    have hlen := congrArg List.length hchar
    have hpos := List.length_pos_of_ne_nil hinside
    have hpos' := List.length_pos_of_ne_nil houtside
    rcases mem_encodeChar hmem with hsame | hhigh
    · have hascii : c.toNat < 128 := by
        rw [← hsame]
        decide
      rw [encodeChar_ascii hascii, List.length_append, List.length_singleton] at hlen
      omega
    · exact absurd hhigh (by decide)

end HandingOver

/-- What the debuggee printed on a stream, without the line of the port on the stream where it
was found. -/
def printed (found : HandOver) (stream : ChildStream) (text : Text) : Text :=
  if stream = found.heard then withoutListenLine text else text

/-- A stream is forwarded unchanged if and only if the hand-over comes between two of its
characters and each unfinished line that is sent for its length ends between two characters. -/
theorem output_unchanged_iff {reads : List Read} {found : HandOver}
    (hwait : waitForListenPort (fun _ => []) reads = .ok found) {texts : ChildStream -> Text}
    (htexts : forall stream, (streamReads reads stream).flatten = encode (texts stream)) :
    exists front, reads = front ++ found.rest ∧
      forall stream,
        (chunks found stream).flatten = printed found stream (texts stream) <->
          IsText (streamReads front stream).flatten ∧
            CapCutsFit [] (streamReads found.rest stream) := by
  rcases waitForListenPort_ok hwait with ⟨front, before, line, after, hreads, hsplit, hearly⟩
  refine ⟨front, hreads, ?_⟩
  intro stream
  have hflatten : (piecesOf front found stream).flatten = encode (texts stream) :=
    (piecesOf_flatten hreads).trans (htexts stream)
  rw [← piecesOf_isText_iff ⟨texts stream, hflatten.symm⟩,
    ← flatMap_fromUtf8Lossy_eq_iff hflatten, piecesOf, List.flatMap_cons, chunks,
    List.flatten_append, flatten_forwardStream, hearly, printed]
  rcases stream.eq_or_eq_other found.heard with rfl | rfl
  · rw [piecesOf, List.flatten_cons] at hflatten
    rcases fromUtf8Lossy_front hflatten with ⟨first, others, tail, htext, hdecoded, htail⟩
    rw [List.nil_append, hdecoded] at hsplit
    rcases withoutListenLine_of_found htail hsplit others with ⟨kept, hkept, hwithout⟩
    rw [if_pos rfl, earlyOutput_heard, hkept, htext, hwithout, hdecoded, List.append_assoc,
      List.append_assoc, List.append_cancel_left_eq, List.append_cancel_left_eq]
  · rw [if_neg found.heard.other_ne, earlyOutput_other, List.nil_append]

namespace Accent

/-- The virtual machine prints an accented word on the other stream first. -/
def texts : ChildStream -> Text
  | .stdout => listenPattern ++ "5005\n".toList
  | .stderr => "à".toList

def listen : Read where
  stream := .stdout
  bytes := encode (texts .stdout)
  nonempty := by decide +kernel

/-- More is printed on both streams behind the line with the port. -/
def wholeTexts : ChildStream -> Text
  | .stdout => texts .stdout ++ "up\n".toList
  | .stderr => "àé\n".toList

def laterReads : List Read :=
  [{ stream := .stderr, bytes := [0xC3], nonempty := List.cons_ne_nil _ _ },
    { stream := .stdout, bytes := encode "up\n".toList, nonempty := by decide +kernel },
    { stream := .stderr, bytes := [0xA9, 0x0A], nonempty := List.cons_ne_nil _ _ }]

def wholeReads : List Read :=
  [{ stream := .stderr, bytes := [0xC3, 0xA0], nonempty := List.cons_ne_nil _ _ }, listen] ++
    laterReads

/-- The second byte of the character is read behind the line with the port. -/
def cutReads : List Read :=
  [{ stream := .stderr, bytes := [0xC3], nonempty := List.cons_ne_nil _ _ }, listen,
    { stream := .stderr, bytes := [0xA0], nonempty := List.cons_ne_nil _ _ }]

def wholeFound : HandOver where
  port := 5005
  heard := .stdout
  early := [(.stderr, "à".toList)]
  rest := laterReads

def cutFound : HandOver where
  port := 5005
  heard := .stdout
  early := [(.stderr, [replacement])]
  rest := [{ stream := .stderr, bytes := [0xA0], nonempty := List.cons_ne_nil _ _ }]

theorem whole_character_is_forwarded :
    (chunks wholeFound .stderr).flatten = printed wholeFound .stderr (wholeTexts .stderr) ∧
      (chunks wholeFound .stdout).flatten = printed wholeFound .stdout (wholeTexts .stdout) := by
  have hwait : waitForListenPort (fun _ => []) wholeReads = .ok wholeFound := by decide +kernel
  have htexts : forall stream,
      (streamReads wholeReads stream).flatten = encode (wholeTexts stream) := by
    intro stream
    cases stream <;> decide +kernel
  rcases output_unchanged_iff hwait htexts with ⟨front, hfront, hiff⟩
  have hrest : wholeFound.rest = laterReads := rfl
  rw [hrest, wholeReads, List.append_cancel_right_eq] at hfront
  subst hfront
  exact ⟨(hiff .stderr).mpr (by decide +kernel), (hiff .stdout).mpr (by decide +kernel)⟩

/-- Each half of the character becomes a replacement character. -/
theorem cut_character_is_replaced :
    waitForListenPort (fun _ => []) cutReads = .ok cutFound ∧
      (forall stream, (streamReads cutReads stream).flatten = encode (texts stream)) ∧
      (chunks cutFound .stderr).flatten = [replacement, replacement] ∧
      printed cutFound .stderr (texts .stderr) = "à".toList := by
  refine ⟨by decide +kernel, ?_, by decide +kernel, by decide +kernel⟩
  intro stream
  cases stream <;> decide +kernel

end Accent

end Debug
end JavaVsixLite
