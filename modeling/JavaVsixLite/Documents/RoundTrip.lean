import JavaVsixLite.Documents.Positions

/-!
# From offsets to positions and back

A byte offset is turned into the line it is on and the units between the start
of the line and the offset; both numbers are kept in 32 bits.  On a character
boundary the two numbers are those of the prefix that ends there, and the offset
of the position gives the boundary back as long as both numbers fit.
-/

namespace JavaVsixLite
namespace Documents

open Foundation

/-!
# Positions of offsets
-/

/-- `slice::binary_search` in a sorted slice without repetitions: the index of
the element, or the index at which it would be inserted. -/
def binarySearch (xs : List Nat) (x : Nat) : Except Nat Nat :=
  match xs.idxOf? x with
  | some found => .ok found
  | none => .error (xs.countP (fun y => decide (y < x)))

def isCharBoundary (text : Text) (byte : Nat) : Bool :=
  (Text.takeBytes? byte text).isSome

/-- The loop of `floor_char_boundary`. -/
def floorFrom (text : Text) : Nat -> Nat
  | 0 => 0
  | byte + 1 => if isCharBoundary text (byte + 1) then byte + 1 else floorFrom text byte

/-- The largest character boundary up to `byte`. -/
def floorCharBoundary (text : Text) (byte : Nat) : Nat :=
  if Text.byteLen text ≤ byte then Text.byteLen text else floorFrom text byte

/-- `n as u32` -/
def asU32 (n : Nat) : Nat :=
  n % 4294967296

def LineIndex.lineOf (index : LineIndex) (byte : Nat) : Nat :=
  match binarySearch index.lineStarts byte with
  | .ok line => line
  | .error next => next - 1

/-- `none` stands for a panic of an index or of the slice. -/
def LineIndex.position (index : LineIndex) (byte : Nat) : Option Position :=
  let byte := floorCharBoundary index.text byte
  let line := index.lineOf byte
  match index.lineStarts[line]? with
  | none => none
  | some lineStart =>
    (Text.slice? index.text lineStart byte).map
      (fun before =>
        { line := asU32 line, character := asU32 (index.encoding.width before) })

/-!
# The place where a prefix ends

The line of a prefix is the number of its line breaks, its character the width of
what follows the last one.
-/

@[grind =] def currentLine : Text -> Text
  | [] => []
  | c :: rest =>
    if '\n' ∈ rest then currentLine rest
    else if c = '\n' then rest
    else c :: rest

def place (encoding : PositionEncoding) (before : Text) : Position :=
  { line := before.count '\n', character := encoding.width (currentLine before) }

/-- Both numbers are kept by 32 bits. -/
def Position.Fits (position : Position) : Prop :=
  position.line < 4294967296 ∧ position.character < 4294967296

/-- The order of positions in a text. -/
def Position.Before (p q : Position) : Prop :=
  p.line < q.line ∨ p.line = q.line ∧ p.character < q.character

variable {text before earlier : Text}

theorem currentLine_of_not_mem (h : '\n' ∉ text) : currentLine text = text := by
  cases text with
  | nil => rfl
  | cons c rest =>
    simp only [List.mem_cons, not_or] at h
    have hc : c ≠ '\n' := fun heq => h.1 heq.symm
    simp [currentLine, h.2, hc]

theorem currentLine_newline (rest : Text) : currentLine ('\n' :: rest) = currentLine rest := by
  by_cases h : '\n' ∈ rest
  · simp [currentLine, h]
  · simp [currentLine, h, currentLine_of_not_mem h]

theorem currentLine_cons_of_mem (c : Char) {rest : Text} (h : '\n' ∈ rest) :
    currentLine (c :: rest) = currentLine rest := by
  simp [currentLine, h]

theorem currentLine_append {middle : Text} (h : '\n' ∉ middle) (before : Text) :
    currentLine (before ++ middle) = currentLine before ++ middle := by
  induction before with
  | nil => exact currentLine_of_not_mem h
  | cons c rest ih =>
    have hmem : '\n' ∈ rest ++ middle <-> '\n' ∈ rest := by simp [h]
    by_cases hrest : '\n' ∈ rest
    · rw [List.cons_append, currentLine_cons_of_mem c (hmem.mpr hrest), ih,
        currentLine_cons_of_mem c hrest]
    · by_cases hc : c = '\n'
      · rw [hc, List.cons_append, currentLine_newline, currentLine_newline, ih]
      · simp [currentLine, hrest, h, hc]

theorem currentLine_cons_eq_nil {c : Char} {rest : Text} (h : currentLine (c :: rest) = []) :
    currentLine rest = [] ∧ (c = '\n' ∨ '\n' ∈ rest) := by
  by_cases hrest : '\n' ∈ rest
  · rw [currentLine_cons_of_mem c hrest] at h
    exact ⟨h, Or.inr hrest⟩
  · by_cases hc : c = '\n'
    · rw [hc, currentLine_newline] at h
      exact ⟨h, Or.inl hc⟩
    · simp [currentLine, hrest, hc] at h

theorem count_newline_of_open {line : Text} (h : before = earlier ++ line) (hopen : '\n' ∉ line) :
    before.count '\n' = earlier.count '\n' := by
  rw [h, List.count_append, List.count_eq_zero.mpr hopen, Nat.add_zero]

theorem currentLine_split (before : Text) :
    exists earlier, before = earlier ++ currentLine before ∧ currentLine earlier = [] ∧
      '\n' ∉ currentLine before := by
  induction before with
  | nil => exact ⟨[], rfl, rfl, List.not_mem_nil⟩
  | cons c rest ih =>
    rcases ih with ⟨earlier, hearlier, hended, hopen⟩
    by_cases hrest : '\n' ∈ rest
    · exists c :: earlier
      have hmem : '\n' ∈ earlier := by
        rw [hearlier, List.mem_append] at hrest
        cases hrest with
        | inl hin => exact hin
        | inr hin => exact absurd hin hopen
      rw [currentLine_cons_of_mem c hrest, currentLine_cons_of_mem c hmem, List.cons_append,
        ← hearlier]
      exact ⟨rfl, hended, hopen⟩
    · by_cases hc : c = '\n'
      · exists [c]
        rw [hc, currentLine_newline, currentLine_of_not_mem hrest]
        exact ⟨rfl, rfl, hrest⟩
      · exists []
        have hmem : '\n' ∉ c :: rest := by
          simp only [List.mem_cons, not_or]
          exact ⟨fun heq => hc heq.symm, hrest⟩
        rw [currentLine_of_not_mem hmem]
        exact ⟨rfl, rfl, hmem⟩

/-!
# The line of an offset
-/

theorem lineStartsFrom_append (at_ : Nat) (before after : Text) :
    lineStartsFrom at_ (before ++ after) =
      lineStartsFrom at_ before ++ lineStartsFrom (at_ + Text.byteLen before) after := by
  induction before generalizing at_ with
  | nil => rfl
  | cons c rest ih =>
    have hat : at_ + Text.byteLen (c :: rest) = at_ + c.utf8Size + Text.byteLen rest := by
      rw [Text.byteLen_cons, Nat.add_assoc]
    rw [hat]
    by_cases hc : c = '\n'
    · simp only [List.cons_append, lineStartsFrom, if_pos hc, ih]
    · simp only [List.cons_append, lineStartsFrom, if_neg hc, ih]

theorem lineStartsFrom_bounds {at_ start : Nat} (h : start ∈ lineStartsFrom at_ text) :
    at_ < start ∧ start ≤ at_ + Text.byteLen text := by
  induction text generalizing at_ with
  | nil => cases h
  | cons c rest ih =>
    have hpos := c.utf8Size_pos
    rw [Text.byteLen_cons]
    unfold lineStartsFrom at h
    split at h
    · rcases List.mem_cons.mp h with hhead | htail
      · omega
      · have hrest := ih htail
        omega
    · have hrest := ih h
      omega

theorem startsFrom_pairwise (at_ : Nat) (text : Text) :
    (startsFrom at_ text).Pairwise (fun s s' => s < s') := by
  unfold startsFrom
  rw [List.pairwise_cons]
  constructor
  · intro start hstart
    exact (lineStartsFrom_bounds hstart).left
  · induction text generalizing at_ with
    | nil => exact List.Pairwise.nil
    | cons c rest ih =>
      by_cases hc : c = '\n'
      · subst hc
        have hsize : Char.utf8Size '\n' = 1 := rfl
        simp only [lineStartsFrom, if_true, hsize, List.pairwise_cons]
        constructor
        · intro start hstart
          exact (lineStartsFrom_bounds hstart).left
        · exact ih (at_ + 1)
      · simp only [lineStartsFrom, if_neg hc]
        exact ih (at_ + c.utf8Size)

theorem length_startsFrom (at_ : Nat) (text : Text) :
    (startsFrom at_ text).length = text.count '\n' + 1 := by
  induction text generalizing at_ with
  | nil => rfl
  | cons c rest ih =>
    have hrest := ih (at_ + c.utf8Size)
    unfold startsFrom at hrest ⊢
    by_cases hc : c = '\n'
    · subst hc
      simpa [lineStartsFrom] using hrest
    · simpa [lineStartsFrom, hc] using hrest

theorem binarySearch_append {xs ys : List Nat} {x : Nat}
    (hsorted : xs.Pairwise (fun s s' => s < s')) (hxs : forall s, s ∈ xs -> s ≤ x)
    (hys : forall s, s ∈ ys -> x < s) (hne : xs ≠ []) :
    binarySearch (xs ++ ys) x = .ok (xs.length - 1) ∨
      binarySearch (xs ++ ys) x = .error xs.length := by
  have hpos : 0 < xs.length := List.length_pos_of_ne_nil hne
  unfold binarySearch
  cases hfound : (xs ++ ys).idxOf? x with
  | none =>
    right
    have habsent : x ∉ xs ++ ys := List.idxOf?_eq_none_iff.mp hfound
    have hbelow : xs.countP (fun s => decide (s < x)) = xs.length := by
      rw [List.countP_eq_length]
      intro s hs
      have hle := hxs s hs
      have hneq : s ≠ x := by
        intro heq
        rw [heq] at hs
        exact habsent (List.mem_append_left ys hs)
      exact decide_eq_true (by omega)
    have habove : ys.countP (fun s => decide (s < x)) = 0 := by
      rw [List.countP_eq_zero]
      intro s hs hlt
      have hgt := hys s hs
      have hlt' := of_decide_eq_true hlt
      omega
    simp only [List.countP_append, hbelow, habove, Nat.add_zero]
  | some i =>
    left
    rcases List.idxOf?_eq_some_iff.mp hfound with ⟨hi, hget, _⟩
    have hin : i < xs.length := by
      by_contra hge
      have hmem : x ∈ ys := by
        rw [List.getElem_append_right (by omega)] at hget
        rw [← hget]
        exact List.getElem_mem _
      exact Nat.lt_irrefl x (hys x hmem)
    have hlast : i = xs.length - 1 := by
      by_contra hnot
      rw [List.getElem_append_left hin] at hget
      have hlt := List.pairwise_iff_getElem.mp hsorted i (xs.length - 1) hin (by omega) (by omega)
      have hle := hxs _ (List.getElem_mem (l := xs) (n := xs.length - 1) (by omega))
      omega
    rw [hlast]

theorem lineOf_append (before after : Text) (encoding : PositionEncoding) :
    (LineIndex.new (before ++ after) encoding).lineOf (Text.byteLen before) =
      before.count '\n' := by
  have hstarts : (LineIndex.new (before ++ after) encoding).lineStarts =
      startsFrom 0 before ++ lineStartsFrom (Text.byteLen before) after := by
    show startsFrom 0 (before ++ after) = _
    rw [startsFrom, lineStartsFrom_append, Nat.zero_add]
    rfl
  have hupTo : forall s, s ∈ startsFrom 0 before -> s ≤ Text.byteLen before := by
    intro s hs
    rcases List.mem_cons.mp hs with hfirst | hlater
    · omega
    · have hbounds := lineStartsFrom_bounds hlater
      omega
  have hbeyond : forall s, s ∈ lineStartsFrom (Text.byteLen before) after ->
      Text.byteLen before < s := by
    intro s hs
    exact (lineStartsFrom_bounds hs).left
  unfold LineIndex.lineOf
  rw [hstarts]
  cases binarySearch_append (startsFrom_pairwise 0 before) hupTo hbeyond
      (List.cons_ne_nil _ _) with
  | inl hfound =>
    rw [hfound, length_startsFrom]
    rfl
  | inr hmissing =>
    rw [hmissing, length_startsFrom]
    rfl

theorem startsFrom_count (at_ : Nat) (h : currentLine earlier = []) (rest : Text) :
    (startsFrom at_ (earlier ++ rest))[earlier.count '\n']? =
      some (at_ + Text.byteLen earlier) := by
  induction earlier generalizing at_ with
  | nil => rfl
  | cons c others ih =>
    rcases currentLine_cons_eq_nil h with ⟨hended, hbreak⟩
    rw [List.cons_append, Text.byteLen_cons, ← Nat.add_assoc]
    by_cases hc : c = '\n'
    · subst hc
      have hsize : Char.utf8Size '\n' = 1 := rfl
      rw [List.count_cons_self, startsFrom_newline, List.getElem?_cons_succ, ih _ hended, hsize]
    · have hcount : 0 < others.count '\n' :=
        List.count_pos_iff.mpr (hbreak.resolve_left hc)
      rw [List.count_cons_of_ne hc]
      cases hn : others.count '\n' with
      | zero => omega
      | succ n => rw [startsFrom_getElem?_succ at_ n hc, ← hn, ih _ hended]

theorem floorCharBoundary_append (before after : Text) :
    floorCharBoundary (before ++ after) (Text.byteLen before) = Text.byteLen before := by
  unfold floorCharBoundary
  rw [Text.byteLen_append]
  split
  · omega
  · cases hlen : Text.byteLen before with
    | zero => rfl
    | succ n =>
      have hboundary : isCharBoundary (before ++ after) (n + 1) = true := by
        rw [isCharBoundary, ← hlen, Text.takeBytes?_append]
        rfl
      rw [floorFrom, if_pos hboundary]

theorem position_append (before after : Text) (encoding : PositionEncoding) :
    (LineIndex.new (before ++ after) encoding).position (Text.byteLen before) =
      some
        { line := asU32 (place encoding before).line
          character := asU32 (place encoding before).character } := by
  rcases currentLine_split before with ⟨earlier, hearlier, hended, hopen⟩
  have hfloor : floorCharBoundary (LineIndex.new (before ++ after) encoding).text
      (Text.byteLen before) = Text.byteLen before := floorCharBoundary_append before after
  have hstart : (LineIndex.new (before ++ after) encoding).lineStarts[before.count '\n']? =
      some (Text.byteLen earlier) := by
    have hlines := startsFrom_count 0 hended (currentLine before ++ after)
    rw [← List.append_assoc, ← hearlier, Nat.zero_add] at hlines
    rw [count_newline_of_open hearlier hopen]
    exact hlines
  have hslice : Text.slice? (LineIndex.new (before ++ after) encoding).text
      (Text.byteLen earlier) (Text.byteLen before) = some (currentLine before) := by
    have hlen : Text.byteLen before =
        Text.byteLen earlier + Text.byteLen (currentLine before) := by
      rw [← Text.byteLen_append, ← hearlier]
    have htext : (LineIndex.new (before ++ after) encoding).text =
        earlier ++ currentLine before ++ after := by
      rw [← hearlier]
      rfl
    rw [hlen, htext]
    exact Text.slice?_append earlier (currentLine before) after
  simp only [LineIndex.position, hfloor, lineOf_append, hstart, hslice, Option.map_some]
  rfl

/-!
# The offset of a place
-/

theorem units_pos (encoding : PositionEncoding) (c : Char) : 0 < encoding.units c := by
  cases encoding with
  | utf8 => exact c.utf8Size_pos
  | utf16 =>
    simp only [PositionEncoding.units, lenUtf16]
    split <;> decide

theorem width_cons (encoding : PositionEncoding) (c : Char) (rest : Text) :
    encoding.width (c :: rest) = encoding.units c + encoding.width rest := by
  simp [PositionEncoding.width]

theorem width_append (encoding : PositionEncoding) (xs ys : Text) :
    encoding.width (xs ++ ys) = encoding.width xs + encoding.width ys := by
  simp [PositionEncoding.width]

theorem width_le_byteLen (encoding : PositionEncoding) (text : Text) :
    encoding.width text ≤ Text.byteLen text := by
  induction text with
  | nil => exact Nat.le_refl 0
  | cons c rest ih =>
    have hunits : encoding.units c ≤ c.utf8Size := by
      cases encoding with
      | utf8 => exact Nat.le_refl _
      | utf16 =>
        have hpos := c.utf8Size_pos
        simp only [PositionEncoding.units, lenUtf16]
        split
        · exact hpos
        · rename_i hwide
          have hval : ¬ c.val.toNat < 65536 := hwide
          simp only [Char.utf8Size, UInt32.le_iff_toNat_le, UInt32.toNat_ofNatLT]
          split_ifs <;> omega
    rw [width_cons, Text.byteLen_cons]
    exact Nat.add_le_add hunits ih

theorem firstLine_append {xs : Text} (h : '\n' ∉ xs) (ys : Text) :
    firstLine (xs ++ ys) = xs ++ firstLine ys := by
  induction xs with
  | nil => rfl
  | cons c rest ih =>
    simp only [List.mem_cons, not_or] at h
    have hc : c ≠ '\n' := fun heq => h.1 heq.symm
    rw [List.cons_append, firstLine_cons_of_ne hc, ih h.2]
    rfl

theorem takeUnits_of_le (encoding : PositionEncoding) {target units : Nat} (h : target ≤ units)
    (text : Text) : takeUnits encoding target units text = [] := by
  cases text with
  | nil => rfl
  | cons c rest =>
    unfold takeUnits
    exact if_pos h

theorem takeUnits_append (encoding : PositionEncoding) (target units : Nat) (xs ys : Text) :
    takeUnits encoding target units (xs ++ ys) =
      takeUnits encoding target units xs ++
        takeUnits encoding target (units + encoding.width xs) ys := by
  induction xs generalizing units with
  | nil => simp [takeUnits, PositionEncoding.width]
  | cons c rest ih =>
    rw [List.cons_append]
    by_cases ht : target ≤ units
    · rw [takeUnits_of_le encoding ht, takeUnits_of_le encoding ht,
        takeUnits_of_le encoding (by omega)]
      rfl
    · simp only [takeUnits, if_neg ht, List.cons_append]
      rw [ih, width_cons, Nat.add_assoc]

theorem takeUnits_all (encoding : PositionEncoding) {target units : Nat}
    (h : units + encoding.width text ≤ target) :
    takeUnits encoding target units text = text := by
  induction text generalizing units with
  | nil => rfl
  | cons c rest ih =>
    have hpos := units_pos encoding c
    rw [width_cons] at h
    unfold takeUnits
    rw [if_neg (by omega), ih (by omega)]

theorem prefixTo_earlier (encoding : PositionEncoding) (character : Nat)
    (h : currentLine earlier = []) (rest : Text) :
    prefixTo encoding character (earlier.count '\n') (earlier ++ rest) =
      earlier ++ takeUnits encoding character 0 (firstLine rest) := by
  induction earlier with
  | nil => cases rest <;> rfl
  | cons c others ih =>
    rcases currentLine_cons_eq_nil h with ⟨hended, hbreak⟩
    by_cases hc : c = '\n'
    · subst hc
      rw [List.count_cons_self, List.cons_append]
      simp only [prefixTo, if_true]
      rw [ih hended]
      rfl
    · have hcount : 0 < others.count '\n' :=
        List.count_pos_iff.mpr (hbreak.resolve_left hc)
      have hrest := ih hended
      rw [List.count_cons_of_ne hc]
      cases hn : others.count '\n' with
      | zero => omega
      | succ n =>
        rw [hn] at hrest
        simp only [List.cons_append, prefixTo, if_neg hc]
        rw [hrest]

theorem prefixTo_count_line (encoding : PositionEncoding) (character : Nat)
    (before after : Text) :
    exists earlier, before = earlier ++ currentLine before ∧
      prefixTo encoding character (before.count '\n') (before ++ after) =
        earlier ++ (takeUnits encoding character 0 (currentLine before) ++
          takeUnits encoding character (encoding.width (currentLine before))
            (firstLine after)) := by
  rcases currentLine_split before with ⟨earlier, hearlier, hended, hopen⟩
  have hprefix := prefixTo_earlier encoding character hended (currentLine before ++ after)
  rw [← List.append_assoc, ← hearlier, firstLine_append hopen, takeUnits_append, Nat.zero_add]
    at hprefix
  rw [← count_newline_of_open hearlier hopen] at hprefix
  exact ⟨earlier, hearlier, hprefix⟩

theorem prefixTo_place (encoding : PositionEncoding) (before after : Text) :
    prefixTo encoding (place encoding before).character (place encoding before).line
      (before ++ after) = before := by
  rcases prefixTo_count_line encoding (encoding.width (currentLine before)) before after with
    ⟨earlier, hearlier, hprefix⟩
  rw [takeUnits_all encoding (by omega), takeUnits_of_le encoding (Nat.le_refl _),
    List.append_nil, ← hearlier] at hprefix
  exact hprefix

/-!
# Places are ordered as the prefixes are
-/

theorem place_before (encoding : PositionEncoding) (before : Text) {middle : Text}
    (h : middle ≠ []) : (place encoding before).Before (place encoding (before ++ middle)) := by
  unfold Position.Before place
  rw [List.count_append]
  by_cases hbreak : '\n' ∈ middle
  · left
    have hcount : 0 < middle.count '\n' := List.count_pos_iff.mpr hbreak
    show before.count '\n' < before.count '\n' + middle.count '\n'
    omega
  · right
    rw [List.count_eq_zero.mpr hbreak, currentLine_append hbreak, width_append]
    cases middle with
    | nil => exact absurd rfl h
    | cons c rest =>
      have hpos := units_pos encoding c
      rw [width_cons]
      constructor
      · rfl
      · show encoding.width (currentLine before) <
          encoding.width (currentLine before) + (encoding.units c + encoding.width rest)
        omega

/-!
# Numbers that do not fit
-/

theorem units_le (encoding : PositionEncoding) (c : Char) : encoding.units c ≤ 4 := by
  cases encoding with
  | utf8 => exact c.utf8Size_le_four
  | utf16 =>
    simp only [PositionEncoding.units, lenUtf16]
    split <;> decide

theorem width_takeUnits_le (encoding : PositionEncoding) (target units : Nat) (text : Text) :
    encoding.width (takeUnits encoding target units text) ≤ target - units + 3 := by
  induction text generalizing units with
  | nil => exact Nat.zero_le _
  | cons c rest ih =>
    by_cases ht : target ≤ units
    · rw [takeUnits_of_le encoding ht]
      exact Nat.zero_le _
    · have hle := units_le encoding c
      simp only [takeUnits, if_neg ht]
      rw [width_cons]
      by_cases hspent : target ≤ units + encoding.units c
      · rw [takeUnits_of_le encoding hspent]
        simp only [PositionEncoding.width, List.map_nil, List.sum_nil]
        omega
      · have hrest := ih (units + encoding.units c)
        omega

theorem count_firstLine_le (text : Text) : (firstLine text).count '\n' ≤ 1 := by
  induction text with
  | nil => exact Nat.zero_le 1
  | cons c rest ih =>
    by_cases hc : c = '\n'
    · simp [firstLine, hc]
    · rw [firstLine_cons_of_ne hc, List.count_cons_of_ne hc]
      exact ih

theorem count_prefixTo_le (encoding : PositionEncoding) (character n : Nat) (text : Text) :
    (prefixTo encoding character n text).count '\n' ≤ n + 1 := by
  induction text generalizing n with
  | nil => cases n <;> exact Nat.zero_le _
  | cons c rest ih =>
    cases n with
    | zero =>
      have htake := takeUnits_prefix_of encoding character 0 (firstLine (c :: rest))
      exact Nat.le_trans (htake.sublist.count_le '\n') (count_firstLine_le (c :: rest))
    | succ n =>
      by_cases hc : c = '\n'
      · subst hc
        have hrest := ih n
        simp only [prefixTo, if_true, List.count_cons_self]
        omega
      · simp only [prefixTo, if_neg hc, List.count_cons_of_ne hc]
        exact ih (n + 1)

theorem asU32_of_lt {n : Nat} (h : n < 4294967296) : asU32 n = n :=
  Nat.mod_eq_of_lt h

theorem asU32_of_ge {n : Nat} (h : 4294967296 ≤ n) : asU32 n + 4294967296 ≤ n := by
  unfold asU32
  omega

/-- The truncated place of a prefix leads to a prefix of its own only when nothing
was cut off. -/
theorem fits_of_prefixTo {encoding : PositionEncoding} {after : Text}
    (h : prefixTo encoding (asU32 (place encoding before).character)
      (asU32 (place encoding before).line) (before ++ after) = before) :
    (place encoding before).Fits := by
  have hline : (place encoding before).line < 4294967296 := by
    by_contra hge
    have hcut := asU32_of_ge (Nat.le_of_not_lt hge)
    have hcount := count_prefixTo_le encoding (asU32 (place encoding before).character)
      (asU32 (place encoding before).line) (before ++ after)
    rw [h] at hcount
    have hplace : (place encoding before).line = before.count '\n' := rfl
    omega
  constructor
  · exact hline
  · by_contra hge
    have hcut := asU32_of_ge (Nat.le_of_not_lt hge)
    have hplace : (place encoding before).character = encoding.width (currentLine before) := rfl
    rw [asU32_of_lt hline] at h
    rcases prefixTo_count_line encoding (asU32 (place encoding before).character) before after
      with ⟨earlier, hearlier, hprefix⟩
    have hspent : takeUnits encoding (asU32 (place encoding before).character)
        (encoding.width (currentLine before)) (firstLine after) = [] :=
      takeUnits_of_le encoding (by omega) _
    rw [hspent, List.append_nil] at hprefix
    have hall : takeUnits encoding (asU32 (place encoding before).character) 0
        (currentLine before) = currentLine before := by
      have hboth : earlier ++ takeUnits encoding (asU32 (place encoding before).character) 0
          (currentLine before) = earlier ++ currentLine before := by
        rw [← hprefix, ← hearlier]
        exact h
      exact List.append_cancel_left hboth
    have hwidth := width_takeUnits_le encoding (asU32 (place encoding before).character) 0
      (currentLine before)
    rw [hall] at hwidth
    omega

/-!
# Round trips
-/

/-- A character boundary whose line and character fit. -/
def FitsAt (encoding : PositionEncoding) (text : Text) (byte : Nat) : Prop :=
  exists before, before <+: text ∧ Text.byteLen before = byte ∧ (place encoding before).Fits

theorem isCharBoundary_iff {byte : Nat} :
    isCharBoundary text byte = true <->
      exists before, before <+: text ∧ Text.byteLen before = byte := by
  rw [isCharBoundary, Option.isSome_iff_exists]
  constructor
  · rintro ⟨before, hbefore⟩
    rcases Text.takeBytes?_eq_some_iff.mp hbefore with ⟨hlen, hprefix⟩
    exact ⟨before, hprefix, hlen⟩
  · rintro ⟨before, hprefix, hlen⟩
    exact ⟨before, Text.takeBytes?_eq_some_iff.mpr ⟨hlen, hprefix⟩⟩

theorem position_of_fits {encoding : PositionEncoding} {after : Text}
    (h : (place encoding before).Fits) :
    (LineIndex.new (before ++ after) encoding).position (Text.byteLen before) =
      some (place encoding before) := by
  rw [position_append, asU32_of_lt h.left, asU32_of_lt h.right]

theorem fits_of_byteLen (encoding : PositionEncoding) (h : Text.byteLen before < 4294967296) :
    (place encoding before).Fits := by
  have hline : before.count '\n' ≤ Text.byteLen before :=
    Nat.le_trans List.count_le_length (Text.length_le_byteLen before)
  have hcharacter : encoding.width (currentLine before) ≤ Text.byteLen before := by
    rcases currentLine_split before with ⟨earlier, hbefore, _⟩
    have hlen := congrArg Text.byteLen hbefore
    rw [Text.byteLen_append] at hlen
    have hwidth := width_le_byteLen encoding (currentLine before)
    omega
  exact ⟨Nat.lt_of_le_of_lt hline h, Nat.lt_of_le_of_lt hcharacter h⟩

/--
Every character boundary has a position, and the offset of the position is the
boundary again exactly when its line and its character fit in 32 bits.  Over the
boundaries where they do, positions are strictly increasing.
-/
theorem offset_position_iff (text : Text) (encoding : PositionEncoding) :
    (forall byte, isCharBoundary text byte = true ->
      exists position, (LineIndex.new text encoding).position byte = some position ∧
        ((LineIndex.new text encoding).offset position = some byte <->
          FitsAt encoding text byte)) ∧
    (forall byte byte', FitsAt encoding text byte -> FitsAt encoding text byte' -> byte < byte' ->
      exists position position',
        (LineIndex.new text encoding).position byte = some position ∧
          (LineIndex.new text encoding).position byte' = some position' ∧
          position.Before position') := by
  constructor
  · intro byte hboundary
    rcases isCharBoundary_iff.mp hboundary with ⟨before, ⟨after, rfl⟩, rfl⟩
    refine ⟨_, position_append before after encoding, ?_⟩
    rw [offset_eq]
    constructor
    · intro hoffset
      exists before
      refine ⟨List.prefix_append before after, rfl, ?_⟩
      have hback := Text.eq_of_prefix_of_byteLen (prefixTo_prefix_of _ _ _ (before ++ after))
        (List.prefix_append before after) (Option.some.inj hoffset)
      exact fits_of_prefixTo hback
    · rintro ⟨before', hprefix, hlen, hfits⟩
      have hsame : before' = before :=
        Text.eq_of_prefix_of_byteLen hprefix (List.prefix_append before after) hlen
      subst hsame
      simp only [asU32_of_lt hfits.left, asU32_of_lt hfits.right, prefixTo_place]
  · rintro byte byte' ⟨before, ⟨after, rfl⟩, rfl, hfits⟩ ⟨before', ⟨after', htext⟩, rfl, hfits'⟩
      hlt
    rcases Text.append_split_of_byteLen_le htext.symm (Nat.le_of_lt hlt) with
      ⟨middle, hmiddle, _⟩
    refine ⟨_, place encoding before', position_of_fits hfits, ?_, ?_⟩
    · rw [← htext]
      exact position_of_fits hfits'
    · subst hmiddle
      apply place_before
      intro hnil
      rw [hnil, List.append_nil] at hlt
      exact Nat.lt_irrefl _ hlt

/-!
# A line that 32 bits cannot count
-/

def longLine (n : Nat) : Text :=
  List.replicate n 'a'

theorem width_longLine (encoding : PositionEncoding) (n : Nat) :
    encoding.width (longLine n) = n := by
  have hunit : encoding.units 'a' = 1 := by cases encoding <;> rfl
  induction n with
  | zero => rfl
  | succ n ih =>
    unfold longLine at ih ⊢
    rw [List.replicate_succ, width_cons, ih, hunit, Nat.add_comm]

theorem byteLen_longLine (n : Nat) : Text.byteLen (longLine n) = n := by
  have hsize : Char.utf8Size 'a' = 1 := rfl
  induction n with
  | zero => rfl
  | succ n ih =>
    unfold longLine at ih ⊢
    rw [List.replicate_succ, Text.byteLen_cons, ih, hsize, Nat.add_comm]

theorem place_longLine (encoding : PositionEncoding) (n : Nat) :
    place encoding (longLine n) = { line := 0, character := n } := by
  have hbreak : '\n' ∉ longLine n := by
    intro hmem
    cases List.eq_of_mem_replicate hmem
  unfold place
  rw [List.count_eq_zero.mpr hbreak, currentLine_of_not_mem hbreak, width_longLine]

theorem isCharBoundary_longLine (n : Nat) : isCharBoundary (longLine n) n = true :=
  isCharBoundary_iff.mpr ⟨longLine n, List.prefix_refl _, byteLen_longLine n⟩

theorem position_longLine (encoding : PositionEncoding) (n : Nat) :
    (LineIndex.new (longLine n) encoding).position n =
      some { line := 0, character := asU32 n } := by
  have hposition := position_append (longLine n) [] encoding
  rw [List.append_nil, byteLen_longLine, place_longLine] at hposition
  exact hposition

theorem offset_longLine_start (encoding : PositionEncoding) (n : Nat) :
    (LineIndex.new (longLine n) encoding).offset { line := 0, character := 0 } = some 0 := by
  rw [offset_eq]
  cases n with
  | zero => rfl
  | succ n =>
    unfold longLine
    rw [List.replicate_succ]
    simp only [prefixTo]
    rw [takeUnits_of_le encoding (Nat.le_refl 0)]
    rfl

/-- The end of a line of `2^32` characters gets the position of its start. -/
theorem longLine_lost :
    isCharBoundary (longLine 4294967296) 4294967296 = true ∧
      (LineIndex.new (longLine 4294967296) .utf16).position 4294967296 =
        some { line := 0, character := 0 } ∧
      (LineIndex.new (longLine 4294967296) .utf16).offset { line := 0, character := 0 } =
        some 0 :=
  ⟨isCharBoundary_longLine 4294967296, position_longLine .utf16 4294967296,
    offset_longLine_start .utf16 4294967296⟩

/-- The character behind the surrogate pair of `"😀b"`. -/
theorem offset_position_past_surrogates :
    (LineIndex.new ['😀', 'b'] .utf16).position 4 = some { line := 0, character := 2 } ∧
      (LineIndex.new ['😀', 'b'] .utf16).offset { line := 0, character := 2 } = some 4 := by
  rcases (offset_position_iff ['😀', 'b'] .utf16).left 4 (by decide) with
    ⟨position, hposition, hback⟩
  have hfits : FitsAt .utf16 ['😀', 'b'] 4 :=
    ⟨['😀'], ⟨['b'], rfl⟩, rfl, by decide, by decide⟩
  have hknown : (LineIndex.new ['😀', 'b'] .utf16).position 4 =
      some { line := 0, character := 2 } := by decide
  rw [hknown] at hposition
  cases hposition
  exact ⟨hknown, hback.mpr hfits⟩

end Documents
end JavaVsixLite
