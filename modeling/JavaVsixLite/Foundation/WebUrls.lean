import Mathlib.Data.List.DropRight
import JavaVsixLite.Foundation.JoinedLists
import JavaVsixLite.Foundation.Substrings
import JavaVsixLite.Foundation.Utf8

/-!
# Addresses with the scheme `https`

The parser of the URL Standard, for the addresses that turn out to have the scheme
`https`.  The text between the slashes and the path is split into credentials and a
host with a port; what the host parser makes of the latter is a parameter.  The path
is a list of segments, in which dots climb and some characters are written as bytes.
-/

namespace JavaVsixLite
namespace Foundation
namespace WebUrls

/-!
# Characters
-/

def isControlOrSpace (c : Char) : Bool :=
  decide (c.toNat ≤ 0x20)

def isTabOrNewline (c : Char) : Bool :=
  c == '\t' || c == '\n' || c == '\r'

def isSlash (c : Char) : Bool :=
  c == '/' || c == '\\'

def endsPath (c : Char) : Bool :=
  c == '?' || c == '#'

def endsAuthority (c : Char) : Bool :=
  isSlash c || endsPath c

def inPathSet (c : Char) : Bool :=
  isControlOrSpace c || decide (0x7E < c.toNat) ||
    ['"', '#', '<', '>', '?', '^', '`', '{', '}'].contains c

def hexDigit (n : Nat) : Char :=
  ['0', '1', '2', '3', '4', '5', '6', '7', '8', '9', 'A', 'B', 'C', 'D', 'E', 'F'].getD n '0'

def percentByte (b : UInt8) : Text :=
  ['%', hexDigit (b.toNat / 16), hexDigit (b.toNat % 16)]

def percentEncode (text : Text) : Text :=
  text.flatMap (fun c => if inPathSet c then (Utf8.encode [c]).flatMap percentByte else [c])

/-!
# Paths
-/

/-- The number of dots in a text of dots, each written out or as a byte. -/
def dots? : Text -> Option Nat
  | [] => some 0
  | '.' :: rest => (dots? rest).map Nat.succ
  | '%' :: '2' :: 'e' :: rest => (dots? rest).map Nat.succ
  | '%' :: '2' :: 'E' :: rest => (dots? rest).map Nat.succ
  | _ => none

def isSingleDot (segment : Text) : Bool :=
  dots? segment == some 1

def isDoubleDot (segment : Text) : Bool :=
  dots? segment == some 2

/-- One more piece of a path; `last` if no slash stands behind it. -/
def addPiece (path : List Text) (piece : Text) (last : Bool) : List Text :=
  let segment := percentEncode piece
  if isDoubleDot segment then
    if last then path.dropLast ++ [[]] else path.dropLast
  else if isSingleDot segment then
    if last then path ++ [[]] else path
  else path ++ [segment]

@[grind =] def addPieces (path : List Text) : List Text -> List Text
  | [] => path
  | [piece] => addPiece path piece true
  | piece :: next :: rest => addPieces (addPiece path piece false) (next :: rest)

/-- The pieces of the text of a path, which starts at a slash if it is not empty. -/
def pathPieces : Text -> List Text
  | [] => [[]]
  | _ :: rest => rest.splitOnP isSlash

/-!
# The parser
-/

structure HttpsUrl where
  username : Text
  password : Text
  authority : Text
  path : List Text
  query : Option Text
  fragment : Option Text

def schemeText : Text := ['h', 't', 't', 'p', 's', ':']

/-- Without controls and spaces at its ends, and without tabs and newlines. -/
def cleaned (input : Text) : Text :=
  (((input.dropWhile isControlOrSpace).reverse.dropWhile isControlOrSpace).reverse).filter
    (fun c => !isTabOrNewline c)

/-- What stands behind the scheme and its slashes, if the scheme is `https`. -/
def afterScheme (text : Text) : Option Text :=
  if (text.take schemeText.length).map Char.toLower = schemeText then
    some ((text.drop schemeText.length).dropWhile isSlash)
  else none

/-- The text behind the last `@`. -/
def hostText (text : Text) : Text :=
  (text.reverse.takeWhile (fun c => c != '@')).reverse

/-- The text before the last `@`. -/
def userInfo (text : Text) : Text :=
  text.take (text.length - (hostText text).length - 1)

def queryAndFragment : Text -> Option Text × Option Text
  | [] => (none, none)
  | c :: rest =>
    if c = '#' then (none, some rest)
    else
      (some (rest.takeWhile (fun d => d != '#')),
        match rest.dropWhile (fun d => d != '#') with
        | [] => none
        | _ :: fragment => some fragment)

/-- `none` for a text that is no address or has another scheme. -/
def parseHttps (parseHost : Text -> Option Text) (input : Text) : Option HttpsUrl :=
  (afterScheme (cleaned input)).bind (fun rest =>
    let front := rest.takeWhile (fun c => !endsAuthority c)
    let back := rest.dropWhile (fun c => !endsAuthority c)
    let pathText := back.takeWhile (fun c => !endsPath c)
    let ending := queryAndFragment (back.dropWhile (fun c => !endsPath c))
    (parseHost (hostText front)).map (fun authority =>
      { username := (userInfo front).takeWhile (fun c => c != ':')
        password := ((userInfo front).dropWhile (fun c => c != ':')).drop 1
        authority := authority
        path := addPieces [] (pathPieces pathText)
        query := ending.1
        fragment := ending.2 }))

def slashed (segments : List Text) : Text :=
  segments.flatMap (fun segment => '/' :: segment)

def HttpsUrl.origin (url : HttpsUrl) : Text :=
  schemeText ++ '/' :: '/' :: url.authority

def HttpsUrl.pathname (url : HttpsUrl) : Text :=
  slashed url.path

/-- What a parser of hosts makes of a text stays the same, and has no delimiters. -/
structure HostRules (parseHost : Text -> Option Text) : Prop where
  stable : forall text host, parseHost text = some host -> parseHost host = some host
  nonempty : forall text host, parseHost text = some host -> host ≠ []
  plain : forall text host, parseHost text = some host -> forall c, c ∈ host ->
    isControlOrSpace c = false ∧ endsAuthority c = false ∧ c ≠ '@'

/-!
# Characters of a written path
-/

theorem hexDigit_mem (n : Nat) :
    hexDigit n ∈ ['0', '1', '2', '3', '4', '5', '6', '7', '8', '9', 'A', 'B', 'C', 'D', 'E',
      'F'] := by
  unfold hexDigit
  rw [List.getD_eq_getElem?_getD]
  cases hdigit : ['0', '1', '2', '3', '4', '5', '6', '7', '8', '9', 'A', 'B', 'C', 'D', 'E',
      'F'][n]? with
  | none => exact List.mem_cons_self
  | some c => exact List.mem_of_getElem? hdigit

def isPathChar (c : Char) : Bool :=
  !inPathSet c && !isSlash c

variable {c : Char} {text piece : Text} {segments : List Text}

theorem isPathChar_of_mem_percentByte {b : UInt8} (h : c ∈ percentByte b) :
    isPathChar c = true := by
  have hall : ('%' :: ['0', '1', '2', '3', '4', '5', '6', '7', '8', '9', 'A', 'B', 'C', 'D', 'E',
      'F']).all isPathChar = true := by decide
  rw [List.all_eq_true] at hall
  apply hall
  cases h with
  | head => exact List.mem_cons_self
  | tail _ h =>
    apply List.mem_cons_of_mem
    cases h with
    | head => exact hexDigit_mem _
    | tail _ h =>
      rw [List.mem_singleton.mp h]
      exact hexDigit_mem _

theorem isPathChar_of_mem_percentEncode (h : forall c, c ∈ text -> isSlash c = false)
    (hc : c ∈ percentEncode text) : isPathChar c = true := by
  rcases List.mem_flatMap.mp hc with ⟨d, hd, hcd⟩
  cases hset : inPathSet d with
  | true =>
    rw [hset, if_pos rfl] at hcd
    rcases List.mem_flatMap.mp hcd with ⟨b, _, hcb⟩
    exact isPathChar_of_mem_percentByte hcb
  | false =>
    rw [hset, if_neg Bool.false_ne_true] at hcd
    rw [List.mem_singleton.mp hcd, isPathChar, hset, h d hd]
    rfl

theorem percentEncode_eq_self (h : forall c, c ∈ text -> isPathChar c = true) :
    percentEncode text = text := by
  induction text with
  | nil => rfl
  | cons c rest ih =>
    have hc := h c List.mem_cons_self
    have hset : inPathSet c = false := by
      unfold isPathChar at hc
      simpa using (Bool.and_eq_true_iff.mp hc).1
    have hrest := ih (fun d hd => h d (List.mem_cons_of_mem c hd))
    unfold percentEncode at hrest ⊢
    rw [List.flatMap_cons, hrest, hset]
    rfl

/-!
# Segments of a path
-/

def IsDots (piece : Text) : Prop :=
  isSingleDot (percentEncode piece) = true ∨ isDoubleDot (percentEncode piece) = true

instance (piece : Text) : Decidable (IsDots piece) :=
  inferInstanceAs (Decidable (_ ∨ _))

theorem addPiece_of_not_dots (h : ¬ IsDots piece) (path : List Text) (last : Bool) :
    addPiece path piece last = path ++ [percentEncode piece] := by
  unfold IsDots at h
  rw [not_or, Bool.not_eq_true, Bool.not_eq_true] at h
  simp only [addPiece, h.1, h.2, Bool.false_eq_true, if_false]

def stepOfDots (path : List Text) (piece : Text) : List Text :=
  if isDoubleDot (percentEncode piece) then path.dropLast else path

theorem addPiece_of_dots (h : IsDots piece) (path : List Text) (last : Bool) :
    addPiece path piece last =
      if last then stepOfDots path piece ++ [[]] else stepOfDots path piece := by
  unfold addPiece stepOfDots
  by_cases hdouble : isDoubleDot (percentEncode piece) = true
  · simp only [hdouble, if_true]
  · simp only [hdouble, if_false, h.resolve_right hdouble, if_true, Bool.false_eq_true]

theorem stepOfDots_isPrefix (path : List Text) (piece : Text) : stepOfDots path piece <+: path := by
  unfold stepOfDots
  split
  · exact List.dropLast_prefix path
  · exact List.prefix_refl path

theorem length_addPiece_of_dots (h : IsDots piece) (path : List Text) :
    (addPiece path piece false).length ≤ path.length := by
  rw [addPiece_of_dots h, if_neg Bool.false_ne_true]
  exact (stepOfDots_isPrefix path piece).length_le

theorem length_addPiece_le (path : List Text) (piece : Text) (last : Bool) :
    (addPiece path piece last).length ≤ path.length + 1 := by
  by_cases hdots : IsDots piece
  · have hle := (stepOfDots_isPrefix path piece).length_le
    rw [addPiece_of_dots hdots]
    split
    · rw [List.length_append, List.length_singleton]
      exact Nat.succ_le_succ hle
    · exact Nat.le_succ_of_le hle
  · rw [addPiece_of_not_dots hdots, List.length_append, List.length_singleton]

theorem length_addPieces_le (path : List Text) (pieces : List Text) :
    (addPieces path pieces).length ≤ path.length + pieces.length := by
  induction path, pieces using addPieces.induct with
  | case1 path => exact Nat.le_refl _
  | case2 path piece => exact length_addPiece_le path piece true
  | case3 path piece next rest ih =>
    have hone := length_addPiece_le path piece false
    rw [addPieces]
    simp only [List.length_cons] at ih ⊢
    omega

theorem dots?_eq_some {n : Nat} (h : dots? text = some n) :
    forall c, c ∈ text -> c ∈ ['.', '%', '2', 'e', 'E'] := by
  induction text using dots?.induct generalizing n with
  | case1 => exact fun c hc => absurd hc List.not_mem_nil
  | case2 rest ih =>
    rw [dots?] at h
    rcases Option.map_eq_some_iff.mp h with ⟨m, hm, _⟩
    intro c hc
    cases hc with
    | head => decide
    | tail _ hc => exact ih hm c hc
  | case3 rest ih =>
    rw [dots?] at h
    rcases Option.map_eq_some_iff.mp h with ⟨m, hm, _⟩
    intro c hc
    simp only [List.mem_cons] at hc
    rcases hc with rfl | rfl | rfl | hc
    · decide
    · decide
    · decide
    · exact ih hm c hc
  | case4 rest ih =>
    rw [dots?] at h
    rcases Option.map_eq_some_iff.mp h with ⟨m, hm, _⟩
    intro c hc
    simp only [List.mem_cons] at hc
    rcases hc with rfl | rfl | rfl | hc
    · decide
    · decide
    · decide
    · exact ih hm c hc
  | case5 text hnil hdot hlower hupper =>
    rw [dots?] at h
    · cases h
    · exact hnil
    · exact hdot
    · exact hlower
    · exact hupper

theorem not_isDots_of_mem (hc : c ∈ percentEncode piece) (hother : c ∉ ['.', '%', '2', 'e', 'E']) :
    ¬ IsDots piece := by
  intro h
  have hsome : exists n, dots? (percentEncode piece) = some n := by
    cases h with
    | inl hsingle => exact ⟨1, beq_iff_eq.mp hsingle⟩
    | inr hdouble => exact ⟨2, beq_iff_eq.mp hdouble⟩
  rcases hsome with ⟨n, hn⟩
  exact hother (dots?_eq_some hn c hc)

/-- Below a last piece that is none, no piece is a step of dots exactly if all become segments. -/
theorem addPieces_eq_iff {front : List Text} {final : Text} (hfinal : ¬ IsDots final)
    (path : List Text) :
    addPieces path (front ++ [final]) = path ++ (front ++ [final]).map percentEncode <->
      forall piece, piece ∈ front -> ¬ IsDots piece := by
  induction front generalizing path with
  | nil =>
    rw [List.nil_append, addPieces, addPiece_of_not_dots hfinal]
    simp
  | cons piece front ih =>
    have hmore : exists next rest, front ++ [final] = next :: rest := by
      cases front with
      | nil => exact ⟨final, [], rfl⟩
      | cons next rest => exact ⟨next, rest ++ [final], rfl⟩
    rcases hmore with ⟨next, rest, hmore⟩
    have hstep : addPieces path (piece :: front ++ [final]) =
        addPieces (addPiece path piece false) (front ++ [final]) := by
      rw [List.cons_append, hmore, addPieces]
    rw [hstep]
    by_cases hdots : IsDots piece
    · constructor
      · intro heq
        have hlength := congrArg List.length heq
        have hle := length_addPieces_le (addPiece path piece false) (front ++ [final])
        have hone := length_addPiece_of_dots hdots path
        simp only [List.length_append, List.length_map, List.length_cons, List.length_nil]
          at hlength hle
        omega
      · intro h
        exact absurd hdots (h piece List.mem_cons_self)
    · rw [addPiece_of_not_dots hdots]
      have hrest := ih (path ++ [percentEncode piece])
      rw [List.append_assoc, List.singleton_append] at hrest
      rw [List.cons_append, List.map_cons, hrest]
      constructor
      · intro h other hother
        cases hother with
        | head => exact hdots
        | tail _ hother => exact h other hother
      · intro h other hother
        exact h other (List.mem_cons_of_mem piece hother)

structure Settled (segment : Text) : Prop where
  chars : forall c, c ∈ segment -> isPathChar c = true
  no_dots : ¬ IsDots segment

theorem Settled.isSlash {s : Text} (h : Settled s) {c : Char} (hc : c ∈ s) :
    isSlash c = false := by
  have hpath := h.chars c hc
  unfold isPathChar at hpath
  simpa using (Bool.and_eq_true_iff.mp hpath).2

theorem Settled.inPathSet {s : Text} (h : Settled s) {c : Char} (hc : c ∈ s) :
    inPathSet c = false := by
  have hpath := h.chars c hc
  unfold isPathChar at hpath
  simpa using (Bool.and_eq_true_iff.mp hpath).1

theorem endsPath_of_notInPathSet (h : inPathSet c = false) : endsPath c = false := by
  rw [Bool.eq_false_iff]
  intro hends
  unfold endsPath at hends
  simp only [Bool.or_eq_true, beq_iff_eq] at hends
  rcases hends with rfl | rfl
  · exact absurd h (by decide)
  · exact absurd h (by decide)

theorem not_control_of_notInPathSet (h : inPathSet c = false) : isControlOrSpace c = false := by
  unfold inPathSet at h
  exact (Bool.or_eq_false_iff.mp (Bool.or_eq_false_iff.mp h).1).1

theorem addPieces_of_not_dots {pieces : List Text}
    (h : forall piece, piece ∈ pieces -> ¬ IsDots piece)
    (path : List Text) : addPieces path pieces = path ++ pieces.map percentEncode := by
  cases pieces using List.reverseRecOn with
  | nil => simp [addPieces]
  | append_singleton front final =>
    have hfinal := h final (List.mem_append_right front List.mem_cons_self)
    exact (addPieces_eq_iff hfinal path).mpr (fun piece hpiece =>
      h piece (List.mem_append_left [final] hpiece))

theorem map_percentEncode_settled (h : forall s, s ∈ segments -> Settled s) :
    segments.map percentEncode = segments := by
  have hsame : segments.map percentEncode = segments.map id := by
    apply List.map_congr_left
    intro s hs
    exact percentEncode_eq_self (h s hs).chars
  rw [hsame, List.map_id]

theorem addPieces_of_settled (h : forall s, s ∈ segments -> Settled s) (path : List Text) :
    addPieces path segments = path ++ segments := by
  rw [addPieces_of_not_dots (fun s hs => (h s hs).no_dots), map_percentEncode_settled h]

theorem settled_nil : Settled [] where
  chars := fun c hc => absurd hc List.not_mem_nil
  no_dots := by decide

theorem settled_percentEncode (h : forall c, c ∈ piece -> isSlash c = false)
    (hdots : ¬ IsDots piece) : Settled (percentEncode piece) := by
  have hchars : forall c, c ∈ percentEncode piece -> isPathChar c = true :=
    fun c hc => isPathChar_of_mem_percentEncode h hc
  refine ⟨hchars, ?_⟩
  unfold IsDots at *
  rw [percentEncode_eq_self hchars]
  exact hdots

theorem settled_addPiece {path : List Text} (hpath : forall s, s ∈ path -> Settled s)
    (h : forall c, c ∈ piece -> isSlash c = false) (last : Bool) :
    forall s, s ∈ addPiece path piece last -> Settled s := by
  have hstep : forall s, s ∈ stepOfDots path piece -> Settled s :=
    fun s hs => hpath s ((stepOfDots_isPrefix path piece).subset hs)
  have hsnoc : forall (front : List Text) (e : Text), (forall s, s ∈ front -> Settled s) ->
      Settled e -> forall s, s ∈ front ++ [e] -> Settled s := by
    intro front e hfront he s hs
    cases List.mem_append.mp hs with
    | inl hs => exact hfront s hs
    | inr hs =>
      rw [List.mem_singleton.mp hs]
      exact he
  by_cases hdots : IsDots piece
  · rw [addPiece_of_dots hdots]
    split
    · exact hsnoc _ _ hstep settled_nil
    · exact hstep
  · rw [addPiece_of_not_dots hdots]
    exact hsnoc _ _ hpath (settled_percentEncode h hdots)

theorem settled_addPieces {path pieces : List Text} (hpath : forall s, s ∈ path -> Settled s)
    (h : forall piece, piece ∈ pieces -> forall c, c ∈ piece -> isSlash c = false) :
    forall s, s ∈ addPieces path pieces -> Settled s := by
  induction path, pieces using addPieces.induct with
  | case1 path => exact hpath
  | case2 path piece => exact settled_addPiece hpath (h piece List.mem_cons_self) true
  | case3 path piece next rest ih =>
    rw [addPieces]
    apply ih
    · exact settled_addPiece hpath (h piece List.mem_cons_self) false
    · exact fun other hother => h other (List.mem_cons_of_mem piece hother)

theorem settled_path (pathText : Text) :
    forall s, s ∈ addPieces [] (pathPieces pathText) -> Settled s := by
  apply settled_addPieces
  · exact fun s hs => absurd hs List.not_mem_nil
  · intro piece hpiece c hc
    cases pathText with
    | nil =>
      rw [List.mem_singleton.mp hpiece] at hc
      cases hc
    | cons slash rest => exact (mem_of_mem_splitOnP hpiece c hc).2

/-!
# Addresses put together
-/

def address (host : Text) (segments : List Text) : Text :=
  schemeText ++ '/' :: '/' :: (host ++ slashed segments)

theorem slashed_append (front back : List Text) :
    slashed (front ++ back) = slashed front ++ slashed back :=
  List.flatMap_append

theorem cons_intercalate_eq_slashed (h : segments ≠ []) :
    '/' :: ['/'].intercalate segments = slashed segments := by
  induction segments with
  | nil => exact absurd rfl h
  | cons s rest ih =>
    cases rest with
    | nil => simp [slashed]
    | cons next rest =>
      have hrest := ih (List.cons_ne_nil next rest)
      rw [List.intercalate_cons_cons, List.append_assoc, List.singleton_append, hrest]
      rfl

theorem address_append (host : Text) (front back : List Text) :
    address host (front ++ back) = address host front ++ slashed back := by
  simp [address, slashed_append]

theorem cleaned_eq_self {first last : Char} (hfirst : text.head? = some first)
    (hlast : text.getLast? = some last) (hfirst' : isControlOrSpace first = false)
    (hlast' : isControlOrSpace last = false)
    (htabs : forall c, c ∈ text -> isTabOrNewline c = false) : cleaned text = text := by
  unfold cleaned
  rw [dropWhile_ends_eq_self hfirst hlast hfirst' hlast', List.filter_eq_self]
  intro c hc
  rw [htabs c hc]
  rfl

theorem isTabOrNewline_of_not_control (h : isControlOrSpace c = false) :
    isTabOrNewline c = false := by
  unfold isTabOrNewline
  rw [Bool.eq_false_iff]
  intro htab
  simp only [Bool.or_eq_true, beq_iff_eq] at htab
  rcases htab with (rfl | rfl) | rfl
  · exact absurd h (by decide)
  · exact absurd h (by decide)
  · exact absurd h (by decide)

theorem mem_address {host : Text} (h : c ∈ address host segments) :
    c ∈ schemeText ∨ c = '/' ∨ c ∈ host ∨ exists s, s ∈ segments ∧ c ∈ s := by
  simp only [address, slashed, List.mem_append, List.mem_cons, List.mem_flatMap] at h
  rcases h with h | rfl | rfl | h | ⟨s, hs, rfl | hc⟩
  · exact Or.inl h
  · exact Or.inr (Or.inl rfl)
  · exact Or.inr (Or.inl rfl)
  · exact Or.inr (Or.inr (Or.inl h))
  · exact Or.inr (Or.inl rfl)
  · exact Or.inr (Or.inr (Or.inr ⟨s, hs, hc⟩))

theorem cleaned_address {host : Text} {last : Char}
    (hhost : forall c, c ∈ host -> isControlOrSpace c = false)
    (hsegments : forall s, s ∈ segments -> forall c, c ∈ s -> isTabOrNewline c = false)
    (hlast : (address host segments).getLast? = some last)
    (hlast' : isControlOrSpace last = false) :
    cleaned (address host segments) = address host segments := by
  have hfirst : (address host segments).head? = some 'h' := rfl
  apply cleaned_eq_self hfirst hlast (by decide) hlast'
  intro c hc
  rcases mem_address hc with hscheme | rfl | hmem | ⟨s, hs, hmem⟩
  · have hall : schemeText.all (fun c => !isTabOrNewline c) = true := by decide
    simpa using List.all_eq_true.mp hall c hscheme
  · decide
  · exact isTabOrNewline_of_not_control (hhost c hmem)
  · exact hsegments s hs c hmem

section Parsing

variable {parseHost : Text -> Option Text} {host : Text}

theorem hostText_of_no_at {text : Text} (h : forall c, c ∈ text -> c ≠ '@') :
    hostText text = text ∧ userInfo text = [] := by
  have hhost : hostText text = text := by
    unfold hostText
    rw [List.takeWhile_eq_self_iff.mpr, List.reverse_reverse]
    intro c hc
    simpa using h c (List.mem_reverse.mp hc)
  constructor
  · exact hhost
  · unfold userInfo
    rw [hhost]
    simp

variable {segments : List Text}

/-- The path of an address starts behind its host, whatever stands in the segments. -/
theorem parseHttps_address (hrules : HostRules parseHost) (hhost : parseHost host = some host)
    (hclean : cleaned (address host segments) = address host segments) :
    parseHttps parseHost (address host segments) =
      some
        { username := []
          password := []
          authority := host
          path := addPieces [] (pathPieces ((slashed segments).takeWhile (fun c => !endsPath c)))
          query := (queryAndFragment ((slashed segments).dropWhile (fun c => !endsPath c))).1
          fragment :=
            (queryAndFragment ((slashed segments).dropWhile (fun c => !endsPath c))).2 } := by
  have hplain := hrules.plain host host hhost
  have hscheme : afterScheme (address host segments) = some (host ++ slashed segments) := by
    have htake : (address host segments).take schemeText.length = schemeText :=
      List.take_left
    have hdrop : (address host segments).drop schemeText.length =
        '/' :: '/' :: (host ++ slashed segments) := List.drop_left
    have hslashes : ('/' :: '/' :: (host ++ slashed segments)).dropWhile isSlash =
        host ++ slashed segments := by
      cases host with
      | nil => exact absurd rfl (hrules.nonempty _ _ hhost)
      | cons c rest =>
        have hc : isSlash c = false := by
          have hends := (hplain c List.mem_cons_self).2.1
          unfold endsAuthority at hends
          exact (Bool.or_eq_false_iff.mp hends).1
        have hslash : isSlash '/' = true := rfl
        simp [hc, hslash]
    have hlower : schemeText.map Char.toLower = schemeText := by decide
    unfold afterScheme
    rw [htake, hdrop, hslashes, hlower, if_pos rfl]
  have hpass : forall c, c ∈ host -> (!endsAuthority c) = true := by
    intro c hc
    rw [(hplain c hc).2.1]
    rfl
  have hends : (slashed segments).takeWhile (fun c => !endsAuthority c) = [] ∧
      (slashed segments).dropWhile (fun c => !endsAuthority c) = slashed segments := by
    cases segments with
    | nil => exact ⟨rfl, rfl⟩
    | cons s rest => exact ⟨rfl, rfl⟩
  have hat := hostText_of_no_at (fun c hc => (hplain c hc).2.2)
  unfold parseHttps
  rw [hclean, hscheme]
  simp only [Option.bind_some]
  rw [List.takeWhile_append_of_pos hpass, List.dropWhile_append_of_pos hpass, hends.1, hends.2,
    List.append_nil, hat.1, hat.2, hhost]
  rfl

theorem pathPieces_slashed (hne : segments ≠ [])
    (h : forall s, s ∈ segments -> forall c, c ∈ s -> isSlash c = false) :
    pathPieces (slashed segments) = segments := by
  induction segments with
  | nil => exact absurd rfl hne
  | cons s rest ih =>
    have hs : forall c, c ∈ s -> isSlash c = false := h s List.mem_cons_self
    show (s ++ slashed rest).splitOnP isSlash = s :: rest
    cases rest with
    | nil =>
      have hnone : slashed [] = [] := rfl
      rw [hnone, List.append_nil]
      exact List.splitOnP_eq_singleton hs
    | cons next rest =>
      have hrest := ih (List.cons_ne_nil next rest)
        (fun t ht => h t (List.mem_cons_of_mem s ht))
      have hsplit : slashed (next :: rest) = '/' :: (next ++ slashed rest) := rfl
      have hpieces : (next ++ slashed rest).splitOnP isSlash = next :: rest := hrest
      rw [hsplit, List.splitOnP_append_cons s _ rfl, List.splitOnP_eq_singleton hs, hpieces]
      rfl

theorem parseHttps_of_plain (hrules : HostRules parseHost) (hhost : parseHost host = some host)
    (hclean : cleaned (address host segments) = address host segments)
    (hslash : forall s, s ∈ segments -> forall c, c ∈ s -> isSlash c = false)
    (hends : forall s, s ∈ segments -> forall c, c ∈ s -> endsPath c = false) :
    parseHttps parseHost (address host segments) =
      some
        { username := []
          password := []
          authority := host
          path := addPieces [] (if segments = [] then [[]] else segments)
          query := none
          fragment := none } := by
  have hpass : forall c, c ∈ slashed segments -> (!endsPath c) = true := by
    intro c hc
    rcases List.mem_flatMap.mp hc with ⟨s, hs, hcs⟩
    cases List.mem_cons.mp hcs with
    | inl heq =>
      rw [heq]
      rfl
    | inr hmem =>
      rw [hends s hs c hmem]
      rfl
  have hpieces : pathPieces (slashed segments) = if segments = [] then [[]] else segments := by
    by_cases hne : segments = []
    · rw [if_pos hne, hne]
      rfl
    · rw [if_neg hne]
      exact pathPieces_slashed hne hslash
  rw [parseHttps_address hrules hhost hclean, List.takeWhile_eq_self_iff.mpr hpass,
    List.dropWhile_eq_nil_iff.mpr hpass, hpieces]
  rfl

theorem ending_of_mem {s : Text} (hs : s ∈ segments) {c : Char} (hc : c ∈ s)
    (hends : endsPath c = true) :
    ¬ ((queryAndFragment ((slashed segments).dropWhile (fun c => !endsPath c))).1 = none ∧
      (queryAndFragment ((slashed segments).dropWhile (fun c => !endsPath c))).2 = none) := by
  have hmem : c ∈ slashed segments :=
    List.mem_flatMap.mpr ⟨s, hs, List.mem_cons_of_mem '/' hc⟩
  cases hdrop : (slashed segments).dropWhile (fun c => !endsPath c) with
  | nil =>
    have hall := List.dropWhile_eq_nil_iff.mp hdrop c hmem
    rw [hends] at hall
    cases hall
  | cons d rest =>
    rw [queryAndFragment]
    split
    · intro h
      cases h.2
    · intro h
      cases h.1

end Parsing

/-!
# Slashes at the end of a path
-/

def withoutTrailing (path : List Text) : List Text :=
  path.rdropWhile List.isEmpty

def stripSlashes (text : Text) : Text :=
  text.rdropWhile (fun c => c == '/')

theorem stripSlashes_slashed {path : List Text}
    (h : forall s, s ∈ path -> forall c, c ∈ s -> isSlash c = false) :
    stripSlashes (slashed path) = slashed (withoutTrailing path) := by
  unfold stripSlashes withoutTrailing
  induction path using List.reverseRecOn with
  | nil => rfl
  | append_singleton path s ih =>
    have hpath := ih (fun t ht => h t (List.mem_append_left _ ht))
    rw [slashed_append]
    cases s using List.reverseRecOn with
    | nil =>
      have hslash : slashed [[]] = ['/'] := rfl
      rw [hslash, List.rdropWhile_concat_pos _ _ _ rfl, List.rdropWhile_concat_pos _ _ _ rfl,
        hpath]
    | append_singleton s c =>
      have hc : ¬ (c == '/') = true := by
        intro heq
        have hslash := h (s ++ [c]) (List.mem_append_right _ List.mem_cons_self) c
          (List.mem_append_right _ List.mem_cons_self)
        rw [beq_iff_eq.mp heq] at hslash
        cases hslash
      have hfull : ¬ List.isEmpty (s ++ [c]) = true := by simp
      have hlast : slashed path ++ slashed [s ++ [c]] = slashed path ++ '/' :: s ++ [c] := by
        simp [slashed]
      rw [List.rdropWhile_concat_neg _ _ _ hfull, slashed_append, hlast]
      exact List.rdropWhile_concat_neg (fun c => c == '/') (slashed path ++ '/' :: s) c hc

end WebUrls
end Foundation
end JavaVsixLite
