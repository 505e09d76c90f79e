import Mathlib.Data.List.Basic

/-!
# Tokens of a text, some of them quoted

A text is cut into tokens at blanks and line breaks.  Inside quotes a blank is
part of the token and the escape makes the next symbol part of it; a line break
that is not escaped ends the token even there.

A writer that quotes each token and escapes the quote and the escape is read
back exactly when no token holds a line break.
-/

namespace JavaVsixLite
namespace Foundation

structure Lexicon (α : Type*) where
  blank : α -> Bool
  lineBreak : α -> Bool
  quote : α
  escape : α
  quote_ne_escape : quote ≠ escape
  quote_plain : lineBreak quote = false
  quote_solid : blank quote = false
  escape_plain : lineBreak escape = false

namespace Lexicon

variable {α : Type*} [DecidableEq α] (L : Lexicon α)

/-- Where the reader is; the symbols are those of the token read so far. -/
inductive Mode (α : Type*) where
  | between
  | bare (read : List α)
  | quoted (read : List α)
  | escaped (read : List α)

/-- One symbol: the token it ends, if it ends one, and where the reader is then. -/
def read (m : Mode α) (c : α) : Option (List α) × Mode α :=
  match m with
  | .between =>
    if L.blank c || L.lineBreak c then (none, .between)
    else if c = L.quote then (none, .quoted [])
    else (none, .bare [c])
  | .bare token =>
    if L.blank c || L.lineBreak c then (some token, .between)
    else if c = L.quote then (none, .quoted token)
    else (none, .bare (token ++ [c]))
  | .quoted token =>
    if L.lineBreak c then (some token, .between)
    else if c = L.quote then (none, .bare token)
    else if c = L.escape then (none, .escaped token)
    else (none, .quoted (token ++ [c]))
  | .escaped token => (none, .quoted (token ++ [c]))

@[grind =] def scan (m : Mode α) : List α -> List (List α) × Mode α
  | [] => ([], m)
  | c :: rest =>
    let first := L.read m c
    let others := scan first.2 rest
    (first.1.toList ++ others.1, others.2)

/-- The end of the text ends the token that is under way. -/
def Mode.pending : Mode α -> List (List α)
  | .between => []
  | .bare token => [token]
  | .quoted token => [token]
  | .escaped token => [token]

def tokens (text : List α) : List (List α) :=
  (L.scan .between text).1 ++ (L.scan .between text).2.pending

def OneLine (token : List α) : Prop :=
  forall c, c ∈ token -> L.lineBreak c = false

def escapeSymbol (c : α) : List α :=
  if c = L.escape ∨ c = L.quote then [L.escape, c] else [c]

def quoteToken (token : List α) : List α :=
  L.quote :: (token.flatMap L.escapeSymbol ++ [L.quote])

def quoteLines (newline : α) (ts : List (List α)) : List α :=
  ts.flatMap (fun token => L.quoteToken token ++ [newline])

/-!
# Reading one text after another
-/

theorem scan_append (m : Mode α) (xs ys : List α) :
    L.scan m (xs ++ ys) =
      ((L.scan m xs).1 ++ (L.scan (L.scan m xs).2 ys).1, (L.scan (L.scan m xs).2 ys).2) := by
  induction xs generalizing m with
  | nil => rfl
  | cons c rest ih =>
    rw [List.cons_append]
    simp only [scan, ih, List.append_assoc]

variable {m : Mode α} {c newline : α}

theorem scan_break (h : L.lineBreak c = true) (hm : forall token, m ≠ .escaped token) :
    L.scan m [c] = (m.pending, .between) := by
  cases m with
  | between => simp [scan, read, h, Mode.pending]
  | bare token => simp [scan, read, h, Mode.pending]
  | quoted token => simp [scan, read, h, Mode.pending]
  | escaped token => exact absurd rfl (hm token)

/-!
# A quoted token is read back
-/

theorem scan_quoted_escapeSymbol (h : L.lineBreak c = false) (token : List α) :
    L.scan (.quoted token) (L.escapeSymbol c) = ([], .quoted (token ++ [c])) := by
  unfold escapeSymbol
  by_cases hspecial : c = L.escape ∨ c = L.quote
  · rw [if_pos hspecial]
    simp [scan, read, L.escape_plain, L.quote_ne_escape.symm]
  · rw [if_neg hspecial]
    rcases not_or.mp hspecial with ⟨hescape, hquote⟩
    simp [scan, read, h, hescape, hquote]

theorem scan_quoted_flatMap {token : List α} (h : L.OneLine token) (before : List α) :
    L.scan (.quoted before) (token.flatMap L.escapeSymbol) =
      ([], .quoted (before ++ token)) := by
  induction token generalizing before with
  | nil => simp [scan]
  | cons c token ih =>
    have hc : L.lineBreak c = false := h c List.mem_cons_self
    have htoken : L.OneLine token := fun d hd => h d (List.mem_cons_of_mem c hd)
    rw [List.flatMap_cons, scan_append, L.scan_quoted_escapeSymbol hc, ih htoken]
    simp

theorem scan_quoteToken {token : List α} (h : L.OneLine token) :
    L.scan .between (L.quoteToken token) = ([], .bare token) := by
  have hopen : L.scan .between [L.quote] = ([], .quoted []) := by
    simp [scan, read, L.quote_plain, L.quote_solid]
  have hclose : L.scan (.quoted token) [L.quote] = ([], .bare token) := by
    simp [scan, read, L.quote_plain]
  show L.scan .between ([L.quote] ++ (token.flatMap L.escapeSymbol ++ [L.quote])) = _
  rw [scan_append, hopen]
  simp only [scan_append, L.scan_quoted_flatMap h, List.nil_append, hclose]

theorem scan_quoteLines (hnewline : L.lineBreak newline = true) {ts : List (List α)}
    (h : forall token, token ∈ ts -> L.OneLine token) :
    L.scan .between (L.quoteLines newline ts) = (ts, .between) := by
  induction ts with
  | nil => rfl
  | cons token ts ih =>
    have htoken : L.OneLine token := h token List.mem_cons_self
    have hts : forall other, other ∈ ts -> L.OneLine other :=
      fun other ho => h other (List.mem_cons_of_mem token ho)
    have hline : L.scan .between (L.quoteToken token ++ [newline]) = ([token], .between) := by
      rw [scan_append, L.scan_quoteToken htoken, L.scan_break hnewline (by simp)]
      rfl
    show L.scan .between ((L.quoteToken token ++ [newline]) ++ L.quoteLines newline ts) = _
    rw [scan_append, hline, ih hts]
    rfl

/-!
# No token of a written text holds a line break
-/

def Mode.Clean : Mode α -> Prop
  | .between => True
  | .bare token => L.OneLine token
  | .quoted token => L.OneLine token
  | .escaped _ => False

/-- From a clean reader, the text ends only clean tokens and leaves the reader clean. -/
def CleanText (text : List α) : Prop :=
  forall m : Mode α, m.Clean L ->
    (forall token, token ∈ (L.scan m text).1 -> L.OneLine token) ∧ (L.scan m text).2.Clean L

theorem cleanText_append {xs ys : List α} (hx : L.CleanText xs) (hy : L.CleanText ys) :
    L.CleanText (xs ++ ys) := by
  intro m hm
  rcases hx m hm with ⟨hfirst, hbetween⟩
  rcases hy _ hbetween with ⟨hsecond, hend⟩
  rw [scan_append]
  refine ⟨?_, hend⟩
  intro token htoken
  rcases List.mem_append.mp htoken with htoken | htoken
  · exact hfirst token htoken
  · exact hsecond token htoken

theorem cleanText_flatMap {β : Type*} {f : β -> List α} (xs : List β)
    (h : forall x, L.CleanText (f x)) : L.CleanText (xs.flatMap f) := by
  induction xs with
  | nil =>
    intro m hm
    exact ⟨fun token htoken => (List.not_mem_nil htoken).elim, hm⟩
  | cons x xs ih =>
    rw [List.flatMap_cons]
    exact L.cleanText_append (h x) ih

theorem read_clean (hm : m.Clean L) (hescape : forall token, m = .quoted token -> c ≠ L.escape) :
    (forall token, (L.read m c).1 = some token -> L.OneLine token) ∧
      (L.read m c).2.Clean L := by
  have hsnoc : forall token, L.OneLine token -> L.lineBreak c = false ->
      L.OneLine (token ++ [c]) := by
    intro token htoken hc d hd
    rcases List.mem_append.mp hd with hd | hd
    · exact htoken d hd
    · rw [List.mem_singleton.mp hd]
      exact hc
  have hempty : L.OneLine ([] : List α) := fun d hd => (List.not_mem_nil hd).elim
  cases m with
  | between =>
    by_cases hcut : (L.blank c || L.lineBreak c) = true
    · simp [read, hcut, Mode.Clean]
    · have hc : L.lineBreak c = false := by simp at hcut; exact hcut.2
      by_cases hquote : c = L.quote
      · simp [read, hquote, L.quote_plain, L.quote_solid, Mode.Clean, hempty]
      · simpa [read, hcut, hquote, Mode.Clean] using hsnoc [] hempty hc
  | bare token =>
    by_cases hcut : (L.blank c || L.lineBreak c) = true
    · simpa [read, hcut, Mode.Clean] using hm
    · have hc : L.lineBreak c = false := by simp at hcut; exact hcut.2
      by_cases hquote : c = L.quote
      · simpa [read, hquote, L.quote_plain, L.quote_solid, Mode.Clean] using hm
      · simpa [read, hcut, hquote, Mode.Clean] using hsnoc token hm hc
  | quoted token =>
    by_cases hcut : L.lineBreak c = true
    · simpa [read, hcut, Mode.Clean] using hm
    · have hc : L.lineBreak c = false := by simpa using hcut
      have hne : c ≠ L.escape := hescape token rfl
      by_cases hquote : c = L.quote
      · simpa [read, hquote, L.quote_plain, Mode.Clean] using hm
      · simpa [read, hc, hquote, hne, Mode.Clean] using hsnoc token hm hc
  | escaped token => exact hm.elim

theorem cleanText_singleton (hescape : c ≠ L.escape) : L.CleanText [c] := by
  intro m hm
  rcases L.read_clean hm (c := c) (fun _ _ => hescape) with ⟨hended, hnext⟩
  refine ⟨?_, hnext⟩
  intro token htoken
  refine hended token ?_
  simpa [scan] using htoken

theorem scan_pair (m : Mode α) (c d : α) :
    L.scan m [c, d] =
      ((L.read m c).1.toList ++ (L.read (L.read m c).2 d).1.toList,
        (L.read (L.read m c).2 d).2) := by
  simp [scan]

theorem read_escape_ne_quoted (hm : m.Clean L) (hquoted : forall token, m ≠ .quoted token)
    (token : List α) :
    (L.read m L.escape).2 ≠ .quoted token := by
  cases m with
  | between =>
    cases hblank : L.blank L.escape <;>
      simp [read, hblank, L.escape_plain, L.quote_ne_escape.symm]
  | bare before =>
    cases hblank : L.blank L.escape <;>
      simp [read, hblank, L.escape_plain, L.quote_ne_escape.symm]
  | quoted before => exact absurd rfl (hquoted before)
  | escaped before => exact hm.elim

theorem cleanText_escapeSymbol (c : α) : L.CleanText (L.escapeSymbol c) := by
  unfold escapeSymbol
  by_cases hspecial : c = L.escape ∨ c = L.quote
  · rw [if_pos hspecial]
    have hc : L.lineBreak c = false := by
      rcases hspecial with rfl | rfl
      · exact L.escape_plain
      · exact L.quote_plain
    intro m hm
    by_cases hquoted : exists token, m = .quoted token
    · rcases hquoted with ⟨token, rfl⟩
      have hread := L.scan_quoted_escapeSymbol hc token
      unfold escapeSymbol at hread
      rw [if_pos hspecial] at hread
      rw [hread]
      refine ⟨fun other hother => (List.not_mem_nil hother).elim, ?_⟩
      intro d hd
      rcases List.mem_append.mp hd with hd | hd
      · exact hm d hd
      · rw [List.mem_singleton.mp hd]
        exact hc
    · have hother : forall token, m ≠ .quoted token :=
        fun token htoken => hquoted ⟨token, htoken⟩
      rcases L.read_clean hm (c := L.escape)
        (fun token htoken => absurd htoken (hother token)) with ⟨hfirst, hbetween⟩
      have hstill := L.read_escape_ne_quoted hm hother
      rcases L.read_clean hbetween (c := c)
        (fun token htoken => absurd htoken (hstill token)) with ⟨hsecond, hend⟩
      rw [scan_pair]
      refine ⟨?_, hend⟩
      intro token htoken
      rcases List.mem_append.mp htoken with htoken | htoken
      · exact hfirst token (Option.mem_toList.mp htoken)
      · exact hsecond token (Option.mem_toList.mp htoken)
  · rw [if_neg hspecial]
    exact L.cleanText_singleton (fun hescape => hspecial (Or.inl hescape))

theorem cleanText_quoteLines (hnewline : L.lineBreak newline = true) (ts : List (List α)) :
    L.CleanText (L.quoteLines newline ts) := by
  have hquote : L.CleanText [L.quote] := L.cleanText_singleton L.quote_ne_escape
  have hbreak : newline ≠ L.escape := by
    rintro rfl
    rw [L.escape_plain] at hnewline
    cases hnewline
  refine L.cleanText_flatMap ts (fun token => ?_)
  refine L.cleanText_append ?_ (L.cleanText_singleton hbreak)
  show L.CleanText ([L.quote] ++ (token.flatMap L.escapeSymbol ++ [L.quote]))
  refine L.cleanText_append hquote ?_
  exact L.cleanText_append (L.cleanText_flatMap token L.cleanText_escapeSymbol) hquote

theorem tokens_quoteLines_iff (hnewline : L.lineBreak newline = true) (ts : List (List α)) :
    L.tokens (L.quoteLines newline ts) = ts <->
      forall token, token ∈ ts -> L.OneLine token := by
  constructor
  · intro hread token htoken
    rcases L.cleanText_quoteLines hnewline ts .between trivial with ⟨hended, hend⟩
    rw [← hread] at htoken
    rcases List.mem_append.mp htoken with htoken | htoken
    · exact hended token htoken
    · cases hmode : (L.scan .between (L.quoteLines newline ts)).2 with
      | between =>
        rw [hmode] at htoken
        exact (List.not_mem_nil htoken).elim
      | bare last =>
        rw [hmode] at htoken hend
        rw [List.mem_singleton.mp htoken]
        exact hend
      | quoted last =>
        rw [hmode] at htoken hend
        rw [List.mem_singleton.mp htoken]
        exact hend
      | escaped last =>
        rw [hmode] at hend
        exact hend.elim
  · intro h
    unfold tokens
    rw [L.scan_quoteLines hnewline h]
    exact List.append_nil ts

end Lexicon

end Foundation
end JavaVsixLite
