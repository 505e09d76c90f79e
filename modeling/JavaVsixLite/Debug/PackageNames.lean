import JavaVsixLite.Debug.PackageScan
import JavaVsixLite.Foundation.TextLines

/-!
# The package of a compilation unit

A compilation unit is given by what it is written with: white space, comments, literals,
words and single characters, up to the package declaration if it has one.  Identifiers are
ASCII, and there are no Unicode escapes.

A line comment may end in a carriage return alone.  The scanner goes on to the next line
feed, so that it may come out inside a comment or behind the declaration.
-/

namespace JavaVsixLite
namespace Debug

open Foundation

/-!
# White space and comments
-/

inductive LineEnd where
  | lf
  | cr
  | crlf

def LineEnd.text : LineEnd -> Text
  | .lf => ['\n']
  | .cr => ['\r']
  | .crlf => ['\r', '\n']

def isWhite (c : Char) : Bool :=
  c == ' ' || c == '\t' || c == Char.ofNat 0x0C || c == '\n' || c == '\r'

inductive Trivia where
  | white (c : Char) (white : isWhite c = true)
  | lineComment (body : Text) (lineEnd : LineEnd) (oneLine : OneLine body)
  | blockComment (body : Text) (closed : ¬ ['*', '/'] <:+: body)

def Trivia.text : Trivia -> Text
  | .white c _ => [c]
  | .lineComment body lineEnd _ => '/' :: '/' :: (body ++ lineEnd.text)
  | .blockComment body _ => '/' :: '*' :: (body ++ ['*', '/'])

def triviaText (gap : List Trivia) : Text :=
  gap.flatMap Trivia.text

/-!
# Lexemes
-/

/-- No quote ends the body of a literal, and no backslash is left over. -/
def quotedBody (quote : Char) : Text -> Bool
  | [] => true
  | ['\\'] => false
  | '\\' :: _ :: rest => quotedBody quote rest
  | c :: rest => c != quote && quotedBody quote rest

/-- The first three quotes in a row are those behind the body of a text block. -/
def textBlockBody : Text -> Bool
  | [] => true
  | ['\\'] => false
  | '\\' :: _ :: rest => textBlockBody rest
  | '"' :: rest => (rest ++ ['"', '"']).take 2 != ['"', '"'] && textBlockBody rest
  | _ :: rest => textBlockBody rest

def isSymbol (c : Char) : Bool :=
  !isWordChar c && !isWhite c && !(['/', '"', '\'', '@'].contains c)

/-- `word` is an identifier, a keyword or a number, and `atName` an at sign with the
part of a name that follows without a gap. -/
inductive Lexeme where
  | trivia (t : Trivia)
  | symbol (c : Char) (symbol : isSymbol c = true)
  | slash
  | string (body : Text) (quoted : quotedBody '"' body = true) (oneLine : OneLine body)
  | character (body : Text) (quoted : quotedBody '\'' body = true) (oneLine : OneLine body)
  | textBlock (body : Text) (quoted : textBlockBody body = true)
  | word (chars : Text) (nonempty : chars ≠ [])
      (wordChars : forall c, c ∈ chars -> isWordChar c = true)
  | atName (name : Text) (nameChars : forall c, c ∈ name -> isWordChar c = true ∨ c = '.')

def Lexeme.text : Lexeme -> Text
  | .trivia t => t.text
  | .symbol c _ => [c]
  | .slash => ['/']
  | .string body _ _ => '"' :: (body ++ ['"'])
  | .character body _ _ => '\'' :: (body ++ ['\''])
  | .textBlock body _ => '"' :: '"' :: '"' :: (body ++ ['"', '"', '"'])
  | .word chars _ _ => chars
  | .atName name _ => '@' :: name

def lexemesText (lexemes : List Lexeme) : Text :=
  lexemes.flatMap Lexeme.text

def Lexeme.StopsBefore (lexeme : Lexeme) (next : Text) : Prop :=
  match lexeme with
  | .word _ _ _ => forall c rest, next = c :: rest -> isWordChar c = false
  | .atName _ _ => forall c rest, next = c :: rest -> isWordChar c = false ∧ c ≠ '.'
  | .slash => forall c rest, next = c :: rest -> c ≠ '/' ∧ c ≠ '*'
  | _ => True

def WellSpaced : List Lexeme -> Text -> Prop
  | [], _ => True
  | lexeme :: rest, behind =>
    lexeme.StopsBefore (lexemesText rest ++ behind) ∧ WellSpaced rest behind

/-!
# What the scanner makes of the lexemes
-/

inductive Effect where
  | skipped
  | swallows
  | exposes (run leftover : Text)
  | loses

def exposure (chars : Text) : Effect :=
  let seen := chars.dropWhile (fun c => !isWordStart c)
  if seen = [] then .skipped
  else .exposes (seen.takeWhile isWordChar) (seen.dropWhile isWordChar)

/-- A comment that ends in a carriage return alone swallows what follows, and with a quote in
a text block the scanner loses track. -/
def Lexeme.effect : Lexeme -> Effect
  | .trivia (.lineComment _ .cr _) => .swallows
  | .trivia _ => .skipped
  | .symbol _ _ => .skipped
  | .slash => .skipped
  | .string _ _ _ => .skipped
  | .character _ _ _ => .skipped
  | .textBlock body _ => if quotedBody '"' body then .skipped else .loses
  | .word chars _ _ => exposure chars
  | .atName name _ => exposure (name.dropWhile isAnnotationChar)

/-- The first word that is seen and what stands behind it; or the end, inside a comment that
goes on or not; or a place inside a lexeme. -/
inductive Outcome where
  | word (run behind : Text)
  | through (swallowing : Bool)
  | lost
deriving DecidableEq

/-- Swallowed lexemes are left behind at a line feed, which has to be their last character. -/
def look : Bool -> List Lexeme -> Outcome
  | swallowing, [] => .through swallowing
  | true, lexeme :: rest =>
    match splitOnce ['\n'] lexeme.text with
    | none => look true rest
    | some (_, after) => if after = [] then look false rest else .lost
  | false, lexeme :: rest =>
    match lexeme.effect with
    | .skipped => look false rest
    | .swallows => look true rest
    | .exposes run leftover => .word run (leftover ++ lexemesText rest)
    | .loses => .lost

/-!
# Scanning a lexeme
-/

section Scanning

variable {X : Text}

theorem fromLineFeed_append {chars : Text} (h : '\n' ∉ chars) (X : Text) :
    fromLineFeed (chars ++ X) = fromLineFeed X := by
  unfold fromLineFeed
  rw [List.dropWhile_append_of_pos]
  intro c hc
  exact bne_iff_ne.mpr (fun heq => h (heq ▸ hc))

theorem fromLineFeed_newline (X : Text) : fromLineFeed ('\n' :: X) = '\n' :: X := by
  simp [fromLineFeed]

theorem firstWord_white {c : Char} (h : isWhite c = true) :
    firstWord (c :: X) = firstWord X := by
  have hcases : c = ' ' ∨ c = '\t' ∨ c = Char.ofNat 0x0C ∨ c = '\n' ∨ c = '\r' := by
    simpa [isWhite, or_assoc] using h
  have hword : isWordStart c = false := by
    rcases hcases with rfl | rfl | rfl | rfl | rfl <;> decide
  have hplain : Plain c X := by
    rcases hcases with rfl | rfl | rfl | rfl | rfl <;>
      exact ⟨fun heq => absurd heq (by decide), by decide, by decide, by decide⟩
  exact hplain.skip hword

theorem afterBlockComment_append {body : Text} (h : ¬ ['*', '/'] <:+: body) (X : Text) :
    afterBlockComment (body ++ '*' :: '/' :: X) = X := by
  induction body with
  | nil => rfl
  | cons c rest ih =>
    have hrest : ¬ ['*', '/'] <:+: rest := fun hoccurs =>
      h (hoccurs.trans (List.suffix_cons c rest).isInfix)
    rw [List.cons_append, afterBlockComment]
    · exact ih hrest
    · intro tail hc htail
      cases rest with
      | nil =>
        rw [List.nil_append, List.cons.injEq] at htail
        exact absurd htail.1 (by decide)
      | cons d others =>
        rw [List.cons_append, List.cons.injEq] at htail
        apply h
        rw [hc, htail.1]
        exact (List.prefix_append ['*', '/'] others).isInfix

theorem afterQuoted_append {quote : Char} (hquote : quote ≠ '\\') {body : Text}
    (h : quotedBody quote body = true) (X : Text) :
    afterQuoted quote (body ++ quote :: X) = X := by
  fun_induction quotedBody quote body with
  | case1 =>
    rw [List.nil_append, afterQuoted]
    · exact if_pos rfl
    · intro heq
      exact absurd heq hquote
    · intro _ _ heq
      exact absurd heq hquote
  | case2 => cases h
  | case3 c rest ih => exact ih h
  | case4 c rest hlast hescape ih =>
    rcases Bool.and_eq_true_iff.mp h with ⟨hc, hrest⟩
    rw [List.cons_append, afterQuoted, if_neg (bne_iff_ne.mp hc)]
    · exact ih hrest
    · rintro rfl heq
      cases rest with
      | nil => exact hlast rfl rfl
      | cons d others => exact hescape d others rfl rfl
    · rintro d others rfl heq
      cases rest with
      | nil => exact hlast rfl rfl
      | cons e tail => exact hescape e tail rfl rfl

theorem takeWhile_append_stop {p : Char -> Bool}
    (h : forall c rest, X = c :: rest -> p c = false) (chars : Text) :
    (chars ++ X).takeWhile p = chars.takeWhile p := by
  induction chars with
  | nil =>
    cases X with
    | nil => rfl
    | cons c rest =>
      rw [List.nil_append, List.takeWhile_cons, h c rest rfl]
      rfl
  | cons c rest ih => rw [List.cons_append, List.takeWhile_cons, List.takeWhile_cons, ih]

theorem dropWhile_append_stop {p : Char -> Bool}
    (h : forall c rest, X = c :: rest -> p c = false) (chars : Text) :
    (chars ++ X).dropWhile p = chars.dropWhile p ++ X := by
  induction chars with
  | nil =>
    cases X with
    | nil => rfl
    | cons c rest =>
      rw [List.nil_append, List.dropWhile_cons, h c rest rfl]
      rfl
  | cons c rest ih =>
    rw [List.cons_append, List.dropWhile_cons, List.dropWhile_cons, ih]
    split <;> rfl

theorem plain_dot (X : Text) : Plain '.' X :=
  ⟨fun heq => absurd heq (by decide), by decide, by decide, by decide⟩

def Effect.Happens (effect : Effect) (text X : Text) : Prop :=
  match effect with
  | .skipped => firstWord (text ++ X) = firstWord X
  | .swallows => firstWord (text ++ X) = firstWord (fromLineFeed X)
  | .exposes run leftover => firstWord (text ++ X) = some (run, leftover ++ X)
  | .loses => True

theorem exposure_happens {chars : Text}
    (hchars : forall c, c ∈ chars -> isWordChar c = true ∨ c = '.')
    (hstop : forall c rest, X = c :: rest -> isWordChar c = false) :
    (exposure chars).Happens chars X := by
  induction chars with
  | nil => rfl
  | cons c rest ih =>
    have hplain : Plain c (rest ++ X) := by
      rcases hchars c List.mem_cons_self with hword | rfl
      · exact plain_of_isWordChar hword _
      · exact plain_dot _
    cases hstart : isWordStart c with
    | false =>
      have hseen : exposure (c :: rest) = exposure rest := by
        unfold exposure
        rw [List.dropWhile_cons, hstart]
        rfl
      have hskip : firstWord (c :: rest ++ X) = firstWord (rest ++ X) := hplain.skip hstart
      have hrest := ih (fun d hd => hchars d (List.mem_cons_of_mem c hd))
      rw [hseen]
      unfold Effect.Happens at hrest ⊢
      rw [hskip]
      exact hrest
    | true =>
      have hseen : exposure (c :: rest) =
          .exposes ((c :: rest).takeWhile isWordChar) ((c :: rest).dropWhile isWordChar) := by
        unfold exposure
        rw [List.dropWhile_cons, hstart]
        rfl
      have hword : firstWord (c :: rest ++ X) =
        some ((c :: rest ++ X).takeWhile isWordChar, (c :: rest ++ X).dropWhile isWordChar) :=
          hplain.word hstart
      rw [takeWhile_append_stop hstop, dropWhile_append_stop hstop] at hword
      rw [hseen]
      exact hword

theorem lineComment_happens (body : Text) (lineEnd : LineEnd) (oneLine : OneLine body) :
    (Lexeme.effect (.trivia (.lineComment body lineEnd oneLine))).Happens
      (Trivia.lineComment body lineEnd oneLine).text X := by
  have hbody := fromLineFeed_append oneLine.1
  have hstart : firstWord ((Trivia.lineComment body lineEnd oneLine).text ++ X) =
      firstWord (fromLineFeed (lineEnd.text ++ X)) := by
    show firstWord ('/' :: '/' :: (body ++ lineEnd.text ++ X)) = _
    rw [firstWord_lineComment, List.append_assoc, hbody]
  have hnewline : isWhite '\n' = true := by decide
  cases lineEnd with
  | lf => exact hstart.trans (firstWord_white hnewline)
  | crlf => exact hstart.trans (firstWord_white hnewline)
  | cr => exact hstart

theorem isWordStart_of_not_isWordChar {c : Char} (h : isWordChar c = false) :
    isWordStart c = false := by
  unfold isWordChar isAsciiAlphanumeric Char.isAlphanum at h
  unfold isWordStart isAsciiAlphabetic
  simp only [Bool.or_eq_false_iff] at h ⊢
  exact ⟨h.1.1.1, h.1.2⟩

theorem plain_of_isSymbol {c : Char} (h : isSymbol c = true) (X : Text) :
    Plain c X ∧ isWordStart c = false := by
  unfold isSymbol at h
  simp only [Bool.and_eq_true, Bool.not_eq_true'] at h
  rcases h with ⟨⟨hword, _⟩, hspecial⟩
  have hnone : c ∉ ['/', '"', '\'', '@'] := by
    intro hmem
    rw [List.contains_iff_mem.mpr hmem] at hspecial
    cases hspecial
  simp only [List.mem_cons, List.not_mem_nil, or_false, not_or] at hnone
  exact ⟨⟨fun heq => absurd heq hnone.1, hnone.2.1, hnone.2.2.1, hnone.2.2.2⟩,
    isWordStart_of_not_isWordChar hword⟩

theorem trivia_happens (t : Trivia) : (Lexeme.trivia t).effect.Happens t.text X := by
  cases t with
  | white c white => exact firstWord_white white
  | lineComment body lineEnd oneLine => exact lineComment_happens body lineEnd oneLine
  | blockComment body closed =>
    show firstWord ('/' :: '*' :: (body ++ ['*', '/'] ++ X)) = firstWord X
    have hafter := afterBlockComment_append closed X
    rw [firstWord_blockComment, List.append_assoc]
    exact congrArg firstWord hafter

theorem textBlock_happens (body : Text) (quoted : textBlockBody body = true) :
    (Lexeme.textBlock body quoted).effect.Happens (Lexeme.textBlock body quoted).text X := by
  cases hbody : quotedBody '"' body with
  | false =>
    have hloses : (Lexeme.textBlock body quoted).effect = .loses := by
      simp [Lexeme.effect, hbody]
    rw [hloses]
    trivial
  | true =>
    have hskipped : (Lexeme.textBlock body quoted).effect = .skipped := by
      simp [Lexeme.effect, hbody]
    have hafter := afterQuoted_append (by decide) hbody ('"' :: '"' :: X)
    rw [hskipped]
    -- The first two quotes are an empty string to the scanner, and so are the last two.
    show firstWord ('"' :: '"' :: '"' :: (body ++ ['"', '"', '"'] ++ X)) = firstWord X
    rw [firstWord_string, afterQuoted, if_pos rfl, firstWord_string, List.append_assoc]
    · have hrest : firstWord ('"' :: '"' :: X) = firstWord X := by
        rw [firstWord_string, afterQuoted, if_pos rfl]
        · intro heq
          exact absurd heq (by decide)
        · intro _ _ heq
          exact absurd heq (by decide)
      exact (congrArg firstWord hafter).trans hrest
    · intro heq
      exact absurd heq (by decide)
    · intro _ _ heq
      exact absurd heq (by decide)

theorem atName_happens {name : Text}
    (hname : forall c, c ∈ name -> isWordChar c = true ∨ c = '.')
    (hstop : forall c rest, X = c :: rest -> isWordChar c = false ∧ c ≠ '.') :
    (Lexeme.atName name hname).effect.Happens ('@' :: name) X := by
  have hafter : forall c rest, X = c :: rest -> isAnnotationChar c = false := by
    intro c rest hX
    rcases hstop c rest hX with ⟨hword, hdot⟩
    unfold isWordChar at hword
    unfold isAnnotationChar
    simp only [Bool.or_eq_false_iff] at hword ⊢
    exact ⟨hword.1.1, beq_eq_false_iff_ne.mpr hdot⟩
  have hexposure : (exposure (name.dropWhile isAnnotationChar)).Happens
      (name.dropWhile isAnnotationChar) X :=
    exposure_happens (fun c hc => hname c ((List.dropWhile_suffix _).subset hc))
      (fun c rest hX => (hstop c rest hX).1)
  have hstart : firstWord ('@' :: name ++ X) =
      firstWord (name.dropWhile isAnnotationChar ++ X) := by
    rw [List.cons_append, firstWord_annotation, dropWhile_append_stop hafter]
  show (exposure (name.dropWhile isAnnotationChar)).Happens ('@' :: name) X
  generalize exposure (name.dropWhile isAnnotationChar) = effect at hexposure ⊢
  cases effect with
  | skipped => exact hstart.trans hexposure
  | swallows => exact hstart.trans hexposure
  | exposes run leftover => exact hstart.trans hexposure
  | loses => trivial

theorem Lexeme.effect_happens {lexeme : Lexeme} (h : lexeme.StopsBefore X) :
    lexeme.effect.Happens lexeme.text X := by
  cases lexeme with
  | trivia t => exact trivia_happens t
  | symbol c symbol =>
    rcases plain_of_isSymbol symbol X with ⟨hplain, hword⟩
    exact hplain.skip hword
  | slash =>
    have hplain : Plain '/' X :=
      ⟨fun _ d tail hX => h d tail hX, by decide, by decide, by decide⟩
    exact hplain.skip (by decide)
  | string body quoted oneLine =>
    show firstWord ('"' :: (body ++ ['"'] ++ X)) = firstWord X
    rw [firstWord_string, List.append_assoc]
    exact congrArg firstWord (afterQuoted_append (by decide) quoted X)
  | character body quoted oneLine =>
    show firstWord ('\'' :: (body ++ ['\''] ++ X)) = firstWord X
    rw [firstWord_character, List.append_assoc]
    exact congrArg firstWord (afterQuoted_append (by decide) quoted X)
  | textBlock body quoted => exact textBlock_happens body quoted
  | word chars nonempty wordChars =>
    exact exposure_happens (fun c hc => Or.inl (wordChars c hc)) h
  | atName name nameChars => exact atName_happens nameChars h

end Scanning

/-!
# Scanning the lexemes
-/

/-- What is still read of a text by a scanner that may be inside a line comment. -/
def onward (swallowing : Bool) (text : Text) : Text :=
  if swallowing then fromLineFeed text else text

/-- The answer of the scanner where its place is known. -/
def Outcome.Answers (outcome : Outcome) (behind : Text) (answer : Option (Text × Text)) : Prop :=
  match outcome with
  | .word run rest => answer = some (run, rest ++ behind)
  | .through swallowing => answer = firstWord (onward swallowing behind)
  | .lost => True

theorem lexemesText_cons (lexeme : Lexeme) (rest : List Lexeme) (behind : Text) :
    lexemesText (lexeme :: rest) ++ behind = lexeme.text ++ (lexemesText rest ++ behind) := by
  rw [lexemesText, List.flatMap_cons, List.append_assoc]
  rfl

theorem look_swallowed (lexeme : Lexeme) (rest : List Lexeme) :
    look true (lexeme :: rest) =
      match splitOnce ['\n'] lexeme.text with
      | none => look true rest
      | some (_, after) => if after = [] then look false rest else .lost := by
  rw [look]

theorem look_seen (lexeme : Lexeme) (rest : List Lexeme) :
    look false (lexeme :: rest) =
      match lexeme.effect with
      | .skipped => look false rest
      | .swallows => look true rest
      | .exposes run leftover => .word run (leftover ++ lexemesText rest)
      | .loses => .lost := by
  rw [look]

theorem fromLineFeed_lexeme {text : Text} (X : Text) :
    match splitOnce ['\n'] text with
    | none => fromLineFeed (text ++ X) = fromLineFeed X
    | some (_, after) => after = [] -> firstWord (fromLineFeed (text ++ X)) = firstWord X := by
  cases hsplit : splitOnce ['\n'] text with
  | none =>
    rw [splitOnce_eq_none_iff, List.singleton_infix_iff] at hsplit
    exact fromLineFeed_append hsplit X
  | some halves =>
    rcases halves with ⟨before, after⟩
    intro hafter
    have hafter' : after = [] := hafter
    subst hafter'
    have hbefore : '\n' ∉ before := by
      intro hmem
      rcases List.append_of_mem hmem with ⟨front, back, hfront⟩
      have hstarts := startsNotIn_of_splitOnce hsplit ('\n' :: back) (List.cons_ne_nil _ _)
      apply hstarts
      · show '\n' :: back <:+ before
        rw [hfront]
        exact List.suffix_append front _
      · exact List.prefix_append ['\n'] (back ++ _)
    rw [eq_of_splitOnce hsplit]
    show firstWord (fromLineFeed (before ++ ['\n'] ++ X)) = firstWord X
    rw [List.append_assoc, fromLineFeed_append hbefore]
    show firstWord (fromLineFeed ('\n' :: X)) = firstWord X
    rw [fromLineFeed_newline, firstWord_white (by decide)]

theorem look_answers {lexemes : List Lexeme} {behind : Text} (h : WellSpaced lexemes behind)
    (swallowing : Bool) :
    (look swallowing lexemes).Answers behind
      (firstWord (onward swallowing (lexemesText lexemes ++ behind))) := by
  induction lexemes generalizing swallowing with
  | nil => exact rfl
  | cons lexeme rest ih =>
    rw [lexemesText_cons]
    cases swallowing with
    | true =>
      have hlexeme := @fromLineFeed_lexeme lexeme.text (lexemesText rest ++ behind)
      have hopen := ih h.2 true
      have hclosed := ih h.2 false
      rw [look_swallowed]
      cases hsplit : splitOnce ['\n'] lexeme.text with
      | none =>
        rw [hsplit] at hlexeme
        show (look true rest).Answers behind (firstWord (fromLineFeed _))
        rw [hlexeme]
        exact hopen
      | some halves =>
        rw [hsplit] at hlexeme
        show (if halves.2 = [] then look false rest else .lost).Answers behind _
        by_cases hafter : halves.2 = []
        · rw [if_pos hafter]
          show (look false rest).Answers behind (firstWord (fromLineFeed _))
          rw [hlexeme hafter]
          exact hclosed
        · rw [if_neg hafter]
          trivial
    | false =>
      have heffect := Lexeme.effect_happens h.1
      have hopen := ih h.2 true
      have hclosed := ih h.2 false
      rw [look_seen]
      show Outcome.Answers _ behind (firstWord (lexeme.text ++ _))
      generalize lexeme.effect = effect at heffect ⊢
      cases effect with
      | skipped =>
        rw [show firstWord (lexeme.text ++ _) = _ from heffect]
        exact hclosed
      | swallows =>
        rw [show firstWord (lexeme.text ++ _) = _ from heffect]
        exact hopen
      | exposes run leftover =>
        rw [show firstWord (lexeme.text ++ _) = _ from heffect, ← List.append_assoc]
        exact rfl
      | loses => trivial

theorem firstWord_of_look {lexemes : List Lexeme} {behind run rest : Text}
    (spaced : WellSpaced lexemes behind) (h : look false lexemes = .word run rest) :
    firstWord (lexemesText lexemes ++ behind) = some (run, rest ++ behind) := by
  have hanswer := look_answers spaced false
  rw [h] at hanswer
  exact hanswer

/-!
# Package declarations
-/

/-- A dotted name with what stands between its tokens.  Each of `others` is a dot and an
identifier, each with the gap before it. -/
structure PackageDeclaration where
  gap : List Trivia
  separated : gap ≠ []
  first : Text
  others : List (List Trivia × List Trivia × Text)
  lastGap : List Trivia
  identifiers : forall identifier, identifier ∈ first :: others.map (fun other => other.2.2) ->
    identifier ≠ [] ∧ forall c, c ∈ identifier -> isWordChar c = true

namespace PackageDeclaration

def parts (declaration : PackageDeclaration) : List (List Trivia × Text) :=
  (declaration.gap, declaration.first) ::
    declaration.others.flatMap (fun other => [(other.1, ['.']), (other.2.1, other.2.2)])

def name (declaration : PackageDeclaration) : Text :=
  declaration.parts.flatMap Prod.snd

def partsText (parts : List (List Trivia × Text)) : Text :=
  parts.flatMap (fun part => triviaText part.1 ++ part.2)

theorem partsText_cons (part : List Trivia × Text) (rest : List (List Trivia × Text)) :
    partsText (part :: rest) = triviaText part.1 ++ part.2 ++ partsText rest := by
  rw [partsText, List.flatMap_cons]
  rfl

def body (declaration : PackageDeclaration) : Text :=
  partsText declaration.parts ++ (triviaText declaration.lastGap ++ [';'])

def text (declaration : PackageDeclaration) : Text :=
  keyword ++ declaration.body

def NoEarlySemicolon (declaration : PackageDeclaration) : Prop :=
  forall part, part ∈ declaration.parts -> ';' ∉ triviaText part.1

/-- The comments up to the first semicolon have nothing that could stand in a name. -/
structure Quiet (declaration : PackageDeclaration) : Prop where
  noSemicolon : declaration.NoEarlySemicolon
  gaps : forall part, part ∈ declaration.parts ->
    forall c, c ∈ triviaText part.1 -> isNameChar c = false
  last : forall c, c ∈ (triviaText declaration.lastGap).takeWhile (fun c => c != ';') ->
    isNameChar c = false

variable (declaration : PackageDeclaration)

theorem isNameChar_of_isWordChar {c : Char} (h : isWordChar c = true) : isNameChar c = true := by
  unfold isWordChar at h
  unfold isNameChar
  simp only [Bool.or_eq_true] at h ⊢
  rcases h with (h | h) | h
  · exact Or.inl (Or.inl (Or.inl h))
  · exact Or.inl (Or.inr h)
  · exact Or.inr h

theorem nameChars_of_mem_parts {declaration : PackageDeclaration} {part : List Trivia × Text}
    (h : part ∈ declaration.parts) : forall c, c ∈ part.2 -> isNameChar c = true := by
  intro c hc
  rcases List.mem_cons.mp h with rfl | hother
  · exact isNameChar_of_isWordChar ((declaration.identifiers _ List.mem_cons_self).2 c hc)
  · rcases List.mem_flatMap.mp hother with ⟨other, hmem, hpart⟩
    rcases List.mem_cons.mp hpart with rfl | hlast
    · rw [List.mem_singleton.mp hc]
      decide
    · rw [List.mem_singleton.mp hlast] at hc
      have hidentifier : other.2.2 ∈
          declaration.first :: declaration.others.map (fun other => other.2.2) :=
        List.mem_cons_of_mem _ (List.mem_map.mpr ⟨other, hmem, rfl⟩)
      exact isNameChar_of_isWordChar ((declaration.identifiers _ hidentifier).2 c hc)

theorem name_ne_nil : declaration.name ≠ [] := by
  intro h
  have hfirst := (declaration.identifiers _ List.mem_cons_self).1
  have hparts : declaration.name = declaration.first ++
      (declaration.others.flatMap (fun other =>
        [(other.1, ['.']), (other.2.1, other.2.2)])).flatMap Prod.snd := by
    rw [name, parts, List.flatMap_cons]
  rw [hparts] at h
  exact hfirst (List.append_eq_nil_iff.mp h).1

end PackageDeclaration

section Parts

open PackageDeclaration

variable {parts : List (List Trivia × Text)}

theorem countP_partsText
    (h : forall part, part ∈ parts -> forall c, c ∈ part.2 -> isNameChar c = true) :
    (partsText parts).countP isNameChar =
      (parts.flatMap (fun part => triviaText part.1)).countP isNameChar +
        (parts.flatMap Prod.snd).length := by
  induction parts with
  | nil => rfl
  | cons part rest ih =>
    have hrest := ih (fun other hother => h other (List.mem_cons_of_mem part hother))
    have htoken : part.2.countP isNameChar = part.2.length :=
      List.countP_eq_length.mpr (h part List.mem_cons_self)
    rw [partsText_cons, List.flatMap_cons, List.flatMap_cons, List.countP_append,
      List.countP_append, List.countP_append, List.length_append]
    omega

theorem filter_partsText
    (h : forall part, part ∈ parts -> forall c, c ∈ part.2 -> isNameChar c = true)
    (hgaps : forall part, part ∈ parts -> forall c, c ∈ triviaText part.1 -> isNameChar c = false) :
    (partsText parts).filter isNameChar = parts.flatMap Prod.snd := by
  induction parts with
  | nil => rfl
  | cons part rest ih =>
    have hrest := ih (fun other hother => h other (List.mem_cons_of_mem part hother))
      (fun other hother => hgaps other (List.mem_cons_of_mem part hother))
    have htoken : part.2.filter isNameChar = part.2 :=
      List.filter_eq_self.mpr (h part List.mem_cons_self)
    have hgap : (triviaText part.1).filter isNameChar = [] := by
      rw [List.filter_eq_nil_iff]
      intro c hc
      rw [hgaps part List.mem_cons_self c hc]
      decide
    rw [partsText_cons, List.flatMap_cons, List.filter_append, List.filter_append, htoken, hgap,
      hrest, List.nil_append]

theorem notMem_partsText {c : Char} (hname : isNameChar c = false)
    (h : forall part, part ∈ parts -> forall c, c ∈ part.2 -> isNameChar c = true)
    (hgaps : forall part, part ∈ parts -> c ∉ triviaText part.1) : c ∉ partsText parts := by
  intro hmem
  rcases List.mem_flatMap.mp hmem with ⟨part, hpart, hc⟩
  rcases List.mem_append.mp hc with hgap | htoken
  · exact hgaps part hpart hgap
  · rw [h part hpart c htoken] at hname
    cases hname

end Parts

namespace PackageDeclaration

variable {declaration : PackageDeclaration}

theorem takeWhile_body (h : declaration.NoEarlySemicolon) (rest : Text) :
    (declaration.body ++ rest).takeWhile (fun c => c != ';') =
      partsText declaration.parts ++
        (triviaText declaration.lastGap).takeWhile (fun c => c != ';') := by
  have hparts := notMem_partsText (by decide)
    (fun part hpart => @nameChars_of_mem_parts declaration part hpart) h
  have hstop : forall c tail, ';' :: rest = c :: tail -> (c != ';') = false := by
    intro c tail heq
    rw [← (List.cons.inj heq).1]
    rfl
  have hbody : declaration.body ++ rest =
      partsText declaration.parts ++ (triviaText declaration.lastGap ++ ';' :: rest) := by
    simp [body]
  rw [hbody, List.takeWhile_append_of_pos, takeWhile_append_stop hstop]
  intro c hc
  exact bne_iff_ne.mpr (fun heq => hparts (heq ▸ hc))

theorem readName_body_iff (h : declaration.NoEarlySemicolon) (rest : Text) :
    readName (declaration.body ++ rest) = some declaration.name <-> declaration.Quiet := by
  have hsemicolon : ';' ∈ declaration.body ++ rest := by
    simp [body]
  have htokens := fun part hpart => @nameChars_of_mem_parts declaration part hpart
  rw [readName_eq_some_iff hsemicolon declaration.name_ne_nil, takeWhile_body h,
    List.filter_append]
  constructor
  · intro heq
    have hlength := congrArg List.length heq
    rw [List.length_append, ← List.countP_eq_length_filter, ← List.countP_eq_length_filter,
      countP_partsText htokens] at hlength
    have hname : (declaration.parts.flatMap Prod.snd).length = declaration.name.length := rfl
    have hgaps : (declaration.parts.flatMap (fun part => triviaText part.1)).countP isNameChar =
      0 := by omega
    have hlast : ((triviaText declaration.lastGap).takeWhile (fun c => c != ';')).countP
      isNameChar = 0 := by omega
    rw [List.countP_eq_zero] at hgaps hlast
    refine ⟨h, ?_, fun c hc => Bool.eq_false_iff.mpr (hlast c hc)⟩
    intro part hpart c hc
    exact Bool.eq_false_iff.mpr (hgaps c (List.mem_flatMap.mpr ⟨part, hpart, hc⟩))
  · intro hquiet
    have hlast : ((triviaText declaration.lastGap).takeWhile (fun c => c != ';')).filter
        isNameChar = [] := by
      rw [List.filter_eq_nil_iff]
      intro c hc
      rw [hquiet.last c hc]
      decide
    rw [filter_partsText htokens hquiet.gaps, hlast, List.append_nil]
    rfl

theorem trivia_stops (t : Trivia) {X : Text} {c : Char} {rest : Text}
    (h : t.text ++ X = c :: rest) : isWordChar c = false := by
  cases t with
  | white d white =>
    have hd : d = c := (List.cons.inj h).1
    subst hd
    have hcases : d = ' ' ∨ d = '\t' ∨ d = Char.ofNat 0x0C ∨ d = '\n' ∨ d = '\r' := by
      simpa [isWhite, or_assoc] using white
    rcases hcases with rfl | rfl | rfl | rfl | rfl <;> decide
  | lineComment _ _ _ =>
    rw [← (List.cons.inj h).1]
    decide
  | blockComment _ _ =>
    rw [← (List.cons.inj h).1]
    decide

theorem firstWord_text (declaration : PackageDeclaration) (rest : Text) :
    firstWord (declaration.text ++ rest) = some (keyword, declaration.body ++ rest) := by
  have hstop : forall c tail, declaration.body ++ rest = c :: tail -> isWordChar c = false := by
    intro c tail heq
    cases hgap : declaration.gap with
    | nil => exact absurd hgap declaration.separated
    | cons t others =>
      rw [body, parts, partsText_cons, hgap, triviaText, List.flatMap_cons] at heq
      simp only [List.append_assoc] at heq
      exact trivia_stops t heq
  have hplain : Plain 'p' ("ackage".toList ++ (declaration.body ++ rest)) :=
    plain_of_isWordChar (by decide) _
  have hwhole : declaration.text ++ rest = keyword ++ (declaration.body ++ rest) := by
    rw [text, List.append_assoc]
  have hword := hplain.word (by decide)
  have htake := takeWhile_append_stop hstop keyword
  have hdrop := dropWhile_append_stop hstop keyword
  rw [hwhole]
  show firstWord ('p' :: ("ackage".toList ++ (declaration.body ++ rest))) = _
  rw [hword]
  show some ((keyword ++ (declaration.body ++ rest)).takeWhile isWordChar,
    (keyword ++ (declaration.body ++ rest)).dropWhile isWordChar) = _
  rw [htake, hdrop]
  rfl

end PackageDeclaration

/-!
# Compilation units
-/

def commentText (comment : Option Text) : Text :=
  match comment with
  | some body => '/' :: '/' :: body
  | none => []

/-- The keyword is no word outside of the package declaration.  A unit without a declaration may
end inside a line comment. -/
inductive CompilationUnit where
  | declared (leading : List Lexeme) (declaration : PackageDeclaration) (rest : Text)
      (spaced : WellSpaced leading (declaration.text ++ rest))
      (noKeyword : forall lexeme, lexeme ∈ leading -> lexeme.text ≠ keyword)
  | undeclared (lexemes : List Lexeme) (lastComment : Option Text)
      (oneLine : forall body, lastComment = some body -> OneLine body)
      (spaced : WellSpaced lexemes (commentText lastComment))
      (noKeyword : forall lexeme, lexeme ∈ lexemes -> lexeme.text ≠ keyword)

namespace CompilationUnit

def text : CompilationUnit -> Text
  | .declared leading declaration rest _ _ => lexemesText leading ++ (declaration.text ++ rest)
  | .undeclared lexemes lastComment _ _ _ => lexemesText lexemes ++ commentText lastComment

def package : CompilationUnit -> Option Text
  | .declared _ declaration _ _ _ => some declaration.name
  | .undeclared _ _ _ _ _ => none

def className (unit : CompilationUnit) (stem : Text) : Text :=
  match unit.package with
  | some name => name ++ '.' :: stem
  | none => stem

/-- The scanner finds the package, so that the class has its real name. -/
def ScannedRight (unit : CompilationUnit) : Prop :=
  scanPackage unit.text = unit.package ∧
    forall stem, fqcnForSource stem unit.text = unit.className stem

/-- Up to the package declaration no word is seen and nothing is swallowed in the end, and the
comments in it are quiet; or the first word that is seen is not the keyword. -/
def Fits : CompilationUnit -> Prop
  | .declared leading declaration _ _ _ =>
    look false leading = .through false ∧ declaration.Quiet
  | .undeclared lexemes _ _ _ _ =>
    look false lexemes ≠ .lost ∧
      forall run behind, look false lexemes = .word run behind -> run ≠ keyword

/-- The scanner does not come out inside a lexeme, and does not see the keyword elsewhere. -/
def Decided : CompilationUnit -> Prop
  | .declared leading declaration rest _ _ =>
    match look false leading with
    | .word run _ => run ≠ keyword
    | .through false => declaration.NoEarlySemicolon
    | .through true => ¬ keyword <:+: fromLineFeed (declaration.text ++ rest)
    | .lost => False
  | .undeclared lexemes lastComment _ _ _ =>
    match look false lexemes with
    | .word run behind =>
      run = keyword -> (readName (behind ++ commentText lastComment)).isSome
    | .through _ => True
    | .lost => False

theorem scannedRight_iff (unit : CompilationUnit) :
    unit.ScannedRight <-> scanPackage unit.text = unit.package := by
  refine ⟨fun h => h.1, fun h => ⟨h, ?_⟩⟩
  intro stem
  rw [fqcnForSource, h, className]
  cases unit with
  | undeclared => rfl
  | declared _ declaration _ _ _ => exact if_neg declaration.name_ne_nil

theorem scanPackage_of_firstWord {text run behind : Text}
    (h : firstWord text = some (run, behind)) :
    scanPackage text = if run = keyword then readName behind else none := by
  rw [scanPackage, h]

theorem scanPackage_of_none {text : Text} (h : firstWord text = none) :
    scanPackage text = none := by
  rw [scanPackage, h]

theorem keyword_infix_of_scanPackage {text name : Text} (h : scanPackage text = some name) :
    keyword <:+: text := by
  unfold scanPackage at h
  cases hfirst : firstWord text with
  | none =>
    rw [hfirst] at h
    cases h
  | some found =>
    rcases found with ⟨run, behind⟩
    simp only [hfirst] at h
    split at h
    · rename_i hrun
      have hsuffix := firstWord_suffix hfirst
      rw [hrun] at hsuffix
      exact (List.prefix_append keyword behind).isInfix.trans hsuffix.isInfix
    · cases h

theorem firstWord_lastComment {lastComment : Option Text}
    (oneLine : forall body, lastComment = some body -> OneLine body) (swallowing : Bool) :
    firstWord (onward swallowing (commentText lastComment)) = none := by
  cases lastComment with
  | none => cases swallowing <;> exact firstWord_nil
  | some body =>
    have hbody := (oneLine body rfl).1
    have hnil : fromLineFeed body = [] := by
      have happend := fromLineFeed_append hbody []
      rwa [List.append_nil] at happend
    cases swallowing with
    | false =>
      show firstWord ('/' :: '/' :: body) = none
      rw [firstWord_lineComment, hnil, firstWord_nil]
    | true =>
      have hcomment : fromLineFeed ('/' :: '/' :: body) = fromLineFeed body := rfl
      show firstWord (fromLineFeed ('/' :: '/' :: body)) = none
      rw [hcomment, hnil, firstWord_nil]

section Declared

variable {leading : List Lexeme} {declaration : PackageDeclaration} {rest : Text}
variable (spaced : WellSpaced leading (declaration.text ++ rest))
variable (noKeyword : forall lexeme, lexeme ∈ leading -> lexeme.text ≠ keyword)

include spaced

theorem scanPackage_declared (h : look false leading = .through false) :
    scanPackage (lexemesText leading ++ (declaration.text ++ rest)) =
      readName (declaration.body ++ rest) := by
  have hanswer := look_answers spaced false
  rw [h] at hanswer
  have hfirst : firstWord (lexemesText leading ++ (declaration.text ++ rest)) =
      some (keyword, declaration.body ++ rest) :=
    hanswer.trans (declaration.firstWord_text rest)
  rw [scanPackage_of_firstWord hfirst, if_pos rfl]

/-- Where the first word is another one or the keyword is swallowed, no name is found. -/
theorem scanPackage_hidden
    (h : (exists run behind, look false leading = .word run behind ∧ run ≠ keyword) ∨
      look false leading = .through true ∧
        ¬ keyword <:+: fromLineFeed (declaration.text ++ rest)) :
    scanPackage (lexemesText leading ++ (declaration.text ++ rest)) = none := by
  rcases h with ⟨run, behind, hlook, hrun⟩ | ⟨hlook, hkeyword⟩
  · rw [scanPackage_of_firstWord (firstWord_of_look spaced hlook), if_neg hrun]
  · have hanswer := look_answers spaced false
    rw [hlook] at hanswer
    have hfirst : firstWord (lexemesText leading ++ (declaration.text ++ rest)) =
        firstWord (fromLineFeed (declaration.text ++ rest)) := hanswer
    have hsame : scanPackage (lexemesText leading ++ (declaration.text ++ rest)) =
        scanPackage (fromLineFeed (declaration.text ++ rest)) := by
      rw [scanPackage, scanPackage, hfirst]
    rw [hsame]
    cases hscan : scanPackage (fromLineFeed (declaration.text ++ rest)) with
    | none => rfl
    | some name => exact absurd (keyword_infix_of_scanPackage hscan) hkeyword

theorem declared_of_fits (h : (declared leading declaration rest spaced noKeyword).Fits) :
    (declared leading declaration rest spaced noKeyword).ScannedRight := by
  rw [scannedRight_iff]
  show scanPackage (lexemesText leading ++ (declaration.text ++ rest)) = some declaration.name
  rw [scanPackage_declared spaced h.1,
    PackageDeclaration.readName_body_iff h.2.noSemicolon rest]
  exact h.2

theorem fits_of_declared (hdecided : (declared leading declaration rest spaced noKeyword).Decided)
    (h : (declared leading declaration rest spaced noKeyword).ScannedRight) :
    (declared leading declaration rest spaced noKeyword).Fits := by
  rw [scannedRight_iff] at h
  have hscan : scanPackage (lexemesText leading ++ (declaration.text ++ rest)) =
      some declaration.name := h
  unfold Decided at hdecided
  dsimp only at hdecided
  cases hlook : look false leading with
  | word run behind =>
    rw [hlook] at hdecided
    rw [scanPackage_hidden spaced (Or.inl ⟨run, behind, hlook, hdecided⟩)] at hscan
    cases hscan
  | through swallowing =>
    rw [hlook] at hdecided
    cases swallowing with
    | true =>
      rw [scanPackage_hidden spaced (Or.inr ⟨hlook, hdecided⟩)] at hscan
      cases hscan
    | false =>
      rw [scanPackage_declared spaced hlook,
        PackageDeclaration.readName_body_iff hdecided rest] at hscan
      exact ⟨hlook, hscan⟩
  | lost =>
    rw [hlook] at hdecided
    exact hdecided.elim

end Declared

section Undeclared

variable {lexemes : List Lexeme} {lastComment : Option Text}
variable (oneLine : forall body, lastComment = some body -> OneLine body)
variable (spaced : WellSpaced lexemes (commentText lastComment))
variable (noKeyword : forall lexeme, lexeme ∈ lexemes -> lexeme.text ≠ keyword)

include spaced

theorem undeclared_of_fits
    (h : (undeclared lexemes lastComment oneLine spaced noKeyword).Fits) :
    (undeclared lexemes lastComment oneLine spaced noKeyword).ScannedRight := by
  rw [scannedRight_iff]
  show scanPackage (lexemesText lexemes ++ commentText lastComment) = none
  cases hlook : look false lexemes with
  | word run behind =>
    rw [scanPackage_of_firstWord (firstWord_of_look spaced hlook),
      if_neg (h.2 run behind hlook)]
  | through swallowing =>
    have hanswer := look_answers spaced false
    rw [hlook] at hanswer
    exact scanPackage_of_none (hanswer.trans (firstWord_lastComment oneLine swallowing))
  | lost => exact absurd hlook h.1

theorem fits_of_undeclared
    (hdecided : (undeclared lexemes lastComment oneLine spaced noKeyword).Decided)
    (h : (undeclared lexemes lastComment oneLine spaced noKeyword).ScannedRight) :
    (undeclared lexemes lastComment oneLine spaced noKeyword).Fits := by
  rw [scannedRight_iff] at h
  have hscan : scanPackage (lexemesText lexemes ++ commentText lastComment) = none := h
  unfold Decided at hdecided
  dsimp only at hdecided
  constructor
  · intro hlost
    rw [hlost] at hdecided
    exact hdecided
  · intro run behind hlook hrun
    rw [hlook] at hdecided
    have hsome := hdecided hrun
    rw [scanPackage_of_firstWord (firstWord_of_look spaced hlook), if_pos hrun] at hscan
    rw [hscan] at hsome
    cases hsome

end Undeclared

end CompilationUnit

/-- The package is found where nothing hides it and the comments in its declaration are quiet,
and only there unless the scanner is right by accident. -/
theorem scan_package_finds_package (unit : CompilationUnit) :
    (unit.Fits -> unit.ScannedRight) ∧ (unit.Decided -> (unit.ScannedRight <-> unit.Fits)) := by
  cases unit with
  | declared leading declaration rest spaced noKeyword =>
    have hfits := CompilationUnit.declared_of_fits spaced noKeyword
    exact ⟨hfits, fun hdecided =>
      ⟨CompilationUnit.fits_of_declared spaced noKeyword hdecided, hfits⟩⟩
  | undeclared lexemes lastComment oneLine spaced noKeyword =>
    have hfits := CompilationUnit.undeclared_of_fits oneLine spaced noKeyword
    exact ⟨hfits, fun hdecided =>
      ⟨CompilationUnit.fits_of_undeclared oneLine spaced noKeyword hdecided, hfits⟩⟩

namespace Demo

def blank : Trivia :=
  .white ' ' rfl

theorem identifiers : forall identifier, identifier ∈ ["demo".toList, "app".toList] ->
    identifier ≠ [] ∧ forall c, c ∈ identifier -> isWordChar c = true := by
  intro identifier hidentifier
  rcases List.mem_pair.mp hidentifier with rfl | rfl
  · exact ⟨by decide, forall_mem_of_all (by decide)⟩
  · exact ⟨by decide, forall_mem_of_all (by decide)⟩

/-- `package demo.app;` with these gaps between its first tokens. -/
def declaration (beforeName beforeDot : List Trivia) : PackageDeclaration where
  gap := blank :: beforeName
  separated := List.cons_ne_nil _ _
  first := "demo".toList
  others := [(beforeDot, [], "app".toList)]
  lastGap := [blank]
  identifiers := Demo.identifiers

def rest : Text :=
  "class Main {}".toList

def unit (leading : List Trivia) (beforeName beforeDot : List Trivia) : CompilationUnit :=
  .declared (leading.map Lexeme.trivia) (declaration beforeName beforeDot) rest
    (by
      induction leading with
      | nil => exact True.intro
      | cons t others ih => exact ⟨True.intro, ih⟩)
    (by
      intro lexeme hlexeme
      rcases List.mem_map.mp hlexeme with ⟨t, _, rfl⟩
      cases t with
      | white c white =>
        intro heq
        have hlength : 1 = 7 := congrArg List.length heq
        cases hlength
      | lineComment body lineEnd oneLine =>
        intro heq
        exact absurd (List.cons.inj heq).1 (by decide)
      | blockComment body closed =>
        intro heq
        exact absurd (List.cons.inj heq).1 (by decide))

def wrongLine (lineEnd : LineEnd) : Trivia :=
  .lineComment " package wrong.one;".toList lineEnd (by decide)

/-- Comments before the keyword, and dashes in a comment between the tokens. -/
def quiet : CompilationUnit :=
  unit [wrongLine .crlf, .blockComment "'package\" wrong;".toList (by decide +kernel)]
    [.blockComment " -- ".toList (by decide +kernel)] [blank]

/-- `package /* the */ demo.app ;` -/
def commented : CompilationUnit :=
  unit [] [.blockComment " the ".toList (by decide +kernel), blank] []

def swallowed : CompilationUnit :=
  unit [wrongLine .cr] [] []

theorem quiet_package_is_found : quiet.ScannedRight := by
  apply (scan_package_finds_package quiet).1
  refine ⟨by decide +kernel, ?_, ?_, ?_⟩
  · show forall part, part ∈ (declaration _ _).parts -> ';' ∉ triviaText part.1
    decide +kernel
  · show forall part, part ∈ (declaration _ _).parts ->
      forall c, c ∈ triviaText part.1 -> isNameChar c = false
    intro part hpart
    have hall : (triviaText part.1).all (fun c => decide (isNameChar c = false)) = true := by
      revert hpart
      revert part
      exact forall_mem_of_all (by decide +kernel)
    exact forall_mem_of_all hall
  · show forall c, c ∈ (triviaText [blank]).takeWhile (fun c => c != ';') -> isNameChar c = false
    exact forall_mem_of_all (by decide)

/-- The comment is read into the name, and the package behind the carriage return is missed. -/
theorem package_is_misread :
    commented.package = some "demo.app".toList ∧
      scanPackage commented.text = some "thedemo.app".toList ∧
      swallowed.package = some "demo.app".toList ∧ scanPackage swallowed.text = none := by
  decide +kernel

end Demo

end Debug
end JavaVsixLite
