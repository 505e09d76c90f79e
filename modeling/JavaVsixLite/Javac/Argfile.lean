import JavaVsixLite.Foundation.ByteText
import JavaVsixLite.Foundation.QuotedTokens

/-!
# Argument files of the compiler

The check and the debug launcher hand their source files to `javac` in an
argument file, one quoted path on each line.  Paths are the texts they are
displayed as.  The compiler's reading of such a file is assumed to be the one of
`Lexicon.tokens`.
-/

namespace JavaVsixLite

open Foundation

namespace Javac

/-- The grammar of an argument file. -/
def argfileGrammar : Lexicon Char where
  blank := fun c => c == ' ' || c == '\t' || c == Char.ofNat 12
  lineBreak := fun c => c == '\n' || c == '\r'
  quote := '"'
  escape := '\\'
  quote_ne_escape := by decide
  quote_plain := by decide
  quote_solid := by decide
  escape_plain := by decide

def replace (pattern : Char) (replacement text : Text) : Text :=
  text.flatMap (fun c => if c = pattern then replacement else [c])

def escaped (path : Text) : Text :=
  replace '"' ['\\', '"'] (replace '\\' ['\\', '\\'] path)

/-- One turn of the loop: the path between quotes, on a line of its own. -/
def pushQuoted (content path : Text) : Text :=
  content ++ '"' :: (escaped path ++ ['"', '\n'])

/-- The content of the file the check writes. -/
def writeArgfile (files : List Text) : Text :=
  files.foldl pushQuoted []

end Javac

namespace Launch

/-- The content of the file the debug launcher writes. -/
def writeArgfile (files : List Text) : Text :=
  files.foldl Javac.pushQuoted []

end Launch

namespace Javac

/-!
# The file is read back
-/

theorem escaped_eq_flatMap (path : Text) :
    escaped path = path.flatMap argfileGrammar.escapeSymbol := by
  unfold escaped replace
  rw [List.flatMap_assoc]
  congr 1
  funext c
  by_cases hescape : c = '\\'
  · subst hescape
    decide
  · by_cases hquote : c = '"'
    · subst hquote
      decide
    · simp [hescape, hquote, Lexicon.escapeSymbol, argfileGrammar]

theorem foldl_pushQuoted (files : List Text) (content : Text) :
    files.foldl pushQuoted content = content ++ argfileGrammar.quoteLines '\n' files := by
  induction files generalizing content with
  | nil => simp [Lexicon.quoteLines]
  | cons path rest ih =>
    rw [List.foldl_cons, ih]
    simp [pushQuoted, escaped_eq_flatMap, Lexicon.quoteLines, Lexicon.quoteToken,
      argfileGrammar]

theorem oneLine_iff (path : Text) :
    argfileGrammar.OneLine path <-> '\n' ∉ path ∧ '\r' ∉ path := by
  constructor
  · intro h
    constructor
    · intro hmem
      have hline := h '\n' hmem
      revert hline
      decide
    · intro hmem
      have hline := h '\r' hmem
      revert hline
      decide
  · rintro ⟨hnewline, hreturn⟩ c hc
    have hne : c ≠ '\n' ∧ c ≠ '\r' := by
      constructor
      · rintro rfl
        exact hnewline hc
      · rintro rfl
        exact hreturn hc
    simp [argfileGrammar, hne.1, hne.2]

theorem tokens_foldl_iff (files : List Text) :
    argfileGrammar.tokens (files.foldl pushQuoted []) = files <->
      forall path, path ∈ files -> '\n' ∉ path ∧ '\r' ∉ path := by
  rw [foldl_pushQuoted, List.nil_append, Lexicon.tokens_quoteLines_iff _ (by decide)]
  constructor
  · intro h path hpath
    exact (oneLine_iff path).mp (h path hpath)
  · intro h path hpath
    exact (oneLine_iff path).mpr (h path hpath)

/--
The compiler reads exactly the given paths from either file when, and only when,
no path holds a line feed or a carriage return.
-/
theorem argfile_read_back_iff (files : List Text) :
    (argfileGrammar.tokens (writeArgfile files) = files <->
        forall path, path ∈ files -> '\n' ∉ path ∧ '\r' ∉ path) ∧
      (argfileGrammar.tokens (Launch.writeArgfile files) = files <->
        forall path, path ∈ files -> '\n' ∉ path ∧ '\r' ∉ path) :=
  ⟨tokens_foldl_iff files, tokens_foldl_iff files⟩

/-- A file name of three lines gives the compiler an option. -/
theorem argfile_line_break_adds_option :
    argfileGrammar.tokens
        (writeArgfile ["src/a\n-processor\nEvil.java".toList]) =
      ["src/a".toList, "-processor".toList, "Evil.java".toList] ∧
    argfileGrammar.tokens
        (Launch.writeArgfile ["src/a\n-processor\nEvil.java".toList]) =
      ["src/a".toList, "-processor".toList, "Evil.java".toList] ∧
    ["src/a".toList, "-processor".toList, "Evil.java".toList] ≠
      ["src/a\n-processor\nEvil.java".toList] := by
  decide

end Javac
end JavaVsixLite
