import Mathlib.Data.Char
import Mathlib.Data.List.Lex
import JavaVsixLite.Documents.Edits
import JavaVsixLite.Documents.RoundTrip
import JavaVsixLite.Classpath.Pom
import JavaVsixLite.Foundation.JoinedLists
import JavaVsixLite.Foundation.SortedDedup
import JavaVsixLite.Refactor.WordSearch

/-!
# Organizing imports

The import block is written anew: of equal imports one stays, a single import stays only if
its simple name stands in the rest of the file, and the static ones come first.  The new
block is read as the imports that stay, so organizing it again changes nothing.
-/

namespace JavaVsixLite
namespace Refactor

open Classpath (isWhitespace trim trimStart)
open Documents (PositionEncoding LineIndex Range)
open Foundation

/-!
# Import declarations
-/

structure ImportDecl where
  isStatic : Bool
  path : Text
  start : Nat
  stop : Nat
deriving DecidableEq

/-- The organized form. -/
def ImportDecl.line (d : ImportDecl) : Text :=
  if d.isStatic then "import static ".toList ++ (d.path ++ [';'])
  else "import ".toList ++ (d.path ++ [';'])

/-- `str::strip_prefix` -/
def stripPrefix (start text : Text) : Option Text :=
  if start <+: text then some (text.drop start.length) else none

/-- `str::trim_end_matches` -/
def trimEndMatches (p : Char -> Bool) (text : Text) : Text :=
  (text.reverse.dropWhile p).reverse

/-- `parse_import` -/
def parseImport (text : Text) (start stop : Nat) : Option ImportDecl :=
  (stripPrefix "import".toList (trim text)).bind (fun behind =>
    let rest := trimStart behind
    let isStatic := (stripPrefix "static".toList rest).any
      (fun r => r.head?.any isWhitespace)
    let rest := if isStatic then trimStart (rest.drop "static".toList.length) else rest
    let path := (words isWhitespace
      (trimEndMatches (fun c => c == ';') (trimEndMatches isWhitespace rest))).flatten
    if path = [] then none
    else some { isStatic := isStatic, path := path, start := start, stop := stop })

def nodeText (node : Nat × Nat) (source : Text) : Text :=
  (Text.slice? source node.1 node.2).getD []

/-- The import declarations among the nodes; one that cannot be read ends it. -/
def importDecls (nodes : List (Nat × Nat)) (source : Text) : Option (List ImportDecl) :=
  nodes.mapM (fun node => parseImport (nodeText node source) node.1 node.2)

/-- Only white space between the imports; `none` where a slice panics. -/
def onlyWhite (source : Text) : Nat -> List ImportDecl -> Option Bool
  | _, [] => some true
  | cursor, d :: rest =>
    (Text.slice? source cursor d.start).bind (fun gap =>
      if gap.any (fun c => !isWhitespace c) then some false else onlyWhite source d.stop rest)

/-- `path.rsplit('.').next()` -/
def simpleName (path : Text) : Text :=
  (path.reverse.takeWhile (fun c => c != '.')).reverse

def ImportDecl.key (d : ImportDecl) : Bool × Text :=
  (d.isStatic, d.path)

/-- The loop that collects what stays; `none` where the word search panics. -/
def keptFrom (outside : Text) : List (Bool × Text) -> List ImportDecl -> Option (List ImportDecl)
  | _, [] => some []
  | seen, d :: rest =>
    if d.key ∈ seen then keptFrom outside seen rest
    else if ['.', '*'] <:+ d.path then
      (keptFrom outside (d.key :: seen) rest).map (fun kept => d :: kept)
    else
      (searchWord outside (simpleName d.path)).bind (fun used =>
        (keptFrom outside (d.key :: seen) rest).map
          (fun kept => if used then d :: kept else kept))

/-- `Vec<String>::sort` -/
def sortLines (lines : List Text) : List Text :=
  sortByKey (fun line => line) lines

def organizedText (kept : List ImportDecl) : Text :=
  let statics := sortLines ((kept.filter (fun d => d.isStatic)).map ImportDecl.line)
  let plain := sortLines ((kept.filter (fun d => !d.isStatic)).map ImportDecl.line)
  let blocks :=
    (if statics = [] then [] else [['\n'].intercalate statics]) ++
      (if plain = [] then [] else [['\n'].intercalate plain])
  ['\n', '\n'].intercalate blocks

structure TextEdit where
  range : Range
  newText : Text

/--
`organize_imports_edit` on the import nodes of a document; the outer `none` stands for a
panic of a slice.
-/
def organizeImportsEdit (nodes : List (Nat × Nat)) (source : Text) (index : LineIndex) :
    Option (Option TextEdit) :=
  match importDecls nodes source with
  | none => some none
  | some [] => some none
  | some (first :: others) =>
    let regionStart := first.start
    let regionEnd := ((first :: others).getLast (List.cons_ne_nil first others)).stop
    (onlyWhite source regionStart (first :: others)).bind (fun white =>
      if !white then some none
      else
        (Text.takeBytes? regionStart source).bind (fun before =>
          (Text.dropBytes? regionEnd source).bind (fun after =>
            (keptFrom (before ++ after) [] (first :: others)).bind (fun kept =>
              (Text.slice? source regionStart regionEnd).bind (fun region =>
                if organizedText kept = region then some none
                else
                  (index.position regionStart).bind (fun start =>
                    (index.position regionEnd).map (fun stop =>
                      some
                        { range := { start := start, stop := stop }
                          newText := organizedText kept })))))))

/-!
# Compilation units
-/

/-- An ASCII identifier. -/
structure Name where
  text : Text
  nonempty : text ≠ []
  ident : forall c, c ∈ text -> isIdent c = true
  notKeyword : text ≠ "static".toList

structure Gap where
  text : Text
  white : forall c, c ∈ text -> isWhitespace c = true

/-- An import declaration as it is written, with the white space between its tokens. -/
structure WrittenImport where
  behindImport : Gap
  apart : behindImport.text ≠ []
  behindStatic : Option {gap : Gap // gap.text ≠ []}
  first : Name
  others : List (Gap × Gap × Name)
  wildcard : Option (Gap × Gap)
  beforeSemicolon : Gap

namespace WrittenImport

def isStatic (i : WrittenImport) : Bool :=
  i.behindStatic.isSome

def nameText (i : WrittenImport) : Text :=
  i.first.text ++
    (i.others.flatMap (fun other => other.1.text ++ ('.' :: (other.2.1.text ++ other.2.2.text))) ++
      ((i.wildcard.map (fun gaps => gaps.1.text ++ ('.' :: (gaps.2.text ++ ['*'])))).getD []))

def print (i : WrittenImport) : Text :=
  "import".toList ++ (i.behindImport.text ++
    (((i.behindStatic.map (fun gap => "static".toList ++ gap.val.text)).getD []) ++
      (i.nameText ++ (i.beforeSemicolon.text ++ [';']))))

/-- The name without white space. -/
def path (i : WrittenImport) : Text :=
  i.first.text ++ (i.others.flatMap (fun other => '.' :: other.2.2.text) ++
    (if i.wildcard.isSome then ['.', '*'] else []))

def simple (i : WrittenImport) : Name :=
  ((i.others.map (fun other => other.2.2)).getLast?).getD i.first

def key (i : WrittenImport) : Bool × Text :=
  (i.isStatic, i.path)

end WrittenImport

def lineOf (key : Bool × Text) : Text :=
  if key.1 then "import static ".toList ++ (key.2 ++ [';'])
  else "import ".toList ++ (key.2 ++ [';'])

/-- The import is written as its line. -/
def WrittenImport.Tidy (i : WrittenImport) : Prop :=
  i.print = lineOf i.key

abbrev Block := List (Text × WrittenImport)

def printBlock (block : Block) : Text :=
  block.flatMap (fun entry => entry.1 ++ entry.2.print)

def nodesFrom : Nat -> Block -> List (Nat × Nat)
  | _, [] => []
  | start, (gap, i) :: rest =>
    let first := start + Text.byteLen gap
    let behind := first + Text.byteLen i.print
    (first, behind) :: nodesFrom behind rest

/-- Some of these imports, written as lines in any order. -/
structure Rewritten (imports : List WrittenImport) (block : Block) : Prop where
  lines : forall entry, entry ∈ block -> forall c, c ∈ entry.1 -> c = '\n'
  tidy : forall entry, entry ∈ block -> entry.2.Tidy
  own : forall entry, entry ∈ block -> exists i, i ∈ imports ∧ i.key = entry.2.key

/--
A document with imports, as the parser reads it.  The parser counts bytes in 32 bits; some of
the imports, written as lines, are read in the place of those that are there.
-/
structure CompilationUnit (parse : Text -> List (Nat × Nat)) where
  before : Text
  first : WrittenImport
  others : Block
  after : Text
  apart : Boundary before.getLast?
  addressable : Text.byteLen (before ++ (printBlock (([], first) :: others) ++ after)) < 4294967296
  parsed : parse (before ++ (printBlock (([], first) :: others) ++ after)) =
    nodesFrom (Text.byteLen before) (([], first) :: others)
  replaced : forall block : Block,
    Rewritten (first :: others.map Prod.snd) block ->
      Text.byteLen (before ++ (printBlock block ++ after)) < 4294967296 ->
        parse (before ++ (printBlock block ++ after)) = nodesFrom (Text.byteLen before) block

/-!
# Reading a written import
-/

theorem isWhitespace_of_isIdent {c : Char} (h : isIdent c = true) : isWhitespace c = false := by
  have hcode := isIdent_iff.mp h
  have hval : c.val.toNat = c.toNat := rfl
  rw [Bool.eq_false_iff]
  intro hwhite
  simp only [isWhitespace, Bool.or_eq_true, Bool.and_eq_true, decide_eq_true_eq, beq_iff_eq,
    UInt32.le_iff_toNat_le, ← UInt32.toNat_inj, UInt32.reduceToNat, hval] at hwhite
  omega

theorem filter_name (name : Name) : name.text.filter (fun c => !isWhitespace c) = name.text := by
  apply List.filter_eq_self.mpr
  intro c hc
  rw [isWhitespace_of_isIdent (name.ident c hc)]
  rfl

theorem filter_gap (gap : Gap) : gap.text.filter (fun c => !isWhitespace c) = [] := by
  apply List.filter_eq_nil_iff.mpr
  intro c hc
  rw [gap.white c hc]
  simp

theorem filter_others (others : List (Gap × Gap × Name)) :
    (others.flatMap (fun other => other.1.text ++
      ('.' :: (other.2.1.text ++ other.2.2.text)))).filter
        (fun c => !isWhitespace c) =
      others.flatMap (fun other => '.' :: other.2.2.text) := by
  have hdot : isWhitespace '.' = false := by decide
  induction others with
  | nil => rfl
  | cons other rest ih =>
    rw [List.flatMap_cons, List.flatMap_cons, List.filter_append, ih, List.filter_append,
      filter_gap, List.filter_cons_of_pos (by simp [hdot]), List.filter_append, filter_gap,
      filter_name]
    rfl

theorem filter_nameText (i : WrittenImport) :
    (i.nameText ++ i.beforeSemicolon.text).filter (fun c => !isWhitespace c) = i.path := by
  have hdot : isWhitespace '.' = false := by decide
  have hstar : isWhitespace '*' = false := by decide
  have hwildcard : (((i.wildcard.map
      (fun gaps => gaps.1.text ++ ('.' :: (gaps.2.text ++ ['*'])))).getD [])).filter
        (fun c => !isWhitespace c) = if i.wildcard.isSome then ['.', '*'] else [] := by
    cases i.wildcard with
    | none => rfl
    | some gaps =>
      simp only [Option.map_some, Option.getD_some, Option.isSome_some, if_true,
        List.filter_append, filter_gap, List.nil_append]
      rw [List.filter_cons_of_pos (by simp [hdot]), List.filter_append, filter_gap,
        List.filter_cons_of_pos (by simp [hstar])]
      rfl
  rw [List.filter_append, filter_gap, List.append_nil, WrittenImport.nameText, List.filter_append,
    List.filter_append, filter_name, filter_others, hwildcard]
  rfl

theorem isIdent_of_isWhitespace {c : Char} (h : isWhitespace c = true) : isIdent c = false := by
  rw [Bool.eq_false_iff]
  intro hident
  rw [isWhitespace_of_isIdent hident] at h
  cases h

theorem trimEndMatches_concat {p : Char -> Bool} {c : Char} (hc : p c = false) (text : Text) :
    trimEndMatches p (text ++ [c]) = text ++ [c] := by
  rw [trimEndMatches, List.reverse_append, List.reverse_singleton, List.singleton_append,
    List.dropWhile_cons_of_neg (by simp [hc]), List.reverse_cons, List.reverse_reverse]

theorem trimEndMatches_semicolon {text : Text} (h : ';' ∉ text) :
    trimEndMatches (fun c => c == ';') (text ++ [';']) = text := by
  have hstays : text.reverse.dropWhile (fun c => c == ';') = text.reverse := by
    cases hback : text.reverse with
    | nil => rfl
    | cons d rest =>
      have hd : d ∈ text := by
        rw [← List.mem_reverse, hback]
        exact List.mem_cons_self
      have hne : ¬ (d == ';') = true := by
        intro heq
        rw [eq_of_beq heq] at hd
        exact h hd
      exact List.dropWhile_cons_of_neg hne
  rw [trimEndMatches, List.reverse_append, List.reverse_singleton, List.singleton_append,
    List.dropWhile_cons_of_pos (by simp), hstays, List.reverse_reverse]

theorem stripPrefix_append (start rest : Text) : stripPrefix start (start ++ rest) = some rest := by
  rw [stripPrefix, if_pos (List.prefix_append start rest), List.drop_left]

theorem eq_of_stripPrefix {start text rest : Text} (h : stripPrefix start text = some rest) :
    text = start ++ rest := by
  rw [stripPrefix] at h
  split at h
  · rename_i hstart
    rcases hstart with ⟨behind, rfl⟩
    rw [List.drop_left] at h
    rw [Option.some.inj h]
  · cases h

theorem trimStart_gap (gap : Gap) {text : Text}
    (h : forall c, text.head? = some c -> isWhitespace c = false) :
    trimStart (gap.text ++ text) = text := by
  rw [trimStart, List.dropWhile_append_of_pos gap.white]
  cases text with
  | nil => rfl
  | cons c rest => exact List.dropWhile_cons_of_neg (by simp [h c rfl])

theorem head_name (name : Name) (rest : Text) {c : Char}
    (h : (name.text ++ rest).head? = some c) : isIdent c = true := by
  cases htext : name.text with
  | nil => exact absurd htext name.nonempty
  | cons d tail =>
    rw [htext] at h
    cases h
    apply name.ident
    rw [htext]
    exact List.mem_cons_self

theorem head_gap (gap : Gap) {d : Char} (hd : isIdent d = false) (rest : Text) {c : Char}
    (h : (gap.text ++ (d :: rest)).head? = some c) : isIdent c = false := by
  cases htext : gap.text with
  | nil =>
    rw [htext] at h
    cases h
    exact hd
  | cons e tail =>
    rw [htext] at h
    cases h
    apply isIdent_of_isWhitespace
    apply gap.white
    rw [htext]
    exact List.mem_cons_self

namespace WrittenImport

def tail (i : WrittenImport) : Text :=
  i.nameText ++ (i.beforeSemicolon.text ++ [';'])

def behindFirst (i : WrittenImport) : Text :=
  i.others.flatMap (fun other => other.1.text ++ ('.' :: (other.2.1.text ++ other.2.2.text))) ++
    (((i.wildcard.map (fun gaps => gaps.1.text ++ ('.' :: (gaps.2.text ++ ['*'])))).getD []) ++
      (i.beforeSemicolon.text ++ [';']))

theorem tail_eq (i : WrittenImport) : i.tail = i.first.text ++ i.behindFirst := by
  simp only [tail, nameText, behindFirst, List.append_assoc]

theorem head_behindFirst (i : WrittenImport) {c : Char} (h : i.behindFirst.head? = some c) :
    isIdent c = false := by
  have hdot : isIdent '.' = false := by decide
  have hsemicolon : isIdent ';' = false := by decide
  unfold behindFirst at h
  cases hothers : i.others with
  | nil =>
    rw [hothers] at h
    cases hwildcard : i.wildcard with
    | none =>
      rw [hwildcard] at h
      exact head_gap i.beforeSemicolon hsemicolon [] h
    | some gaps =>
      rw [hwildcard] at h
      simp only [Option.map_some, Option.getD_some, List.flatMap_nil, List.nil_append,
        List.append_assoc] at h
      exact head_gap gaps.1 hdot _ h
  | cons other rest =>
    rw [hothers] at h
    simp only [List.flatMap_cons, List.append_assoc] at h
    exact head_gap other.1 hdot _ h

theorem head_tail (i : WrittenImport) {c : Char} (h : i.tail.head? = some c) :
    isWhitespace c = false := by
  rw [tail_eq] at h
  exact isWhitespace_of_isIdent (head_name i.first _ h)

theorem tail_not_static (i : WrittenImport) :
    (stripPrefix "static".toList i.tail).any (fun r => r.head?.any isWhitespace) = false := by
  rw [Bool.eq_false_iff]
  intro hany
  rcases (Option.any_eq_true _ _).mp hany with ⟨rest, hrest, hwhite⟩
  rcases (Option.any_eq_true _ _).mp hwhite with ⟨c, hc, hspace⟩
  have htail := eq_of_stripPrefix hrest
  have hident : forall text behind : Text, (forall d, d ∈ text -> isIdent d = true) ->
      (forall d, behind.head? = some d -> isIdent d = false) ->
        (text ++ behind).takeWhile isIdent = text := by
    intro text behind htext hbehind
    rw [List.takeWhile_append_of_pos htext]
    cases behind with
    | nil => rw [List.takeWhile_nil, List.append_nil]
    | cons d others =>
      rw [List.takeWhile_cons_of_neg (by simp [hbehind d rfl]), List.append_nil]
  have hfirst := hident i.first.text i.behindFirst i.first.ident
    (fun d hd => i.head_behindFirst hd)
  have hstatic := hident "static".toList rest (forall_mem_of_all (by decide)) (by
    intro d hd
    rw [hd] at hc
    cases hc
    exact isIdent_of_isWhitespace hspace)
  rw [← tail_eq, htail, hstatic] at hfirst
  exact i.first.notKeyword hfirst.symm

theorem mem_path {i : WrittenImport} {c : Char} (h : c ∈ i.path) :
    isIdent c = true ∨ c = '.' ∨ (c = '*' ∧ i.wildcard.isSome = true) := by
  rcases List.mem_append.mp h with hfirst | hrest
  · exact .inl (i.first.ident c hfirst)
  · rcases List.mem_append.mp hrest with hothers | hwildcard
    · rcases List.mem_flatMap.mp hothers with ⟨other, _, hother⟩
      rcases List.mem_cons.mp hother with hdot | hname
      · exact .inr (.inl hdot)
      · exact .inl (other.2.2.ident c hname)
    · split at hwildcard
      · rename_i hsome
        rcases List.mem_cons.mp hwildcard with hdot | hstar
        · exact .inr (.inl hdot)
        · exact .inr (.inr ⟨List.mem_singleton.mp hstar, hsome⟩)
      · exact absurd hwildcard List.not_mem_nil

theorem semicolon_notMem (i : WrittenImport) : ';' ∉ i.nameText ++ i.beforeSemicolon.text := by
  intro hmem
  have hspace : isWhitespace ';' = false := by decide
  have hkept : ';' ∈ (i.nameText ++ i.beforeSemicolon.text).filter (fun c => !isWhitespace c) :=
    List.mem_filter.mpr ⟨hmem, by rw [hspace]; rfl⟩
  rw [filter_nameText] at hkept
  rcases mem_path hkept with hident | hdot | hstar
  · exact absurd hident (by decide)
  · exact absurd hdot (by decide)
  · exact absurd hstar.left (by decide)

theorem path_ne_nil (i : WrittenImport) : i.path ≠ [] := by
  intro hnil
  exact i.first.nonempty (List.append_eq_nil_iff.mp hnil).left

theorem pathOf_tail (i : WrittenImport) :
    (words isWhitespace (trimEndMatches (fun c => c == ';')
      (trimEndMatches isWhitespace i.tail))).flatten = i.path := by
  have htail : i.tail = i.nameText ++ i.beforeSemicolon.text ++ [';'] :=
    (List.append_assoc _ _ _).symm
  rw [htail, trimEndMatches_concat (by decide), trimEndMatches_semicolon i.semicolon_notMem,
    flatten_words, filter_nameText]

/-- The keyword `static` and the white space behind it. -/
def staticText (i : WrittenImport) : Text :=
  (i.behindStatic.map (fun gap => "static".toList ++ gap.val.text)).getD []

theorem trim_print (i : WrittenImport) : trim i.print = i.print := by
  have hfirst : i.print.head? = some 'i' := rfl
  have hlast : i.print.getLast? = some ';' := by
    have hprint : i.print = "import".toList ++ (i.behindImport.text ++
        (i.staticText ++ (i.nameText ++ i.beforeSemicolon.text))) ++ [';'] := by
      simp only [print, staticText, List.append_assoc]
    rw [hprint, List.getLast?_concat]
  exact dropWhile_ends_eq_self hfirst hlast (by decide) (by decide)

theorem parseImport_print (i : WrittenImport) (start stop : Nat) :
    parseImport i.print start stop =
      some { isStatic := i.isStatic, path := i.path, start := start, stop := stop } := by
  have hprint : i.print = "import".toList ++
    (i.behindImport.text ++ (i.staticText ++ i.tail)) := rfl
  have hbehind := stripPrefix_append "import".toList
    (i.behindImport.text ++ (i.staticText ++ i.tail))
  rw [← hprint] at hbehind
  rw [parseImport, trim_print, hbehind, Option.bind_some]
  cases hstatic : i.behindStatic with
  | none =>
    have htext : i.staticText = [] := by
      rw [staticText, hstatic]
      rfl
    have hflag : i.isStatic = false := by
      rw [isStatic, hstatic]
      rfl
    have hstart := trimStart_gap i.behindImport (fun c hc => i.head_tail hc)
    simp only [htext, List.nil_append, hstart, i.tail_not_static, Bool.false_eq_true, if_false,
      pathOf_tail, if_neg i.path_ne_nil, hflag]
  | some gap =>
    have htext : i.staticText = "static".toList ++ gap.val.text := by
      rw [staticText, hstatic]
      rfl
    have hflag : i.isStatic = true := by
      rw [isStatic, hstatic]
      rfl
    have hkeyword : forall c, ("static".toList ++ (gap.val.text ++ i.tail)).head? = some c ->
        isWhitespace c = false := by
      intro c hc
      cases hc
      decide
    have hstart := trimStart_gap i.behindImport hkeyword
    have hfound := stripPrefix_append "static".toList (gap.val.text ++ i.tail)
    have hwhite : (gap.val.text ++ i.tail).head?.any isWhitespace = true := by
      cases hgap : gap.val.text with
      | nil => exact absurd hgap gap.property
      | cons c rest =>
        have hc : isWhitespace c = true := by
          apply gap.val.white
          rw [hgap]
          exact List.mem_cons_self
        exact hc
    have hdrop : ("static".toList ++ (gap.val.text ++ i.tail)).drop "static".toList.length =
        gap.val.text ++ i.tail := List.drop_left
    have hrest := trimStart_gap gap.val (fun c hc => i.head_tail hc)
    simp only [htext, List.append_assoc, hstart, hfound, Option.any_some, hwhite, if_true,
      hdrop, hrest, pathOf_tail, if_neg i.path_ne_nil, hflag]

end WrittenImport

/-!
# Reading a block
-/

@[grind =] def declsFrom : Nat -> Block -> List ImportDecl
  | _, [] => []
  | start, (gap, i) :: rest =>
    let first := start + Text.byteLen gap
    let behind := first + Text.byteLen i.print
    { isStatic := i.isStatic, path := i.path, start := first, stop := behind } ::
      declsFrom behind rest

theorem keys_declsFrom (start : Nat) (block : Block) :
    (declsFrom start block).map ImportDecl.key = block.map (fun entry => entry.2.key) := by
  induction block generalizing start with
  | nil => rfl
  | cons entry rest ih =>
    rw [declsFrom, List.map_cons, List.map_cons, ih]
    rfl

theorem printBlock_cons (gap : Text) (i : WrittenImport) (rest : Block) :
    printBlock ((gap, i) :: rest) = gap ++ (i.print ++ printBlock rest) := by
  simp [printBlock]

theorem printBlock_append (block rest : Block) :
    printBlock (block ++ rest) = printBlock block ++ printBlock rest :=
  List.flatMap_append

theorem importDecls_block {text before after : Text} {block : Block}
    (htext : text = before ++ (printBlock block ++ after)) :
    importDecls (nodesFrom (Text.byteLen before) block) text =
      some (declsFrom (Text.byteLen before) block) := by
  induction block generalizing before with
  | nil => rfl
  | cons entry rest ih =>
    rcases entry with ⟨gap, i⟩
    rw [printBlock_cons] at htext
    have hnode : nodeText (Text.byteLen before + Text.byteLen gap,
        Text.byteLen before + Text.byteLen gap + Text.byteLen i.print) text = i.print := by
      have hslice := Text.slice?_append (before ++ gap) i.print (printBlock rest ++ after)
      have hsplit : before ++ gap ++ i.print ++ (printBlock rest ++ after) = text := by
        rw [htext]
        simp
      rw [hsplit, Text.byteLen_append] at hslice
      rw [nodeText, hslice]
      rfl
    have hnext : text = before ++ gap ++ i.print ++ (printBlock rest ++ after) := by
      rw [htext]
      simp
    have hrest := ih hnext
    rw [Text.byteLen_append, Text.byteLen_append] at hrest
    unfold importDecls at hrest ⊢
    rw [nodesFrom, List.mapM_cons]
    simp only [hnode, WrittenImport.parseImport_print, hrest, Option.bind_eq_bind,
      Option.bind_some, declsFrom]
    rfl

def Spaced (block : Block) : Prop :=
  forall entry, entry ∈ block -> forall c, c ∈ entry.1 -> isWhitespace c = true

instance (block : Block) : Decidable (Spaced block) :=
  @List.decidableBAll (Text × WrittenImport)
    (fun entry => forall c, c ∈ entry.1 -> isWhitespace c = true)
    (fun entry => List.decidableBAll _ entry.1) block

theorem onlyWhite_block {text before after : Text} {block : Block}
    (htext : text = before ++ (printBlock block ++ after)) :
    exists white, onlyWhite text (Text.byteLen before) (declsFrom (Text.byteLen before) block) =
      some white ∧ (white = true <-> Spaced block) := by
  induction block generalizing before with
  | nil => exact ⟨true, rfl, fun _ entry hentry => absurd hentry List.not_mem_nil, fun _ => rfl⟩
  | cons entry rest ih =>
    rcases entry with ⟨gap, i⟩
    rw [printBlock_cons] at htext
    have hslice : Text.slice? text (Text.byteLen before)
        (Text.byteLen before + Text.byteLen gap) = some gap := by
      have hsplit : text = before ++ gap ++ (i.print ++ (printBlock rest ++ after)) := by
        rw [htext]
        simp
      rw [hsplit]
      exact Text.slice?_append before gap _
    have hnext : text = before ++ gap ++ i.print ++ (printBlock rest ++ after) := by
      rw [htext]
      simp
    rcases ih hnext with ⟨white, hwhite, hspaced⟩
    rw [Text.byteLen_append, Text.byteLen_append] at hwhite
    rw [declsFrom, onlyWhite]
    simp only [hslice, Option.bind_some]
    by_cases hgap : gap.any (fun c => !isWhitespace c) = true
    · rw [if_pos hgap]
      refine ⟨false, rfl, fun hfalse => absurd hfalse (by decide), ?_⟩
      intro hall
      rcases List.any_eq_true.mp hgap with ⟨c, hc, hnot⟩
      rw [hall (gap, i) List.mem_cons_self c hc] at hnot
      exact absurd hnot (by decide)
    · rw [if_neg hgap]
      refine ⟨white, hwhite, ?_⟩
      rw [hspaced]
      constructor
      · intro hrest entry hentry c hc
        rcases List.mem_cons.mp hentry with rfl | hin
        · have hnone := List.any_eq_false.mp (eq_false_of_ne_true hgap) c hc
          simpa using hnone
        · exact hrest entry hin c hc
      · exact fun hall entry hentry => hall entry (List.mem_cons_of_mem _ hentry)

theorem stop_getLast (start : Nat) (gap : Text) (i : WrittenImport) (rest : Block) :
    ((declsFrom start ((gap, i) :: rest)).getLast (List.cons_ne_nil _ _)).stop =
      start + Text.byteLen (printBlock ((gap, i) :: rest)) := by
  induction rest generalizing start gap i with
  | nil =>
    rw [printBlock_cons, Text.byteLen_append, Text.byteLen_append, ← Nat.add_assoc]
    rfl
  | cons entry rest ih =>
    rcases entry with ⟨gap', i'⟩
    have hlast := ih (start + Text.byteLen gap + Text.byteLen i.print) gap' i'
    rw [printBlock_cons gap i, Text.byteLen_append, Text.byteLen_append, ← Nat.add_assoc,
      ← Nat.add_assoc, ← hlast]
    rfl

/-!
# What stays
-/

/-- A path that stays: a wildcard, or one whose simple name is a word of the text. -/
def Wanted (outside path : Text) : Prop :=
  ['.', '*'] <:+ path ∨ OccursAlone outside (simpleName path)

/-- The search for the simple name of every path ends. -/
def Found (outside : Text) (decls : List ImportDecl) : Prop :=
  forall d, d ∈ decls -> ¬ ['.', '*'] <:+ d.path ->
    exists used, searchWord outside (simpleName d.path) = some used ∧
      (used = true <-> OccursAlone outside (simpleName d.path))

theorem Found.tail {outside : Text} {d : ImportDecl} {rest : List ImportDecl}
    (h : Found outside (d :: rest)) : Found outside rest :=
  fun other hother => h other (List.mem_cons_of_mem d hother)

/-- Of the imports not seen yet, the first of each key stays if it is wanted. -/
theorem keptFrom_spec {outside : Text} {decls : List ImportDecl} (h : Found outside decls)
    (seen : List (Bool × Text)) :
    exists kept, keptFrom outside seen decls = some kept ∧ kept.Sublist decls ∧
      (kept.map ImportDecl.key).Nodup ∧
      forall key, key ∈ kept.map ImportDecl.key <->
        key ∈ decls.map ImportDecl.key ∧ key ∉ seen ∧ Wanted outside key.2 := by
  induction decls generalizing seen with
  | nil => exact ⟨[], rfl, List.Sublist.refl [], List.nodup_nil, by simp⟩
  | cons d rest ih =>
    rw [keptFrom]
    by_cases hseen : d.key ∈ seen
    · rcases ih h.tail seen with ⟨kept, hkept, hsublist, hnodup, hmem⟩
      rw [if_pos hseen]
      refine ⟨kept, hkept, hsublist.cons d, hnodup, ?_⟩
      intro key
      rw [hmem, List.map_cons, List.mem_cons]
      constructor
      · exact fun hand => ⟨.inr hand.left, hand.right⟩
      · rintro ⟨rfl | hrest, hnew, hwanted⟩
        · exact absurd hseen hnew
        · exact ⟨hrest, hnew, hwanted⟩
    · rcases ih h.tail (d.key :: seen) with ⟨kept, hkept, hsublist, hnodup, hmem⟩
      have hother : d.key ∉ kept.map ImportDecl.key := by
        rw [hmem]
        exact fun hand => hand.right.left List.mem_cons_self
      have hstays : Wanted outside d.path -> forall key,
          key ∈ (d :: kept).map ImportDecl.key <->
            key ∈ (d :: rest).map ImportDecl.key ∧ key ∉ seen ∧ Wanted outside key.2 := by
        intro hd key
        rw [List.map_cons, List.mem_cons, List.map_cons, List.mem_cons, hmem, List.mem_cons,
          not_or]
        constructor
        · rintro (rfl | ⟨hrest, ⟨_, hnew⟩, hwanted⟩)
          · exact ⟨.inl rfl, hseen, hd⟩
          · exact ⟨.inr hrest, hnew, hwanted⟩
        · rintro ⟨rfl | hrest, hnew, hwanted⟩
          · exact .inl rfl
          · by_cases hkey : key = d.key
            · exact .inl hkey
            · exact .inr ⟨hrest, ⟨hkey, hnew⟩, hwanted⟩
      rw [if_neg hseen]
      by_cases hwild : ['.', '*'] <:+ d.path
      · rw [if_pos hwild, hkept]
        exact ⟨d :: kept, rfl, hsublist.cons_cons d, List.nodup_cons.mpr ⟨hother, hnodup⟩,
          hstays (.inl hwild)⟩
      · rcases h d List.mem_cons_self hwild with ⟨used, hused, hoccurs⟩
        rw [if_neg hwild, hused, hkept]
        cases used with
        | true =>
          exact ⟨d :: kept, rfl, hsublist.cons_cons d, List.nodup_cons.mpr ⟨hother, hnodup⟩,
            hstays (.inr (hoccurs.mp rfl))⟩
        | false =>
          have hgoes : ¬ Wanted outside d.path := by
            rintro (hends | hword)
            · exact hwild hends
            · exact absurd (hoccurs.mpr hword) (by decide)
          refine ⟨kept, rfl, hsublist.cons d, hnodup, ?_⟩
          intro key
          rw [hmem, List.map_cons, List.mem_cons, List.mem_cons, not_or]
          constructor
          · rintro ⟨hrest, ⟨_, hnew⟩, hwanted⟩
            exact ⟨.inr hrest, hnew, hwanted⟩
          · rintro ⟨rfl | hrest, hnew, hwanted⟩
            · exact absurd hwanted hgoes
            · refine ⟨hrest, ⟨?_, hnew⟩, hwanted⟩
              rintro rfl
              exact hgoes hwanted

theorem keptFrom_all {outside : Text} {decls : List ImportDecl} (h : Found outside decls)
    (hnodup : (decls.map ImportDecl.key).Nodup)
    (hwanted : forall d, d ∈ decls -> Wanted outside d.path) {seen : List (Bool × Text)}
    (hseen : forall d, d ∈ decls -> d.key ∉ seen) :
    keptFrom outside seen decls = some decls := by
  induction decls generalizing seen with
  | nil => rfl
  | cons d rest ih =>
    rw [List.map_cons, List.nodup_cons] at hnodup
    have hrest : keptFrom outside (d.key :: seen) rest = some rest := by
      apply ih h.tail hnodup.right
        (fun other hother => hwanted other (List.mem_cons_of_mem d hother))
      intro other hother hmem
      rcases List.mem_cons.mp hmem with hsame | hin
      · apply hnodup.left
        rw [← hsame]
        exact List.mem_map_of_mem hother
      · exact hseen other (List.mem_cons_of_mem d hother) hin
    rw [keptFrom, if_neg (hseen d List.mem_cons_self), hrest]
    by_cases hwild : ['.', '*'] <:+ d.path
    · rw [if_pos hwild]
      rfl
    · rcases h d List.mem_cons_self hwild with ⟨used, hused, hoccurs⟩
      have hyes : used = true := by
        apply hoccurs.mpr
        exact (hwanted d List.mem_cons_self).resolve_left hwild
      rw [if_neg hwild, hused, hyes]
      rfl

/-!
# Simple names
-/

theorem simpleName_of_notMem {name : Text} (h : '.' ∉ name) : simpleName name = name := by
  have hall : forall c, c ∈ name.reverse -> (c != '.') = true := by
    intro c hc
    rw [bne_iff_ne]
    rintro rfl
    exact h (List.mem_reverse.mp hc)
  rw [simpleName, List.takeWhile_eq_self_iff.mpr hall, List.reverse_reverse]

theorem simpleName_append {name : Text} (h : '.' ∉ name) (front : Text) :
    simpleName (front ++ ('.' :: name)) = name := by
  have hall : forall c, c ∈ name.reverse -> (c != '.') = true := by
    intro c hc
    rw [bne_iff_ne]
    rintro rfl
    exact h (List.mem_reverse.mp hc)
  rw [simpleName, List.reverse_append, List.reverse_cons, List.append_assoc,
    List.takeWhile_append_of_pos hall, List.singleton_append,
    List.takeWhile_cons_of_neg (by simp), List.append_nil, List.reverse_reverse]

theorem dot_notMem (name : Name) : '.' ∉ name.text :=
  fun hdot => absurd (name.ident '.' hdot) (by decide)

namespace WrittenImport

theorem simpleName_path {i : WrittenImport} (h : i.wildcard = none) :
    simpleName i.path = i.simple.text := by
  rw [path, h, simple]
  rcases List.eq_nil_or_concat i.others with hnone | ⟨front, last, hothers⟩
  · rw [hnone]
    simp only [List.flatMap_nil, Option.isSome_none, Bool.false_eq_true, if_false,
      List.append_nil]
    exact simpleName_of_notMem (dot_notMem i.first)
  · rw [hothers, List.concat_eq_append]
    simp only [List.flatMap_append, List.flatMap_cons, List.flatMap_nil, List.append_nil,
      Option.isSome_none, Bool.false_eq_true, if_false, List.map_append, List.map_cons,
      List.map_nil, List.getLast?_concat, Option.getD_some]
    rw [← List.append_assoc]
    exact simpleName_append (dot_notMem last.2.2) _

theorem wildcard_iff (i : WrittenImport) :
    ['.', '*'] <:+ i.path <-> i.wildcard.isSome = true := by
  constructor
  · intro hends
    have hstar : '*' ∈ i.path := hends.subset (by simp)
    rcases mem_path hstar with hident | hdot | hboth
    · exact absurd hident (by decide)
    · exact absurd hdot (by decide)
    · exact hboth.right
  · intro hsome
    rw [path, if_pos hsome, ← List.append_assoc]
    exact List.suffix_append _ _

end WrittenImport

theorem searchWord_name (outside : Text) (name : Name) :
    exists used, searchWord outside name.text = some used ∧
      (used = true <-> OccursAlone outside name.text) := by
  have hsearchable : Searchable outside name.text := by
    apply Or.inl
    cases htext : name.text with
    | nil => rfl
    | cons c rest =>
      have hc : isIdent c = true := by
        apply name.ident
        rw [htext]
        exact List.mem_cons_self
      have hcode := isIdent_iff.mp hc
      have hval : c.val.toNat = c.toNat := rfl
      have hsize : c.utf8Size = 1 := by
        have hbound : (127 : UInt32).toNat = 127 := rfl
        rw [Char.utf8Size_eq_one_iff, UInt32.le_iff_toNat_le, hval, hbound]
        omega
      simp [hsize]
  have hanswers := (containsWord_answers_iff outside name.text).mpr hsearchable
  rw [searchWord_eq_containsWord]
  cases hanswer : containsWord outside name.text with
  | none => exact absurd hanswer hanswers
  | some used => exact ⟨used, rfl, containsWord_exact hanswer⟩

theorem standsIn_append_iff {word before after : Text} (hword : word ≠ [])
    (hident : forall c, c ∈ word -> isIdent c = true) (hbefore : Boundary before.getLast?) :
    StandsIn word (before ++ after) <-> StandsIn word before ∨ StandsIn word after := by
  have hnotLast : forall xs ys : Text, ys ≠ [] -> ys ⊆ word -> before ≠ xs ++ ys := by
    rintro xs ys hys hsub rfl
    rw [List.getLast?_append_of_ne_nil _ hys, List.getLast?_eq_some_getLast hys] at hbefore
    have hlast := hident _ (hsub (List.getLast_mem hys))
    unfold Boundary at hbefore
    rw [Option.any_some, hlast] at hbefore
    cases hbefore
  constructor
  · rintro ⟨front, behind, htext, hfront, hbehind⟩
    rcases List.append_eq_append_iff.mp htext with ⟨middle, hmiddle, hafter⟩ |
      ⟨middle, hmiddle, hafter⟩
    · apply Or.inr
      refine ⟨middle, behind, hafter, ?_, hbehind⟩
      rw [hmiddle, List.getLast?_append] at hfront
      cases hlast : middle.getLast? with
      | none => rfl
      | some c =>
        rw [hlast] at hfront
        exact hfront
    · cases hempty : middle with
      | nil =>
        rw [hempty, List.nil_append] at hafter
        rw [hempty, List.append_nil] at hmiddle
        exact .inr ⟨[], behind, hafter.symm, rfl, hbehind⟩
      | cons c rest =>
        have hne : middle ≠ [] := by
          rw [hempty]
          exact List.cons_ne_nil c rest
        rcases List.append_eq_append_iff.mp hafter with ⟨more, hmore, hbehindEq⟩ |
          ⟨more, hmore, hafterEq⟩
        · -- the word ends before the two texts meet
          apply Or.inl
          refine ⟨front, more, by rw [hmiddle, hmore], hfront, ?_⟩
          cases more with
          | nil => rfl
          | cons d others =>
            rw [hbehindEq] at hbehind
            exact hbehind
        · exact absurd hmiddle (hnotLast front middle hne (by
            rw [hmore]
            exact List.subset_append_left middle more))
  · rintro (⟨front, behind, htext, hfront, hbehind⟩ | ⟨front, behind, htext, hfront, hbehind⟩)
    · refine ⟨front, behind ++ after, by rw [htext]; simp, hfront, ?_⟩
      cases behind with
      | nil =>
        rw [List.append_nil] at htext
        exact absurd htext (hnotLast front word hword (List.Subset.refl word))
      | cons d others => exact hbehind
    · refine ⟨before ++ front, behind, by rw [htext]; simp, ?_, hbehind⟩
      rw [List.getLast?_append]
      cases hlast : front.getLast? with
      | none => exact hbefore
      | some c =>
        rw [hlast] at hfront
        exact hfront

/-!
# Tidy imports
-/

theorem line_eq (d : ImportDecl) : d.line = lineOf d.key := rfl

def Gap.none : Gap :=
  { text := [], white := by simp }

def Gap.blank : Gap :=
  { text := [' '], white := forall_mem_of_all (by decide) }

namespace WrittenImport

/-- The same import with single blanks behind its keywords and none elsewhere. -/
def organized (i : WrittenImport) : WrittenImport :=
  { behindImport := Gap.blank
    apart := List.cons_ne_nil _ _
    behindStatic := i.behindStatic.map (fun _ => ⟨Gap.blank, List.cons_ne_nil _ _⟩)
    first := i.first
    others := i.others.map (fun other => (Gap.none, Gap.none, other.2.2))
    wildcard := i.wildcard.map (fun _ => (Gap.none, Gap.none))
    beforeSemicolon := Gap.none }

theorem key_organized (i : WrittenImport) : i.organized.key = i.key := by
  unfold key isStatic path organized
  simp only [Option.isSome_map, List.flatMap_map]

theorem nameText_organized (i : WrittenImport) : i.organized.nameText = i.path := by
  unfold nameText path organized
  cases i.wildcard with
  | none => simp [List.flatMap_map, Gap.none]
  | some gaps => simp [List.flatMap_map, Gap.none]

theorem tidy_organized (i : WrittenImport) : i.organized.Tidy := by
  rw [Tidy, key_organized, print, nameText_organized, lineOf, key, isStatic]
  cases hstatic : i.behindStatic with
  | none => simp [organized, hstatic, Gap.blank, Gap.none]
  | some gap => simp [organized, hstatic, Gap.blank, Gap.none]

end WrittenImport

def spaced (gap : Text) : List WrittenImport -> Block
  | [] => []
  | i :: rest => (gap, i) :: rest.map (fun other => (['\n'], other))

def grouped (statics plain : List WrittenImport) : Block :=
  spaced [] statics ++ spaced (if statics = [] then [] else ['\n', '\n']) plain

theorem imports_spaced (gap : Text) (imports : List WrittenImport) :
    (spaced gap imports).map Prod.snd = imports := by
  cases imports with
  | nil => rfl
  | cons i rest =>
    rw [spaced, List.map_cons, List.map_map]
    exact congrArg (fun others => i :: others) (List.map_id rest)

theorem imports_grouped (statics plain : List WrittenImport) :
    (grouped statics plain).map Prod.snd = statics ++ plain := by
  rw [grouped, List.map_append, imports_spaced, imports_spaced]

theorem first_grouped {statics plain : List WrittenImport} {gap : Text} {i : WrittenImport}
    {rest : Block} (h : grouped statics plain = (gap, i) :: rest) : gap = [] := by
  cases statics with
  | cons first others =>
    cases h
    rfl
  | nil =>
    cases plain with
    | nil => cases h
    | cons first others =>
      cases h
      rfl

theorem gaps_spaced {p : Char -> Prop} (hbreak : p '\n') {gap : Text}
    (hgap : forall c, c ∈ gap -> p c) (imports : List WrittenImport) :
    forall entry, entry ∈ spaced gap imports -> forall c, c ∈ entry.1 -> p c := by
  intro entry hentry
  cases imports with
  | nil => exact absurd hentry List.not_mem_nil
  | cons i rest =>
    rcases List.mem_cons.mp hentry with rfl | hrest
    · exact hgap
    · rcases List.mem_map.mp hrest with ⟨other, _, rfl⟩
      intro c hc
      rw [List.mem_singleton.mp hc]
      exact hbreak

theorem gaps_grouped {p : Char -> Prop} (hbreak : p '\n') (statics plain : List WrittenImport) :
    forall entry, entry ∈ grouped statics plain -> forall c, c ∈ entry.1 -> p c := by
  have hgap : forall c, c ∈ (if statics = [] then [] else ['\n', '\n']) -> p c := by
    intro c hc
    split at hc
    · cases hc
    · have hline : c = '\n' := by simpa using hc
      rw [hline]
      exact hbreak
  intro entry hentry
  rcases List.mem_append.mp hentry with hstatic | hplain
  · exact gaps_spaced hbreak (by simp) statics entry hstatic
  · exact gaps_spaced hbreak hgap plain entry hplain

theorem spaced_grouped (statics plain : List WrittenImport) : Spaced (grouped statics plain) :=
  gaps_grouped (by decide) statics plain

theorem printBlock_lines (i : WrittenImport) (rest : List WrittenImport) :
    i.print ++ printBlock (rest.map (fun other => (['\n'], other))) =
      ['\n'].intercalate ((i :: rest).map WrittenImport.print) := by
  induction rest generalizing i with
  | nil => simp [printBlock]
  | cons next rest ih =>
    rw [List.map_cons, printBlock_cons, ih next]
    simp only [List.map_cons]
    rw [List.intercalate_cons_of_ne_nil (List.cons_ne_nil _ _), List.append_assoc]

theorem printBlock_spaced (gap : Text) (i : WrittenImport) (rest : List WrittenImport) :
    printBlock (spaced gap (i :: rest)) =
      gap ++ ['\n'].intercalate ((i :: rest).map WrittenImport.print) := by
  rw [spaced, printBlock_cons, printBlock_lines]

theorem printBlock_grouped (statics plain : List WrittenImport) :
    printBlock (grouped statics plain) =
      ['\n', '\n'].intercalate
        ((if statics.map WrittenImport.print = [] then []
          else [['\n'].intercalate (statics.map WrittenImport.print)]) ++
          (if plain.map WrittenImport.print = [] then []
            else [['\n'].intercalate (plain.map WrittenImport.print)])) := by
  rw [grouped, printBlock_append]
  cases statics with
  | nil =>
    cases plain with
    | nil => rfl
    | cons i rest =>
      rw [printBlock_spaced]
      simp [spaced, printBlock]
  | cons i rest =>
    cases plain with
    | nil =>
      rw [printBlock_spaced]
      simp [spaced, printBlock]
    | cons j others =>
      rw [printBlock_spaced, printBlock_spaced]
      simp [List.intercalate_cons_of_ne_nil]

def tidyBlock (imports : List WrittenImport) : Block :=
  grouped (sortByKey WrittenImport.print (imports.filter (fun i => i.isStatic)))
    (sortByKey WrittenImport.print (imports.filter (fun i => !i.isStatic)))

theorem lines_filter {kept : List ImportDecl} {imports : List WrittenImport}
    (hkeys : kept.map ImportDecl.key = imports.map WrittenImport.key)
    (htidy : forall i, i ∈ imports -> i.Tidy) (p : Bool -> Bool) :
    (kept.filter (fun d => p d.isStatic)).map ImportDecl.line =
      (imports.filter (fun i => p i.isStatic)).map WrittenImport.print := by
  induction imports generalizing kept with
  | nil =>
    rw [List.map_eq_nil_iff.mp hkeys]
    rfl
  | cons i rest ih =>
    cases kept with
    | nil => cases hkeys
    | cons d others =>
      rw [List.map_cons, List.map_cons, List.cons.injEq] at hkeys
      have hrest := ih hkeys.right (fun j hj => htidy j (List.mem_cons_of_mem i hj))
      have hflag : d.isStatic = i.isStatic := congrArg Prod.fst hkeys.left
      have hline : d.line = i.print := by
        rw [line_eq, hkeys.left]
        exact (htidy i List.mem_cons_self).symm
      by_cases hp : p i.isStatic = true
      · simp only [List.filter_cons, hflag, hp, if_true, List.map_cons, hline, hrest]
      · simp only [List.filter_cons, hflag, hp, Bool.false_eq_true, if_false, hrest]

/-- The new text is the block of the tidy imports with the keys that are kept. -/
theorem organizedText_eq {kept : List ImportDecl} {imports : List WrittenImport}
    (hkeys : kept.map ImportDecl.key = imports.map WrittenImport.key)
    (htidy : forall i, i ∈ imports -> i.Tidy) :
    organizedText kept = printBlock (tidyBlock imports) := by
  have hstatics := lines_filter hkeys htidy (fun flag => flag)
  have hplain := lines_filter hkeys htidy (fun flag => !flag)
  simp only [organizedText, sortLines, hstatics, hplain]
  rw [← map_sortByKey, ← map_sortByKey, tidyBlock, printBlock_grouped]

theorem imports_tidyBlock (imports : List WrittenImport) :
    ((tidyBlock imports).map Prod.snd).Perm imports := by
  rw [tidyBlock, imports_grouped]
  have hsorted : forall xs : List WrittenImport, (sortByKey WrittenImport.print xs).Perm xs :=
    fun xs => List.mergeSort_perm xs _
  exact ((hsorted _).append (hsorted _)).trans (List.filter_append_perm _ imports)

theorem tidyBlock_append {statics plain : List WrittenImport}
    (hstatics : forall i, i ∈ statics -> i.isStatic = true)
    (hplain : forall i, i ∈ plain -> i.isStatic = false) :
    tidyBlock (statics ++ plain) =
      grouped (sortByKey WrittenImport.print statics) (sortByKey WrittenImport.print plain) := by
  have hkept : statics.filter (fun i => i.isStatic) = statics :=
    List.filter_eq_self.mpr hstatics
  have hgone : plain.filter (fun i => i.isStatic) = [] := by
    apply List.filter_eq_nil_iff.mpr
    intro i hi
    rw [hplain i hi]
    exact Bool.false_ne_true
  have hgone' : statics.filter (fun i => !i.isStatic) = [] := by
    apply List.filter_eq_nil_iff.mpr
    intro i hi
    rw [hstatics i hi]
    exact Bool.false_ne_true
  have hkept' : plain.filter (fun i => !i.isStatic) = plain := by
    apply List.filter_eq_self.mpr
    intro i hi
    rw [hplain i hi]
    rfl
  rw [tidyBlock, List.filter_append, List.filter_append, hkept, hgone, hgone', hkept',
    List.append_nil, List.nil_append]

theorem tidyBlock_again (imports : List WrittenImport) :
    tidyBlock ((tidyBlock imports).map Prod.snd) = tidyBlock imports := by
  have hstatics : forall i,
      i ∈ sortByKey WrittenImport.print (imports.filter (fun i => i.isStatic)) ->
        i.isStatic = true :=
    fun i hi => (List.mem_filter.mp (mem_sortByKey.mp hi)).right
  have hplain : forall i,
      i ∈ sortByKey WrittenImport.print (imports.filter (fun i => !i.isStatic)) ->
        i.isStatic = false := by
    intro i hi
    have hnot := (List.mem_filter.mp (mem_sortByKey.mp hi)).right
    simpa using hnot
  have hagain := tidyBlock_append hstatics hplain
  rw [sortByKey_of_pairwise (pairwise_sortByKey _), sortByKey_of_pairwise (pairwise_sortByKey _),
    ← imports_grouped] at hagain
  exact hagain

/-!
# One run
-/

section

variable {text before after : Text} {i : WrittenImport} {rest : Block}

theorem declsFrom_first (before : Text) (i : WrittenImport) (rest : Block) :
    exists d ds, declsFrom (Text.byteLen before) (([], i) :: rest) = d :: ds ∧
      d.start = Text.byteLen before :=
  ⟨_, _, rfl, rfl⟩

theorem organizeImportsEdit_not_spaced
    (htext : text = before ++ (printBlock (([], i) :: rest) ++ after))
    (hspaced : ¬ Spaced (([], i) :: rest)) (index : LineIndex) :
    organizeImportsEdit (nodesFrom (Text.byteLen before) (([], i) :: rest)) text index =
      some none := by
  rcases onlyWhite_block htext with ⟨white, hwhite, hiff⟩
  have hfalse : white = false := by
    rw [Bool.eq_false_iff]
    exact fun htrue => hspaced (hiff.mp htrue)
  have hdecls := importDecls_block htext
  rcases declsFrom_first before i rest with ⟨d, ds, hcons, hstart⟩
  rw [hcons] at hdecls hwhite
  rw [hfalse] at hwhite
  simp only [organizeImportsEdit, hdecls, hstart, hwhite, Option.bind_some, Bool.not_false,
    if_true]

theorem organizeImportsEdit_block
    (htext : text = before ++ (printBlock (([], i) :: rest) ++ after))
    (hspaced : Spaced (([], i) :: rest)) {kept : List ImportDecl}
    (hkept : keptFrom (before ++ after) []
      (declsFrom (Text.byteLen before) (([], i) :: rest)) = some kept) (index : LineIndex) :
    organizeImportsEdit (nodesFrom (Text.byteLen before) (([], i) :: rest)) text index =
      if organizedText kept = printBlock (([], i) :: rest) then some none
      else
        (index.position (Text.byteLen before)).bind (fun start =>
          (index.position (Text.byteLen (before ++ printBlock (([], i) :: rest)))).map (fun stop =>
            some
              { range := { start := start, stop := stop }
                newText := organizedText kept })) := by
  rcases onlyWhite_block htext with ⟨white, hwhite, hiff⟩
  have hdecls := importDecls_block htext
  have hstop := (stop_getLast (Text.byteLen before) [] i rest).trans
    (Text.byteLen_append before (printBlock (([], i) :: rest))).symm
  have htake : Text.takeBytes? (Text.byteLen before) text = some before := by
    rw [htext]
    exact Text.takeBytes?_append before _
  have hsplit : text = before ++ printBlock (([], i) :: rest) ++ after := by
    rw [htext, List.append_assoc]
  have hdrop : Text.dropBytes? (Text.byteLen (before ++ printBlock (([], i) :: rest))) text =
      some after := by
    rw [hsplit]
    exact Text.dropBytes?_append _ after
  have hslice : Text.slice? text (Text.byteLen before)
      (Text.byteLen (before ++ printBlock (([], i) :: rest))) =
        some (printBlock (([], i) :: rest)) := by
    rw [hsplit, Text.byteLen_append]
    exact Text.slice?_append before _ after
  rcases declsFrom_first before i rest with ⟨d, ds, hcons, hstart⟩
  rw [hcons] at hdecls hwhite hkept
  rw [hiff.mpr hspaced] at hwhite
  simp only [hcons] at hstop
  simp only [organizeImportsEdit, hdecls, hstart, hstop, hwhite, htake, hdrop, hslice, hkept,
    Option.bind_some, Bool.not_true, Bool.false_eq_true, if_false]

end

theorem found_declsFrom (outside : Text) (start : Nat) (block : Block) :
    Found outside (declsFrom start block) := by
  intro d hd hwild
  have hkey : d.key ∈ block.map (fun entry => entry.2.key) := by
    rw [← keys_declsFrom start]
    exact List.mem_map_of_mem hd
  rcases List.mem_map.mp hkey with ⟨entry, _, hentry⟩
  have hpath : d.path = entry.2.path := (congrArg Prod.snd hentry).symm
  rw [hpath] at hwild ⊢
  have hnone : entry.2.wildcard = none := by
    rw [WrittenImport.wildcard_iff, Option.isSome_iff_ne_none, ne_eq, not_not] at hwild
    exact hwild
  rw [WrittenImport.simpleName_path hnone]
  exact searchWord_name outside entry.2.simple

namespace CompilationUnit

variable {parse : Text -> List (Nat × Nat)}

def block (u : CompilationUnit parse) : Block :=
  ([], u.first) :: u.others

def text (u : CompilationUnit parse) : Text :=
  u.before ++ (printBlock u.block ++ u.after)

def imports (u : CompilationUnit parse) : List WrittenImport :=
  u.block.map Prod.snd

/-- A wildcard, or an import whose simple name is a word outside of the import block. -/
def Needed (u : CompilationUnit parse) (i : WrittenImport) : Prop :=
  i.wildcard.isSome = true ∨ OccursAlone u.before i.simple.text ∨ OccursAlone u.after i.simple.text

/-- The needed imports, each once, the static ones first, and both groups sorted. -/
structure Organized (u : CompilationUnit parse) (decls : List ImportDecl) : Prop where
  once : (decls.map ImportDecl.key).Nodup
  complete : forall key, key ∈ decls.map ImportDecl.key <->
    exists i, i ∈ u.imports ∧ i.key = key ∧ u.Needed i
  sorted : exists statics plain, decls = statics ++ plain ∧
    (forall d, d ∈ statics -> d.isStatic = true) ∧
    (forall d, d ∈ plain -> d.isStatic = false) ∧
    (statics.map ImportDecl.line).Pairwise (fun a b => a ≤ b) ∧
    (plain.map ImportDecl.line).Pairwise (fun a b => a ≤ b)

theorem wanted_iff (u : CompilationUnit parse) (i : WrittenImport) :
    Wanted (u.before ++ u.after) i.path <-> u.Needed i := by
  unfold Wanted Needed
  rw [WrittenImport.wildcard_iff]
  by_cases hwild : i.wildcard.isSome = true
  · simp [hwild]
  · have hnone : i.wildcard = none := by
      rw [Option.isSome_iff_ne_none, ne_eq, not_not] at hwild
      exact hwild
    rw [or_iff_right hwild, or_iff_right hwild, WrittenImport.simpleName_path hnone,
      occursAlone_iff, occursAlone_iff, occursAlone_iff,
      standsIn_append_iff i.simple.nonempty i.simple.ident u.apart, and_or_left]

theorem exists_kept (u : CompilationUnit parse) :
    exists kept, exists imports : List WrittenImport,
      keptFrom (u.before ++ u.after) [] (declsFrom (Text.byteLen u.before) u.block) = some kept ∧
        kept.map ImportDecl.key = imports.map WrittenImport.key ∧
        (imports.map WrittenImport.key).Nodup ∧
        (forall i, i ∈ imports -> i.Tidy) ∧
        forall key, key ∈ imports.map WrittenImport.key <->
          exists i, i ∈ u.imports ∧ i.key = key ∧ u.Needed i := by
  rcases keptFrom_spec (found_declsFrom (u.before ++ u.after) (Text.byteLen u.before) u.block) []
    with ⟨kept, hkept, hsublist, hnodup, hmem⟩
  have hkeys := hsublist.map ImportDecl.key
  have himports : u.block.map (fun entry => entry.2.key) = u.imports.map WrittenImport.key := by
    rw [imports, List.map_map]
    rfl
  rw [keys_declsFrom, himports] at hkeys
  rcases List.sublist_map_iff.mp hkeys with ⟨chosen, _, hchosen⟩
  have horganized : (chosen.map WrittenImport.organized).map WrittenImport.key =
      chosen.map WrittenImport.key := by
    rw [List.map_map]
    exact List.map_congr_left (fun i _ => i.key_organized)
  refine ⟨kept, chosen.map WrittenImport.organized, hkept, ?_, ?_, ?_, ?_⟩
  · rw [horganized, hchosen]
  · rw [horganized, ← hchosen]
    exact hnodup
  · intro i hi
    rcases List.mem_map.mp hi with ⟨j, _, rfl⟩
    exact j.tidy_organized
  · intro key
    rw [horganized, ← hchosen, hmem, keys_declsFrom, himports]
    constructor
    · rintro ⟨hin, _, hwanted⟩
      rcases List.mem_map.mp hin with ⟨i, hi, rfl⟩
      exact ⟨i, hi, rfl, (u.wanted_iff i).mp hwanted⟩
    · rintro ⟨i, hi, rfl, hneeded⟩
      exact ⟨List.mem_map_of_mem hi, List.not_mem_nil, (u.wanted_iff i).mpr hneeded⟩

theorem parse_text (u : CompilationUnit parse) :
    parse u.text = nodesFrom (Text.byteLen u.before) u.block := u.parsed

theorem organizeImportsEdit_eq (u : CompilationUnit parse) (encoding : PositionEncoding)
    (hspaced : Spaced u.block) {kept : List ImportDecl}
    (hkept : keptFrom (u.before ++ u.after) []
      (declsFrom (Text.byteLen u.before) u.block) = some kept) :
    organizeImportsEdit (parse u.text) u.text (LineIndex.new u.text encoding) =
      if organizedText kept = printBlock u.block then some none
      else
        some (some
          { range :=
              { start := Documents.place encoding u.before
                stop := Documents.place encoding (u.before ++ printBlock u.block) }
            newText := organizedText kept }) := by
  have hbyte : Text.byteLen (u.before ++ printBlock u.block) < 4294967296 := by
    have hall := u.addressable
    rw [← List.append_assoc, Text.byteLen_append] at hall
    exact Nat.lt_of_le_of_lt (Nat.le_add_right _ _) hall
  have hbyte' : Text.byteLen u.before < 4294967296 := by
    rw [Text.byteLen_append] at hbyte
    exact Nat.lt_of_le_of_lt (Nat.le_add_right _ _) hbyte
  have hstart : (LineIndex.new u.text encoding).position (Text.byteLen u.before) =
      some (Documents.place encoding u.before) :=
    Documents.position_of_fits (Documents.fits_of_byteLen encoding hbyte')
  have hstop : (LineIndex.new u.text encoding).position
      (Text.byteLen (u.before ++ printBlock u.block)) =
        some (Documents.place encoding (u.before ++ printBlock u.block)) := by
    have htext : u.text = u.before ++ printBlock u.block ++ u.after :=
      (List.append_assoc _ _ _).symm
    rw [htext]
    exact Documents.position_of_fits (Documents.fits_of_byteLen encoding hbyte)
  have hwhole : u.text = u.before ++ (printBlock (([], u.first) :: u.others) ++ u.after) := rfl
  have hedit := organizeImportsEdit_block hwhole hspaced hkept (LineIndex.new u.text encoding)
  rw [← block, hstart, hstop] at hedit
  rw [u.parse_text]
  exact hedit

theorem apply_edit (u : CompilationUnit parse) (encoding : PositionEncoding) (newText : Text) :
    exists applied,
      Documents.applyContentChange u.text encoding
        { start := Documents.place encoding u.before
          stop := Documents.place encoding (u.before ++ printBlock u.block) } newText =
          some applied ∧
        applied.newText = u.before ++ (newText ++ u.after) := by
  have htext : u.text = u.before ++ printBlock u.block ++ u.after :=
    (List.append_assoc _ _ _).symm
  have hstart : (LineIndex.new u.text encoding).offset (Documents.place encoding u.before) =
      some (Text.byteLen u.before) := by
    rw [Documents.offset_eq]
    exact congrArg (fun front => some (Text.byteLen front))
      (Documents.prefixTo_place encoding u.before (printBlock u.block ++ u.after))
  have hstop : (LineIndex.new u.text encoding).offset
      (Documents.place encoding (u.before ++ printBlock u.block)) =
        some (Text.byteLen (u.before ++ printBlock u.block)) := by
    rw [Documents.offset_eq, htext]
    exact congrArg (fun front => some (Text.byteLen front))
      (Documents.prefixTo_place encoding (u.before ++ printBlock u.block) u.after)
  have hmax : max (Text.byteLen (u.before ++ printBlock u.block)) (Text.byteLen u.before) =
      Text.byteLen (u.before ++ printBlock u.block) := by
    rw [Text.byteLen_append]
    exact Nat.max_eq_left (Nat.le_add_right _ _)
  refine ⟨_, Documents.applyContentChange_eq encoding _ newText htext hstart hstop hmax, ?_⟩
  exact List.append_assoc _ _ _

variable {imports : List WrittenImport}

theorem lines_declsFrom (htidy : forall i, i ∈ imports -> i.Tidy) (start : Nat) (gap : Text) :
    (declsFrom start (spaced gap imports)).map ImportDecl.line =
      imports.map WrittenImport.print := by
  have hkeys := keys_declsFrom start (spaced gap imports)
  have himports : (spaced gap imports).map (fun entry => entry.2.key) =
      imports.map WrittenImport.key := by
    conv => rhs; rw [← imports_spaced gap imports, List.map_map]
    rfl
  have hlines : (declsFrom start (spaced gap imports)).map ImportDecl.line =
      ((declsFrom start (spaced gap imports)).map ImportDecl.key).map lineOf := by
    rw [List.map_map]
    rfl
  rw [hlines, hkeys, himports, List.map_map]
  exact List.map_congr_left (fun i hi => (htidy i hi).symm)

theorem declsFrom_append (start : Nat) (block rest : Block) :
    declsFrom start (block ++ rest) =
      declsFrom start block ++ declsFrom (start + Text.byteLen (printBlock block)) rest := by
  induction block generalizing start with
  | nil => rfl
  | cons entry others ih =>
    rcases entry with ⟨gap, i⟩
    have hplace : start + Text.byteLen (printBlock ((gap, i) :: others)) =
        start + Text.byteLen gap + Text.byteLen i.print + Text.byteLen (printBlock others) := by
      rw [printBlock_cons, Text.byteLen_append, Text.byteLen_append, ← Nat.add_assoc,
        ← Nat.add_assoc]
    rw [List.cons_append, declsFrom, ih, hplace]
    rfl

theorem isStatic_declsFrom {flag : Bool} (hflag : forall i, i ∈ imports -> i.isStatic = flag)
    (start : Nat) (gap : Text) :
    forall d, d ∈ declsFrom start (spaced gap imports) -> d.isStatic = flag := by
  intro d hd
  have hkey : d.key ∈ (spaced gap imports).map (fun entry => entry.2.key) := by
    rw [← keys_declsFrom start]
    exact List.mem_map_of_mem hd
  rcases List.mem_map.mp hkey with ⟨entry, hentry, hsame⟩
  have hmem : entry.2 ∈ imports := by
    rw [← imports_spaced gap imports]
    exact List.mem_map_of_mem hentry
  exact (congrArg Prod.fst hsame).symm.trans (hflag entry.2 hmem)

theorem organized_tidyBlock (u : CompilationUnit parse)
    (hnodup : (imports.map WrittenImport.key).Nodup) (htidy : forall i, i ∈ imports -> i.Tidy)
    (hmem : forall key, key ∈ imports.map WrittenImport.key <-> exists i, i ∈ u.imports ∧
      i.key = key ∧ u.Needed i)
    (start : Nat) :
    u.Organized (declsFrom start (tidyBlock imports)) := by
  have hkeys : ((declsFrom start (tidyBlock imports)).map ImportDecl.key).Perm
      (imports.map WrittenImport.key) := by
    have hperm := (imports_tidyBlock imports).map WrittenImport.key
    rw [List.map_map] at hperm
    rw [keys_declsFrom]
    exact hperm
  constructor
  · exact hkeys.nodup_iff.mpr hnodup
  · intro key
    rw [hkeys.mem_iff]
    exact hmem key
  · rw [tidyBlock, grouped, declsFrom_append]
    refine ⟨_, _, rfl, ?_, ?_, ?_, ?_⟩
    · apply isStatic_declsFrom
      exact fun i hi => (List.mem_filter.mp (mem_sortByKey.mp hi)).right
    · apply isStatic_declsFrom
      intro i hi
      have hnot := (List.mem_filter.mp (mem_sortByKey.mp hi)).right
      simpa using hnot
    · rw [lines_declsFrom (fun i hi => htidy i (List.mem_filter.mp (mem_sortByKey.mp hi)).left)]
      exact List.pairwise_map.mpr (pairwise_sortByKey _)
    · rw [lines_declsFrom (fun i hi => htidy i (List.mem_filter.mp (mem_sortByKey.mp hi)).left)]
      exact List.pairwise_map.mpr (pairwise_sortByKey _)

theorem organize_again (u : CompilationUnit parse) (hnodup : (imports.map WrittenImport.key).Nodup)
    (htidy : forall i, i ∈ imports -> i.Tidy)
    (hmem : forall key, key ∈ imports.map WrittenImport.key <-> exists i, i ∈ u.imports ∧
      i.key = key ∧ u.Needed i)
    {text : Text} (htext : text = u.before ++ (printBlock (tidyBlock imports) ++ u.after))
    (index : LineIndex) :
    organizeImportsEdit (nodesFrom (Text.byteLen u.before) (tidyBlock imports)) text index =
      some none := by
  have horganized := u.organized_tidyBlock hnodup htidy hmem (Text.byteLen u.before)
  have hwanted : forall d, d ∈ declsFrom (Text.byteLen u.before) (tidyBlock imports) ->
      Wanted (u.before ++ u.after) d.path := by
    intro d hd
    rcases (horganized.complete d.key).mp (List.mem_map_of_mem hd) with ⟨i, _, hkey, hneeded⟩
    have hpath : i.path = d.path := congrArg Prod.snd hkey
    rw [← hpath]
    exact (u.wanted_iff i).mpr hneeded
  have hkept : keptFrom (u.before ++ u.after) []
      (declsFrom (Text.byteLen u.before) (tidyBlock imports)) =
        some (declsFrom (Text.byteLen u.before) (tidyBlock imports)) :=
    keptFrom_all (found_declsFrom _ _ _) horganized.once hwanted
      (fun d _ => List.not_mem_nil)
  have htidy' : forall i, i ∈ (tidyBlock imports).map Prod.snd -> i.Tidy :=
    fun i hi => htidy i ((imports_tidyBlock imports).mem_iff.mp hi)
  have hkeys : (declsFrom (Text.byteLen u.before) (tidyBlock imports)).map ImportDecl.key =
      ((tidyBlock imports).map Prod.snd).map WrittenImport.key := by
    rw [keys_declsFrom, List.map_map]
    rfl
  have hsame := organizedText_eq hkeys htidy'
  rw [tidyBlock_again] at hsame
  have hspaced : Spaced (tidyBlock imports) := spaced_grouped _ _
  cases hblock : tidyBlock imports with
  | nil => rfl
  | cons entry rest =>
    rcases entry with ⟨gap, i⟩
    have hgap : gap = [] := first_grouped hblock
    subst hgap
    rw [hblock] at htext hspaced hkept hsame
    rw [organizeImportsEdit_block htext hspaced hkept index, if_pos hsame]

end CompilationUnit

/--
An edit that is offered leaves everything around the import block as it is.  The new block is
read as the needed imports, each once, the static ones first and both groups sorted, and no
edit is offered for it.
-/
theorem organize_imports_safe {parse : Text -> List (Nat × Nat)} (u : CompilationUnit parse)
    (encoding : PositionEncoding) {edit : TextEdit}
    (h : organizeImportsEdit (parse u.text) u.text (LineIndex.new u.text encoding) =
      some (some edit)) :
    (exists applied,
        Documents.applyContentChange u.text encoding edit.range edit.newText = some applied ∧
          applied.newText = u.before ++ (edit.newText ++ u.after)) ∧
      forall result, result = u.before ++ (edit.newText ++ u.after) ->
        Text.byteLen result < 4294967296 ->
          (exists decls, importDecls (parse result) result = some decls ∧ u.Organized decls) ∧
            organizeImportsEdit (parse result) result (LineIndex.new result encoding) =
              some none := by
  by_cases hspaced : Spaced u.block
  · rcases u.exists_kept with ⟨kept, imports, hkept, hkeys, hnodup, htidy, hmem⟩
    rw [u.organizeImportsEdit_eq encoding hspaced hkept] at h
    split at h
    · cases h
    · cases h
      have htext := organizedText_eq hkeys htidy
      refine ⟨u.apply_edit encoding _, ?_⟩
      rintro result hresult hsize
      simp only [htext] at hresult
      have hparsed : parse result = nodesFrom (Text.byteLen u.before) (tidyBlock imports) := by
        rw [hresult] at hsize ⊢
        have hlines : forall entry, entry ∈ tidyBlock imports ->
            forall c, c ∈ entry.1 -> c = '\n' :=
          @gaps_grouped (fun c => c = '\n') rfl _ _
        refine u.replaced (tidyBlock imports) ⟨hlines, ?_, ?_⟩ hsize
        · intro entry hentry
          exact htidy entry.2 ((imports_tidyBlock imports).mem_iff.mp (List.mem_map_of_mem hentry))
        · intro entry hentry
          have hown := (imports_tidyBlock imports).mem_iff.mp (List.mem_map_of_mem hentry)
          rcases (hmem entry.2.key).mp (List.mem_map_of_mem hown) with ⟨i, hi, hkey, _⟩
          exact ⟨i, hi, hkey⟩
      rw [hparsed]
      exact ⟨⟨_, importDecls_block hresult, u.organized_tidyBlock hnodup htidy hmem _⟩,
        u.organize_again hnodup htidy hmem hresult _⟩
  · rw [u.parse_text] at h
    have hwhole : u.text = u.before ++ (printBlock (([], u.first) :: u.others) ++ u.after) := rfl
    have hnone := organizeImportsEdit_not_spaced hwhole hspaced (LineIndex.new u.text encoding)
    rw [CompilationUnit.block, hnone] at h
    cases h

/-!
# A parser for the head of a file
-/

namespace Twice

/-- The imports at the front of a text; `start` is the one that is being read. -/
@[grind =] def scanFrom : Option Nat -> Nat -> Text -> List (Nat × Nat)
  | _, _, [] => []
  | none, at_, c :: rest =>
    if isWhitespace c then scanFrom none (at_ + c.utf8Size) rest
    else if "import".toList <+: c :: rest then scanFrom (some at_) (at_ + c.utf8Size) rest
    else []
  | some start, at_, c :: rest =>
    if c = ';' then (start, at_ + 1) :: scanFrom none (at_ + 1) rest
    else scanFrom (some start) (at_ + c.utf8Size) rest

theorem scanFrom_gap {gap : Text} (h : forall c, c ∈ gap -> isWhitespace c = true) (at_ : Nat)
    (rest : Text) :
    scanFrom none at_ (gap ++ rest) = scanFrom none (at_ + Text.byteLen gap) rest := by
  induction gap generalizing at_ with
  | nil => rfl
  | cons c others ih =>
    rw [List.cons_append, scanFrom, if_pos (h c List.mem_cons_self),
      ih (fun d hd => h d (List.mem_cons_of_mem c hd)), Text.byteLen_cons, Nat.add_assoc]

theorem scanFrom_inside {inside : Text} (h : ';' ∉ inside) (start at_ : Nat) (rest : Text) :
    scanFrom (some start) at_ (inside ++ (';' :: rest)) =
      (start, at_ + Text.byteLen inside + 1) ::
        scanFrom none (at_ + Text.byteLen inside + 1) rest := by
  induction inside generalizing at_ with
  | nil => rfl
  | cons c others ih =>
    rw [List.mem_cons, not_or] at h
    rw [List.cons_append, scanFrom, if_neg (Ne.symm h.left), ih h.right, Text.byteLen_cons,
      ← Nat.add_assoc]

theorem scanFrom_print (i : WrittenImport) (at_ : Nat) (rest : Text) :
    scanFrom none at_ (i.print ++ rest) =
      (at_, at_ + Text.byteLen i.print) :: scanFrom none (at_ + Text.byteLen i.print) rest := by
  have hinside : ';' ∉ "mport".toList ++ (i.behindImport.text ++
      (i.staticText ++ (i.nameText ++ i.beforeSemicolon.text))) := by
    have hspace : isWhitespace ';' = false := by decide
    have hgap : forall gap : Gap, ';' ∉ gap.text := by
      intro gap hmem
      rw [gap.white ';' hmem] at hspace
      cases hspace
    have hstatic : ';' ∉ i.staticText := by
      unfold WrittenImport.staticText
      cases i.behindStatic with
      | none => exact List.not_mem_nil
      | some gap =>
        intro hmem
        rcases List.mem_append.mp hmem with hword | hin
        · exact absurd hword (by decide)
        · exact hgap gap.val hin
    rw [List.mem_append, List.mem_append, List.mem_append, not_or, not_or, not_or]
    exact ⟨by decide, hgap _, hstatic, i.semicolon_notMem⟩
  have hprint : i.print = 'i' :: ("mport".toList ++ (i.behindImport.text ++
      (i.staticText ++ (i.nameText ++ i.beforeSemicolon.text))) ++ [';']) := by
    simp [WrittenImport.print, WrittenImport.staticText]
  have hstart : "import".toList <+: i.print ++ rest :=
    (List.prefix_append "import".toList _).trans (List.prefix_append i.print rest)
  have hlen : Text.byteLen i.print = 1 + Text.byteLen ("mport".toList ++ (i.behindImport.text ++
      (i.staticText ++ (i.nameText ++ i.beforeSemicolon.text)))) + 1 := by
    rw [hprint, Text.byteLen_cons, Text.byteLen_append, ← Nat.add_assoc]
    rfl
  rw [hlen, ← Nat.add_assoc, ← Nat.add_assoc]
  rw [hprint, List.cons_append] at hstart ⊢
  rw [scanFrom, if_neg (by decide), if_pos hstart, List.append_assoc, List.singleton_append,
    scanFrom_inside hinside]
  rfl

theorem scanFrom_block {block : Block} (h : Spaced block) (at_ : Nat) (after : Text) :
    scanFrom none at_ (printBlock block ++ after) =
      nodesFrom at_ block ++ scanFrom none (at_ + Text.byteLen (printBlock block)) after := by
  induction block generalizing at_ with
  | nil => rfl
  | cons entry rest ih =>
    rcases entry with ⟨gap, i⟩
    have hgap := h (gap, i) List.mem_cons_self
    have hrest := ih (fun entry hentry => h entry (List.mem_cons_of_mem _ hentry))
    rw [printBlock_cons, List.append_assoc, List.append_assoc, scanFrom_gap hgap,
      scanFrom_print, hrest, nodesFrom, Text.byteLen_append, Text.byteLen_append,
      ← Nat.add_assoc, ← Nat.add_assoc]
    rfl

def name (text : Text) (h : text ≠ [] ∧ (forall c, c ∈ text -> isIdent c = true) ∧
    text ≠ "static".toList) : Name :=
  { text := text, nonempty := h.1, ident := h.2.1, notKeyword := h.2.2 }

theorem identifier {text : Text}
    (h : text ≠ [] ∧ text.all isIdent = true ∧ text ≠ "static".toList) :
    text ≠ [] ∧ (forall c, c ∈ text -> isIdent c = true) ∧ text ≠ "static".toList :=
  ⟨h.1, List.all_eq_true.mp h.2.1, h.2.2⟩

/-- `import java.util.List;` -/
def narrow : WrittenImport :=
  { behindImport := Gap.blank
    apart := List.cons_ne_nil _ _
    behindStatic := none
    first := name "java".toList (identifier (by decide))
    others :=
      [(Gap.none, Gap.none, name "util".toList (identifier (by decide))),
        (Gap.none, Gap.none, name "List".toList (identifier (by decide)))]
    wildcard := none
    beforeSemicolon := Gap.none }

/-- `import java . util.List;` -/
def wide : WrittenImport :=
  { narrow with
    others :=
      [(Gap.blank, Gap.blank, name "util".toList (identifier (by decide))),
        (Gap.none, Gap.none, name "List".toList (identifier (by decide)))] }

def after : Text := "\n\nclass C { List l; }\n".toList

theorem scanFrom_after (at_ : Nat) : scanFrom none at_ after = [] := by
  rfl

theorem parse_block {block : Block} (h : Spaced block) :
    scanFrom none 0 ([] ++ (printBlock block ++ after)) = nodesFrom (Text.byteLen []) block := by
  rw [List.nil_append, scanFrom_block h, scanFrom_after, List.append_nil]
  rfl

def unit : CompilationUnit (scanFrom none 0) :=
  { before := []
    first := wide
    others := [(['\n'], narrow)]
    after := after
    apart := rfl
    addressable := by decide
    parsed := parse_block (by decide)
    replaced := by
      intro block hrewritten _
      apply parse_block
      intro entry hentry c hc
      rw [hrewritten.lines entry hentry c hc]
      decide }

def list : ImportDecl :=
  { isStatic := false, path := "java.util.List".toList, start := 0, stop := 24 }

theorem kept_unit : keptFrom (unit.before ++ unit.after) []
    (declsFrom (Text.byteLen unit.before) unit.block) = some [list] := by
  have hused : searchWord (unit.before ++ unit.after) (simpleName wide.path) = some true := by
    rw [searchWord_eq_containsWord]
    decide
  have hdecls : declsFrom (Text.byteLen unit.before) unit.block =
      [{ isStatic := false, path := wide.path, start := 0, stop := 24 },
        { isStatic := false, path := narrow.path, start := 25, stop := 47 }] := by
    decide
  rw [hdecls, keptFrom, if_neg (by decide), if_neg (by decide), hused, keptFrom,
    if_pos (by decide)]
  rfl

/-- The second import goes, and the first one loses its blanks. -/
theorem imported_once : exists edit,
    organizeImportsEdit (scanFrom none 0 unit.text) unit.text (LineIndex.new unit.text .utf16) =
        some (some edit) ∧
      (exists applied,
        Documents.applyContentChange unit.text .utf16 edit.range edit.newText = some applied ∧
          applied.newText = "import java.util.List;\n\nclass C { List l; }\n".toList) ∧
      organizeImportsEdit
        (scanFrom none 0 "import java.util.List;\n\nclass C { List l; }\n".toList)
        "import java.util.List;\n\nclass C { List l; }\n".toList
        (LineIndex.new "import java.util.List;\n\nclass C { List l; }\n".toList .utf16) =
          some none := by
  have htext : organizedText [list] = "import java.util.List;".toList := by
    have hlines : [list].filter (fun d => !d.isStatic) = [list] := rfl
    have hnone : [list].filter (fun d => d.isStatic) = [] := rfl
    simp only [organizedText, hlines, hnone, sortLines, sortByKey, List.map_cons, List.map_nil,
      List.mergeSort_nil, List.mergeSort_singleton]
    decide
  have hedit := unit.organizeImportsEdit_eq .utf16 (by decide) kept_unit
  rw [htext, if_neg (by decide)] at hedit
  have hsafe := organize_imports_safe unit .utf16 hedit
  exact ⟨_, hedit, hsafe.left, (hsafe.right _ rfl (by decide)).right⟩

end Twice

end Refactor
end JavaVsixLite
