import Mathlib.Algebra.GroupWithZero.Nat
import Mathlib.Algebra.Order.Group.Nat
import JavaVsixLite.Signatures.RoundTrip
import JavaVsixLite.Signatures.Templates

/-!
# Display and structure of a field signature

Where no class name has a `$`, the template that the display parser writes is the outline
of the type that the structured parser builds, with a mark for each type variable.
Filling the marks in then gives the rendering of the substituted type, unless a mark also
stands in a class name, or in an argument that is put in before it.
-/

namespace JavaVsixLite
namespace Signatures

open Foundation
open Foundation.Parser (Agrees)
open Foundation.Placeholders (replace)

/-- The type parameters of a class, each known by its place. -/
def classParams (owner : String) (entries : List (Text × List TypeRef)) : NamedParams :=
  entries.mapIdx (fun i entry =>
    (entry.1, { id := { owner := owner, index := i }, bounds := entry.2 }))

/-- No class that is shown is nested in another one. -/
def TopLevel (t : TypeRef) : Prop :=
  forall binary, .className (.named binary) ∈ leaves t -> '$' ∉ binary.toList

/-- The arguments of the type parameters, in their order. -/
def environment (owner : String) (entries : List (Text × List TypeRef)) (args : List TypeRef) :
    TypeEnv :=
  ((classParams owner entries).map (fun entry => entry.2.id)).zip args

/-- Every type variable is known, and has an argument. -/
def Bound (env : TypeEnv) (t : TypeRef) : Prop :=
  .unknown ∉ leaves t ∧ forall v, .typeVariable v ∈ leaves t -> v ∈ env.map Prod.fst

/-!
# The template of a structured type
-/

def Shows (text : Text) (t : TypeRef) : Prop :=
  TopLevel t -> .unknown ∉ leaves t -> text = outline Leaf.template t

theorem mark_eq (i : Nat) :
    Char.ofNat 0x7b :: ((toString i).toList ++ [Char.ofNat 0x7d]) = mark i := by
  have htext : (toString i).toList = decimal i := by
    show (String.ofList (Nat.toDigits 10 i)).toList = _
    rw [String.toList_ofList]
    rfl
  rw [htext]
  rfl

theorem var_shows (owner : String) (entries : List (Text × List TypeRef)) (name : Text) :
    Shows (DisplayScope.var { params := entries.map Prod.fst, shadow := [] } name)
      (lookupVar [classParams owner entries] name) := by
  have hfound := findVar_mapIdx owner Prod.fst Prod.snd entries name 0
  simp only [Nat.zero_add] at hfound
  intro _ hknown
  unfold classParams at hknown ⊢
  rw [lookupVar_singleton, hfound] at hknown ⊢
  unfold DisplayScope.var
  rw [if_neg (by simp), List.findIdx?_map]
  cases hindex : entries.findIdx? (fun entry => entry.1 == name) with
  | none =>
    rw [hindex] at hknown
    exact absurd List.mem_cons_self hknown
  | some i =>
    have hsame : entries.findIdx? ((fun p => p == name) ∘ Prod.fst) = some i := hindex
    rw [hsame]
    exact mark_eq i

/-!
# Names of classes
-/

/-- A name with its arguments, as the two parsers carry it along a chain of nested names. -/
def PartsShow (parts : Text × List Text) (read : Text × List TypeRef) : Prop :=
  ('$' ∉ read.1 -> parts.1 = (TypeRef.simpleOf (String.ofList read.1)).toList) ∧
    List.Forall₂ Shows parts.2 read.2

theorem readClassName_agrees :
    Agrees (fun name name' => name = name' ∧ '.' ∉ name) readClassName
      (Parser.readUntil classNameStops) := by
  intro rest
  refine ⟨rfl, .some ⟨rfl, ?_⟩⟩
  intro hdot
  have hbyte := Utf8.mem_of_mem_fromUtf8Lossy (by decide) hdot
  have hstays := List.all_eq_true.mp List.all_takeWhile _ hbyte
  exact absurd hstays (by decide)

theorem lastSegment_eq {name : Text} (hdot : '.' ∉ name) (hnested : '$' ∉ name) :
    (name.takeWhile (fun c => c != '/')).map (fun c => if c = '$' then '.' else c) =
      (slashesToDots name).takeWhile (fun c => c != '.' && c != '$') := by
  induction name with
  | nil => rfl
  | cons c rest ih =>
    rw [List.mem_cons, not_or] at hdot hnested
    have hrest := ih hdot.right hnested.right
    unfold slashesToDots at hrest ⊢
    rw [List.map_cons, List.takeWhile_cons, List.takeWhile_cons]
    by_cases hc : c = '/'
    · simp [hc]
    · have hnext : c ≠ '.' := fun heq => hdot.left heq.symm
      have hplain : c ≠ '$' := fun heq => hnested.left heq.symm
      simp [hc, hnext, hplain, hrest]

theorem notMem_of_notMem_slashesToDots {name : Text} (h : '$' ∉ slashesToDots name) :
    '$' ∉ name := by
  intro hmem
  apply h
  exact List.mem_map.mpr ⟨'$', hmem, rfl⟩

/-- Without nesting, what stands behind the packages is what stands behind the last dot. -/
theorem simple_eq {name : Text} (hdot : '.' ∉ name) (hnested : '$' ∉ slashesToDots name) :
    simple name = (TypeRef.simpleOf (String.ofList (slashesToDots name))).toList := by
  have hdots : '.' ∉ name.reverse := by simpa using hdot
  have hreverse := lastSegment_eq hdots (by simpa using notMem_of_notMem_slashesToDots hnested)
  unfold simple TypeRef.simpleOf
  rw [String.toList_ofList, String.toList_ofList, List.map_reverse, hreverse]
  unfold slashesToDots
  rw [List.map_reverse]

/-!
# Types
-/

section Types

variable {render : Parser Text} {parse : Parser TypeRef}

variable {text : Text} {t : TypeRef}

theorem Shows.plain (h : text = outline Leaf.template t) : Shows text t :=
  fun _ _ => h

theorem Shows.upper (h : Shows text t) :
    Shows ("? extends ".toList ++ text) (.wildcard (some t) none) := by
  intro htop hknown
  rw [h htop hknown, outline, outlineBound, outlineBound, wildcardText_upper]

theorem Shows.lower (h : Shows text t) :
    Shows ("? super ".toList ++ text) (.wildcard none (some t)) := by
  intro htop hknown
  rw [h htop hknown, outline, outlineBound, outlineBound, wildcardText_lower]

theorem typeArg_shows (h : Agrees Shows render parse) :
    Agrees Shows (typeArg render) (typeArgStructured parse) := by
  apply Agrees.after
  intro b
  generalize Char.ofNat b.toNat = c
  split
  · exact Agrees.after _ (fun _ => .pure (.plain rfl))
  · exact Agrees.after _ (fun _ => h.bind (fun _ _ hshows => .pure hshows.upper))
  · exact Agrees.after _ (fun _ => h.bind (fun _ _ hshows => .pure hshows.lower))
  · exact h

theorem typeArgs_show (h : Agrees Shows render parse) :
    Agrees (List.Forall₂ Shows) (maybeTypeArgList render) (typeArgsStructured parse) := by
  apply Agrees.after
  intro next
  by_cases hnext : next = some (ascii '<')
  · have hsome : ¬ (next != some (ascii '<')) = true := by simp [hnext]
    simp only [if_pos hnext, if_neg hsome]
    apply Agrees.after
    intro _
    apply ((typeArg_shows h).manyUntil (ascii '>')).bind
    intro args args' hargs
    exact Agrees.after _ (fun _ => .pure hargs)
  · have hsome : (next != some (ascii '<')) = true := by simp [hnext]
    simp only [if_neg hnext, if_pos hsome]
    exact .pure .nil

theorem innerClass_shows (h : Agrees Shows render parse) (read : Text × List TypeRef) :
    Agrees PartsShow
      (do
        let inner <- readClassName
        let args <- maybeTypeArgList render
        pure (simple inner, args))
      (innerClassStructured parse read) := by
  apply readClassName_agrees.bind
  intro inner inner' hinner
  apply (typeArgs_show h).bind
  intro args args' hargs
  refine .pure ⟨?_, hargs⟩
  intro hnested
  exact absurd (List.mem_append_right read.1 List.mem_cons_self) hnested

theorem classTypeParts_shows (h : Agrees Shows render parse) :
    Agrees PartsShow (classTypeParts render)
      (do
        let outer <- Parser.readUntil classNameStops
        let outerArgs <- typeArgsStructured parse
        let read <- Parser.whileNext (ascii '.') (innerClassStructured parse)
          (slashesToDots outer, outerArgs)
        Parser.expect (ascii ';')
        pure read) := by
  apply readClassName_agrees.bind
  rintro outer _ ⟨rfl, hdot⟩
  apply (typeArgs_show h).bind
  intro args args' hargs
  have hstart : PartsShow (simple outer, args) (slashesToDots outer, args') :=
    ⟨simple_eq hdot, hargs⟩
  apply (Agrees.whileNext (ascii '.') (fun _ read _ => innerClass_shows h read)
    hstart).bind
  intro parts read hparts
  exact Agrees.after _ (fun _ => .pure hparts)

theorem outlineRest_of_shows {texts : List Text} {arg : TypeRef} {args : List TypeRef}
    (h : List.Forall₂ Shows (text :: texts) (arg :: args))
    (htop : forall binary, .className (.named binary) ∈ leavesAll (arg :: args) ->
      '$' ∉ binary.toList)
    (hknown : .unknown ∉ leavesAll (arg :: args)) :
    outline Leaf.template arg ++ outlineRest Leaf.template args =
      List.intercalate ", ".toList (text :: texts) := by
  induction texts generalizing text arg args with
  | nil =>
    rcases List.forall₂_cons.mp h with ⟨hhead, htail⟩
    cases htail
    have harg := hhead (fun binary hmem => htop binary (List.mem_append_left _ hmem))
      (fun hmem => hknown (List.mem_append_left _ hmem))
    rw [List.intercalate_singleton, harg, outlineRest, List.append_nil]
  | cons next texts ih =>
    rcases List.forall₂_cons.mp h with ⟨hhead, htail⟩
    cases args with
    | nil => cases htail
    | cons arg' args =>
      have harg := hhead (fun binary hmem => htop binary (List.mem_append_left _ hmem))
        (fun hmem => hknown (List.mem_append_left _ hmem))
      have hrest := ih htail (fun binary hmem => htop binary (List.mem_append_right _ hmem))
        (fun hmem => hknown (List.mem_append_right _ hmem))
      rw [List.intercalate_cons_cons, ← hrest, harg, outlineRest, List.append_assoc]

theorem classType_shows (h : Agrees Shows render parse) :
    Agrees Shows (classType render) (classTypeStructured parse) := by
  have hsplit : classTypeStructured parse =
      (do
        let outer <- Parser.readUntil classNameStops
        let outerArgs <- typeArgsStructured parse
        let read <- Parser.whileNext (ascii '.') (innerClassStructured parse)
          (slashesToDots outer, outerArgs)
        Parser.expect (ascii ';')
        pure read) >>= fun read =>
          pure (TypeRef.named (.named (String.ofList read.1)) read.2) := by
    simp only [Parser.bind_assoc]
    rfl
  rw [hsplit]
  apply (classTypeParts_shows h).bind
  rintro ⟨name, texts⟩ ⟨binary, args⟩ ⟨hname, hargs⟩
  have hleaf : TopLevel (.named (.named (String.ofList binary)) args) ->
      name = Leaf.template (.className (.named (String.ofList binary))) := by
    intro htop
    have hplain := htop (String.ofList binary) List.mem_cons_self
    rw [String.toList_ofList] at hplain
    exact hname hplain
  cases texts with
  | nil =>
    cases hargs
    apply Agrees.pure
    intro htop _
    rw [outline, outlineArgs, List.append_nil]
    exact hleaf htop
  | cons text texts =>
    cases args with
    | nil => cases hargs
    | cons arg args =>
      apply Agrees.pure
      intro htop hknown
      have hrest := outlineRest_of_shows hargs
        (fun binary' hmem => htop binary' (List.mem_cons_of_mem _ hmem))
        (fun hmem => hknown (List.mem_cons_of_mem _ hmem))
      rw [outline, outlineArgs, ← hleaf htop, ← hrest]
      simp

theorem typeInner_shows (owner : String) (entries : List (Text × List TypeRef))
    (h : Agrees Shows render parse) :
    Agrees Shows (typeRenderInner { params := entries.map Prod.fst, shadow := [] } render)
      (typeParseInner [classParams owner entries] parse) := by
  apply Agrees.after
  intro b
  generalize Char.ofNat b.toNat = c
  split
  · exact .pure (.plain rfl)
  · exact .pure (.plain rfl)
  · exact .pure (.plain rfl)
  · exact .pure (.plain rfl)
  · exact .pure (.plain rfl)
  · exact .pure (.plain rfl)
  · exact .pure (.plain rfl)
  · exact .pure (.plain rfl)
  · apply h.bind
    intro text element hshows
    apply Agrees.pure
    intro htop hknown
    rw [hshows htop hknown, outline]
  · exact Agrees.after _ (fun name =>
      Agrees.after _ (fun _ => .pure (var_shows owner entries name)))
  · exact classType_shows h
  · exact .fail

end Types

theorem type_shows (owner : String) (entries : List (Text × List TypeRef)) (levels : Nat) :
    Agrees Shows (typeRender { params := entries.map Prod.fst, shadow := [] } levels)
      (typeParse [classParams owner entries] levels) := by
  induction levels with
  | zero => exact .fail
  | succ levels ih => exact typeInner_shows owner entries ih

theorem fieldTemplate_shows (owner : String) (entries : List (Text × List TypeRef))
    (sig : List UInt8) :
    Option.Rel Shows (fieldTemplate sig (entries.map Prod.fst))
      (parseFieldSignature sig (classParams owner entries)) :=
  (type_shows owner entries maxSigDepth sig).2

/-!
# Filling the marks in
-/

theorem decimal_injective {i j : Nat} (h : decimal i = decimal j) : i = j := by
  have hi : Nat.ofDigitChars 10 (decimal i) 0 = i := Nat.ofDigitChars_ten_toDigits
  have hj : Nat.ofDigitChars 10 (decimal j) 0 = j := Nat.ofDigitChars_ten_toDigits
  rw [← hi, h, hj]

theorem brace_notMem_decimal {c : Char} (hc : c.isDigit = false) (i : Nat) : c ∉ decimal i := by
  intro hmem
  rw [isDigit_of_mem_decimal hmem] at hc
  cases hc

theorem eq_of_mark_infix {i j : Nat} (h : mark i <:+: mark j) : i = j := by
  rcases h with ⟨before, after, heq⟩
  cases before with
  | nil =>
    rw [List.nil_append] at heq
    have htail : decimal i ++ '}' :: after = decimal j ++ '}' :: [] := by
      have hcons := (List.cons.inj heq).2
      simpa using hcons
    exact decimal_injective (Placeholders.append_close_inj (brace_notMem_decimal rfl i)
      (brace_notMem_decimal rfl j) htail).left
  | cons c rest =>
    -- the opening brace of a mark stands nowhere but at its start
    have hcons := (List.cons.inj heq).2
    have hopen : '{' ∈ decimal j ++ ['}'] := by
      rw [← hcons]
      exact List.mem_append_left _ (List.mem_append_right _ List.mem_cons_self)
    rcases List.mem_append.mp hopen with hdigit | hclose
    · exact absurd hdigit (brace_notMem_decimal rfl j)
    · exact absurd (List.mem_singleton.mp hclose) (by decide)

section Filling

variable {args typeParams : List Text}

theorem foldl_of_unmarked (filling : Nat -> Text) {text : Text} {is : List Nat}
    (h : forall i, i ∈ is -> ¬ mark i <:+: text) :
    is.foldl (fun out i => replace (mark i) (filling i) out) text = text := by
  induction is with
  | nil => rfl
  | cons i rest ih =>
    rw [List.foldl_cons, Placeholders.replace_of_not_infix (h i List.mem_cons_self)]
    exact ih (fun k hk => h k (List.mem_cons_of_mem i hk))

theorem substituteTemplate_of_unmarked {text : Text}
    (h : forall i, i < max typeParams.length args.length -> ¬ mark i <:+: text) :
    substituteTemplate text args typeParams = text :=
  foldl_of_unmarked _ (fun i hi => h i (List.mem_range.mp hi))

theorem foldl_mark (filling : Nat -> Text) (j : Nat) {m : Nat}
    (h : forall i, j < i -> i < m -> ¬ mark i <:+: filling j) :
    (List.range m).foldl (fun out i => replace (mark i) (filling i) out) (mark j) =
      if j < m then filling j else mark j := by
  induction m with
  | zero => rfl
  | succ m ih =>
    have hfirst := ih (fun i hj hm => h i hj (Nat.lt_succ_of_lt hm))
    rw [List.range_succ, List.foldl_append, hfirst, List.foldl_cons, List.foldl_nil]
    rcases Nat.lt_trichotomy j m with hlt | rfl | hgt
    · rw [if_pos hlt, if_pos (Nat.lt_succ_of_lt hlt),
        Placeholders.replace_of_not_infix (h m hlt (Nat.lt_succ_self m))]
    · have hfilled := Placeholders.replace_needle_append (mark_ne_nil j) (filling j) []
      rw [List.append_nil, Placeholders.replace_nil, List.append_nil] at hfilled
      rw [if_neg (Nat.lt_irrefl j), if_pos (Nat.lt_succ_self j), hfilled]
    · have hother : ¬ mark m <:+: mark j := by
        intro hinfix
        have heq := eq_of_mark_infix hinfix
        omega
      rw [if_neg (by omega), if_neg (by omega), Placeholders.replace_of_not_infix hother]

/-- A mark is filled in with its argument, in which only later marks are filled in. -/
theorem substituteTemplate_mark {j : Nat} {arg : Text} (harg : args[j]? = some arg)
    (h : forall i, j < i -> i < max typeParams.length args.length -> ¬ mark i <:+: arg) :
    substituteTemplate (mark j) args typeParams = arg := by
  have hj : j < args.length := (List.getElem?_eq_some_iff.mp harg).1
  have hfilling : filling args typeParams j = arg := by
    unfold filling
    rw [harg]
    rfl
  rw [← hfilling] at h ⊢
  unfold substituteTemplate
  rw [foldl_mark (filling args typeParams) j h,
    if_pos (Nat.lt_of_lt_of_le hj (Nat.le_max_right _ _))]

section Braces

variable (hfilling : forall i, '{' ∉ filling args typeParams i)

include hfilling

theorem count_foldl_le (is : List Nat) (text : Text) :
    (is.foldl (fun out i => replace (mark i) (filling args typeParams i) out) text).count '{' ≤
      text.count '{' := by
  induction is generalizing text with
  | nil => exact Nat.le_refl _
  | cons i rest ih =>
    exact Nat.le_trans (ih _)
      (Placeholders.count_replace_le (mark_ne_nil i) (hfilling i) text)

theorem count_substituteTemplate_le (text : Text) :
    (substituteTemplate text args typeParams).count '{' ≤ text.count '{' :=
  count_foldl_le hfilling _ text

theorem count_foldl_lt {is : List Nat} {text : Text} {i : Nat} (hi : i ∈ is)
    (hmark : mark i <:+: text) :
    (is.foldl (fun out i => replace (mark i) (filling args typeParams i) out) text).count '{' <
      text.count '{' := by
  induction is generalizing text with
  | nil => cases hi
  | cons k rest ih =>
    rw [List.foldl_cons]
    by_cases hk : mark k <:+: text
    · exact Nat.lt_of_le_of_lt (count_foldl_le hfilling rest _)
        (Placeholders.count_replace_lt (mark_ne_nil k) (hfilling k) List.mem_cons_self hk)
    · rcases List.mem_cons.mp hi with rfl | hrest
      · exact absurd hmark hk
      · rw [Placeholders.replace_of_not_infix hk]
        exact ih hrest hmark

theorem count_substituteTemplate_lt {text : Text} {i : Nat}
    (hi : i < max typeParams.length args.length) (hmark : mark i <:+: text) :
    (substituteTemplate text args typeParams).count '{' < text.count '{' :=
  count_foldl_lt hfilling (List.mem_range.mpr hi) hmark

end Braces

end Filling

/-!
# Counting over the leaves
-/

def bracesIn (text : Leaf -> Text) (found : List Leaf) : Nat :=
  (found.map (fun leaf => (text leaf).count '{')).sum

theorem bracesIn_append (text : Leaf -> Text) (xs ys : List Leaf) :
    bracesIn text (xs ++ ys) = bracesIn text xs + bracesIn text ys := by
  unfold bracesIn
  rw [List.map_append, List.sum_append]

theorem count_outlineRest {text : Leaf -> Text} {ts : List TypeRef}
    (h : forall t, t ∈ ts -> (outline text t).count '{' = bracesIn text (leaves t)) :
    (outlineRest text ts).count '{' = bracesIn text (leavesAll ts) := by
  induction ts with
  | nil => rfl
  | cons arg rest ih =>
    have hsep : (", ".toList).count '{' = 0 := by decide
    have hrest := ih (fun t ht => h t (List.mem_cons_of_mem arg ht))
    rw [outlineRest, leavesAll, bracesIn_append, List.count_append, List.count_append, hsep,
      h arg List.mem_cons_self, hrest, Nat.zero_add]

theorem count_outline (text : Leaf -> Text) (t : TypeRef) :
    (outline text t).count '{' = bracesIn text (leaves t) := by
  induction t using TypeRef.induct with
  | named id args ih =>
    have hid : bracesIn text [.className id] = (text (.className id)).count '{' := by
      simp [bracesIn]
    have hleaves : leaves (.named id args) = [.className id] ++ leavesAll args := rfl
    rw [hleaves, bracesIn_append, hid, outline, List.count_append]
    cases args with
    | nil => rfl
    | cons arg rest =>
      have hopen : ['<'].count '{' = 0 := by decide
      have hclose : ['>'].count '{' = 0 := by decide
      have hrest := count_outlineRest (fun t ht => ih t (List.mem_cons_of_mem arg ht))
      rw [outlineArgs, leavesAll, bracesIn_append, List.count_append, List.count_append,
        List.count_append, hopen, hclose, ih arg List.mem_cons_self, hrest, Nat.zero_add,
        Nat.add_zero]
  | array element ih =>
    have hsep : ("[]".toList).count '{' = 0 := by decide
    rw [outline, List.count_append, hsep, ih, Nat.add_zero]
    rfl
  | wildcard upper lower ihu ihl =>
    cases upper with
    | some bound =>
      have hsep : ("? extends ".toList).count '{' = 0 := by decide
      rw [outline, outlineBound, wildcardText_upper, List.count_append, hsep,
        ihu bound (Option.mem_some_self bound), Nat.zero_add]
      rfl
    | none =>
      cases lower with
      | some bound =>
        have hsep : ("? super ".toList).count '{' = 0 := by decide
        rw [outline, outlineBound, outlineBound, wildcardText_lower, List.count_append,
          hsep, ihl bound (Option.mem_some_self bound), Nat.zero_add]
        rfl
      | none => rfl
  | typeVariable v => simp [outline, leaves, bracesIn]
  | unknown => simp [outline, leaves, bracesIn]
  | primitive p => cases p <;> rfl
  | void => rfl
  | null => rfl

/-- The texts differ in their braces if no leaf has more of them and one has fewer. -/
theorem bracesIn_lt {text text' : Leaf -> Text} {found : List Leaf} {leaf : Leaf}
    (hle : forall other, other ∈ found -> (text other).count '{' ≤ (text' other).count '{')
    (hleaf : leaf ∈ found) (hlt : (text leaf).count '{' < (text' leaf).count '{') :
    bracesIn text found < bracesIn text' found :=
  List.sum_lt_sum _ _ hle ⟨leaf, hleaf, hlt⟩

/-!
# Both substitutions
-/

theorem substitute_bound {owner : String} {entries : List (Text × List TypeRef)}
    {args : List TypeRef} {v : TypeVariableId}
    (hv : v ∈ (environment owner entries args).map Prod.fst) :
    exists arg, args[v.index]? = some arg ∧
      (TypeRef.typeVariable v).substitute (environment owner entries args) = arg := by
  rcases List.mem_map.mp hv with ⟨entry, hentry, rfl⟩
  rcases List.mem_iff_getElem.mp hentry with ⟨i, hi, rfl⟩
  have hfst : forall (j : Nat) (hj : j < (environment owner entries args).length),
      (environment owner entries args)[j].1 = { owner := owner, index := j } := by
    intro j hj
    simp [environment, classParams]
  have hargs : i < args.length := by
    rw [environment, List.length_zip] at hi
    exact Nat.lt_of_lt_of_le hi (Nat.min_le_right _ _)
  have hsnd : (environment owner entries args)[i].2 = args[i] := by
    simp [environment]
  have hfound : (environment owner entries args).find?
      (fun entry => entry.1 == (environment owner entries args)[i].1) =
        some (environment owner entries args)[i] := by
    rw [List.find?_eq_some_iff_getElem]
    refine ⟨beq_self_eq_true _, i, hi, rfl, ?_⟩
    intro j hj
    rw [hfst j, hfst i hi]
    simpa using Nat.ne_of_lt hj
  refine ⟨args[i], ?_, ?_⟩
  · rw [hfst i hi, List.getElem?_eq_getElem hargs]
  · rw [TypeRef.substitute, hfound]
    exact hsnd

/-- No mark that is still to be filled in stands in the name of a class or in an argument. -/
structure Unmarked (args typeParams : List Text) (t : TypeRef) : Prop where
  classNames : forall id, .className id ∈ leaves t ->
    forall i, i < max typeParams.length args.length ->
      ¬ mark i <:+: (TypeRef.renderId id).toList
  arguments : forall v, .typeVariable v ∈ leaves t -> forall arg, args[v.index]? = some arg ->
    forall i, v.index < i -> i < max typeParams.length args.length -> ¬ mark i <:+: arg

section Agreement

variable {owner : String} {entries : List (Text × List TypeRef)} {args : List TypeRef}
variable {typeParams : List Text} {t : TypeRef}

def rendered (args : List TypeRef) : List Text :=
  args.map (fun arg => arg.render.toList)

theorem substituteTemplate_typeVariable {v : TypeVariableId}
    (hv : v ∈ (environment owner entries args).map Prod.fst)
    (h : forall arg, (rendered args)[v.index]? = some arg -> forall i, v.index < i ->
      i < max typeParams.length (rendered args).length -> ¬ mark i <:+: arg) :
    substituteTemplate (Leaf.typeVariable v).template (rendered args) typeParams =
      (Leaf.typeVariable v).substituted (environment owner entries args) := by
  rcases substitute_bound hv with ⟨arg, harg, hsubstitute⟩
  have htext : (rendered args)[v.index]? = some arg.render.toList := by
    rw [rendered, List.getElem?_map, harg]
    rfl
  rw [Leaf.template, Leaf.substituted, hsubstitute]
  exact substituteTemplate_mark htext (h _ htext)

theorem substituteTemplate_leaf (hbound : Bound (environment owner entries args) t)
    (h : Unmarked (rendered args) typeParams t) {leaf : Leaf} (hleaf : leaf ∈ leaves t) :
    substituteTemplate leaf.template (rendered args) typeParams =
      leaf.substituted (environment owner entries args) := by
  cases leaf with
  | className id => exact substituteTemplate_of_unmarked (h.classNames id hleaf)
  | typeVariable v =>
    exact substituteTemplate_typeVariable (hbound.2 v hleaf) (h.arguments v hleaf)
  | unknown => exact absurd hleaf hbound.1

theorem substituteTemplate_eq_of_unmarked (hbound : Bound (environment owner entries args) t)
    (h : Unmarked (rendered args) typeParams t) :
    substituteTemplate (outline Leaf.template t) (rendered args) typeParams =
      (t.substitute (environment owner entries args)).render.toList := by
  rw [substituteTemplate_outline, render_substitute]
  exact outline_congr (fun _ hleaf => substituteTemplate_leaf hbound h hleaf)

theorem not_mark_infix_rendered
    (hbraces : forall i, '{' ∉ filling (rendered args) typeParams i) {j : Nat} {arg : Text}
    (harg : (rendered args)[j]? = some arg) (i : Nat) : ¬ mark i <:+: arg := by
  have hfilling : filling (rendered args) typeParams j = arg := by
    unfold filling
    rw [harg]
    rfl
  intro hinfix
  apply hbraces j
  rw [hfilling]
  exact hinfix.subset List.mem_cons_self

theorem count_substituteTemplate_leaf (hbound : Bound (environment owner entries args) t)
    (hbraces : forall i, '{' ∉ filling (rendered args) typeParams i)
    {leaf : Leaf} (hleaf : leaf ∈ leaves t) :
    (substituteTemplate leaf.template (rendered args) typeParams).count '{' ≤
      (leaf.substituted (environment owner entries args)).count '{' := by
  cases leaf with
  | className id => exact count_substituteTemplate_le hbraces _
  | typeVariable v =>
    rw [substituteTemplate_typeVariable (hbound.2 v hleaf)
      (fun arg harg i _ _ => not_mark_infix_rendered hbraces harg i)]
  | unknown => exact absurd hleaf hbound.1

theorem unmarked_of_substituteTemplate_eq
    (hbound : Bound (environment owner entries args) t)
    (hbraces : forall i, '{' ∉ filling (rendered args) typeParams i)
    (h : substituteTemplate (outline Leaf.template t) (rendered args) typeParams =
      (t.substitute (environment owner entries args)).render.toList) :
    Unmarked (rendered args) typeParams t := by
  refine ⟨?_, fun _ _ _ harg i _ _ => not_mark_infix_rendered hbraces harg i⟩
  intro id hid i hi hmark
  have hless := bracesIn_lt
    (fun leaf hleaf => count_substituteTemplate_leaf hbound hbraces hleaf) hid
    (count_substituteTemplate_lt hbraces hi hmark)
  have hcounts := congrArg (List.count '{') h
  rw [substituteTemplate_outline, render_substitute, count_outline, count_outline] at hcounts
  exact absurd hcounts (Nat.ne_of_lt hless)

end Agreement

/-- Filling in the template gives the rendering of the substituted type where no mark
stands in a class name or in an argument, and only there if the arguments have no braces. -/
theorem display_agrees_with_structure {owner : String}
    {entries : List (Text × List TypeRef)} {args : List TypeRef} {sig : List UInt8}
    {t : TypeRef} (hparse : parseFieldSignature sig (classParams owner entries) = some t)
    (htop : TopLevel t) (hbound : Bound (environment owner entries args) t) :
    exists template, fieldTemplate sig (entries.map Prod.fst) = some template ∧
      (Unmarked (rendered args) (entries.map Prod.fst) t ->
        substituteTemplate template (rendered args) (entries.map Prod.fst) =
          (t.substitute (environment owner entries args)).render.toList) ∧
      ((forall i, '{' ∉ filling (rendered args) (entries.map Prod.fst) i) ->
        (substituteTemplate template (rendered args) (entries.map Prod.fst) =
          (t.substitute (environment owner entries args)).render.toList <->
            Unmarked (rendered args) (entries.map Prod.fst) t)) := by
  have hshows := fieldTemplate_shows owner entries sig
  rw [hparse] at hshows
  cases htemplate : fieldTemplate sig (entries.map Prod.fst) with
  | none =>
    rw [htemplate] at hshows
    cases hshows
  | some template =>
    rw [htemplate] at hshows
    cases hshows with
    | some htext =>
      have hsubstitute : Unmarked (rendered args) (entries.map Prod.fst) t ->
          substituteTemplate template (rendered args) (entries.map Prod.fst) =
            (t.substitute (environment owner entries args)).render.toList := by
        rw [htext htop hbound.1]
        exact substituteTemplate_eq_of_unmarked hbound
      refine ⟨template, rfl, hsubstitute, ?_⟩
      intro hbraces
      refine ⟨?_, hsubstitute⟩
      intro heq
      rw [htext htop hbound.1] at heq
      exact unmarked_of_substituteTemplate_eq hbound hbraces heq

namespace Box

/-- The one type parameter of `Box<E>`. -/
def entries : List (Text × List TypeRef) :=
  [(['E'], [])]

def args : List TypeRef :=
  [.named (.named "java.lang.String") []]

/-- `List<E[]>` -/
def elements : TypeRef :=
  .named (.named "java.util.List") [.array (.typeVariable { owner := "Box", index := 0 })]

def elementsSig : List UInt8 :=
  "Ljava/util/List<[TE;>;".toList.map ascii

def markedSig : List UInt8 :=
  ("Lp/".toList ++ (mark 0 ++ [';'])).map ascii

def marked : TypeRef :=
  .named (.named (String.ofList ("p.".toList ++ mark 0))) []

theorem leaves_elements :
    leaves elements =
      [.className (.named "java.util.List"), .typeVariable { owner := "Box", index := 0 }] := rfl

theorem elements_unmarked : Unmarked (rendered args) (entries.map Prod.fst) elements where
  classNames := by
    intro id hid i _ hmark
    rw [leaves_elements] at hid
    have hname : id = .named "java.util.List" := by simpa using hid
    subst hname
    have hbrace : '{' ∉ (TypeRef.renderId (.named "java.util.List")).toList := by decide +kernel
    exact hbrace (hmark.subset List.mem_cons_self)
  arguments := by
    intro v hv arg harg i _ _ hmark
    rw [leaves_elements] at hv
    have hvariable : v = { owner := "Box", index := 0 } := by simpa using hv
    subst hvariable
    have hargument : (rendered args)[0]? = some "String".toList := by decide +kernel
    have htext : "String".toList = arg := Option.some.inj (hargument.symm.trans harg)
    have hbrace : '{' ∉ "String".toList := by decide
    rw [htext] at hbrace
    exact hbrace (hmark.subset List.mem_cons_self)

theorem elements_agree :
    exists template, fieldTemplate elementsSig [['E']] = some template ∧
      substituteTemplate template (rendered args) [['E']] =
        (elements.substitute (environment "Box" entries args)).render.toList := by
  have hparse : parseFieldSignature elementsSig (classParams "Box" entries) = some elements := by
    decide +kernel
  have htop : TopLevel elements := by
    intro binary hbinary
    rw [leaves_elements] at hbinary
    have hname : binary = "java.util.List" := by simpa using hbinary
    subst hname
    decide
  have hbound : Bound (environment "Box" entries args) elements := by
    refine ⟨by decide, ?_⟩
    intro v hv
    rw [leaves_elements] at hv
    have hvariable : v = { owner := "Box", index := 0 } := by simpa using hv
    subst hvariable
    decide
  rcases display_agrees_with_structure hparse htop hbound with ⟨template, htemplate, hagrees, _⟩
  exact ⟨template, htemplate, hagrees elements_unmarked⟩

/-- The display shows the argument in place of the class. -/
theorem marked_class_is_filled_in :
    parseFieldSignature markedSig (classParams "Box" entries) = some marked ∧
      TopLevel marked ∧ Bound (environment "Box" entries args) marked ∧
      fieldTemplate markedSig (entries.map Prod.fst) = some (mark 0) ∧
      substituteTemplate (mark 0) (rendered args) (entries.map Prod.fst) = "String".toList ∧
      (marked.substitute (environment "Box" entries args)).render.toList = mark 0 := by
  refine ⟨by decide +kernel, ?_, ⟨by decide, ?_⟩, by decide +kernel, by decide +kernel,
    by decide +kernel⟩
  · intro binary hbinary
    have hleaves : leaves marked =
        [.className (.named (String.ofList ("p.".toList ++ mark 0)))] := rfl
    rw [hleaves] at hbinary
    have hname : binary = String.ofList ("p.".toList ++ mark 0) := by simpa using hbinary
    subst hname
    decide +kernel
  · intro v hv
    have hnone : .typeVariable v ∉ leaves marked := by
      intro hmem
      cases List.mem_singleton.mp hmem
    exact absurd hv hnone

end Box

end Signatures
end JavaVsixLite
