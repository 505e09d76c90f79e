import JavaVsixLite.Classpath.Pom
import JavaVsixLite.Foundation.Brackets
import JavaVsixLite.Foundation.JoinedLists
import JavaVsixLite.Foundation.Utf8

/-!
# Rendered signature labels

A label is the text in front of the parameter list, the labels of the parameters in
parentheses, and whatever follows.  Labels of methods and constructors are rendered from
their nodes.  The parentheses are found again by counting bytes.
-/

namespace JavaVsixLite
namespace Help

open Classpath (isWhitespace trim trimStart)
open Foundation

def collapseWs (text : Text) : Text :=
  [' '].intercalate (words isWhitespace text)

/-!
# Declarations
-/

inductive ParameterKind where
  | formal
  | spread
  | receiver
  | other
deriving DecidableEq

/--
A named child of the parameter list, with the source texts the rendering reads: the fields
`type` and `name`, and for a spread parameter its first child that is neither modifiers nor
declarator, and the name of its declarator.
-/
structure ParameterNode where
  kind : ParameterKind
  type : Option Text
  name : Option Text

inductive ModifierNode where
  | annotation
  | keyword (text : Text)

inductive DeclarationKind where
  | method
  | annotationTypeElement
  | constructor

/-- The node of a method or a constructor, with the source texts of its parts. -/
structure Declaration where
  kind : DeclarationKind
  modifiers : Option (List ModifierNode)
  type : Option Text
  name : Option Text
  parameters : Option (List ParameterNode)
  throws : Option (List Text)

def paramSignature (param : ParameterNode) : Text :=
  let ty := (param.type.map collapseWs).getD []
  let name := param.name.getD []
  if param.kind = .spread then trim (ty ++ (['.', '.', '.', ' '] ++ name))
  else trim (ty ++ (' ' :: name))

def paramLabels (node : Declaration) : List Text :=
  ((node.parameters.getD []).filter (fun param => param.kind != .other)).map paramSignature

def parameters (node : Declaration) : Text :=
  [',', ' '].intercalate (paramLabels node)

def ModifierNode.text? : ModifierNode -> Option Text
  | annotation => none
  | keyword text => if text = [] then none else some text

/-- The keywords among the modifiers, `none` when there are none. -/
def modifierKeywords (node : Declaration) : Option Text :=
  match (node.modifiers.getD []).filterMap ModifierNode.text? with
  | [] => none
  | keywords => some ([' '].intercalate keywords)

def throwsClause (node : Declaration) : Option Text :=
  node.throws.map (fun types =>
    "throws ".toList ++ [',', ' '].intercalate (types.map collapseWs))

def heading (parts : List Text) (node : Declaration) : Text :=
  [' '].intercalate parts ++ (' ' :: node.name.getD [])

def methodSignature (node : Declaration) : Text :=
  let parts := (modifierKeywords node).toList ++ (node.type.map collapseWs).toList
  let sig := trimStart (heading parts node ++ ('(' :: (parameters node ++ [')'])))
  match throwsClause node with
  | none => sig
  | some clause => sig ++ (' ' :: clause)

def constructorSignature (node : Declaration) : Text :=
  trimStart (heading (modifierKeywords node).toList node ++ ('(' :: (parameters node ++ [')'])))

def signature (node : Declaration) : Text :=
  match node.kind with
  | .method | .annotationTypeElement => methodSignature node
  | .constructor => constructorSignature node

/-!
# The parentheses of the parameter list
-/

/-- `b'c'` -/
def byte (c : Char) : UInt8 :=
  UInt8.ofNat c.toNat

/-- The loop of `param_list_span`; the depth wraps around. -/
def closingFrom : Int32 -> Nat -> List UInt8 -> Option Nat
  | _, _, [] => none
  | depth, i, b :: rest =>
    if b = byte '(' then closingFrom (depth + 1) (i + 1) rest
    else if b = byte ')' then
      if depth - 1 = 0 then some i else closingFrom (depth - 1) (i + 1) rest
    else closingFrom depth (i + 1) rest

/-- The offsets of the first opening parenthesis and of the one that closes it. -/
def paramListSpan (label : Text) : Option (Nat × Nat) :=
  let bytes := Utf8.encode label
  match bytes.findIdx? (fun b => b = byte '(') with
  | none => none
  | some left => (closingFrom 0 left (bytes.drop left)).map (fun right => (left, right))

/-!
# Brackets of a label
-/

def pair (left right c : Char) : Int :=
  if c = left then 1 else if c = right then -1 else 0

abbrev round : Char -> Int := pair '(' ')'
abbrev square : Char -> Int := pair '[' ']'
abbrev angle : Char -> Int := pair '<' '>'

def NoTopLevelComma (label : Text) : Prop :=
  forall before after, label = before ++ (',' :: after) ->
    ¬ (depth round before = 0 ∧ depth square before = 0 ∧ depth angle before = 0)

structure ParameterLabel (label : Text) : Prop where
  nonempty : label ≠ []
  trimmed : trim label = label
  round : Balanced round label
  square : Balanced square label
  angle : Balanced angle label
  noComma : NoTopLevelComma label

instance (weight : Char -> Int) (label : Text) : Decidable (Balanced weight label) :=
  decidable_of_iff
    ((forall front, front ∈ label.inits -> 0 ≤ depth weight front) ∧ depth weight label = 0)
    ⟨fun h => ⟨fun front hfront => h.1 front ((List.mem_inits front label).mpr hfront), h.2⟩,
      fun h => ⟨fun front hfront => h.1 front ((List.mem_inits front label).mp hfront), h.2⟩⟩

instance (label : Text) : Decidable (NoTopLevelComma label) :=
  decidable_of_iff
    (forall before, before ∈ label.inits -> before ++ [','] <+: label ->
      ¬ (depth round before = 0 ∧ depth square before = 0 ∧ depth angle before = 0))
    ⟨fun h before after hlabel =>
        h before ((List.mem_inits before label).mpr ⟨',' :: after, hlabel.symm⟩)
          ⟨after, by rw [hlabel, List.append_assoc]; rfl⟩,
      fun h before _ hcomma => by
        rcases hcomma with ⟨after, hafter⟩
        rw [List.append_assoc] at hafter
        exact h before after hafter.symm⟩

instance (label : Text) : Decidable (ParameterLabel label) :=
  decidable_of_iff
    (label ≠ [] ∧ trim label = label ∧ Balanced Help.round label ∧ Balanced Help.square label ∧
      Balanced Help.angle label ∧ NoTopLevelComma label)
    ⟨fun h => ⟨h.1, h.2.1, h.2.2.1, h.2.2.2.1, h.2.2.2.2.1, h.2.2.2.2.2⟩,
      fun h => ⟨h.nonempty, h.trimmed, h.round, h.square, h.angle, h.noComma⟩⟩

/-- `front(p1, …, pn)`, with the text behind it. -/
structure RenderedLabel where
  front : Text
  parameters : List Text
  behind : Text
  frontPlain : '(' ∉ front ∧ ')' ∉ front
  wellformed : forall param, param ∈ parameters -> ParameterLabel param

namespace RenderedLabel

def list (l : RenderedLabel) : Text :=
  [',', ' '].intercalate l.parameters

def text (l : RenderedLabel) : Text :=
  l.front ++ ('(' :: (l.list ++ (')' :: l.behind)))

def base (l : RenderedLabel) : Nat :=
  Text.byteLen l.front + 1

def close (l : RenderedLabel) : Nat :=
  l.base + Text.byteLen l.list

end RenderedLabel

/-- The declaration is rendered as the label, with its parameters. -/
def Declaration.Renders (node : Declaration) (l : RenderedLabel) : Prop :=
  signature node = l.text ∧ paramLabels node = l.parameters

instance (node : Declaration) (l : RenderedLabel) : Decidable (node.Renders l) :=
  inferInstanceAs (Decidable (_ ∧ _))

theorem trimStart_append {c : Char} (hc : isWhitespace c = false) (front rest : Text) :
    trimStart (front ++ (c :: rest)) = trimStart front ++ (c :: rest) := by
  unfold trimStart
  induction front with
  | nil => simp [hc]
  | cons d front ih =>
    by_cases hd : isWhitespace d = true
    · rw [List.cons_append, List.dropWhile_cons_of_pos hd, List.dropWhile_cons_of_pos hd, ih]
    · rw [List.cons_append, List.dropWhile_cons_of_neg hd, List.dropWhile_cons_of_neg hd]
      rfl

def labelFront (node : Declaration) : Text :=
  let parts := match node.kind with
    | .method | .annotationTypeElement =>
      (modifierKeywords node).toList ++ (node.type.map collapseWs).toList
    | .constructor => (modifierKeywords node).toList
  trimStart (heading parts node)

theorem methodSignature_eq (node : Declaration) :
    methodSignature node =
      trimStart
          (heading ((modifierKeywords node).toList ++ (node.type.map collapseWs).toList) node) ++
        ('(' :: (parameters node ++
          (')' :: ((throwsClause node).map (fun clause => ' ' :: clause)).getD []))) := by
  have hround : isWhitespace '(' = false := by decide
  simp only [methodSignature, trimStart_append hround]
  cases throwsClause node with
  | none => rfl
  | some clause => simp

theorem signature_eq (node : Declaration) :
    exists behind, signature node =
      labelFront node ++ ('(' :: (parameters node ++ (')' :: behind))) := by
  unfold signature labelFront
  cases node.kind with
  | method => exact ⟨_, methodSignature_eq node⟩
  | annotationTypeElement => exact ⟨_, methodSignature_eq node⟩
  | constructor => exact ⟨[], trimStart_append (by decide) _ _⟩

/-- A declaration without parentheses in front of its parameters is rendered as such a label. -/
theorem exists_renders (node : Declaration)
    (hfront : '(' ∉ labelFront node ∧ ')' ∉ labelFront node)
    (hparams : forall param, param ∈ paramLabels node -> ParameterLabel param) :
    exists l, node.Renders l := by
  rcases signature_eq node with ⟨behind, hsignature⟩
  exact ⟨{ front := labelFront node
           parameters := paramLabels node
           behind := behind
           frontPlain := hfront
           wellformed := hparams }, hsignature, rfl⟩

/-!
# Bytes of a label
-/

theorem encode_ascii {c : Char} (hc : c.toNat < 128) (rest : Text) :
    Utf8.encode (c :: rest) = byte c :: Utf8.encode rest := by
  rw [Utf8.encode, Utf8.encodeChar_ascii hc]
  rfl

theorem ne_byte {c d : Char} (hd : d.toNat < 128) (hne : c ≠ d) {b : UInt8}
    (hb : b ∈ String.utf8EncodeChar c) : b ≠ byte d := by
  rintro rfl
  have hbyte : (byte d).toNat = d.toNat := by
    unfold byte
    rw [UInt8.toNat_ofNat']
    omega
  rcases Utf8.mem_encodeChar hb with hsame | hwide
  · exact hne (Char.toNat_inj.mp (hsame.symm.trans hbyte))
  · omega

theorem findIdx?_byte {front : Text} {c : Char} (hc : c.toNat < 128) (hfront : c ∉ front)
    (rest : Text) :
    (Utf8.encode (front ++ (c :: rest))).findIdx? (fun b => b = byte c) =
      some (Text.byteLen front) := by
  have hnone : (Utf8.encode front).findIdx? (fun b => decide (b = byte c)) = none := by
    rw [List.findIdx?_eq_none_iff]
    intro b hb
    rw [decide_eq_false_iff_not]
    induction front with
    | nil => exact absurd hb List.not_mem_nil
    | cons d front ih =>
      rw [List.mem_cons, not_or] at hfront
      rw [Utf8.encode] at hb
      rcases List.mem_append.mp hb with hhead | htail
      · exact ne_byte hc (Ne.symm hfront.left) hhead
      · exact ih hfront.right htail
  rw [Utf8.encode_append, List.findIdx?_append, hnone, encode_ascii hc, List.findIdx?_cons,
    Utf8.length_encode]
  simp

/-!
# The closing parenthesis
-/

theorem closingFrom_skip {bytes : List UInt8}
    (h : forall b, b ∈ bytes -> b ≠ byte '(' ∧ b ≠ byte ')') (depth : Int32) (i : Nat)
    (rest : List UInt8) :
    closingFrom depth i (bytes ++ rest) = closingFrom depth (i + bytes.length) rest := by
  induction bytes generalizing i with
  | nil => rfl
  | cons b others ih =>
    have hb := h b List.mem_cons_self
    rw [List.cons_append, closingFrom, if_neg hb.left, if_neg hb.right,
      ih (fun a ha => h a (List.mem_cons_of_mem b ha)), List.length_cons,
      Nat.add_assoc, Nat.add_comm 1]

theorem closingFrom_char (d : Int) (i : Nat) (c : Char) (rest : Text) :
    closingFrom (Int32.ofInt d) i (Utf8.encode (c :: rest)) =
      if c = ')' ∧ Int32.ofInt (d - 1) = 0 then some i
      else closingFrom (Int32.ofInt (d + round c)) (i + c.utf8Size) (Utf8.encode rest) := by
  by_cases hleft : c = '('
  · subst hleft
    rw [encode_ascii (by decide), closingFrom, if_pos rfl, if_neg (by simp)]
    simp only [Int32.ofInt_add]
    rfl
  · by_cases hright : c = ')'
    · subst hright
      have hbyte : byte ')' ≠ byte '(' := by decide
      have hweight : d + round ')' = d - 1 := rfl
      rw [encode_ascii (by decide), closingFrom, if_neg hbyte, if_pos rfl, hweight]
      simp only [true_and, Int32.ofInt_sub]
      rfl
    · have hweight : d + round c = d := by
        unfold round pair
        rw [if_neg hleft, if_neg hright, Int.add_zero]
      have hbytes : forall b, b ∈ String.utf8EncodeChar c -> b ≠ byte '(' ∧ b ≠ byte ')' :=
        fun b hb => ⟨ne_byte (by decide) hleft hb, ne_byte (by decide) hright hb⟩
      rw [Utf8.encode, closingFrom_skip hbytes, String.length_utf8EncodeChar, hweight,
        if_neg (by simp [hright])]

/-- Inside of the parentheses the depth is positive, so the loop ends where it is closed. -/
theorem closingFrom_list {xs : Text} {d : Int} (i : Nat) (behind : Text)
    (hinside : forall front, front <+: xs ->
      0 < d + depth round front ∧ d + depth round front < 4294967296)
    (hclosed : d + depth round xs = 1) :
    closingFrom (Int32.ofInt d) i (Utf8.encode (xs ++ (')' :: behind))) =
      some (i + Text.byteLen xs) := by
  induction xs generalizing d i with
  | nil =>
    rw [depth_nil, Int.add_zero] at hclosed
    rw [List.nil_append, closingFrom_char, if_pos ⟨rfl, by rw [hclosed]; rfl⟩]
    rfl
  | cons c rest ih =>
    have hhead := hinside [c] (List.prefix_append [c] rest)
    rw [depth_cons, depth_nil, Int.add_zero] at hhead
    have hopen : ¬ (c = ')' ∧ Int32.ofInt (d - 1) = 0) := by
      rintro ⟨rfl, hzero⟩
      have hweight : d + round ')' = d - 1 := rfl
      rw [hweight] at hhead
      have hsmall := (ofInt_eq_zero_iff hhead.left.le hhead.right).mp hzero
      omega
    have hrest : forall front, front <+: rest ->
        0 < d + round c + depth round front ∧ d + round c + depth round front < 4294967296 := by
      intro front hfront
      have hlonger := hinside (c :: front) ((List.prefix_cons_inj c).mpr hfront)
      rw [depth_cons, ← Int.add_assoc] at hlonger
      exact hlonger
    rw [depth_cons, ← Int.add_assoc] at hclosed
    rw [List.cons_append, closingFrom_char, if_neg hopen, ih _ hrest hclosed,
      Text.byteLen_cons, Nat.add_assoc]

theorem unitWeight_pair (left right : Char) : UnitWeight (pair left right) := by
  intro c
  unfold pair
  split
  · decide
  · split <;> decide

/-- The parentheses of a short label are not nested deeper than the counter reaches. -/
theorem nested_of_short {param : Text} (h : ParameterLabel param)
    (hshort : Text.byteLen param < 4294967296) :
    Nested round (fun n => 0 ≤ n ∧ n < 2147483648) param := by
  have hlength := Text.length_le_byteLen param
  refine (nested_of_balanced (unitWeight_pair '(' ')') h.round).mono ?_
  intro n hn
  omega

theorem paramListSpan_text (l : RenderedLabel)
    (hshort : forall param, param ∈ l.parameters -> Text.byteLen param < 4294967296) :
    paramListSpan l.text = some (Text.byteLen l.front, l.close) := by
  have hsep : Nested round (fun n => 0 ≤ n ∧ n < 2147483648) [',', ' '] :=
    nested_of_plain (by decide) (forall_mem_of_all (by decide))
  have hlist : Nested round (fun n => 0 ≤ n ∧ n < 2147483648) l.list :=
    hsep.intercalate (fun param hparam => nested_of_short (l.wellformed param hparam)
      (hshort param hparam))
  have hinside : forall front, front <+: l.list ->
      0 < 1 + depth round front ∧ 1 + depth round front < 4294967296 := by
    intro front hfront
    have hdepth := hlist.inside front hfront
    omega
  have hclosed : 1 + depth round l.list = 1 := by
    rw [hlist.closed]
    rfl
  have hstart : closingFrom 0 (Text.byteLen l.front)
      (Utf8.encode ('(' :: (l.list ++ (')' :: l.behind)))) = some l.close := by
    have hchar := closingFrom_char 0 (Text.byteLen l.front) '(' (l.list ++ (')' :: l.behind))
    rw [if_neg (by decide)] at hchar
    exact hchar.trans (closingFrom_list _ l.behind hinside hclosed)
  have hdrop : (Utf8.encode l.text).drop (Text.byteLen l.front) =
      Utf8.encode ('(' :: (l.list ++ (')' :: l.behind))) := by
    rw [RenderedLabel.text, Utf8.encode_append, ← Utf8.length_encode, List.drop_left]
  have hfound : (Utf8.encode l.text).findIdx? (fun b => b = byte '(') =
      some (Text.byteLen l.front) :=
    findIdx?_byte (by decide) l.frontPlain.left (l.list ++ (')' :: l.behind))
  simp only [paramListSpan, hfound, hdrop, hstart, Option.map_some]

end Help
end JavaVsixLite
