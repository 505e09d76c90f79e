import JavaVsixLite.Foundation.Pathnames

/-!
# Paths put together by `path.join`

The parts are joined at separators, empty parts left out, and the path is
normalized: a step up takes back the name in front of it, and at the root it stays
there.  The result is given by its components.
-/

namespace JavaVsixLite
namespace Foundation

namespace Component

def settleNext (done : List Component) : Component -> List Component
  | .parent =>
    match done.getLast? with
    | some (.normal _) => done.dropLast
    | some .root => done
    | _ => done ++ [.parent]
  | c => done ++ [c]

def settle (path : List Component) : List Component :=
  path.foldl settleNext []

theorem settle_append_normal (path : List Component) {names : List Component}
    (h : forall c, c ∈ names -> c.isNormal = true) :
    settle (path ++ names) = settle path ++ names := by
  unfold settle
  rw [List.foldl_append]
  generalize path.foldl settleNext [] = done
  induction names generalizing done with
  | nil => simp
  | cons c rest ih =>
    have hrest : forall d, d ∈ rest -> d.isNormal = true := by
      intro d hd
      exact h d (List.mem_cons_of_mem c hd)
    have hc := h c List.mem_cons_self
    cases c with
    | normal name =>
      rw [List.foldl_cons, ih hrest]
      simp [settleNext]
    | drive name => cases hc
    | root => cases hc
    | parent => cases hc

end Component

namespace Platform

variable (P : Platform)

/-- The text that `path.join` normalizes. -/
def joinedText (parts : List Text) : Text :=
  [P.mainSep].intercalate (parts.filter (fun part => !part.isEmpty))

def nodeJoin (parts : List Text) : List Component :=
  Component.settle (P.components (P.joinedText parts))

def BareDrive (path : Text) : Prop :=
  path ≠ [] ∧ (P.splitDrive path).2 = []

instance (path : Text) : Decidable (P.BareDrive path) :=
  inferInstanceAs (Decidable (_ ∧ _))

structure PlainPart (part : Text) : Prop where
  no_sep : forall c, c ∈ part -> P.isSep c = false
  no_colon : ':' ∉ part

section

variable {P} {parts : List Text}

theorem plainPart_of_all {part : Text} (h : part.all (fun c => !P.isSep c && c != ':') = true) :
    P.PlainPart part := by
  rw [List.all_eq_true] at h
  constructor
  · intro c hc
    have hplain := h c hc
    rw [Bool.and_eq_true, Bool.not_eq_true'] at hplain
    exact hplain.1
  · intro hcolon
    have hplain := h ':' hcolon
    simp at hplain

theorem names_intercalate (h : forall part, part ∈ parts -> P.PlainPart part) :
    P.names ([P.mainSep].intercalate parts) = parts.filterMap nameOf := by
  induction parts with
  | nil => exact P.names_nil
  | cons part rest ih =>
    have hpart := P.names_of_no_sep (h part List.mem_cons_self).no_sep
    have hrest := ih (fun other hother => h other (List.mem_cons_of_mem part hother))
    have hcons : (part :: rest).filterMap nameOf =
        (nameOf part).toList ++ rest.filterMap nameOf := by
      cases hname : nameOf part <;> simp [hname]
    cases rest with
    | nil =>
      rw [List.intercalate_singleton, hpart, hcons]
      simp
    | cons next rest =>
      rw [List.intercalate_cons_cons, List.append_assoc, List.singleton_append,
        P.names_append_sep part _ P.isSep_mainSep, hrest, hpart, hcons]

theorem filterMap_nameOf_filter (parts : List Text) :
    (parts.filter (fun part => !part.isEmpty)).filterMap nameOf = parts.filterMap nameOf := by
  rw [List.filterMap_filter]
  apply List.filterMap_congr
  intro part _
  cases part with
  | nil => rfl
  | cons c rest => rfl

theorem colon_notMem_intercalate (h : forall part, part ∈ parts -> P.PlainPart part) :
    ':' ∉ [P.mainSep].intercalate parts := by
  induction parts with
  | nil => simp [List.intercalate]
  | cons part rest ih =>
    have hrest := ih (fun other hother => h other (List.mem_cons_of_mem part hother))
    have hpart := (h part List.mem_cons_self).no_colon
    have hsep : ':' ≠ P.mainSep := by cases P <;> decide
    cases rest with
    | nil => simpa [List.intercalate_singleton] using hpart
    | cons next rest =>
      rw [List.intercalate_cons_cons]
      simp [hpart, hrest, hsep]

theorem splitDrive_of_no_colon {path : Text} (h : ':' ∉ path) : P.splitDrive path = ([], path) := by
  cases P with
  | unix => rfl
  | windows =>
    match path with
    | [] => rfl
    | [c] => rfl
    | c :: d :: rest =>
      have hd : d ≠ ':' := by
        intro heq
        apply h
        rw [heq]
        exact List.mem_cons_of_mem c List.mem_cons_self
      simp [splitDrive, hd]

theorem startsAtSep_intercalate (h : forall part, part ∈ parts -> P.PlainPart part)
    (hnonempty : forall part, part ∈ parts -> part ≠ []) :
    P.startsAtSep ([P.mainSep].intercalate parts) = false := by
  cases parts with
  | nil => rfl
  | cons part rest =>
    cases part with
    | nil => exact absurd rfl (hnonempty [] List.mem_cons_self)
    | cons c part =>
      have hc : P.isSep c = false := (h _ List.mem_cons_self).no_sep c List.mem_cons_self
      cases rest with
      | nil => simp [startsAtSep, List.intercalate_singleton, hc]
      | cons next rest => simp [startsAtSep, List.intercalate_cons_cons, hc]

theorem components_of_splitDrive {path drive rest : Text} (h : P.splitDrive path = (drive, rest)) :
    P.components path =
      (if drive = [] then [] else [.drive drive]) ++
        (if P.startsAtSep rest then [.root] else []) ++ P.names rest := by
  unfold components
  rw [h]

theorem components_joinedText {root : Text}
    (h : forall part, part ∈ parts -> P.PlainPart part)
    (hsome : parts.filter (fun part => !part.isEmpty) ≠ []) :
    P.components (P.joinedText (root :: parts)) =
      P.components root ++ (if P.BareDrive root then [.root] else []) ++
        parts.filterMap nameOf := by
  have hplain : forall part, part ∈ parts.filter (fun part => !part.isEmpty) ->
      P.PlainPart part := by
    intro part hpart
    exact h part (List.mem_filter.mp hpart).1
  have hnonempty : forall part, part ∈ parts.filter (fun part => !part.isEmpty) ->
      part ≠ [] := by
    intro part hpart
    simpa using (List.mem_filter.mp hpart).2
  have hnames := names_intercalate hplain
  rw [filterMap_nameOf_filter] at hnames
  have hcolon := colon_notMem_intercalate hplain
  have hstart := startsAtSep_intercalate hplain hnonempty
  have hdrive := splitDrive_of_no_colon (P := P) hcolon
  by_cases hroot : root = []
  · have htext : P.joinedText (root :: parts) =
        [P.mainSep].intercalate (parts.filter (fun part => !part.isEmpty)) := by
      rw [hroot]
      rfl
    have hbare : ¬ P.BareDrive root := fun hb => hb.1 hroot
    have hnone : P.components [] = [] := by cases P <;> rfl
    rw [htext, components_of_splitDrive hdrive, hstart, hnames, if_neg hbare, hroot, hnone]
    rfl
  · have htext : P.joinedText (root :: parts) =
        root ++ P.mainSep ::
          [P.mainSep].intercalate (parts.filter (fun part => !part.isEmpty)) := by
      have hkept : (root :: parts).filter (fun part => !part.isEmpty) =
          root :: parts.filter (fun part => !part.isEmpty) := by
        simp [hroot]
      unfold joinedText
      rw [hkept, List.intercalate_cons_of_ne_nil hsome, List.append_assoc,
        List.singleton_append]
    generalize [P.mainSep].intercalate (parts.filter (fun part => !part.isEmpty)) = tail at *
    have hcolon' : ':' ∉ P.mainSep :: tail := by
      have hsep : ':' ≠ P.mainSep := by cases P <;> decide
      simp [hcolon, hsep]
    have hnames' : P.names (P.mainSep :: tail) = parts.filterMap nameOf := by
      rw [← hnames]
      have hsplit := P.names_append_sep [] tail P.isSep_mainSep
      rw [P.names_nil] at hsplit
      exact hsplit
    have hsep : P.startsAtSep (P.mainSep :: tail) = true := by
      simp [startsAtSep, P.isSep_mainSep]
    rw [htext]
    by_cases hrest : (P.splitDrive root).2 = []
    · have hbare : P.BareDrive root := ⟨hroot, hrest⟩
      have hwhole : P.splitDrive root = (root, []) := by
        have happend := P.splitDrive_append root
        rw [hrest, List.append_nil] at happend
        exact Prod.ext happend hrest
      have hnone : P.startsAtSep [] = false := rfl
      rw [components_of_splitDrive
          (splitDrive_bare_append hrest (splitDrive_of_no_colon hcolon')),
        components_of_splitDrive hwhole, if_pos hbare, hsep, hnames', hnone, P.names_nil]
      simp [hroot]
    · have hbare : ¬ P.BareDrive root := fun hb => hrest hb.2
      have hhead : (P.mainSep :: tail).head? = some ':' -> root.getLast?.any P.isSep = true := by
        intro hhead
        exfalso
        apply hcolon'
        exact List.mem_of_head? hhead
      have hsplit := P.splitDrive_append_text (P.mainSep :: tail) hrest hhead
      rw [components_of_splitDrive hsplit, if_neg hbare, P.startsAtSep_append hrest,
        P.names_append_sep _ tail P.isSep_mainSep]
      have htail : P.names tail = parts.filterMap nameOf := hnames
      rw [htail, components_of_splitDrive (Prod.eta (P.splitDrive root)).symm]
      simp only [List.append_assoc, List.append_nil]

end

end Platform

end Foundation
end JavaVsixLite
