import Mathlib.Data.List.Infix
import JavaVsixLite.Foundation.ByteText
import JavaVsixLite.Foundation.Tables

/-!
# File trees with symbolic links

A place is the list of names from the top of the tree down.  At a place stands a
directory, a file or a link, and a link names a path from the top or from its own
directory.  A path is followed step by step through the links on it; a link that is
met again while it is followed itself leads nowhere.
-/

namespace JavaVsixLite
namespace Foundation

/-- A step of a path; `.` counts for nothing. -/
inductive PathStep where
  | up
  | down (name : Text)
deriving DecidableEq

abbrev Place := List Text

inductive TreeNode where
  | directory
  | file
  | link (fromTop : Bool) (target : List PathStep)
deriving DecidableEq

inductive IoErrorKind where
  | notFound
  | notADirectory
  | filesystemLoop
deriving DecidableEq

/-- The top is always a directory. -/
structure LinkedTree where
  nodes : Table Place TreeNode

namespace LinkedTree

variable (tree : LinkedTree)

def nodeAt (place : Place) : Option TreeNode :=
  if place = [] then some .directory else tree.nodes.lookup place

def isDir (place : Place) : Bool :=
  tree.nodeAt place == some .directory

def unopened (active : List Place) : List Place :=
  tree.nodes.keys.filter (fun place => place ∉ active)

variable {tree} in
theorem length_unopened_lt {active : List Place} {place : Place} {node : TreeNode}
    (hplace : place ≠ []) (hnode : tree.nodeAt place = some node) (hnew : place ∉ active) :
    (tree.unopened (place :: active)).length < (tree.unopened active).length := by
  have hkey : place ∈ tree.nodes.keys := by
    rw [nodeAt, if_neg hplace] at hnode
    exact Table.mem_keys_iff.mpr ⟨node, hnode⟩
  have hsub : tree.unopened (place :: active) =
    (tree.unopened active).filter (fun p => p ≠ place) := by
    unfold unopened
    rw [List.filter_filter]
    apply List.filter_congr
    intro p _
    simp [not_or]
  rw [hsub]
  apply List.length_filter_lt_length_iff_exists.mpr
  refine ⟨place, ?_, by simp⟩
  exact List.mem_filter.mpr ⟨hkey, decide_eq_true hnew⟩

def linkStart (fromTop : Bool) (place : Place) : Place :=
  match fromTop with
  | true => []
  | false => place

/-- The place that steps lead to, while the links of `active` are followed. -/
@[grind =] def follow (active : List Place) (place : Place) :
    List PathStep -> Except IoErrorKind Place
  | [] => .ok place
  | .up :: rest =>
    if tree.isDir place then follow active place.dropLast rest else .error .notADirectory
  | .down name :: rest =>
    if tree.isDir place then
      match _hnode : tree.nodeAt (place ++ [name]) with
      | none => .error .notFound
      | some (.link fromTop target) =>
        if _hnew : place ++ [name] ∈ active then .error .filesystemLoop
        else
          match follow ((place ++ [name]) :: active) (linkStart fromTop place) target with
          | .error e => .error e
          | .ok reached => follow active reached rest
      | some _ => follow active (place ++ [name]) rest
    else .error .notADirectory
termination_by steps => ((tree.unopened active).length, steps.length)
decreasing_by
  · exact Prod.Lex.right _ (Nat.lt_succ_self _)
  · exact Prod.Lex.left _ _ (length_unopened_lt (by simp) _hnode _hnew)
  · exact Prod.Lex.right _ (Nat.lt_succ_self _)
  · exact Prod.Lex.right _ (Nat.lt_succ_self _)

def canonicalize (path : List PathStep) : Except IoErrorKind Place :=
  tree.follow [] [] path

def childNames (place : Place) : List Text :=
  tree.nodes.keys.filterMap (fun key => if key.dropLast = place then key.getLast? else none)

def readDir (path : List PathStep) : Except IoErrorKind (List Text) :=
  match tree.canonicalize path with
  | .error e => .error e
  | .ok place => if tree.isDir place then .ok (tree.childNames place) else .error .notADirectory

/-!
# Paths followed in two parts
-/

section

variable {tree}

theorem follow_nil (active : List Place) (place : Place) :
    tree.follow active place [] = .ok place := by
  rw [follow]

variable {place : Place} {name : Text} {path : List PathStep}

theorem follow_up (h : tree.isDir place = true) (active : List Place) (rest : List PathStep) :
    tree.follow active place (.up :: rest) = tree.follow active place.dropLast rest := by
  rw [follow, if_pos h]

theorem follow_down {node : TreeNode} (hdir : tree.isDir place = true)
    (hnode : tree.nodeAt (place ++ [name]) = some node)
    (hlink : forall fromTop target, node ≠ .link fromTop target) (active : List Place)
    (rest : List PathStep) :
    tree.follow active place (.down name :: rest) =
      tree.follow active (place ++ [name]) rest := by
  rw [follow, if_pos hdir]
  split
  · rename_i hnone
    rw [hnode] at hnone
    cases hnone
  · rename_i fromTop target hfound
    rw [hnode] at hfound
    cases hfound
    exact absurd rfl (hlink fromTop target)
  · rfl

theorem follow_down_none (hdir : tree.isDir place = true)
    (hnode : tree.nodeAt (place ++ [name]) = none) (active : List Place) (rest : List PathStep) :
    tree.follow active place (.down name :: rest) = .error .notFound := by
  rw [follow, if_pos hdir]
  split
  · rfl
  · rename_i hfound
    rw [hnode] at hfound
    cases hfound
  · rename_i hfound
    rw [hnode] at hfound
    cases hfound

theorem follow_link {fromTop : Bool} {target : List PathStep} (hdir : tree.isDir place = true)
    (hnode : tree.nodeAt (place ++ [name]) = some (.link fromTop target)) (active : List Place)
    (rest : List PathStep) :
    tree.follow active place (.down name :: rest) =
      if place ++ [name] ∈ active then .error .filesystemLoop
      else
        (tree.follow ((place ++ [name]) :: active) (linkStart fromTop place) target).bind
          (fun reached => tree.follow active reached rest) := by
  rw [follow, if_pos hdir]
  split
  · rename_i hnone
    rw [hnode] at hnone
    cases hnone
  · rename_i fromTop' target' hfound
    rw [hnode] at hfound
    cases hfound
    split
    · rfl
    · split
      · rename_i htarget
        rw [htarget]
        rfl
      · rename_i htarget
        rw [htarget]
        rfl
  · rename_i hlink hfound
    rw [hnode] at hfound
    cases hfound
    exact absurd rfl (hlink fromTop target)

theorem follow_cons (active : List Place) (place : Place) (step : PathStep)
    (rest : List PathStep) :
    tree.follow active place (step :: rest) =
      (tree.follow active place [step]).bind (fun reached => tree.follow active reached rest) := by
  cases step with
  | up =>
    rw [follow, follow]
    split
    · rw [follow_nil]
      rfl
    · rfl
  | down name =>
    rw [follow.eq_def, follow.eq_def tree active place [.down name]]
    simp only
    split
    · split
      · rfl
      · split
        · rfl
        · split
          · rfl
          · rw [follow_nil]
            rfl
      · rw [follow_nil]
        rfl
    · rfl

theorem follow_append (active : List Place) (place : Place) (front back : List PathStep) :
    tree.follow active place (front ++ back) =
      (tree.follow active place front).bind (fun reached => tree.follow active reached back) := by
  induction front generalizing place with
  | nil =>
    rw [follow_nil]
    rfl
  | cons step front ih =>
    rw [List.cons_append, follow_cons, follow_cons active place step front]
    cases tree.follow active place [step] with
    | error e => rfl
    | ok reached => exact ih reached

/-!
# Places without links
-/

/-- Every name on the way down is that of a directory; the last may be that of a file. -/
inductive Solid (tree : LinkedTree) : Place -> Prop where
  | top : Solid tree []
  | down {place : Place} {name : Text} {node : TreeNode} (above : Solid tree place)
      (hdir : tree.isDir place = true) (hnode : tree.nodeAt (place ++ [name]) = some node)
      (hlink : forall fromTop target, node ≠ .link fromTop target) :
      Solid tree (place ++ [name])

theorem Solid.dropLast {place : Place} (h : Solid tree place) : Solid tree place.dropLast := by
  cases h with
  | top => exact .top
  | down above hdir hnode hlink =>
    rw [List.dropLast_concat]
    exact above

theorem solid_linkStart (fromTop : Bool) (h : Solid tree place) :
    Solid tree (linkStart fromTop place) := by
  cases fromTop with
  | true => exact .top
  | false => exact h

theorem solid_of_follow {active : List Place} {reached : Place} {steps : List PathStep}
    (hplace : Solid tree place) (h : tree.follow active place steps = .ok reached) :
    Solid tree reached := by
  induction active, place, steps using follow.induct tree generalizing reached with
  | case1 active place =>
    rw [follow_nil] at h
    cases h
    exact hplace
  | case2 active place rest hdir ih =>
    rw [follow_up hdir] at h
    exact ih hplace.dropLast h
  | case3 active place rest hdir =>
    rw [follow, if_neg hdir] at h
    cases h
  | case4 active place name rest hdir hnode =>
    rw [follow_down_none hdir hnode] at h
    cases h
  | case5 active place name rest hdir fromTop target hnode hactive =>
    rw [follow_link hdir hnode, if_pos hactive] at h
    cases h
  | case6 active place name rest hdir fromTop target hnode hactive e htarget ih =>
    rw [follow_link hdir hnode, if_neg hactive, htarget] at h
    cases h
  | case7 active place name rest hdir fromTop target hnode hactive reached htarget ih ihrest =>
    rw [follow_link hdir hnode, if_neg hactive, htarget] at h
    exact ihrest (ih (solid_linkStart fromTop hplace) htarget) h
  | case8 active place name rest hdir node hlink hnode ih =>
    rw [follow_down hdir hnode hlink] at h
    exact ih (.down hplace hdir hnode hlink) h
  | case9 active place name rest hdir =>
    rw [follow, if_neg hdir] at h
    cases h

theorem canonicalize_of_solid (h : Solid tree place) :
    tree.canonicalize (place.map .down) = .ok place := by
  unfold canonicalize
  induction h with
  | top => exact follow_nil [] []
  | down above hdir hnode hlink ih =>
    rw [List.map_append, follow_append, ih]
    show tree.follow [] _ _ = _
    rw [List.map_singleton, follow_down hdir hnode hlink, follow_nil]

theorem canonicalize_canonical (h : tree.canonicalize path = .ok place) :
    tree.canonicalize (place.map .down) = .ok place :=
  canonicalize_of_solid (solid_of_follow .top h)

theorem canonicalize_append (h : tree.canonicalize path = .ok place) (steps : List PathStep) :
    tree.canonicalize (path ++ steps) = tree.canonicalize (place.map .down ++ steps) := by
  have hplace := canonicalize_canonical h
  unfold canonicalize at *
  rw [follow_append, follow_append, h, hplace]

theorem readDir_canonical (h : tree.canonicalize path = .ok place) :
    tree.readDir path = tree.readDir (place.map .down) := by
  rw [readDir, readDir, h, canonicalize_canonical h]

theorem mem_childNames :
    name ∈ tree.childNames place <-> exists node, tree.nodeAt (place ++ [name]) = some node := by
  unfold childNames nodeAt
  rw [if_neg (by simp), ← Table.mem_keys_iff, List.mem_filterMap]
  constructor
  · intro h
    rcases h with ⟨key, hkey, hname⟩
    split at hname
    · rename_i habove
      have hkey' := List.dropLast_append_getLast? name hname
      rw [habove] at hkey'
      rw [hkey']
      exact hkey
    · cases hname
  · intro h
    exact ⟨place ++ [name], h, by simp⟩

theorem mem_top_or_keys (h : tree.isDir place = true) : place ∈ [] :: tree.nodes.keys := by
  by_cases hplace : place = []
  · rw [hplace]
    exact List.mem_cons_self
  · have hnode : tree.nodeAt place = some .directory := by simpa [isDir] using h
    rw [nodeAt, if_neg hplace] at hnode
    exact List.mem_cons_of_mem [] (Table.mem_keys_iff.mpr ⟨.directory, hnode⟩)

end

end LinkedTree
end Foundation
end JavaVsixLite
