import Mathlib.Logic.Function.Basic

/-!
# Installing a file by a rename

New contents are written to a temporary place and moved from there.  Every step may
fail, and what the disk holds is recorded after every step: at each moment the
final place has its old contents or the new ones.
-/

namespace JavaVsixLite
namespace Foundation

variable {π β ε : Type}

/-- The files of a disk by their places. -/
abbrev Files (π β : Type) := π -> Option β

structure Disk (π β : Type) where
  files : Files π β
  past : List (Files π β)

namespace Disk

def become (d : Disk π β) (files : Files π β) : Disk π β where
  files := files
  past := d.files :: d.past

def Always (p : Files π β -> Prop) (d : Disk π β) : Prop :=
  p d.files ∧ forall f, f ∈ d.past -> p f

theorem Always.become {p : Files π β -> Prop} {d : Disk π β} (h : d.Always p)
    {files : Files π β} (hfiles : p files) : (d.become files).Always p := by
  constructor
  · exact hfiles
  · intro f hf
    cases hf with
    | head => exact h.1
    | tail _ hf => exact h.2 f hf

end Disk

/--
How the steps of one installation go: the error of each, if it fails, and what the
temporary file holds on the way.
-/
structure InstallRun (β ε : Type) where
  mkdir : Option ε
  progress : List β
  write : Option ε
  rename : Option ε
  unlinks : Bool

namespace InstallRun

def error (run : InstallRun β ε) : Option ε :=
  run.mkdir <|> run.write <|> run.rename

end InstallRun

section

variable [DecidableEq π] (run : InstallRun β ε) (tmp final : π) (data : β)

def writeProgress (progress : List β) (d : Disk π β) : Disk π β :=
  progress.foldl (fun d b => d.become (Function.update d.files tmp (some b))) d

def cleanUp (d : Disk π β) : Disk π β :=
  if run.unlinks then d.become (Function.update d.files tmp none) else d

/-- `none` when nothing failed. -/
def install (d : Disk π β) : Option ε × Disk π β :=
  match run.mkdir with
  | some e => (some e, d)
  | none =>
    let written := writeProgress tmp run.progress d
    match run.write with
    | some e => (some e, cleanUp run tmp written)
    | none =>
      let complete := written.become (Function.update written.files tmp (some data))
      match run.rename with
      | some e => (some e, cleanUp run tmp complete)
      | none =>
        (none,
          complete.become
            (Function.update (Function.update complete.files final (complete.files tmp))
              tmp none))

end

section

variable (tmp final : π) (data : β)

def UnchangedBut (old : Files π β) (f : Files π β) : Prop :=
  forall place, place ≠ tmp -> f place = old place

def OldOrNew (old : Files π β) (f : Files π β) : Prop :=
  forall place, place ≠ tmp -> f place = old place ∨ place = final ∧ f place = some data

end

theorem UnchangedBut.oldOrNew {tmp final : π} {data : β} {old f : Files π β}
    (h : UnchangedBut tmp old f) : OldOrNew tmp final data old f := by
  intro place hplace
  exact Or.inl (h place hplace)

section

variable [DecidableEq π] {run : InstallRun β ε} {tmp final : π} {data : β} {d : Disk π β}

theorem UnchangedBut.update {old f : Files π β} (h : UnchangedBut tmp old f) (b : Option β) :
    UnchangedBut tmp old (Function.update f tmp b) := by
  intro place hplace
  rw [Function.update_of_ne hplace]
  exact h place hplace

theorem always_writeProgress {p : Files π β -> Prop} {old : Files π β}
    (hp : forall f, UnchangedBut tmp old f -> p f) (progress : List β)
    (hd : d.Always p) (hfiles : UnchangedBut tmp old d.files) :
    (writeProgress tmp progress d).Always p ∧
      UnchangedBut tmp old (writeProgress tmp progress d).files := by
  induction progress generalizing d with
  | nil => exact ⟨hd, hfiles⟩
  | cons b rest ih =>
    have hnext := hfiles.update (some b)
    exact ih (hd.become (hp _ hnext)) hnext

variable (run) in
theorem always_cleanUp {p : Files π β -> Prop} {old : Files π β}
    (hp : forall f, UnchangedBut tmp old f -> p f)
    (hd : d.Always p) (hfiles : UnchangedBut tmp old d.files) :
    (cleanUp run tmp d).Always p ∧ UnchangedBut tmp old (cleanUp run tmp d).files := by
  unfold cleanUp
  split
  · have hnext := hfiles.update none
    exact ⟨hd.become (hp _ hnext), hnext⟩
  · exact ⟨hd, hfiles⟩

theorem install_error : (install run tmp final data d).1 = run.error := by
  unfold install InstallRun.error
  cases run.mkdir with
  | some e => rfl
  | none =>
    cases run.write with
    | some e => rfl
    | none =>
      cases run.rename with
      | some e => rfl
      | none => rfl

variable (run) in
/-- What an installation does: at every moment, at its end, and when a step fails. -/
theorem install_spec {p : Files π β -> Prop} (hne : final ≠ tmp)
    (hp : forall f, OldOrNew tmp final data d.files f -> p f) (hd : d.Always p) :
    (install run tmp final data d).2.Always p ∧
      (run.error = none ->
        (install run tmp final data d).2.files final = some data ∧
        forall place, place ≠ tmp -> place ≠ final ->
          (install run tmp final data d).2.files place = d.files place) ∧
      (run.error ≠ none -> UnchangedBut tmp d.files (install run tmp final data d).2.files) := by
  have hkeep : forall f, UnchangedBut tmp d.files f -> p f := by
    intro f hf
    exact hp f hf.oldOrNew
  have hstart : UnchangedBut tmp d.files d.files := fun _ _ => rfl
  have hwritten := always_writeProgress hkeep run.progress hd hstart
  unfold install InstallRun.error
  cases run.mkdir with
  | some e =>
    refine ⟨hd, ?_, fun _ => hstart⟩
    intro h
    cases h
  | none =>
    cases run.write with
    | some e =>
      have hclean := always_cleanUp run hkeep hwritten.1 hwritten.2
      refine ⟨hclean.1, ?_, fun _ => hclean.2⟩
      intro h
      cases h
    | none =>
      have hcomplete := hwritten.2.update (some data)
      have halways := hwritten.1.become (hkeep _ hcomplete)
      cases run.rename with
      | some e =>
        have hclean := always_cleanUp run hkeep halways hcomplete
        refine ⟨hclean.1, ?_, fun _ => hclean.2⟩
        intro h
        cases h
      | none =>
        have hplaces : forall place, place ≠ tmp -> place ≠ final ->
            Function.update (Function.update
              (Function.update (writeProgress tmp run.progress d).files tmp (some data))
              final (some data)) tmp none place = d.files place := by
          intro place htmp hfinal
          rw [Function.update_of_ne htmp, Function.update_of_ne hfinal]
          exact hcomplete place htmp
        have hfinal : Function.update (Function.update
              (Function.update (writeProgress tmp run.progress d).files tmp (some data))
              final (some data)) tmp none final = some data := by
          rw [Function.update_of_ne hne, Function.update_self]
        have hmoved : (Function.update (writeProgress tmp run.progress d).files tmp
            (some data)) tmp = some data := Function.update_self _ _ _
        simp only [Disk.become, hmoved]
        refine ⟨?_, fun _ => ⟨hfinal, hplaces⟩, fun h => absurd rfl h⟩
        apply halways.become
        apply hp
        intro place htmp
        by_cases hplace : place = final
        · rw [hplace]
          exact Or.inr ⟨rfl, hfinal⟩
        · exact Or.inl (hplaces place htmp hplace)

end

end Foundation
end JavaVsixLite
