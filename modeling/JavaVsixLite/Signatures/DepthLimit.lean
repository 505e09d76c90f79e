import JavaVsixLite.Signatures.ReadTypes

/-!
# Types beyond the nesting cap

A printed type that nests deeper than the parser goes makes it fail, wherever in the type
the depth is and whatever follows.  What is read before the deep part is read as usual.
-/

namespace JavaVsixLite
namespace Signatures

open Foundation
open Foundation.Parser (Reads ManyReads WhileReads StopsAt NotNext Rejects ManyRejects
  WhileRejects)

/-!
# One level
-/

section Levels

variable {scope : Scope} {parse : Parser TypeRef}

variable {bytes more : List UInt8}

theorem rejects_array (h : Rejects parse bytes) :
    Rejects (typeParseInner scope parse) (ascii '[' :: bytes) := by
  apply Rejects.bump
  exact h.bind _

theorem rejects_typeArgs {args : Args} (hsome : args ≠ .nil)
    (h : ManyRejects (ascii '>') (typeArgStructured parse) args.printItems) :
    Rejects (typeArgsStructured parse) args.print := by
  have hlist : Rejects (typeArgsStructured parse)
      (ascii '<' :: (args.printItems ++ [ascii '>'])) := by
    apply Rejects.look
    rw [if_neg (by decide)]
    apply Rejects.expect
    exact (h.manyUntil.bind _).append _
  cases args with
  | nil => exact absurd rfl hsome
  | any rest | exactly t rest | upper t rest | lower t rest => exact hlist

theorem manyRejects_any (h : ManyRejects (ascii '>') (typeArgStructured parse) more) :
    ManyRejects (ascii '>') (typeArgStructured parse) (ascii '*' :: more) :=
  ManyRejects.cons (by decide) reads_any h

theorem manyRejects_exactly {t : Sig}
    (h : Rejects parse t.print ∨ exists value, Reads (fun _ => True) parse t.print value ∧
      ManyRejects (ascii '>') (typeArgStructured parse) more) :
    ManyRejects (ascii '>') (typeArgStructured parse) (t.print ++ more) := by
  rcases h with ht | ⟨value, ht, hmore⟩
  · rcases print_starts t with ⟨c, hc, rest, hprint⟩
    rw [hprint] at ht ⊢
    apply ManyRejects.append
    apply ManyRejects.here (typeStarts_apart hc '>' (by decide))
    intro after
    rw [List.cons_append, typeArg_of_typeStarts hc]
    exact ht after
  · have hitem := reads_exactly ht
    rcases print_starts t with ⟨c, hc, rest, hprint⟩
    rw [hprint] at hitem ⊢
    exact ManyRejects.cons (typeStarts_apart hc '>' (by decide)) hitem hmore

theorem manyRejects_upper
    (h : Rejects parse bytes ∨ exists bound, Reads (fun _ => True) parse bytes bound ∧
      ManyRejects (ascii '>') (typeArgStructured parse) more) :
    ManyRejects (ascii '>') (typeArgStructured parse) (ascii '+' :: (bytes ++ more)) := by
  rcases h with hbound | ⟨bound, hbound, hmore⟩
  · apply ManyRejects.here (by decide)
    exact Rejects.peek (Rejects.bump ((hbound.bind _).append more))
  · exact ManyRejects.cons (by decide) (reads_upper hbound) hmore

theorem manyRejects_lower
    (h : Rejects parse bytes ∨ exists bound, Reads (fun _ => True) parse bytes bound ∧
      ManyRejects (ascii '>') (typeArgStructured parse) more) :
    ManyRejects (ascii '>') (typeArgStructured parse) (ascii '-' :: (bytes ++ more)) := by
  rcases h with hbound | ⟨bound, hbound, hmore⟩
  · apply ManyRejects.here (by decide)
    exact Rejects.peek (Rejects.bump ((hbound.bind _).append more))
  · exact ManyRejects.cons (by decide) (reads_lower hbound) hmore

theorem rejects_innerClass {read : Text × List TypeRef} {name : Text} {args : Args}
    (hname : identifier name = true) (hsome : args ≠ .nil)
    (h : Rejects (typeArgsStructured parse) args.print) :
    Rejects (innerClassStructured parse read) (Utf8.encode name ++ args.print) :=
  Rejects.behind (reads_simpleName hname) (stopsAt_args_of_ne_nil hsome) (h.bind _)

section ClassTypes

variable {packages : List Text} {name : Text} {args : Args} {suffixes : Suffixes}

theorem rejects_classType_args
    (hpackages : forall package, package ∈ packages -> identifier package = true)
    (hname : identifier name = true) (hsome : args ≠ .nil)
    (h : Rejects (typeArgsStructured parse) args.print) :
    Rejects (typeParseInner scope parse) (Sig.classType packages name args suffixes).print := by
  rw [Sig.print]
  apply Rejects.bump
  show Rejects (classTypeStructured parse) _
  have hstops : forall after, StopsAt classNameStops
      ((args.print ++ (suffixes.print ++ [ascii ';'])) ++ after) := by
    intro after
    rw [List.append_assoc]
    exact stopsAt_args_of_ne_nil hsome _
  exact Rejects.behind (reads_qualifiedName hpackages hname) hstops ((h.bind _).append _)

theorem rejects_classType_suffixes {outer : List TypeRef}
    (hpackages : forall package, package ∈ packages -> identifier package = true)
    (hname : identifier name = true)
    (hargs : Reads (NotNext (ascii '<')) (typeArgsStructured parse) args.print outer)
    (hsome : suffixes ≠ .nil)
    (h : WhileRejects (ascii '.') (innerClassStructured parse)
      (slashesToDots (qualified '/' packages name), outer) suffixes.print) :
    Rejects (typeParseInner scope parse) (Sig.classType packages name args suffixes).print := by
  rw [Sig.print]
  apply Rejects.bump
  show Rejects (classTypeStructured parse) _
  have hends : forall after, EndsName ((suffixes.print ++ [ascii ';']) ++ after) := by
    intro after
    rw [List.append_assoc]
    exact endsName_suffixes_of_ne_nil hsome _
  apply Rejects.behind (reads_qualifiedName hpackages hname)
  · intro after
    rw [List.append_assoc]
    exact stopsAt_args args (hends after)
  · apply Rejects.behind hargs (fun after => (hends after).notNext)
    exact (h.whileNext.bind _).append _

end ClassTypes

end Levels

/-!
# All levels
-/

theorem lt_max_cases {n a b : Nat} (h : n < max a b) : n < a ∨ a ≤ n ∧ n < b := by
  omega

theorem args_ne_nil_of_depth {args : Args} {levels : Nat} (h : levels < args.depth) :
    args ≠ .nil := by
  rintro rfl
  rw [Args.depth] at h
  exact Nat.not_lt_zero _ h

theorem suffixes_ne_nil_of_depth {suffixes : Suffixes} {levels : Nat}
    (h : levels < suffixes.depth) : suffixes ≠ .nil := by
  rintro rfl
  rw [Suffixes.depth] at h
  exact Nat.not_lt_zero _ h

theorem reads_args (scope : Scope) {args : Args} {levels : Nat} (hwell : args.wellFormed = true)
    (hdepth : args.depth ≤ levels) :
    Reads (NotNext (ascii '<')) (typeArgsStructured (typeParse scope levels)) args.print
      (args.denote (lookupVar scope)) := by
  apply reads_typeArgs (manyReads_args scope args levels hwell hdepth)
  rintro rfl
  rw [Args.denote]

mutual
theorem rejects_type (scope : Scope) :
    (t : Sig) -> (levels : Nat) -> t.wellFormed = true -> levels < t.depth ->
      Rejects (typeParse scope levels) t.print
  | _, 0, _, _ => Rejects.fail
  | .base _, levels + 1, _, hdepth => by
    rw [Sig.depth] at hdepth
    omega
  | .typeVar _, levels + 1, _, hdepth => by
    rw [Sig.depth] at hdepth
    omega
  | .array element, levels + 1, hwell, hdepth => by
    rw [Sig.depth] at hdepth
    rw [Sig.wellFormed] at hwell
    rw [Sig.print]
    exact rejects_array (rejects_type scope element levels hwell (Nat.lt_of_succ_lt_succ hdepth))
  | .classType packages name args suffixes, levels + 1, hwell, hdepth => by
    rw [Sig.depth] at hdepth
    rw [Sig.wellFormed] at hwell
    simp only [Bool.and_eq_true, List.all_eq_true] at hwell
    rcases hwell with ⟨⟨⟨hpackages, hname⟩, hargs⟩, hsuffixes⟩
    rcases lt_max_cases (Nat.lt_of_succ_lt_succ hdepth) with hdeep | ⟨hshallow, hdeep⟩
    · have hsome := args_ne_nil_of_depth hdeep
      exact rejects_classType_args hpackages hname hsome
        (rejects_typeArgs hsome (rejects_args scope args levels hargs hdeep))
    · exact rejects_classType_suffixes hpackages hname (reads_args scope hargs hshallow)
        (suffixes_ne_nil_of_depth hdeep) (rejects_suffixes scope suffixes _ levels hsuffixes hdeep)

theorem rejects_args (scope : Scope) :
    (args : Args) -> (levels : Nat) -> args.wellFormed = true -> levels < args.depth ->
      ManyRejects (ascii '>') (typeArgStructured (typeParse scope levels)) args.printItems
  | .nil, levels, _, hdepth => by
    rw [Args.depth] at hdepth
    exact absurd hdepth (Nat.not_lt_zero levels)
  | .any rest, levels, hwell, hdepth => by
    rw [Args.depth] at hdepth
    rw [Args.wellFormed] at hwell
    rw [Args.printItems]
    exact manyRejects_any (rejects_args scope rest levels hwell hdepth)
  | .exactly t rest, levels, hwell, hdepth => by
    rw [Args.depth] at hdepth
    rw [Args.wellFormed, Bool.and_eq_true] at hwell
    rw [Args.printItems]
    rcases lt_max_cases hdepth with ht | ⟨ht, hrest⟩
    · exact manyRejects_exactly (.inl (rejects_type scope t levels hwell.1 ht))
    · exact manyRejects_exactly (.inr ⟨_, reads_type scope t levels hwell.1 ht,
        rejects_args scope rest levels hwell.2 hrest⟩)
  | .upper t rest, levels, hwell, hdepth => by
    rw [Args.depth] at hdepth
    rw [Args.wellFormed, Bool.and_eq_true] at hwell
    rw [Args.printItems]
    rcases lt_max_cases hdepth with ht | ⟨ht, hrest⟩
    · exact manyRejects_upper (.inl (rejects_type scope t levels hwell.1 ht))
    · exact manyRejects_upper (.inr ⟨_, reads_type scope t levels hwell.1 ht,
        rejects_args scope rest levels hwell.2 hrest⟩)
  | .lower t rest, levels, hwell, hdepth => by
    rw [Args.depth] at hdepth
    rw [Args.wellFormed, Bool.and_eq_true] at hwell
    rw [Args.printItems]
    rcases lt_max_cases hdepth with ht | ⟨ht, hrest⟩
    · exact manyRejects_lower (.inl (rejects_type scope t levels hwell.1 ht))
    · exact manyRejects_lower (.inr ⟨_, reads_type scope t levels hwell.1 ht,
        rejects_args scope rest levels hwell.2 hrest⟩)

theorem rejects_suffixes (scope : Scope) :
    (suffixes : Suffixes) -> (read : Text × List TypeRef) -> (levels : Nat) ->
      suffixes.wellFormed = true -> levels < suffixes.depth ->
      WhileRejects (ascii '.') (innerClassStructured (typeParse scope levels)) read suffixes.print
  | .nil, _, levels, _, hdepth => by
    rw [Suffixes.depth] at hdepth
    exact absurd hdepth (Nat.not_lt_zero levels)
  | .cons name args rest, (binary, outer), levels, hwell, hdepth => by
    rw [Suffixes.depth] at hdepth
    rw [Suffixes.wellFormed, Bool.and_eq_true, Bool.and_eq_true] at hwell
    rcases hwell with ⟨⟨hname, hargs⟩, hrest⟩
    rw [Suffixes.print, ← List.append_assoc]
    rcases lt_max_cases hdepth with hdeep | ⟨hshallow, hdeep⟩
    · have hsome := args_ne_nil_of_depth hdeep
      have hlist := rejects_typeArgs hsome (rejects_args scope args levels hargs hdeep)
      exact (WhileRejects.here (rejects_innerClass hname hsome hlist)).append _
    · exact WhileRejects.cons (reads_innerClass hname (reads_args scope hargs hshallow))
        (endsName_suffixes_of_ne_nil (suffixes_ne_nil_of_depth hdeep))
        (rejects_suffixes scope rest _ levels hrest hdeep)
end

end Signatures
end JavaVsixLite
