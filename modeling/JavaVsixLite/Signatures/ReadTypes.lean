import JavaVsixLite.Signatures.Grammar

/-!
# Reading printed types

A printed type is read back as what it stands for, whatever follows it.  The proof
follows the grammar: arguments up to their closing bracket, names up to the byte that
ends them.
-/

namespace JavaVsixLite
namespace Signatures

open Foundation
open Foundation.Parser (Reads ManyReads WhileReads StopsAt NotNext)

/-!
# Names
-/

variable {name : Text} {c : Char} {packages : List Text}

theorem not_mem_of_identifier (h : identifier name = true) (hc : c ∈ reserved) : c ∉ name := by
  intro hmem
  unfold identifier at h
  rw [Bool.and_eq_true, List.all_eq_true] at h
  have hfree := h.2 c hmem
  simp [hc] at hfree

theorem ne_nil_of_identifier (h : identifier name = true) : name ≠ [] := by
  rintro rfl
  cases h

theorem toNat_lt_of_reserved (h : c ∈ reserved) : c.toNat < 128 := by
  revert c
  simp [reserved]

theorem encode_avoids {stops : List Char} (hstops : stops ⊆ reserved)
    (h : forall c, c ∈ stops -> c ∉ name) :
    forall b, b ∈ Utf8.encode name -> b ∉ stops.map ascii := by
  intro b hb hstop
  rcases List.mem_map.mp hstop with ⟨c, hc, rfl⟩
  exact h c hc (Utf8.mem_of_ascii_mem_encode (toNat_lt_of_reserved (hstops hc)) hb)

theorem reads_name (stops : List Char) (hstops : stops ⊆ reserved)
    (h : forall c, c ∈ stops -> c ∉ name) :
    Reads (StopsAt (stops.map ascii)) (Parser.readUntil (stops.map ascii)) (Utf8.encode name)
      name :=
  Reads.readUntil (encode_avoids hstops h)

theorem avoids_of_identifier (h : identifier name = true) {stops : List Char}
    (hstops : stops ⊆ reserved) : forall c, c ∈ stops -> c ∉ name :=
  fun _ hc => not_mem_of_identifier h (hstops hc)

theorem nameEnds_reserved : ['<', ';', '.'] ⊆ reserved := by
  simp [reserved]

theorem mem_qualified {separator : Char} (h : c ∈ qualified separator packages name) :
    c = separator ∨ (exists package, package ∈ packages ∧ c ∈ package) ∨ c ∈ name := by
  unfold qualified at h
  rcases List.mem_append.mp h with hpackages | hname
  · rcases List.mem_flatMap.mp hpackages with ⟨package, hpackage, hc⟩
    rcases List.mem_append.mp hc with hc | hc
    · exact .inr (.inl ⟨package, hpackage, hc⟩)
    · exact .inl (List.mem_singleton.mp hc)
  · exact .inr (.inr hname)

theorem slashesToDots_of_identifier (h : identifier name = true) :
    slashesToDots name = name := by
  have hslash : '/' ∉ name := not_mem_of_identifier h (by decide)
  unfold slashesToDots
  have hsame : forall c, c ∈ name -> (if c = '/' then '.' else c) = id c := by
    intro c hc
    apply if_neg
    rintro rfl
    exact hslash hc
  rw [List.map_congr_left hsame, List.map_id]

theorem slashesToDots_qualified
    (hpackages : forall package, package ∈ packages -> identifier package = true)
    (hname : identifier name = true) :
    slashesToDots (qualified '/' packages name) = qualified '.' packages name := by
  induction packages with
  | nil => exact slashesToDots_of_identifier hname
  | cons package rest ih =>
    have hpackage := slashesToDots_of_identifier (hpackages package List.mem_cons_self)
    have hrest := ih (fun p hp => hpackages p (List.mem_cons_of_mem _ hp))
    have hsplit : forall separator, qualified separator (package :: rest) name =
        package ++ separator :: qualified separator rest name := by
      intro separator
      simp [qualified]
    rw [hsplit, hsplit, ← hrest]
    unfold slashesToDots at hpackage ⊢
    rw [List.map_append, List.map_cons, hpackage]
    rfl

theorem reads_className (h : forall c, c ∈ ['<', ';', '.'] -> c ∉ name) :
    Reads (StopsAt classNameStops) (Parser.readUntil classNameStops) (Utf8.encode name) name :=
  reads_name ['<', ';', '.'] nameEnds_reserved h

theorem reads_simpleName (h : identifier name = true) :
    Reads (StopsAt classNameStops) (Parser.readUntil classNameStops) (Utf8.encode name) name := by
  apply reads_className
  exact avoids_of_identifier h nameEnds_reserved

theorem reads_qualifiedName
    (hpackages : forall package, package ∈ packages -> identifier package = true)
    (hname : identifier name = true) :
    Reads (StopsAt classNameStops) (Parser.readUntil classNameStops)
      (Utf8.encode (qualified '/' packages name)) (qualified '/' packages name) := by
  apply reads_className
  intro c hc hmem
  have hreserved : c ∈ reserved := nameEnds_reserved hc
  rcases mem_qualified hmem with rfl | ⟨package, hpackage, hc⟩ | hc
  · simp at hc
  · exact not_mem_of_identifier (hpackages package hpackage) hreserved hc
  · exact not_mem_of_identifier hname hreserved hc

/-!
# Types
-/

def typeStarts : List Char :=
  ['B', 'C', 'D', 'F', 'I', 'J', 'S', 'Z', 'T', '[', 'L']

theorem print_starts (t : Sig) :
    exists c, c ∈ typeStarts ∧ exists rest, t.print = ascii c :: rest := by
  cases t with
  | base p =>
    rw [Sig.print]
    exact ⟨baseLetter p, by cases p <;> decide, [], rfl⟩
  | typeVar name =>
    rw [Sig.print]
    exact ⟨'T', by decide, _, rfl⟩
  | array element =>
    rw [Sig.print]
    exact ⟨'[', by decide, _, rfl⟩
  | classType packages name args suffixes =>
    rw [Sig.print]
    exact ⟨'L', by decide, _, rfl⟩

/-- The type that starts so is no wildcard, and neither ends a list nor a bound. -/
theorem typeStarts_apart (h : c ∈ typeStarts) :
    forall d, d ∈ ['*', '+', '-', '<', '>', ')', ':', 'V'] -> ascii c ≠ ascii d := by
  have hall : typeStarts.all (fun c =>
      ['*', '+', '-', '<', '>', ')', ':', 'V'].all (fun d => ascii c != ascii d)) = true := rfl
  intro d hd
  have hc := List.all_eq_true.mp hall c h
  exact bne_iff_ne.mp (List.all_eq_true.mp hc d hd)

theorem typeArg_of_typeStarts {parse : Parser TypeRef} (h : c ∈ typeStarts) (rest : List UInt8) :
    typeArgStructured parse (ascii c :: rest) = parse (ascii c :: rest) := by
  simp only [typeStarts, List.mem_cons, List.not_mem_nil, or_false] at h
  rcases h with rfl | rfl | rfl | rfl | rfl | rfl | rfl | rfl | rfl | rfl | rfl <;> rfl

section Types

variable {scope : Scope} {parse : Parser TypeRef}

theorem reads_base (p : PrimitiveType) :
    Reads (fun _ => True) (typeParseInner scope parse) [ascii (baseLetter p)] (.primitive p) := by
  intro after _
  cases p <;> rfl

variable {name : Text} {bytes : List UInt8} {args : Args} {values : List TypeRef} {bound : TypeRef}
  {more after : List UInt8} {binary : Text} {outer : List TypeRef}

theorem reads_typeVar (h : identifier name = true) :
    Reads (fun _ => True) (typeParseInner scope parse)
      (ascii 'T' :: (Utf8.encode name ++ [ascii ';'])) (lookupVar scope name) := by
  have hstop : [';'] ⊆ reserved := by simp [reserved]
  have hname := reads_name [';'] hstop (avoids_of_identifier h hstop)
  apply Reads.bump
  show Reads _ (Parser.readUntil [ascii ';'] >>= fun name =>
    Parser.expect (ascii ';') >>= fun _ => Parser.pure (lookupVar scope name)) _ _
  apply hname.bind
  · intro after _ b hb
    injection hb with hb
    rw [← hb]
    exact List.mem_singleton.mpr rfl
  · exact Reads.expect (Reads.pure _)

theorem reads_array {element : TypeRef} (h : Reads (fun _ => True) parse bytes element) :
    Reads (fun _ => True) (typeParseInner scope parse) (ascii '[' :: bytes) (.array element) := by
  apply Reads.bump
  exact h.map TypeRef.array

theorem reads_typeArgs (h : ManyReads (ascii '>') (typeArgStructured parse) args.printItems values)
    (hnil : args = .nil -> values = []) :
    Reads (NotNext (ascii '<')) (typeArgsStructured parse) args.print values := by
  have hlist : Reads (fun _ => True) (typeArgsStructured parse)
      (ascii '<' :: (args.printItems ++ [ascii '>'])) values := by
    apply Reads.look
    rw [if_neg (by decide)]
    apply Reads.expect
    apply h.manyUntil.bind (fun after _ => rfl)
    exact Reads.expect (Reads.pure _)
  cases args with
  | nil =>
    intro after hafter
    have hnone : (after.head? != some (ascii '<')) = true := by
      simpa [NotNext] using hafter
    show (if (after.head? != some (ascii '<')) = true then Parser.pure [] else _ :
      Parser (List TypeRef)) after = _
    rw [if_pos hnone, hnil rfl]
    rfl
  | any rest => exact hlist.weaken (fun _ _ => trivial)
  | exactly t rest => exact hlist.weaken (fun _ _ => trivial)
  | upper t rest => exact hlist.weaken (fun _ _ => trivial)
  | lower t rest => exact hlist.weaken (fun _ _ => trivial)

theorem reads_any : Reads (fun _ => True) (typeArgStructured parse) [ascii '*']
    (.wildcard none none) :=
  fun _ _ => rfl

theorem reads_upper (h : Reads (fun _ => True) parse bytes bound) :
    Reads (fun _ => True) (typeArgStructured parse) (ascii '+' :: bytes)
      (.wildcard (some bound) none) :=
  Reads.peek (Reads.bump (h.map (fun bound => TypeRef.wildcard (some bound) none)))

theorem reads_lower (h : Reads (fun _ => True) parse bytes bound) :
    Reads (fun _ => True) (typeArgStructured parse) (ascii '-' :: bytes)
      (.wildcard none (some bound)) :=
  Reads.peek (Reads.bump (h.map (fun bound => TypeRef.wildcard none (some bound))))

theorem reads_exactly {t : Sig} {value : TypeRef}
    (h : Reads (fun _ => True) parse t.print value) :
    Reads (fun _ => True) (typeArgStructured parse) t.print value := by
  rcases print_starts t with ⟨c, hc, rest, hprint⟩
  rw [hprint] at h ⊢
  intro after hafter
  rw [List.cons_append, typeArg_of_typeStarts hc]
  exact h after hafter

theorem manyReads_any (h : ManyReads (ascii '>') (typeArgStructured parse) bytes values) :
    ManyReads (ascii '>') (typeArgStructured parse) (ascii '*' :: bytes)
      (.wildcard none none :: values) :=
  ManyReads.cons (by decide) reads_any h

theorem manyReads_upper (hbound : Reads (fun _ => True) parse bytes bound)
    (h : ManyReads (ascii '>') (typeArgStructured parse) more values) :
    ManyReads (ascii '>') (typeArgStructured parse) (ascii '+' :: (bytes ++ more))
      (.wildcard (some bound) none :: values) :=
  ManyReads.cons (by decide) (reads_upper hbound) h

theorem manyReads_lower (hbound : Reads (fun _ => True) parse bytes bound)
    (h : ManyReads (ascii '>') (typeArgStructured parse) more values) :
    ManyReads (ascii '>') (typeArgStructured parse) (ascii '-' :: (bytes ++ more))
      (.wildcard none (some bound) :: values) :=
  ManyReads.cons (by decide) (reads_lower hbound) h

theorem manyReads_exactly {t : Sig} {value : TypeRef}
    (ht : Reads (fun _ => True) parse t.print value)
    (h : ManyReads (ascii '>') (typeArgStructured parse) more values) :
    ManyReads (ascii '>') (typeArgStructured parse) (t.print ++ more) (value :: values) := by
  have hitem := reads_exactly ht
  rcases print_starts t with ⟨c, hc, rest, hprint⟩
  rw [hprint] at hitem ⊢
  exact ManyReads.cons (typeStarts_apart hc '>' (by decide)) hitem h

def EndsName (after : List UInt8) : Prop :=
  after.head? = some (ascii '.') ∨ after.head? = some (ascii ';')

theorem EndsName.notNext (h : EndsName after) : NotNext (ascii '<') after := by
  unfold NotNext
  rcases h with h | h <;> rw [h] <;> decide

theorem stopsAt_args_of_ne_nil (hsome : args ≠ .nil) (after : List UInt8) :
    StopsAt classNameStops (args.print ++ after) := by
  intro b hb
  cases args with
  | nil => exact absurd rfl hsome
  | any rest | exactly t rest | upper t rest | lower t rest =>
    rw [Args.print] at hb
    injection hb with hb
    rw [← hb]
    decide

theorem stopsAt_args (args : Args) (h : EndsName after) :
    StopsAt classNameStops (args.print ++ after) := by
  by_cases hsome : args = .nil
  · intro b hb
    rw [hsome, Args.print, List.nil_append] at hb
    rcases h with h | h
    · rw [h] at hb
      injection hb with hb
      rw [← hb]
      decide
    · rw [h] at hb
      injection hb with hb
      rw [← hb]
      decide
  · exact stopsAt_args_of_ne_nil hsome after

theorem endsName_suffixes_of_ne_nil {suffixes : Suffixes} (hsome : suffixes ≠ .nil)
    (after : List UInt8) : EndsName (suffixes.print ++ after) := by
  cases suffixes with
  | nil => exact absurd rfl hsome
  | cons name args rest =>
    rw [Suffixes.print]
    exact .inl rfl

theorem endsName_suffixes (suffixes : Suffixes) (h : after.head? = some (ascii ';')) :
    EndsName (suffixes.print ++ after) := by
  cases suffixes with
  | nil => exact .inr h
  | cons name args rest =>
    rw [Suffixes.print]
    exact .inl rfl

theorem reads_innerClass (hname : identifier name = true)
    (hargs : Reads (NotNext (ascii '<')) (typeArgsStructured parse) args.print values) :
    Reads EndsName (innerClassStructured parse (binary, outer)) (Utf8.encode name ++ args.print)
      (binary ++ '$' :: name, values) := by
  apply (reads_simpleName hname).bind (fun after hafter => stopsAt_args args hafter)
  exact (hargs.weaken (fun _ h => h.notNext)).map (fun args => (binary ++ '$' :: name, args))

theorem whileReads_suffix {rest : Suffixes} {last : Text × List TypeRef}
    (hname : identifier name = true)
    (hargs : Reads (NotNext (ascii '<')) (typeArgsStructured parse) args.print values)
    (hrest : WhileReads (fun after => after.head? = some (ascii ';')) (ascii '.')
      (innerClassStructured parse) (binary ++ '$' :: name, values) rest.print last) :
    WhileReads (fun after => after.head? = some (ascii ';')) (ascii '.')
      (innerClassStructured parse)
      (binary, outer) (Suffixes.cons name args rest).print last := by
  rw [Suffixes.print, ← List.append_assoc]
  exact WhileReads.cons (reads_innerClass hname hargs)
    (fun after hafter => endsName_suffixes rest hafter) hrest

theorem reads_classType {packages : List Text} {suffixes : Suffixes}
    (hpackages : forall package, package ∈ packages -> identifier package = true)
    (hname : identifier name = true)
    (hargs : Reads (NotNext (ascii '<')) (typeArgsStructured parse) args.print outer)
    (hsuffixes : WhileReads (fun after => after.head? = some (ascii ';')) (ascii '.')
      (innerClassStructured parse) (qualified '.' packages name, outer) suffixes.print
      (binary, values)) :
    Reads (fun _ => True) (typeParseInner scope parse)
      (Sig.classType packages name args suffixes).print
      (.named (.named (String.ofList binary)) values) := by
  rw [Sig.print]
  apply Reads.bump
  show Reads _ (classTypeStructured parse) _ _
  have hsemicolon : forall after : List UInt8, True ->
      ([ascii ';'] ++ after).head? = some (ascii ';') := fun _ _ => rfl
  have hends : forall after : List UInt8, True ->
      EndsName ((suffixes.print ++ [ascii ';']) ++ after) := by
    intro after _
    rw [List.append_assoc]
    exact endsName_suffixes suffixes rfl
  apply (reads_qualifiedName hpackages hname).bind
  · intro after hafter
    rw [List.append_assoc]
    exact stopsAt_args args (hends after hafter)
  apply hargs.bind (fun after hafter => (hends after hafter).notNext)
  rw [slashesToDots_qualified hpackages hname]
  apply hsuffixes.whileNext.bind hsemicolon
  exact Reads.expect (Reads.pure _)

end Types

theorem exists_level {depth levels : Nat} (h : depth + 1 ≤ levels) :
    exists below, levels = below + 1 ∧ depth ≤ below :=
  ⟨levels - 1, by omega, by omega⟩

mutual
theorem reads_type (scope : Scope) :
    (t : Sig) -> (levels : Nat) -> t.wellFormed = true -> t.depth ≤ levels ->
      Reads (fun _ => True) (typeParse scope levels) t.print (t.denote (lookupVar scope))
  | .base p, levels, _, hdepth => by
    rw [Sig.depth] at hdepth
    rcases exists_level hdepth with ⟨below, rfl, _⟩
    rw [Sig.print, Sig.denote]
    exact reads_base p
  | .typeVar name, levels, hwell, hdepth => by
    rw [Sig.depth] at hdepth
    rw [Sig.wellFormed] at hwell
    rcases exists_level hdepth with ⟨below, rfl, _⟩
    rw [Sig.print, Sig.denote]
    exact reads_typeVar hwell
  | .array element, levels, hwell, hdepth => by
    rw [Sig.depth] at hdepth
    rw [Sig.wellFormed] at hwell
    rcases exists_level hdepth with ⟨below, rfl, hbelow⟩
    rw [Sig.print, Sig.denote]
    exact reads_array (reads_type scope element below hwell hbelow)
  | .classType packages name args suffixes, levels, hwell, hdepth => by
    rw [Sig.depth] at hdepth
    rw [Sig.wellFormed] at hwell
    simp only [Bool.and_eq_true, List.all_eq_true] at hwell
    rcases hwell with ⟨⟨⟨hpackages, hname⟩, hargs⟩, hsuffixes⟩
    rcases exists_level hdepth with ⟨below, rfl, hbelow⟩
    have hitems := manyReads_args scope args below hargs (by omega)
    have hchain := whileReads_suffixes scope suffixes (qualified '.' packages name)
      (args.denote (lookupVar scope)) below hsuffixes (by omega)
    rw [Sig.denote]
    apply reads_classType hpackages hname _ hchain
    apply reads_typeArgs hitems
    rintro rfl
    rw [Args.denote]

theorem manyReads_args (scope : Scope) :
    (args : Args) -> (levels : Nat) -> args.wellFormed = true -> args.depth ≤ levels ->
      ManyReads (ascii '>') (typeArgStructured (typeParse scope levels)) args.printItems
        (args.denote (lookupVar scope))
  | .nil, levels, _, _ => by
    rw [Args.printItems, Args.denote]
    exact ManyReads.nil
  | .any rest, levels, hwell, hdepth => by
    rw [Args.depth] at hdepth
    rw [Args.wellFormed] at hwell
    rw [Args.printItems, Args.denote]
    exact manyReads_any (manyReads_args scope rest levels hwell hdepth)
  | .exactly t rest, levels, hwell, hdepth => by
    rw [Args.depth] at hdepth
    rw [Args.wellFormed, Bool.and_eq_true] at hwell
    rw [Args.printItems, Args.denote]
    exact manyReads_exactly (reads_type scope t levels hwell.1 (by omega))
      (manyReads_args scope rest levels hwell.2 (by omega))
  | .upper t rest, levels, hwell, hdepth => by
    rw [Args.depth] at hdepth
    rw [Args.wellFormed, Bool.and_eq_true] at hwell
    rw [Args.printItems, Args.denote]
    exact manyReads_upper (reads_type scope t levels hwell.1 (by omega))
      (manyReads_args scope rest levels hwell.2 (by omega))
  | .lower t rest, levels, hwell, hdepth => by
    rw [Args.depth] at hdepth
    rw [Args.wellFormed, Bool.and_eq_true] at hwell
    rw [Args.printItems, Args.denote]
    exact manyReads_lower (reads_type scope t levels hwell.1 (by omega))
      (manyReads_args scope rest levels hwell.2 (by omega))

theorem whileReads_suffixes (scope : Scope) :
    (suffixes : Suffixes) -> (binary : Text) -> (outer : List TypeRef) -> (levels : Nat) ->
      suffixes.wellFormed = true -> suffixes.depth ≤ levels ->
      WhileReads (fun after => after.head? = some (ascii ';')) (ascii '.')
        (innerClassStructured (typeParse scope levels)) (binary, outer) suffixes.print
        (suffixes.join binary, suffixes.innermost (lookupVar scope) outer)
  | .nil, binary, outer, levels, _, _ => by
    rw [Suffixes.print, Suffixes.join, Suffixes.innermost]
    apply WhileReads.nil
    intro after hafter
    unfold NotNext
    rw [hafter]
    decide
  | .cons name args rest, binary, outer, levels, hwell, hdepth => by
    rw [Suffixes.depth] at hdepth
    rw [Suffixes.wellFormed, Bool.and_eq_true, Bool.and_eq_true] at hwell
    rcases hwell with ⟨⟨hname, hargs⟩, hrest⟩
    rw [Suffixes.join, Suffixes.innermost]
    apply whileReads_suffix hname _
      (whileReads_suffixes scope rest _ _ levels hrest (by omega))
    apply reads_typeArgs (manyReads_args scope args levels hargs (by omega))
    rintro rfl
    rw [Args.denote]
end

theorem reads_admissible (scope : Scope) {t : Sig} (h : t.admissible = true) :
    Reads (fun _ => True) (typeParse scope maxSigDepth) t.print (t.denote (lookupVar scope)) := by
  unfold Sig.admissible at h
  rw [Bool.and_eq_true, decide_eq_true_eq] at h
  exact reads_type scope t maxSigDepth h.1 h.2

/-!
# The variables of a type

Two ways to look variables up give the same meaning exactly when they agree on the
variables that the meaning keeps.
-/

section Variables

variable (f g : Text -> TypeRef)

mutual
theorem denote_eq_iff :
    (t : Sig) -> (t.denote f = t.denote g <-> forall v, v ∈ t.vars -> f v = g v)
  | .base p => by simp [Sig.denote, Sig.vars]
  | .typeVar name => by simp [Sig.denote, Sig.vars]
  | .array element => by
    rw [Sig.denote, Sig.denote, Sig.vars, TypeRef.array.injEq]
    exact denote_eq_iff element
  | .classType packages name args suffixes => by
    rw [Sig.denote, Sig.denote, Sig.vars, TypeRef.named.injEq]
    have hargs := innermost_eq_iff suffixes (args_denote_eq_iff args)
    exact ⟨fun h => hargs.mp h.2, fun h => ⟨rfl, hargs.mpr h⟩⟩

theorem args_denote_eq_iff :
    (args : Args) -> (args.denote f = args.denote g <-> forall v, v ∈ args.vars -> f v = g v)
  | .nil => by simp [Args.denote, Args.vars]
  | .any rest => by
    rw [Args.denote, Args.denote, Args.vars, List.cons.injEq, args_denote_eq_iff rest]
    exact ⟨fun h => h.2, fun h => ⟨rfl, h⟩⟩
  | .exactly t rest => by
    rw [Args.denote, Args.denote, Args.vars, List.cons.injEq, denote_eq_iff t,
      args_denote_eq_iff rest, List.forall_mem_append]
  | .upper t rest => by
    rw [Args.denote, Args.denote, Args.vars, List.cons.injEq, args_denote_eq_iff rest,
      List.forall_mem_append, ← denote_eq_iff t]
    simp
  | .lower t rest => by
    rw [Args.denote, Args.denote, Args.vars, List.cons.injEq, args_denote_eq_iff rest,
      List.forall_mem_append, ← denote_eq_iff t]
    simp

theorem innermost_eq_iff :
    (suffixes : Suffixes) -> {outer outer' : List TypeRef} -> {vars : List Text} ->
      (outer = outer' <-> forall v, v ∈ vars -> f v = g v) ->
      (suffixes.innermost f outer = suffixes.innermost g outer' <->
        forall v, v ∈ suffixes.vars vars -> f v = g v)
  | .nil, outer, outer', vars, houter => by
    rw [Suffixes.innermost, Suffixes.innermost, Suffixes.vars]
    exact houter
  | .cons name args rest, outer, outer', vars, _ => by
    rw [Suffixes.innermost, Suffixes.innermost, Suffixes.vars]
    exact innermost_eq_iff rest (args_denote_eq_iff args)
end

theorem map_denote_eq_iff (ts : List Sig) :
    ts.map (Sig.denote f) = ts.map (Sig.denote g) <->
      forall v, v ∈ ts.flatMap Sig.vars -> f v = g v := by
  induction ts with
  | nil => simp
  | cons t rest ih =>
    rw [List.map_cons, List.map_cons, List.cons.injEq, ih, denote_eq_iff f g t,
      List.flatMap_cons, List.forall_mem_append]

end Variables

end Signatures
end JavaVsixLite
