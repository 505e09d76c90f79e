import JavaVsixLite.Signatures.ReadTypes

/-!
# Reading printed type parameters

The loop over a type-parameter list never fails and only appends.  It reads a printed
list as it was written when each bound can do with the parameters before it and no
parameter without bounds runs into the next one.
-/

namespace JavaVsixLite
namespace Signatures

open Foundation
open Foundation.Parser (Reads WhileReads NotNext)

/-!
# Bounds
-/

def EndsBounds (bounds : List Sig) (after : List UInt8) : Prop :=
  NotNext (ascii ':') after ∧ (bounds = [] -> endsBound after.head? = true)

section Bounds

variable (scope : Scope)

theorem reads_bound {t : Sig} (h : t.admissible = true) (bounds : List TypeRef) :
    Reads (fun _ => True) (boundStructured (typeParse scope maxSigDepth) bounds) t.print
      (bounds ++ [t.denote (lookupVar scope)]) := by
  have ht := reads_admissible scope h
  rcases print_starts t with ⟨c, hc, rest, hprint⟩
  rw [hprint] at ht ⊢
  have hnot : endsBound (some (ascii c)) = false := by
    have hcolon := typeStarts_apart hc ':' (by decide)
    have hend := typeStarts_apart hc '>' (by decide)
    simp [endsBound, hcolon, hend]
  apply Reads.look
  rw [hnot, if_neg (by decide)]
  exact (Reads.attempt ht).map (fun bound => bounds ++ [bound.getD .unknown])

theorem reads_emptyBound (parse : Parser TypeRef) (bounds : List TypeRef) :
    Reads (fun after => endsBound after.head? = true) (boundStructured parse bounds) [] bounds := by
  intro after hafter
  show (if endsBound after.head? = true then Parser.pure bounds else _ :
    Parser (List TypeRef)) after = _
  rw [if_pos hafter]
  rfl

theorem whileReads_interfaceBounds {ts : List Sig} (h : forall t, t ∈ ts -> t.admissible = true)
    (bounds : List TypeRef) :
    WhileReads (NotNext (ascii ':')) (ascii ':') (boundStructured (typeParse scope maxSigDepth))
      bounds (ts.flatMap (fun bound => ascii ':' :: bound.print))
      (bounds ++ ts.map (Sig.denote (lookupVar scope))) := by
  induction ts generalizing bounds with
  | nil =>
    rw [List.map_nil, List.append_nil]
    exact WhileReads.nil (fun _ hafter => hafter)
  | cons t rest ih =>
    have hfirst := reads_bound scope (h t List.mem_cons_self) bounds
    have hrest := ih (fun t ht => h t (List.mem_cons_of_mem _ ht))
      (bounds ++ [t.denote (lookupVar scope)])
    rw [List.append_assoc] at hrest
    exact WhileReads.cons hfirst (fun _ _ => trivial) hrest

theorem reads_bounds {p : ParamSig} (h : p.admissible = true) :
    Reads (EndsBounds p.bounds) (boundsStructured (typeParse scope maxSigDepth)) p.printBounds
      (p.bounds.map (Sig.denote (lookupVar scope))) := by
  unfold ParamSig.admissible at h
  rw [Bool.and_eq_true, List.all_eq_true] at h
  have hall := h.2
  unfold ParamSig.bounds at hall ⊢
  apply WhileReads.whileNext
  have hinterfaces := whileReads_interfaceBounds scope
    (fun t ht => hall t (List.mem_append.mpr (.inr ht)))
  cases hclass : p.classBound with
  | some t =>
    rw [hclass] at hall
    have hfirst := reads_bound scope (hall t List.mem_cons_self) []
    unfold ParamSig.printBounds
    rw [hclass]
    exact WhileReads.cons hfirst (fun _ _ => trivial)
      ((hinterfaces _).weaken (fun _ hafter => hafter.1))
  | none =>
    have hempty : forall after, EndsBounds p.interfaceBounds after ->
        endsBound ((p.interfaceBounds.flatMap (fun bound => ascii ':' :: bound.print)) ++
          after).head? = true := by
      intro after hafter
      cases hlist : p.interfaceBounds with
      | nil => exact hafter.2 hlist
      | cons t rest => rfl
    have hfirst := reads_emptyBound (typeParse scope maxSigDepth) []
    unfold ParamSig.printBounds
    rw [hclass]
    exact WhileReads.cons hfirst hempty ((hinterfaces []).weaken (fun _ hafter => hafter.1))

end Bounds

/-!
# Type parameters
-/

def readParam (scope : Scope) (owner : String) (out : NamedParams) (p : ParamSig) :
    Text × TypeParameter :=
  (p.name,
    { id := { owner := owner, index := out.length }
      bounds := p.bounds.map (Sig.denote (lookupVar (scope ++ [out]))) })

/-- What the loop makes of the parameters `ps` behind the parameters `out`. -/
def readParams (scope : Scope) (owner : String) : NamedParams -> List ParamSig -> NamedParams
  | out, [] => out
  | out, p :: ps => readParams scope owner (out ++ [readParam scope owner out p]) ps

theorem encode_identifier {name : Text} (h : identifier name = true) :
    exists b rest, Utf8.encode name = b :: rest ∧ b ≠ ascii ':' ∧ b ≠ ascii '>' := by
  have hstops : [':', '>'] ⊆ reserved := by simp [reserved]
  have havoids : forall b, b ∈ Utf8.encode name -> b ∉ [':', '>'].map ascii :=
    encode_avoids hstops (avoids_of_identifier h hstops)
  cases hbytes : Utf8.encode name with
  | nil =>
    have hlen := Utf8.length_encode name
    cases name with
    | nil => exact absurd rfl (ne_nil_of_identifier h)
    | cons c rest =>
      rw [hbytes, Text.byteLen_cons] at hlen
      have hpos := Char.utf8Size_pos c
      simp at hlen
      omega
  | cons b rest =>
    have hb := havoids b (by rw [hbytes]; exact List.mem_cons_self)
    simp only [List.map_cons, List.map_nil, List.mem_cons, List.not_mem_nil, or_false,
      not_or] at hb
    exact ⟨b, rest, rfl, hb⟩

def readTypeParam (scope : Scope) (levels : Nat) (owner : String) (left : Nat)
    (out : NamedParams) : Parser NamedParams := do
  let name <- Parser.readUntil [ascii ':']
  let bounds <- boundsStructured (typeParse (scope ++ [out]) levels)
  typeParamsStructuredFrom scope levels owner left
    (out ++ [(name, { id := { owner := owner, index := out.length }, bounds := bounds })])

theorem typeParamsFrom_cons (scope : Scope) (levels : Nat) (owner : String) (left : Nat)
    (out : NamedParams) (b : UInt8) (tail : List UInt8) :
    typeParamsStructuredFrom scope levels owner (left + 1) out (b :: tail) =
      if b = ascii '>' then (some out, tail)
      else readTypeParam scope levels owner left out (b :: tail) := by
  show (if b = ascii '>' then (Parser.bump >>= fun _ => Parser.pure out)
    else readTypeParam scope levels owner left out : Parser NamedParams) (b :: tail) = _
  split <;> rfl

theorem typeParamsFrom_step (scope : Scope) (levels : Nat) (owner : String) (left : Nat)
    (out : NamedParams) {name : Text} (h : identifier name = true) (tail : List UInt8)
    {bounds : List TypeRef} {rest : List UInt8}
    (hbounds : boundsStructured (typeParse (scope ++ [out]) levels) (ascii ':' :: tail) =
      (some bounds, rest)) :
    typeParamsStructuredFrom scope levels owner (left + 1) out
        (Utf8.encode name ++ ascii ':' :: tail) =
      typeParamsStructuredFrom scope levels owner left
        (out ++ [(name, { id := { owner := owner, index := out.length }, bounds := bounds })])
        rest := by
  have hstop : [':'] ⊆ reserved := by simp [reserved]
  have hname := reads_name [':'] hstop (avoids_of_identifier h hstop)
    (ascii ':' :: tail) (by
      intro b hb
      injection hb with hb
      rw [← hb]
      decide)
  rcases encode_identifier h with ⟨b, bytes, hbytes, _, hend⟩
  have hround : typeParamsStructuredFrom scope levels owner (left + 1) out
      (Utf8.encode name ++ ascii ':' :: tail) =
        readTypeParam scope levels owner left out (Utf8.encode name ++ ascii ':' :: tail) := by
    rw [hbytes, List.cons_append, typeParamsFrom_cons, if_neg hend]
  rw [List.map_singleton] at hname
  rw [hround]
  unfold readTypeParam
  rw [Parser.bind_of_eq_some _ hname, Parser.bind_of_eq_some _ hbounds]

theorem typeParamsFrom_param (scope : Scope) (owner : String) (left : Nat) (out : NamedParams)
    {p : ParamSig} (h : p.admissible = true) {more : List UInt8}
    (hmore : EndsBounds p.bounds more) :
    typeParamsStructuredFrom scope maxSigDepth owner (left + 1) out (p.print ++ more) =
      typeParamsStructuredFrom scope maxSigDepth owner left
        (out ++ [readParam scope owner out p]) more := by
  have hname : identifier p.name = true := (Bool.and_eq_true_iff.mp h).1
  have hbounds := reads_bounds (scope ++ [out]) h more hmore
  unfold ParamSig.print
  rw [List.append_assoc]
  exact typeParamsFrom_step scope maxSigDepth owner left out hname _ hbounds

theorem typeParamsFrom_end (scope : Scope) (owner : String) (left : Nat) (out : NamedParams)
    (after : List UInt8) :
    typeParamsStructuredFrom scope maxSigDepth owner left out (ascii '>' :: after) =
      (some out, after) := by
  cases left with
  | zero => rfl
  | succ left =>
    rw [typeParamsFrom_cons, if_pos rfl]

theorem yields_bound (parse : Parser TypeRef) (bounds : List TypeRef) (input : List UInt8) :
    Parser.Yields (fun read => bounds <+: read) (boundStructured parse bounds) input := by
  show Parser.Yields _ (if endsBound input.head? = true then Parser.pure bounds
    else (Parser.attempt parse >>= fun bound =>
      Parser.pure (bounds ++ [bound.getD .unknown]))) input
  split
  · exact .pure (List.prefix_refl bounds)
  · exact (Parser.Yields.attempt parse).bind (fun _ _ _ => .pure (List.prefix_append bounds _))

theorem yields_boundsFrom (parse : Parser TypeRef) (fuel : Nat) (bounds : List TypeRef)
    (input : List UInt8) :
    Parser.Yields (fun read => bounds <+: read)
      (Parser.whileNextFrom (ascii ':') (boundStructured parse) fuel bounds) input := by
  apply Parser.Yields.whileNextFrom
  · intro read hread input
    rcases yields_bound parse read input with ⟨more, hmore, hlonger⟩
    exact ⟨more, hmore, hread.trans hlonger⟩
  · exact List.prefix_refl bounds

theorem boundStructured_of_not_ends (parse : Parser TypeRef) (bounds : List TypeRef)
    {tail : List UInt8} (h : endsBound tail.head? = false) :
    boundStructured parse bounds tail =
      (some (bounds ++ [(parse tail).1.getD .unknown]), (parse tail).2) := by
  show (if endsBound tail.head? = true then _ else (Parser.attempt parse >>= fun bound =>
    Parser.pure (bounds ++ [bound.getD .unknown])) : Parser (List TypeRef)) tail = _
  rw [if_neg (by rw [h]; decide)]
  rfl

theorem yields_bounds_ne_nil (parse : Parser TypeRef) {tail : List UInt8}
    (h : endsBound tail.head? = false) :
    Parser.Yields (fun bounds => bounds ≠ []) (boundsStructured parse) (ascii ':' :: tail) := by
  rcases yields_boundsFrom parse tail.length [(parse tail).1.getD .unknown] (parse tail).2 with
    ⟨bounds, hbounds, hfirst⟩
  have hloop : boundsStructured parse (ascii ':' :: tail) =
      Parser.whileNextFrom (ascii ':') (boundStructured parse) tail.length
        [(parse tail).1.getD .unknown] (parse tail).2 := by
    exact Parser.bind_of_eq_some _ (boundStructured_of_not_ends parse [] h)
  rw [← hloop] at hbounds
  refine ⟨bounds, hbounds, ?_⟩
  rintro rfl
  exact absurd (List.prefix_nil.mp hfirst) (List.cons_ne_nil _ _)

theorem keeps_typeParamsFrom {inv : NamedParams -> Prop} {owner : String}
    (hpush : forall out name bounds, inv out ->
      inv (out ++ [(name, { id := { owner := owner, index := out.length }, bounds := bounds })]))
    (scope : Scope) (levels left : Nat) {out : NamedParams} (hout : inv out)
    (input : List UInt8) :
    Parser.Yields inv (typeParamsStructuredFrom scope levels owner left out) input := by
  induction left generalizing out input with
  | zero =>
    cases input with
    | nil => exact ⟨out, rfl, hout⟩
    | cons b tail => exact ⟨out, rfl, hout⟩
  | succ left ih =>
    cases input with
    | nil => exact ⟨out, rfl, hout⟩
    | cons b tail =>
      unfold Parser.Yields
      rw [typeParamsFrom_cons]
      split
      · exact ⟨out, rfl, hout⟩
      · apply (Parser.Yields.readUntil [ascii ':']).bind
        intro name _ rest
        apply (yields_boundsFrom (typeParse (scope ++ [out]) levels) rest.length [] rest).bind
        intro bounds _ rest
        exact ih (hpush out name bounds hout) rest

theorem yields_typeParamsFrom (scope : Scope) (levels : Nat) (owner : String) (left : Nat)
    (out : NamedParams) (input : List UInt8) :
    Parser.Yields (fun params => out <+: params)
      (typeParamsStructuredFrom scope levels owner left out) input :=
  keeps_typeParamsFrom (fun more _ _ hmore => hmore.trans (List.prefix_append more _)) scope levels
    left (List.prefix_refl out) input

def Numbered (owner : String) (params : NamedParams) : Prop :=
  params.map (fun entry => entry.2.id) = (List.range params.length).map (TypeVariableId.mk owner)

theorem numbered_typeParams (scope : Scope) (levels : Nat) (owner : String)
    (input : List UInt8) :
    Parser.Yields (Numbered owner) (typeParamsStructured scope levels owner) input := by
  have hpush : forall (out : NamedParams) (name : Text) (bounds : List TypeRef),
      Numbered owner out ->
      Numbered owner
        (out ++ [(name, { id := { owner := owner, index := out.length }, bounds := bounds })]) := by
    intro out name bounds hout
    unfold Numbered at hout ⊢
    rw [List.map_append, hout, List.length_append, List.length_singleton, List.range_succ,
      List.map_append]
    rfl
  have hnil : Numbered owner [] := rfl
  show Parser.Yields _ (if input.head? != some (ascii '<') then Parser.pure []
    else (Parser.bump >>= fun _ => typeParamsStructuredFrom scope levels owner maxEntries [])) input
  cases input with
  | nil => exact .pure hnil
  | cons b tail =>
    split
    · exact .pure hnil
    · exact .bump (keeps_typeParamsFrom hpush scope levels maxEntries hnil tail)

theorem numbered_of_parseMethodSignature {sig : List UInt8} {classParams : NamedParams}
    {owner : String} {typeParams : List TypeParameter} {ret : TypeRef} {params : List TypeRef}
    (h : parseMethodSignature sig classParams owner = some (typeParams, ret, params)) :
    typeParams.map TypeParameter.id =
      (List.range typeParams.length).map (TypeVariableId.mk owner) := by
  have hparse : methodSignatureParser classParams owner sig =
      (some (typeParams, ret, params), (methodSignatureParser classParams owner sig).2) :=
    Prod.ext h rfl
  rcases Parser.of_bind_eq_some hparse with ⟨mparams, tail, hlist, hbody⟩
  rcases Parser.of_bind_eq_some hbody with ⟨_, tail, _, hbody⟩
  rcases Parser.of_bind_eq_some hbody with ⟨_, tail, _, hbody⟩
  rcases Parser.of_bind_eq_some hbody with ⟨_, tail, _, hbody⟩
  rcases Parser.of_bind_eq_some hbody with ⟨_, tail, _, hbody⟩
  cases hbody
  rcases numbered_typeParams [] maxSigDepth owner sig with ⟨found, hfound, hnumbered⟩
  rw [hlist] at hfound
  cases hfound
  rw [List.map_map, List.length_map]
  exact hnumbered

/-- From left to right, every bound means under the parameters read so far what it means
under `f`, and only the last parameter may have none. -/
def ReadsBack (f : Text -> TypeRef) (scope : Scope) (owner : String) :
    NamedParams -> List ParamSig -> Prop
  | _, [] => True
  | out, p :: ps =>
    (forall v, v ∈ p.vars -> f v = lookupVar (scope ++ [out]) v) ∧ (p.bounds = [] -> ps = []) ∧
      ReadsBack f scope owner (out ++ [readParam scope owner out p]) ps

section Lists

variable {scope : Scope} {owner : String} {f : Text -> TypeRef}

variable {ps : List ParamSig} {p : ParamSig} {left : Nat} {out params : NamedParams}
  {rest : List UInt8}

theorem names_of_admissible (hps : forall p, p ∈ ps -> p.admissible = true) :
    forall p, p ∈ ps -> identifier p.name = true :=
  fun p hp => (Bool.and_eq_true_iff.mp (hps p hp)).1

theorem endsBounds_next (hnames : forall q, q ∈ ps -> identifier q.name = true)
    (hlast : p.bounds = [] -> ps = []) (after : List UInt8) :
    EndsBounds p.bounds (ps.flatMap ParamSig.print ++ ascii '>' :: after) := by
  cases ps with
  | nil =>
    refine ⟨?_, fun _ => rfl⟩
    show some (ascii '>') ≠ some (ascii ':')
    decide
  | cons q rest =>
    rcases encode_identifier (hnames q List.mem_cons_self) with ⟨b, bytes, hbytes, hcolon, _⟩
    refine ⟨?_, fun hnone => absurd (hlast hnone) (List.cons_ne_nil _ _)⟩
    unfold NotNext
    rw [List.flatMap_cons, ParamSig.print, hbytes]
    simpa using hcolon

theorem typeParamsFrom_of_readsBack (hps : forall p, p ∈ ps -> p.admissible = true)
    (hleft : ps.length ≤ left) (h : ReadsBack f scope owner out ps) (after : List UInt8) :
    typeParamsStructuredFrom scope maxSigDepth owner left out
        (ps.flatMap ParamSig.print ++ ascii '>' :: after) =
      (some (readParams scope owner out ps), after) := by
  induction ps generalizing left out with
  | nil => exact typeParamsFrom_end scope owner left out after
  | cons p ps ih =>
    rcases h with ⟨_, hlast, hrest⟩
    have hrestPs : forall q, q ∈ ps -> q.admissible = true :=
      fun q hq => hps q (List.mem_cons_of_mem _ hq)
    cases left with
    | zero => cases hleft
    | succ left =>
      rw [List.flatMap_cons, List.append_assoc,
        typeParamsFrom_param scope owner left out (hps p List.mem_cons_self)
          (endsBounds_next (names_of_admissible hrestPs) hlast after)]
      exact ih hrestPs (Nat.le_of_succ_le_succ hleft) hrest

def boundsOf (params : NamedParams) : List (List TypeRef) :=
  params.map (fun entry => entry.2.bounds)

theorem bounds_of_pushed {entry : Text × TypeParameter} {bounds : List TypeRef}
    {more : List (List TypeRef)} (hpushed : out ++ [entry] <+: params)
    (h : boundsOf params = boundsOf out ++ bounds :: more) : entry.2.bounds = bounds := by
  rcases hpushed with ⟨rest, rfl⟩
  unfold boundsOf at h
  rw [List.append_assoc, List.map_append] at h
  exact (List.cons.inj (List.append_cancel_left h)).1

theorem pushed_of_typeParamsFrom {levels : Nat} {input : List UInt8}
    (h : typeParamsStructuredFrom scope levels owner left out input = (some params, rest)) :
    out <+: params := by
  rcases yields_typeParamsFrom scope levels owner left out input with ⟨found, hfound, hlonger⟩
  rw [h] at hfound
  cases hfound
  exact hlonger

theorem bounds_ne_of_run_together {q : ParamSig} (hp : identifier p.name = true)
    (hq : identifier q.name = true) (hnone : p.bounds = []) {more : List UInt8}
    (hparse : typeParamsStructuredFrom scope maxSigDepth owner (left + 1) out
      (p.print ++ (q.print ++ more)) = (some params, rest))
    (others : List (List TypeRef)) :
    boundsOf params ≠ boundsOf out ++ [] :: others := by
  rcases encode_identifier hq with ⟨b, bytes, hbytes, hcolon, hend⟩
  have hstarts : endsBound (q.print ++ more).head? = false := by
    rw [ParamSig.print, hbytes]
    simp [endsBound, hcolon, hend]
  have hprint : p.print ++ (q.print ++ more) =
      Utf8.encode p.name ++ ascii ':' :: (q.print ++ more) := by
    unfold ParamSig.bounds at hnone
    rw [List.append_eq_nil_iff, Option.toList_eq_nil_iff] at hnone
    rw [ParamSig.print, ParamSig.printBounds, hnone.1, hnone.2]
    simp
  rcases yields_bounds_ne_nil (typeParse (scope ++ [out]) maxSigDepth) hstarts with
    ⟨bounds, hbounds, hsome⟩
  rw [hprint, typeParamsFrom_step scope maxSigDepth owner left out hp _
    (Prod.ext hbounds rfl)] at hparse
  intro h
  exact hsome (bounds_of_pushed (pushed_of_typeParamsFrom hparse) h)

/-- When the first bounds mean what was read, only the last parameter has none. -/
theorem last_of_bounds_eq_nil (hnames : forall q, q ∈ p :: ps -> identifier q.name = true)
    {after : List UInt8}
    (hparse : typeParamsStructuredFrom scope maxSigDepth owner (left + 1) out
      (p.print ++ (ps.flatMap ParamSig.print ++ after)) = (some params, rest))
    {others : List (List TypeRef)}
    (h : boundsOf params = boundsOf out ++ p.bounds.map (Sig.denote f) :: others)
    (hnone : p.bounds = []) : ps = [] := by
  cases ps with
  | nil => rfl
  | cons q ps =>
    rw [hnone] at h
    rw [List.flatMap_cons, List.append_assoc] at hparse
    have hq : identifier q.name = true := hnames q (List.mem_cons_of_mem _ List.mem_cons_self)
    exact absurd h
      (bounds_ne_of_run_together (hnames p List.mem_cons_self) hq hnone hparse others)

theorem readsBack_of_typeParamsFrom (hps : forall p, p ∈ ps -> p.admissible = true)
    (hleft : ps.length ≤ left) {after : List UInt8}
    (hparse : typeParamsStructuredFrom scope maxSigDepth owner left out
      (ps.flatMap ParamSig.print ++ ascii '>' :: after) = (some params, rest))
    (h : boundsOf params = boundsOf out ++ ps.map (fun p => p.bounds.map (Sig.denote f))) :
    ReadsBack f scope owner out ps := by
  induction ps generalizing left out with
  | nil => trivial
  | cons p ps ih =>
    have hrestPs : forall q, q ∈ ps -> q.admissible = true :=
      fun q hq => hps q (List.mem_cons_of_mem _ hq)
    have hp := hps p List.mem_cons_self
    cases left with
    | zero => cases hleft
    | succ left =>
      rw [List.flatMap_cons, List.append_assoc] at hparse
      rw [List.map_cons] at h
      have hlast : p.bounds = [] -> ps = [] :=
        last_of_bounds_eq_nil (names_of_admissible hps) hparse h
      rw [typeParamsFrom_param scope owner left out hp
        (endsBounds_next (names_of_admissible hrestPs) hlast after)] at hparse
      have hbounds := bounds_of_pushed (pushed_of_typeParamsFrom hparse) h
      refine ⟨fun v hv => ((map_denote_eq_iff _ _ p.bounds).mp hbounds v hv).symm, hlast, ?_⟩
      apply ih hrestPs (Nat.le_of_succ_le_succ hleft) hparse
      rw [h, ← hbounds]
      simp [boundsOf]

end Lists

end Signatures
end JavaVsixLite
