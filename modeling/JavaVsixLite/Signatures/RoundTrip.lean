import JavaVsixLite.Signatures.ReadParameters

/-!
# Reading printed signatures back

Types are always read back.  The bounds of type parameters see only the parameters that
were read before; the condition under which that is enough is about names alone.
-/

namespace JavaVsixLite
namespace Signatures

open Foundation
open Foundation.Parser (Reads ManyReads NotNext)

/-!
# The condition on the names
-/

/-- Every variable of a bound that is in scope is a parameter of the same list that stands
earlier, and only the last parameter may have no bounds. -/
def readableFrom (inScope : List Text) : List Text -> List ParamSig -> Bool
  | _, [] => true
  | earlier, p :: ps =>
    p.vars.all (fun v => earlier.contains v || !inScope.contains v) &&
      (!p.bounds.isEmpty || ps.isEmpty) && readableFrom inScope (earlier ++ [p.name]) ps

def readable (outer : List Text) (ps : List ParamSig) : Bool :=
  readableFrom (ps.map ParamSig.name ++ outer) [] ps

def findVar (params : NamedParams) (name : Text) : Option TypeVariableId :=
  (params.find? (fun entry => entry.1 == name)).map (fun entry => entry.2.id)

theorem findVar_append (params more : NamedParams) (name : Text) :
    findVar (params ++ more) name = (findVar params name).or (findVar more name) := by
  unfold findVar
  rw [List.find?_append]
  cases params.find? (fun entry => entry.1 == name) <;> rfl

theorem findVar_eq_none {params : NamedParams} {name : Text} :
    findVar params name = none <-> name ∉ params.map Prod.fst := by
  unfold findVar
  rw [Option.map_eq_none_iff, List.find?_eq_none]
  constructor
  · intro h hmem
    rcases List.mem_map.mp hmem with ⟨entry, hentry, rfl⟩
    exact h entry hentry (by simp)
  · intro h entry hentry hsame
    exact h (List.mem_map.mpr ⟨entry, hentry, by simpa using hsame⟩)

theorem findVar_mapIdx {β : Type} (owner : String) (nameOf : β -> Text)
    (bounds : β -> List TypeRef) (ps : List β) (name : Text) (n : Nat) :
    findVar (ps.mapIdx (fun i p =>
        (nameOf p, { id := { owner := owner, index := n + i }, bounds := bounds p }))) name =
      (ps.findIdx? (fun p => nameOf p == name)).map
        (fun i => { owner := owner, index := n + i }) := by
  induction ps generalizing n with
  | nil => rfl
  | cons p ps ih =>
    have hrest := ih (n + 1)
    rw [List.mapIdx_cons, List.findIdx?_cons]
    unfold findVar at hrest ⊢
    by_cases hname : nameOf p = name
    · simp [hname]
    · simp only [Nat.add_assoc, Nat.add_comm 1] at hrest
      simp [hname, hrest, Function.comp_def]

theorem lookupVar_append (outer : Scope) (params : NamedParams) (name : Text) :
    lookupVar (outer ++ [params]) name =
      ((findVar params name).map TypeRef.typeVariable).getD (lookupVar outer name) := by
  unfold lookupVar findVar
  rw [List.reverse_append, List.reverse_singleton, List.singleton_append, List.findSome?_cons]
  cases params.find? (fun entry => entry.1 == name) <;> rfl

theorem lookupVar_singleton (params : NamedParams) (name : Text) :
    lookupVar [params] name = ((findVar params name).map TypeRef.typeVariable).getD .unknown :=
  lookupVar_append [] params name

theorem lookupVar_eq_unknown {params : NamedParams} {name : Text} :
    lookupVar [params] name = .unknown <-> name ∉ params.map Prod.fst := by
  rw [lookupVar_singleton, ← findVar_eq_none]
  cases findVar params name <;> simp

theorem map_mapIdx_eq_map {β γ δ : Type} (g : γ -> δ) (step : Nat -> β -> γ) (h : β -> δ)
    (hstep : forall i value, g (step i value) = h value) (values : List β) :
    (values.mapIdx step).map g = values.map h := by
  apply List.ext_getElem?
  intro i
  rw [List.getElem?_map, List.getElem?_mapIdx, List.getElem?_map, Option.map_map]
  cases values[i]? with
  | none => rfl
  | some value => exact congrArg some (hstep i value)

/-- The headers of the parameters that follow `n` others. -/
def headersFrom (owner : String) (n : Nat) (ps : List ParamSig) : NamedParams :=
  ps.mapIdx (fun i p => (p.name, { id := { owner := owner, index := n + i }, bounds := [] }))

theorem headers_eq (owner : String) (ps : List ParamSig) :
    headers owner ps = headersFrom owner 0 ps := by
  unfold headers headersFrom
  simp only [Nat.zero_add]

theorem headersFrom_cons (owner : String) (n : Nat) (p : ParamSig) (ps : List ParamSig) :
    headersFrom owner n (p :: ps) =
      (p.name, { id := { owner := owner, index := n }, bounds := [] }) ::
        headersFrom owner (n + 1) ps := by
  unfold headersFrom
  rw [List.mapIdx_cons]
  simp only [Nat.add_zero, Nat.add_assoc, Nat.add_comm 1]

section Names

variable {outer : Scope} {outerNames : List Text} {owner : String} {all : NamedParams}

/-- Looking a variable up behind the first parameters is as good as looking it up behind
all of them when it is one of the first, or is not in scope at all. -/
theorem lookupVar_agrees_iff
    (houter : forall v, lookupVar outer v = .unknown <-> v ∉ outerNames) {out more : NamedParams}
    (hsplit : forall v, findVar all v = (findVar out v).or (findVar more v)) (v : Text) :
    lookupVar (outer ++ [all]) v = lookupVar [out] v <->
      v ∈ out.map Prod.fst ∨ v ∉ all.map Prod.fst ++ outerNames := by
  have hall : findVar all v = none <-> v ∉ all.map Prod.fst := findVar_eq_none
  have hout : findVar out v = none <-> v ∉ out.map Prod.fst := findVar_eq_none
  rw [lookupVar_append, lookupVar_singleton, List.mem_append, not_or, ← hall, ← houter, hsplit]
  cases hfound : findVar out v with
  | some id =>
    rw [hfound] at hout
    have hmem : v ∈ out.map Prod.fst := by simpa using hout
    simp [hmem]
  | none =>
    have hmem : v ∉ out.map Prod.fst := hout.mp hfound
    cases findVar more v with
    | some id => simp [hmem]
    | none => simp [hmem]

theorem readableFrom_iff (houter : forall v, lookupVar outer v = .unknown <-> v ∉ outerNames)
    {ps : List ParamSig} {out : NamedParams}
    (hsplit : forall v, findVar all v =
      (findVar out v).or (findVar (headersFrom owner out.length ps) v)) :
    readableFrom (all.map Prod.fst ++ outerNames) (out.map Prod.fst) ps = true <->
      ReadsBack (lookupVar (outer ++ [all])) [] owner out ps := by
  induction ps generalizing out with
  | nil => exact ⟨fun _ => trivial, fun _ => rfl⟩
  | cons p ps ih =>
    have hnext : forall v, findVar all v = (findVar (out ++ [readParam [] owner out p]) v).or
        (findVar (headersFrom owner (out ++ [readParam [] owner out p]).length ps) v) := by
      intro v
      have hhead : findVar [readParam [] owner out p] v =
          findVar [(p.name,
            { id := { owner := owner, index := out.length }, bounds := [] })] v := by
        unfold findVar readParam
        by_cases hname : p.name = v <;> simp [hname]
      rw [hsplit, headersFrom_cons, ← List.singleton_append, findVar_append, findVar_append,
        hhead, Option.or_assoc, List.length_append]
      rfl
    have hrest := ih hnext
    rw [List.map_append] at hrest
    rw [readableFrom, ReadsBack, Bool.and_eq_true, Bool.and_eq_true, and_assoc, List.nil_append]
    apply and_congr
    · rw [List.all_eq_true]
      apply forall_congr'
      intro v
      rw [lookupVar_agrees_iff houter hsplit v]
      simp
    · apply and_congr
      · cases p.bounds <;> simp
      · exact hrest

end Names

/-!
# Lists of type parameters
-/

section Parameters

variable {outer : Scope} {outerNames : List Text} {owner : String} {ps : List ParamSig}

theorem readParams_eq {f : Text -> TypeRef} {out : NamedParams}
    (h : ReadsBack f [] owner out ps) :
    readParams [] owner out ps = out ++ ps.mapIdx (fun i p =>
      (p.name,
        { id := { owner := owner, index := out.length + i }
          bounds := p.bounds.map (Sig.denote f) })) := by
  induction ps generalizing out with
  | nil => simp [readParams]
  | cons p ps ih =>
    rcases h with ⟨hvars, _, hrest⟩
    have hparam : readParam [] owner out p =
        (p.name,
          { id := { owner := owner, index := out.length }
            bounds := p.bounds.map (Sig.denote f) }) := by
      unfold readParam
      rw [(map_denote_eq_iff _ _ p.bounds).mpr hvars]
    rw [readParams, ih hrest, List.mapIdx_cons, hparam]
    simp only [List.append_assoc, List.singleton_append, List.length_append,
      List.length_singleton, Nat.add_zero, Nat.add_assoc, Nat.add_comm 1]

theorem readable_iff (owner : String)
    (houter : forall v, lookupVar outer v = .unknown <-> v ∉ outerNames) :
    readable outerNames ps = true <->
      ReadsBack (lookupVar (outer ++ [headers owner ps])) [] owner [] ps := by
  have hnames : (headers owner ps).map Prod.fst = ps.map ParamSig.name :=
    map_mapIdx_eq_map Prod.fst _ ParamSig.name (fun _ _ => rfl) ps
  have hsplit : forall v, findVar (headers owner ps) v =
      (findVar [] v).or (findVar (headersFrom owner 0 ps) v) := by
    intro v
    rw [headers_eq]
    rfl
  have hiff := readableFrom_iff houter hsplit
  rw [hnames] at hiff
  exact hiff

theorem typeParamsStructured_cons (p : ParamSig) (after : List UInt8) :
    typeParamsStructured [] maxSigDepth owner (printParams (p :: ps) ++ after) =
      typeParamsStructuredFrom [] maxSigDepth owner maxEntries []
        ((p :: ps).flatMap ParamSig.print ++ ascii '>' :: after) := by
  rw [printParams, List.cons_append, List.append_assoc]
  rfl

theorem typeParamsStructured_nil {after : List UInt8} (hafter : NotNext (ascii '<') after) :
    typeParamsStructured [] maxSigDepth owner after = (some [], after) := by
  have hnone : (after.head? != some (ascii '<')) = true := by
    simpa [NotNext] using hafter
  show (if (after.head? != some (ascii '<')) = true then Parser.pure [] else _ :
    Parser NamedParams) after = _
  rw [if_pos hnone]
  rfl

theorem typeParams_of_readable
    (houter : forall v, lookupVar outer v = .unknown <-> v ∉ outerNames)
    (hps : paramsAdmissible ps = true) (h : readable outerNames ps = true) {after : List UInt8}
    (hafter : NotNext (ascii '<') after) :
    typeParamsStructured [] maxSigDepth owner (printParams ps ++ after) =
      (some (declaredParams outer owner ps), after) := by
  cases ps with
  | nil => exact typeParamsStructured_nil hafter
  | cons p ps =>
    unfold paramsAdmissible at hps
    rw [Bool.and_eq_true, List.all_eq_true, decide_eq_true_eq] at hps
    have hreads := (readable_iff owner houter).mp h
    rw [typeParamsStructured_cons, typeParamsFrom_of_readsBack hps.1 hps.2 hreads,
      readParams_eq hreads]
    simp only [List.nil_append, List.length_nil, Nat.zero_add, declaredParams]

theorem boundsOf_eq_of_declared {params : NamedParams}
    (h : params.map Prod.snd = (declaredParams outer owner ps).map Prod.snd) :
    boundsOf params =
      ps.map (fun p => p.bounds.map (Sig.denote (lookupVar (outer ++ [headers owner ps])))) := by
  have hbounds := congrArg (List.map TypeParameter.bounds) h
  rw [List.map_map, List.map_map] at hbounds
  unfold boundsOf
  apply hbounds.trans
  unfold declaredParams
  apply map_mapIdx_eq_map
  intro i q
  rfl

theorem readable_of_typeParams
    (houter : forall v, lookupVar outer v = .unknown <-> v ∉ outerNames)
    (hps : paramsAdmissible ps = true) {after rest : List UInt8} {params : NamedParams}
    (hparse : typeParamsStructured [] maxSigDepth owner (printParams ps ++ after) =
      (some params, rest))
    (h : params.map Prod.snd = (declaredParams outer owner ps).map Prod.snd) :
    readable outerNames ps = true := by
  cases ps with
  | nil => rfl
  | cons p ps =>
    unfold paramsAdmissible at hps
    rw [Bool.and_eq_true, List.all_eq_true, decide_eq_true_eq] at hps
    rw [typeParamsStructured_cons] at hparse
    apply (readable_iff owner houter).mpr
    exact readsBack_of_typeParamsFrom hps.1 hps.2 hparse (boundsOf_eq_of_declared h)

end Parameters

/-!
# Whole signatures
-/

theorem reads_bracketed {stop : Char} {scope : Scope} {ts : List Sig}
    (hstop : stop ∈ ['*', '+', '-', '<', '>', ')', ':', 'V'])
    (h : forall t, t ∈ ts -> t.admissible = true) :
    ManyReads (ascii stop) (typeParse scope maxSigDepth) (ts.flatMap Sig.print)
      (ts.map (Sig.denote (lookupVar scope))) := by
  induction ts with
  | nil => exact ManyReads.nil
  | cons t rest ih =>
    have ht := reads_admissible scope (h t List.mem_cons_self)
    have hrest := ih (fun t ht => h t (List.mem_cons_of_mem _ ht))
    rcases print_starts t with ⟨c, hc, bytes, hprint⟩
    rw [List.flatMap_cons, List.map_cons, hprint]
    rw [hprint] at ht
    exact ManyReads.cons (typeStarts_apart hc stop hstop) ht hrest

theorem reads_return {scope : Scope} {m : MethodSig} (h : m.ret.all Sig.admissible = true) :
    Reads (fun _ => True) (returnParse (typeParse scope maxSigDepth)) m.printReturn
      ((m.ret.map (Sig.denote (lookupVar scope))).getD .void) := by
  unfold MethodSig.printReturn
  cases hret : m.ret with
  | none => exact fun _ _ => rfl
  | some t =>
    rw [hret] at h
    have ht := reads_admissible scope h
    rcases print_starts t with ⟨c, hc, bytes, hprint⟩
    rw [Option.map_some, Option.map_some, Option.getD_some, Option.getD_some, hprint]
    rw [hprint] at ht
    have hvoid := typeStarts_apart hc 'V' (by decide)
    apply Reads.peek
    rw [if_neg hvoid]
    exact ht

def methodRest (classParams mparams : NamedParams) :
    Parser (List TypeParameter × TypeRef × List TypeRef) := do
  Parser.expect (ascii '(')
  let params <- Parser.manyUntil (ascii ')') (typeParse [classParams, mparams] maxSigDepth)
  Parser.expect (ascii ')')
  let ret <- returnParse (typeParse [classParams, mparams] maxSigDepth)
  pure (mparams.map Prod.snd, ret, params)

theorem reads_methodRest (classParams mparams : NamedParams) {m : MethodSig}
    (h : m.admissible = true) :
    Reads (fun _ => True) (methodRest classParams mparams)
      (ascii '(' :: (m.params.flatMap Sig.print ++ (ascii ')' :: m.printReturn)))
      (mparams.map Prod.snd,
        (m.ret.map (Sig.denote (lookupVar [classParams, mparams]))).getD .void,
        m.params.map (Sig.denote (lookupVar [classParams, mparams]))) := by
  unfold MethodSig.admissible at h
  simp only [Bool.and_eq_true, List.all_eq_true] at h
  have hparams : ManyReads (ascii ')') (typeParse [classParams, mparams] maxSigDepth)
      (m.params.flatMap Sig.print)
      (m.params.map (Sig.denote (lookupVar [classParams, mparams]))) :=
    reads_bracketed (by decide) h.1.2
  apply Reads.expect
  apply hparams.manyUntil.bind (fun _ _ => rfl)
  apply Reads.expect
  exact (reads_return h.2).map _

theorem methodRest_params {classParams mparams : NamedParams} {input rest : List UInt8}
    {read : List TypeParameter × TypeRef × List TypeRef}
    (h : methodRest classParams mparams input = (some read, rest)) :
    read.1 = mparams.map Prod.snd := by
  rcases Parser.of_bind_eq_some h with ⟨_, _, _, h⟩
  rcases Parser.of_bind_eq_some h with ⟨_, _, _, h⟩
  rcases Parser.of_bind_eq_some h with ⟨_, _, _, h⟩
  rcases Parser.of_bind_eq_some h with ⟨_, _, _, h⟩
  cases h
  rfl

theorem outer_none (v : Text) : lookupVar [] v = .unknown <-> v ∉ ([] : List Text) := by
  simp [lookupVar]

theorem MethodSig.print_eq (m : MethodSig) :
    m.print = printParams m.typeParams ++
      ((ascii '(' :: (m.params.flatMap Sig.print ++ (ascii ')' :: m.printReturn))) ++
        m.printThrows) := by
  unfold MethodSig.print
  simp only [List.cons_append, List.append_assoc]

theorem MethodSig.notNext_rest (m : MethodSig) :
    NotNext (ascii '<') ((ascii '(' :: (m.params.flatMap Sig.print ++
      (ascii ')' :: m.printReturn))) ++ m.printThrows) := by
  show some (ascii '(') ≠ some (ascii '<')
  decide

theorem method_round_trip_iff (classParams : NamedParams) (owner : String) {m : MethodSig}
    (h : m.admissible = true) :
    methodSignatureParser classParams owner m.print =
        (some (m.denote classParams owner), m.printThrows) <->
      readable (classParams.map Prod.fst) m.typeParams = true := by
  have hps : paramsAdmissible m.typeParams = true := by
    unfold MethodSig.admissible at h
    simp only [Bool.and_eq_true] at h
    exact h.1.1
  have houter : forall v, lookupVar [classParams] v = .unknown <-> v ∉ classParams.map Prod.fst :=
    fun v => lookupVar_eq_unknown
  have hparser : methodSignatureParser classParams owner =
      (typeParamsStructured [] maxSigDepth owner >>= fun mparams =>
        methodRest classParams mparams) := rfl
  rw [m.print_eq, hparser]
  constructor
  · intro hresult
    rcases Parser.of_bind_eq_some hresult with ⟨mparams, mid, hparse, hrest⟩
    exact readable_of_typeParams houter hps hparse (methodRest_params hrest).symm
  · intro hreadable
    rw [Parser.bind_of_eq_some _ (typeParams_of_readable houter hps hreadable m.notNext_rest)]
    exact reads_methodRest classParams _ h m.printThrows trivial

theorem reads_supers (scope : Scope) {ts : List Sig}
    (h : forall t, t ∈ ts -> (t.admissible && t.isClassType) = true) {left : Nat}
    (hleft : ts.length ≤ left) :
    supersFrom (typeParse scope maxSigDepth) left (ts.flatMap Sig.print) =
      (some (ts.map (Sig.denote (lookupVar scope))), []) := by
  induction ts generalizing left with
  | nil => cases left <;> rfl
  | cons t rest ih =>
    cases left with
    | zero => cases hleft
    | succ left =>
      have hboth := h t List.mem_cons_self
      rw [Bool.and_eq_true] at hboth
      have ht := reads_admissible scope hboth.1 (rest.flatMap Sig.print) trivial
      have hrest := ih (fun t ht => h t (List.mem_cons_of_mem _ ht))
        (Nat.le_of_succ_le_succ hleft)
      have hfirst : exists bytes, t.print = ascii 'L' :: bytes := by
        cases t with
        | classType packages name args suffixes =>
          rw [Sig.print]
          exact ⟨_, rfl⟩
        | base p => cases hboth.2
        | typeVar name => cases hboth.2
        | array element => cases hboth.2
      rcases hfirst with ⟨bytes, hprint⟩
      rw [List.flatMap_cons]
      have hround : supersFrom (typeParse scope maxSigDepth) (left + 1)
          (t.print ++ rest.flatMap Sig.print) =
            (typeParse scope maxSigDepth >>= fun first =>
              supersFrom (typeParse scope maxSigDepth) left >>= fun others =>
              Parser.pure (first :: others)) (t.print ++ rest.flatMap Sig.print) := by
        rw [hprint]
        rfl
      rw [hround, Parser.bind_of_eq_some _ ht, Parser.bind_of_eq_some _ hrest]
      rfl

theorem class_round_trip_iff (owner : String) {c : ClassSig} (h : c.admissible = true) :
    classSignatureParser owner c.print = (some (c.denote owner), []) <->
      readable [] c.typeParams = true := by
  unfold ClassSig.admissible at h
  simp only [Bool.and_eq_true, List.all_eq_true, decide_eq_true_eq] at h
  rcases h with ⟨⟨hps, hsupers⟩, hlength⟩
  have hopen : NotNext (ascii '<') (c.supers.flatMap Sig.print) := by
    unfold NotNext
    cases c.supers with
    | nil =>
      intro h
      cases h
    | cons t rest =>
      rcases print_starts t with ⟨first, hfirst, bytes, hprint⟩
      rw [List.flatMap_cons, hprint]
      simpa using typeStarts_apart hfirst '<' (by decide)
  have hparser : classSignatureParser owner =
      (typeParamsStructured [] maxSigDepth owner >>= fun params =>
        supersFrom (typeParse [params] maxSigDepth) maxEntries >>= fun supers =>
        Parser.pure (params.map Prod.snd, supers)) := rfl
  unfold ClassSig.print
  rw [hparser]
  constructor
  · intro hresult
    rcases Parser.of_bind_eq_some hresult with ⟨params, mid, hparse, hrest⟩
    rcases Parser.of_bind_eq_some hrest with ⟨supers, _, _, hlast⟩
    injection hlast with hread
    injection hread with hread
    exact readable_of_typeParams outer_none hps hparse (congrArg Prod.fst hread)
  · intro hreadable
    have hread := reads_supers [declaredParams [] owner c.typeParams]
      (fun t ht => Bool.and_eq_true_iff.mpr (hsupers t ht)) hlength
    rw [Parser.bind_of_eq_some _ (typeParams_of_readable outer_none hps hreadable hopen),
      Parser.bind_of_eq_some _ hread]
    rfl

/-- Field signatures are always read back; method and class signatures exactly when the
bounds of their type parameters can be read from left to right. -/
theorem printed_signatures_read_back_iff (classParams : NamedParams) (owner : String) :
    (forall t : Sig, t.admissible = true ->
      parseFieldSignature t.print classParams = some (t.denote (lookupVar [classParams])) ∧
        (typeParse [classParams] maxSigDepth t.print).2 = []) ∧
    (forall m : MethodSig, m.admissible = true ->
      (parseMethodSignature m.print classParams owner = some (m.denote classParams owner) ∧
          (methodSignatureParser classParams owner m.print).2 = m.printThrows <->
        readable (classParams.map Prod.fst) m.typeParams = true)) ∧
    (forall c : ClassSig, c.admissible = true ->
      (parseClassSignature c.print owner = some (c.denote owner) ∧
          (classSignatureParser owner c.print).2 = [] <->
        readable [] c.typeParams = true)) := by
  refine ⟨?_, ?_, ?_⟩
  · intro t ht
    have hread := reads_admissible [classParams] ht [] trivial
    rw [List.append_nil] at hread
    exact Prod.ext_iff.mp hread
  · intro m hm
    exact Prod.ext_iff.symm.trans (method_round_trip_iff classParams owner hm)
  · intro c hc
    exact Prod.ext_iff.symm.trans (class_round_trip_iff owner hc)

namespace Sorted

/-- `Ljava/lang/Comparable<TT;>;` -/
def comparable : Sig :=
  .classType ["java".toList, "lang".toList] "Comparable".toList (.exactly (.typeVar ['T']) .nil)
    .nil

def object : Sig :=
  .classType ["java".toList, "lang".toList] "Object".toList .nil .nil

/-- `class Sorted<T extends Comparable<T>>` -/
def classSig : ClassSig where
  typeParams := [{ name := ['T'], classBound := none, interfaceBounds := [comparable] }]
  supers := [object]

/-- `static <U, V extends U> V[] pick(Comparable<? super V> c) throws T` -/
def methodSig : MethodSig where
  typeParams :=
    [{ name := ['U'], classBound := some object, interfaceBounds := [] },
      { name := ['V'], classBound := some (.typeVar ['U']), interfaceBounds := [] }]
  params :=
    [.classType ["java".toList, "lang".toList] "Comparable".toList
      (.lower (.typeVar ['V']) .nil) .nil]
  ret := some (.array (.typeVar ['V']))
  throws := [.typeVar ['T']]

def plainClass : ClassSig where
  typeParams := []
  supers := [object, comparable]

theorem own_bound_is_lost :
    classSig.admissible = true ∧
      ¬ (parseClassSignature classSig.print "Sorted" = some (classSig.denote "Sorted") ∧
        (classSignatureParser "Sorted" classSig.print).2 = []) := by
  have hadmissible : classSig.admissible = true := by decide
  have hreadable : readable [] classSig.typeParams = false := by decide
  refine ⟨hadmissible, ?_⟩
  intro hread
  have hback := (class_round_trip_iff "Sorted" hadmissible).mp (Prod.ext_iff.mpr hread)
  rw [hreadable] at hback
  cases hback

theorem pick_reads_back :
    parseFieldSignature comparable.print [] = some (comparable.denote (lookupVar [[]])) ∧
    parseMethodSignature methodSig.print [] "pick" = some (methodSig.denote [] "pick") ∧
    parseClassSignature plainClass.print "Sorted" = some (plainClass.denote "Sorted") := by
  have hmethod := (printed_signatures_read_back_iff [] "pick").2.1 methodSig (by decide)
  have hclass := (printed_signatures_read_back_iff [] "Sorted").2.2 plainClass (by decide)
  refine ⟨?_, ?_, ?_⟩
  · exact ((printed_signatures_read_back_iff [] "Sorted").1 comparable (by decide)).1
  · exact (hmethod.mpr (by decide)).1
  · exact (hclass.mpr (by decide)).1

end Sorted

end Signatures
end JavaVsixLite
