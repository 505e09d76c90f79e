import JavaVsixLite.Signatures.DepthLimit
import JavaVsixLite.Signatures.RoundTrip

/-!
# Type variables of method signatures

A variable of a method signature means the method's own parameter of that name, else the
class's, else nothing.  The parser resolves every variable so exactly when the signature
is within its limits and every bound can be read from left to right.
-/

namespace JavaVsixLite
namespace Signatures

open Foundation
open Foundation.Parser (Reads ManyReads NotNext Rejects ManyRejects)

/-!
# Scopes
-/

/-- The innermost declaration of a name: the method's own, else the class's. -/
def resolveVar (classParams : NamedParams) (owner : String) (own : List ParamSig) (name : Text) :
    TypeRef :=
  match own.findIdx? (fun p => p.name == name) with
  | some i => .typeVariable { owner := owner, index := i }
  | none =>
    match classParams.find? (fun entry => entry.1 == name) with
    | some entry => .typeVariable entry.2.id
    | none => .unknown

/-- The signature with each variable resolved, in the bounds too. -/
def MethodSig.resolved (classParams : NamedParams) (owner : String) (m : MethodSig) :
    List TypeParameter × TypeRef × List TypeRef :=
  let resolve := resolveVar classParams owner m.typeParams
  (m.typeParams.mapIdx (fun i p =>
      { id := { owner := owner, index := i }, bounds := p.bounds.map (Sig.denote resolve) }),
    (m.ret.map (Sig.denote resolve)).getD .void,
    m.params.map (Sig.denote resolve))

section Scopes

variable {owner : String}

theorem lookupVar_eq_resolveVar (classParams : NamedParams) {own : NamedParams}
    {ps : List ParamSig} (name : Text)
    (hown : findVar own name = (ps.findIdx? (fun p => p.name == name)).map
      (fun i => { owner := owner, index := i })) :
    lookupVar [classParams, own] name = resolveVar classParams owner ps name := by
  have happend := lookupVar_append [classParams] own name
  rw [hown, lookupVar_singleton] at happend
  unfold resolveVar
  apply happend.trans
  cases ps.findIdx? (fun p => p.name == name) with
  | some i => rfl
  | none =>
    unfold findVar
    cases classParams.find? (fun entry => entry.1 == name) <;> rfl

theorem denote_eq_resolved (classParams : NamedParams) (m : MethodSig) :
    m.denote classParams owner = m.resolved classParams owner := by
  have hheaders : lookupVar [classParams, headers owner m.typeParams] =
      resolveVar classParams owner m.typeParams := by
    funext name
    apply lookupVar_eq_resolveVar
    simpa [headers] using findVar_mapIdx owner ParamSig.name (fun _ => []) m.typeParams name 0
  have hdeclared : lookupVar [classParams, declaredParams [classParams] owner m.typeParams] =
      resolveVar classParams owner m.typeParams := by
    funext name
    apply lookupVar_eq_resolveVar
    simpa [declaredParams] using findVar_mapIdx owner ParamSig.name (fun p => p.bounds.map
      (Sig.denote (lookupVar [classParams, headers owner m.typeParams]))) m.typeParams name 0
  unfold MethodSig.denote MethodSig.resolved
  simp only [hdeclared]
  unfold declaredParams
  rw [List.singleton_append, hheaders, List.mapIdx_eq_zipIdx_map, List.mapIdx_eq_zipIdx_map,
    List.map_map]
  rfl

end Scopes

/-!
# Bounds within the limits
-/

theorem admissible_iff {t : Sig} (hwell : t.wellFormed = true) :
    t.admissible = true <-> t.depth ≤ maxSigDepth := by
  rw [Sig.admissible, hwell, Bool.true_and, decide_eq_true_eq]

theorem rejects_of_not_admissible (scope : Scope) {t : Sig} (hwell : t.wellFormed = true)
    (h : ¬t.admissible = true) : Rejects (typeParse scope maxSigDepth) t.print := by
  rw [admissible_iff hwell] at h
  exact rejects_type scope t maxSigDepth hwell (Nat.lt_of_not_le h)

theorem denote_ne_unknown (f : Text -> TypeRef) {t : Sig} (hwell : t.wellFormed = true)
    (h : ¬t.admissible = true) : t.denote f ≠ .unknown := by
  rw [admissible_iff hwell] at h
  cases t with
  | base p =>
    rw [Sig.depth] at h
    exact absurd (by decide) h
  | typeVar name =>
    rw [Sig.depth] at h
    exact absurd (by decide) h
  | array element =>
    rw [Sig.denote]
    exact fun hunknown => TypeRef.noConfusion hunknown
  | classType packages name args suffixes =>
    rw [Sig.denote]
    exact fun hunknown => TypeRef.noConfusion hunknown

theorem endsBound_print (t : Sig) (tail : List UInt8) :
    endsBound (t.print ++ tail).head? = false := by
  rcases print_starts t with ⟨c, hc, rest, hprint⟩
  have hcolon := typeStarts_apart hc ':' (by decide)
  have hend := typeStarts_apart hc '>' (by decide)
  rw [hprint]
  simp [endsBound, hcolon, hend]

theorem eq_of_append_prefix {β : Type} {xs ys : List β} {v w : β}
    (h : xs ++ [v] <+: xs ++ w :: ys) : v = w := by
  rw [List.prefix_append_right_inj] at h
  exact (List.cons_prefix_cons.mp h).1

section Bounds

variable (scope : Scope) {f : Text -> TypeRef}

theorem admissible_of_boundsFrom {ts : List Sig}
    (hwell : forall t, t ∈ ts -> t.wellFormed = true) {fuel : Nat} {bounds read : List TypeRef}
    {more rest : List UInt8}
    (hfuel : (ts.flatMap (fun t => ascii ':' :: t.print) ++ more).length ≤ fuel)
    (hparse : Parser.whileNextFrom (ascii ':') (boundStructured (typeParse scope maxSigDepth)) fuel
      bounds (ts.flatMap (fun t => ascii ':' :: t.print) ++ more) = (some read, rest))
    (h : read = bounds ++ ts.map (Sig.denote f)) :
    forall t, t ∈ ts -> t.admissible = true := by
  induction ts generalizing fuel bounds with
  | nil => exact fun t ht => absurd ht List.not_mem_nil
  | cons t ts ih =>
    have ht := hwell t List.mem_cons_self
    rw [List.flatMap_cons, List.append_assoc, List.cons_append] at hfuel hparse
    cases fuel with
    | zero => cases hfuel
    | succ fuel =>
      have hround := boundStructured_of_not_ends (typeParse scope maxSigDepth) bounds
        (endsBound_print t (ts.flatMap (fun t => ascii ':' :: t.print) ++ more))
      rw [Parser.whileNextFrom_cons, Parser.bind_of_eq_some _ hround] at hparse
      have hpushed : bounds ++ [((typeParse scope maxSigDepth) (t.print ++
          (ts.flatMap (fun t => ascii ':' :: t.print) ++ more))).1.getD .unknown] <+: read := by
        rcases yields_boundsFrom (typeParse scope maxSigDepth) fuel _ _ with
          ⟨found, hfound, hlonger⟩
        rw [hparse] at hfound
        cases hfound
        exact hlonger
      rw [h, List.map_cons] at hpushed
      have hvalue := eq_of_append_prefix hpushed
      by_cases hadmissible : t.admissible = true
      · have hread := reads_admissible scope hadmissible
          (ts.flatMap (fun t => ascii ':' :: t.print) ++ more) trivial
        rw [hvalue, hread] at hparse
        have hlength : (ts.flatMap (fun t => ascii ':' :: t.print) ++ more).length ≤ fuel := by
          simp only [List.length_cons, List.length_append] at hfuel ⊢
          omega
        have hrest := ih (fun t ht => hwell t (List.mem_cons_of_mem _ ht)) hlength hparse
          (by rw [h, List.map_cons, List.append_assoc, List.singleton_append])
        exact List.forall_mem_cons.mpr ⟨hadmissible, hrest⟩
      · rw [rejects_of_not_admissible scope ht hadmissible] at hvalue
        exact absurd hvalue.symm (denote_ne_unknown f ht hadmissible)

theorem admissible_of_bounds {p : ParamSig} (hwell : p.wellFormed = true) {read : List TypeRef}
    {more rest : List UInt8}
    (hparse : boundsStructured (typeParse scope maxSigDepth) (p.printBounds ++ more) =
      (some read, rest))
    (h : read = p.bounds.map (Sig.denote f)) : p.admissible = true := by
  unfold ParamSig.wellFormed at hwell
  rw [Bool.and_eq_true, List.all_eq_true] at hwell
  unfold ParamSig.admissible
  rw [Bool.and_eq_true, List.all_eq_true]
  refine ⟨hwell.1, ?_⟩
  have hbounds := hwell.2
  unfold ParamSig.bounds at hbounds h ⊢
  unfold boundsStructured Parser.whileNext ParamSig.printBounds at hparse
  cases hclass : p.classBound with
  | some t =>
    rw [hclass] at hbounds h hparse
    exact admissible_of_boundsFrom scope hbounds (Nat.le_refl _) hparse h
  | none =>
    rw [hclass] at hbounds h hparse
    cases hlist : p.interfaceBounds with
    | nil => exact fun t ht => absurd ht List.not_mem_nil
    | cons t ts =>
      rw [hlist] at hbounds h hparse
      exact admissible_of_boundsFrom scope hbounds (Nat.le_refl _) hparse h

end Bounds

/-!
# Parameters within the limits
-/

section Parameters

variable {owner : String} {f : Text -> TypeRef}

theorem typeParamsFrom_zero (scope : Scope) (levels : Nat) (owner : String) (out : NamedParams)
    (input : List UInt8) :
    (typeParamsStructuredFrom scope levels owner 0 out input).1 = some out := by
  cases input <;> rfl

theorem admissible_of_first {scope : Scope} {p : ParamSig} (hwell : p.wellFormed = true)
    {left : Nat} {out params : NamedParams} {more rest : List UInt8}
    (hparse : typeParamsStructuredFrom scope maxSigDepth owner (left + 1) out (p.print ++ more) =
      (some params, rest)) {others : List (List TypeRef)}
    (h : boundsOf params = boundsOf out ++ p.bounds.map (Sig.denote f) :: others) :
    p.admissible = true := by
  have hname : identifier p.name = true := (Bool.and_eq_true_iff.mp hwell).1
  rcases yields_boundsFrom (typeParse (scope ++ [out]) maxSigDepth) (p.printBounds ++ more).length
    [] (p.printBounds ++ more) with ⟨bounds, hbounds, _⟩
  have hread : boundsStructured (typeParse (scope ++ [out]) maxSigDepth) (p.printBounds ++ more) =
      (some bounds, (boundsStructured (typeParse (scope ++ [out]) maxSigDepth)
        (p.printBounds ++ more)).2) := Prod.ext hbounds rfl
  unfold ParamSig.print at hparse
  rw [List.append_assoc] at hparse
  have hstep := typeParamsFrom_step scope maxSigDepth owner left out hname _ hread
  have hpushed := bounds_of_pushed (pushed_of_typeParamsFrom (hstep.symm.trans hparse)) h
  exact admissible_of_bounds (scope ++ [out]) hwell hread hpushed

theorem admissible_of_typeParamsFrom {scope : Scope} {ps : List ParamSig}
    (hwell : forall p, p ∈ ps -> p.wellFormed = true) {left : Nat} {out params : NamedParams}
    {after rest : List UInt8}
    (hparse : typeParamsStructuredFrom scope maxSigDepth owner left out
      (ps.flatMap ParamSig.print ++ ascii '>' :: after) = (some params, rest))
    (h : boundsOf params = boundsOf out ++ ps.map (fun p => p.bounds.map (Sig.denote f))) :
    (forall p, p ∈ ps -> p.admissible = true) ∧ ps.length ≤ left := by
  induction ps generalizing left out with
  | nil => exact ⟨fun p hp => absurd hp List.not_mem_nil, Nat.zero_le left⟩
  | cons p ps ih =>
    have hp := hwell p List.mem_cons_self
    have hnames : forall q, q ∈ p :: ps -> identifier q.name = true :=
      fun q hq => (Bool.and_eq_true_iff.mp (hwell q hq)).1
    rw [List.flatMap_cons, List.append_assoc] at hparse
    rw [List.map_cons] at h
    cases left with
    | zero =>
      have hout := typeParamsFrom_zero scope maxSigDepth owner out
        (p.print ++ (ps.flatMap ParamSig.print ++ ascii '>' :: after))
      rw [hparse] at hout
      cases hout
      exact absurd (List.self_eq_append_right.mp h) (List.cons_ne_nil _ _)
    | succ left =>
      have hlast := last_of_bounds_eq_nil hnames hparse h
      have hadmissible := admissible_of_first hp hparse h
      rw [typeParamsFrom_param scope owner left out hadmissible
        (endsBounds_next (fun q hq => hnames q (List.mem_cons_of_mem _ hq)) hlast after)]
        at hparse
      have hbounds := bounds_of_pushed (pushed_of_typeParamsFrom hparse) h
      have hrest := ih (fun q hq => hwell q (List.mem_cons_of_mem _ hq)) hparse (by
        rw [h, ← hbounds]
        simp [boundsOf])
      exact ⟨List.forall_mem_cons.mpr ⟨hadmissible, hrest.1⟩, Nat.succ_le_succ hrest.2⟩

theorem paramsAdmissible_of_typeParams {outer : Scope} {ps : List ParamSig}
    (hwell : forall p, p ∈ ps -> p.wellFormed = true) {params : NamedParams}
    {after rest : List UInt8}
    (hparse : typeParamsStructured [] maxSigDepth owner (printParams ps ++ after) =
      (some params, rest))
    (h : params.map Prod.snd = (declaredParams outer owner ps).map Prod.snd) :
    paramsAdmissible ps = true := by
  cases ps with
  | nil => rfl
  | cons p ps =>
    rw [typeParamsStructured_cons] at hparse
    have hlimits := admissible_of_typeParamsFrom hwell hparse (boundsOf_eq_of_declared h)
    unfold paramsAdmissible
    rw [Bool.and_eq_true, List.all_eq_true, decide_eq_true_eq]
    exact hlimits

end Parameters

/-!
# Methods within the limits
-/

section Methods

variable {scope : Scope} {m : MethodSig}

theorem rejects_bracketed {ts : List Sig} (hwell : forall t, t ∈ ts -> t.wellFormed = true)
    (h : ¬forall t, t ∈ ts -> t.admissible = true) :
    ManyRejects (ascii ')') (typeParse scope maxSigDepth) (ts.flatMap Sig.print) := by
  induction ts with
  | nil => exact absurd (fun t ht => absurd ht List.not_mem_nil) h
  | cons t ts ih =>
    rcases print_starts t with ⟨c, hc, bytes, hprint⟩
    have hstop := typeStarts_apart hc ')' (by decide)
    rw [List.flatMap_cons]
    by_cases hadmissible : t.admissible = true
    · have hrest : ¬forall u, u ∈ ts -> u.admissible = true :=
        fun hall => h (List.forall_mem_cons.mpr ⟨hadmissible, hall⟩)
      have hread := reads_admissible scope hadmissible
      rw [hprint] at hread ⊢
      exact ManyRejects.cons hstop hread
        (ih (fun u hu => hwell u (List.mem_cons_of_mem _ hu)) hrest)
    · have hreject := rejects_of_not_admissible scope (hwell t List.mem_cons_self) hadmissible
      rw [hprint] at hreject ⊢
      exact (ManyRejects.here hstop hreject).append _

theorem rejects_return (hwell : m.ret.all Sig.wellFormed = true)
    (h : ¬m.ret.all Sig.admissible = true) :
    Rejects (returnParse (typeParse scope maxSigDepth)) m.printReturn := by
  unfold MethodSig.printReturn
  cases hret : m.ret with
  | none =>
    rw [hret] at h
    exact absurd rfl h
  | some t =>
    rw [hret] at hwell h
    have hreject := rejects_of_not_admissible scope hwell h
    rcases print_starts t with ⟨c, hc, bytes, hprint⟩
    rw [Option.map_some, Option.getD_some, hprint]
    rw [hprint] at hreject
    apply Rejects.peek
    rw [if_neg (typeStarts_apart hc 'V' (by decide))]
    exact hreject

theorem admissible_of_methodRest {classParams mparams : NamedParams}
    (hparams : forall t, t ∈ m.params -> t.wellFormed = true)
    (hret : m.ret.all Sig.wellFormed = true) {after : List UInt8}
    {read : List TypeParameter × TypeRef × List TypeRef}
    (h : (methodRest classParams mparams
      ((ascii '(' :: (m.params.flatMap Sig.print ++ (ascii ')' :: m.printReturn))) ++ after)).1 =
        some read) :
    (forall t, t ∈ m.params -> t.admissible = true) ∧ m.ret.all Sig.admissible = true := by
  by_cases hall : forall t, t ∈ m.params -> t.admissible = true
  · refine ⟨hall, ?_⟩
    by_contra hdeep
    have hbracketed : ManyReads (ascii ')') (typeParse [classParams, mparams] maxSigDepth)
        (m.params.flatMap Sig.print)
        (m.params.map (Sig.denote (lookupVar [classParams, mparams]))) :=
      reads_bracketed (by decide) hall
    have hreject : Rejects (methodRest classParams mparams)
        (ascii '(' :: (m.params.flatMap Sig.print ++ (ascii ')' :: m.printReturn))) := by
      apply Rejects.expect
      apply Rejects.behind hbracketed.manyUntil (fun _ => rfl)
      apply Rejects.expect
      exact (rejects_return hret hdeep).bind _
    rw [hreject after] at h
    cases h
  · have hreject : Rejects (methodRest classParams mparams)
        (ascii '(' :: (m.params.flatMap Sig.print ++ (ascii ')' :: m.printReturn))) := by
      apply Rejects.expect
      exact ((rejects_bracketed hparams hall).manyUntil.bind _).append _
    rw [hreject after] at h
    cases h

theorem readable_of_parse {classParams : NamedParams} {owner : String}
    (hwell : m.wellFormed = true)
    (h : parseMethodSignature m.print classParams owner = some (m.denote classParams owner)) :
    m.admissible = true ∧ readable (classParams.map Prod.fst) m.typeParams = true := by
  unfold MethodSig.wellFormed at hwell
  simp only [Bool.and_eq_true] at hwell
  rcases hwell with ⟨⟨⟨htypeParams, hparams⟩, hret⟩, _⟩
  rw [List.all_eq_true] at htypeParams hparams
  have houter : forall v, lookupVar [classParams] v = .unknown <-> v ∉ classParams.map Prod.fst :=
    fun v => lookupVar_eq_unknown
  have hparser : methodSignatureParser classParams owner m.print =
      (some (m.denote classParams owner), (methodSignatureParser classParams owner m.print).2) :=
    Prod.ext h rfl
  rcases Parser.of_bind_eq_some hparser with ⟨mparams, mid, hparse, hrest⟩
  have hdeclared : mparams.map Prod.snd =
      (declaredParams [classParams] owner m.typeParams).map Prod.snd :=
    (methodRest_params hrest).symm
  rw [m.print_eq] at hparse
  have hps := paramsAdmissible_of_typeParams htypeParams hparse hdeclared
  have hreadable := readable_of_typeParams houter hps hparse hdeclared
  rw [typeParams_of_readable houter hps hreadable m.notNext_rest] at hparse
  cases hparse
  have htypes := admissible_of_methodRest hparams hret (congrArg Prod.fst hrest)
  unfold MethodSig.admissible
  rw [Bool.and_eq_true, Bool.and_eq_true, List.all_eq_true]
  exact ⟨⟨⟨hps, htypes.1⟩, htypes.2⟩, hreadable⟩

/-- Every variable of a well-formed method signature is resolved to its innermost
declaration exactly when the signature is within the limits of the parser, and the bounds
of its type parameters can be read from left to right. -/
theorem method_variables_resolved_iff (classParams : NamedParams) (owner : String)
    (hwell : m.wellFormed = true) :
    parseMethodSignature m.print classParams owner = some (m.resolved classParams owner) <->
      m.admissible = true ∧ readable (classParams.map Prod.fst) m.typeParams = true := by
  rw [← denote_eq_resolved]
  constructor
  · exact readable_of_parse hwell
  · intro h
    exact congrArg Prod.fst ((method_round_trip_iff classParams owner h.1).mpr h.2)

end Methods

namespace Maximum

def object : Sig :=
  .classType ["java".toList, "lang".toList] "Object".toList .nil .nil

def comparable (name : Text) : Sig :=
  .classType ["java".toList, "lang".toList] "Comparable".toList (.exactly (.typeVar name) .nil)
    .nil

/-- The parameter `E` of the class. -/
def classParams : NamedParams :=
  [(['E'], { id := { owner := "Box", index := 0 }, bounds := [] })]

/-- `<T extends Comparable<T>> T max(T first, E second)` -/
def ownBound : MethodSig where
  typeParams := [{ name := ['T'], classBound := none, interfaceBounds := [comparable ['T']] }]
  params := [.typeVar ['T'], .typeVar ['E']]
  ret := some (.typeVar ['T'])
  throws := []

/-- `<E, T extends Comparable<E>> T[] max(E first, List<? extends T> others)` -/
def earlierBound : MethodSig where
  typeParams :=
    [{ name := ['E'], classBound := some object, interfaceBounds := [] },
      { name := ['T'], classBound := none, interfaceBounds := [comparable ['E']] }]
  params :=
    [.typeVar ['E'],
      .classType ["java".toList, "util".toList] "List".toList (.upper (.typeVar ['T']) .nil) .nil]
  ret := some (.array (.typeVar ['T']))
  throws := []

theorem earlier_bound_resolved :
    parseMethodSignature earlierBound.print classParams "Box#max" =
      some (earlierBound.resolved classParams "Box#max") :=
  (method_variables_resolved_iff classParams "Box#max" (by decide)).mpr (by decide)

theorem own_bound_unknown :
    ownBound.wellFormed = true ∧
      parseMethodSignature ownBound.print classParams "Box#max" ≠
        some (ownBound.resolved classParams "Box#max") ∧
      ((parseMethodSignature ownBound.print classParams "Box#max").map
        (fun read => read.1.map TypeParameter.bounds)) =
          some [[.named (.named "java.lang.Comparable") [.unknown]]] := by
  decide +kernel

end Maximum

end Signatures
end JavaVsixLite
