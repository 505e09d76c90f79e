import JavaVsixLite.Source.Resolution
import JavaVsixLite.Source.TypeNodes

/-!
# Two readings of a type node

The scope of type variables and the resolver of names are all that the lowering
of a type node depends on.  Two readings give the same type when they agree on
the names in it; a generic type whose base neither reads is unknown to both.
-/

namespace JavaVsixLite

/-- The variables in scope and the resolver for all other names. -/
structure Reading where
  vars : TypeNode.VariableScope
  resolveNamed : TypeNode.Resolver

namespace Reading

def lower (reading : Reading) (node : TypeNode) : TypeRef :=
  node.lower reading.vars reading.resolveNamed

def ReadsClass (reading : Reading) (node : TypeNode) : Prop :=
  exists id args, reading.lower node = .named id args

mutual

def Agree (first second : Reading) : TypeNode -> Prop
  | .name simple => first.lower (.name simple) = second.lower (.name simple)
  | .scoped qualifier simple =>
    first.lower (.scoped qualifier simple) =
      second.lower (.scoped qualifier simple)
  | .generic base args =>
    (¬ first.ReadsClass base ∧ ¬ second.ReadsClass base) ∨
      (first.lower (.generic base []) = second.lower (.generic base []) ∧
        AgreeAll first second args)
  | .array element _ => Agree first second element
  | .annotated inner => Agree first second inner
  | .wildcard _ bound => AgreeBound first second bound
  | .primitive _ => True
  | .void => True
  | .broken => True

def AgreeAll (first second : Reading) : List TypeNode -> Prop
  | [] => True
  | node :: rest => Agree first second node ∧ AgreeAll first second rest

def AgreeBound (first second : Reading) : Option TypeNode -> Prop
  | none => True
  | some node => Agree first second node

end

theorem array_inj (dims : Nat) {t u : TypeRef} :
    (Nat.rec t (fun _ t => .array t) dims : TypeRef) =
        Nat.rec u (fun _ t => .array t) dims <-> t = u := by
  induction dims with
  | zero => rfl
  | succ dims ih => simpa using ih

theorem withArgs_eq_unknown {base : TypeRef} (args : List TypeRef)
    (h : ¬ exists id own, base = .named id own) :
    TypeNode.withArgs base args = .unknown := by
  cases base with
  | named id own => exact absurd ⟨id, own, rfl⟩ h
  | _ => rfl

theorem withArgs_eq_iff {base other : TypeRef} {args others : List TypeRef} :
    TypeNode.withArgs base args = TypeNode.withArgs other others <->
      ((¬ exists id own, base = .named id own) ∧
          ¬ exists id own, other = .named id own) ∨
        (TypeNode.withArgs base [] = TypeNode.withArgs other [] ∧ args = others) := by
  by_cases hbase : exists id own, base = .named id own
  · rcases hbase with ⟨id, own, rfl⟩
    by_cases hother : exists id' own', other = .named id' own'
    · rcases hother with ⟨id', own', rfl⟩
      simp [TypeNode.withArgs]
    · rw [withArgs_eq_unknown others hother, withArgs_eq_unknown [] hother]
      simp [TypeNode.withArgs]
  · rw [withArgs_eq_unknown args hbase, withArgs_eq_unknown [] hbase]
    by_cases hother : exists id' own', other = .named id' own'
    · rcases hother with ⟨id', own', rfl⟩
      simp [TypeNode.withArgs]
    · rw [withArgs_eq_unknown others hother]
      simp [hbase, hother]

variable (first second : Reading)

mutual

theorem lower_eq_iff_agree :
    forall node, first.lower node = second.lower node <-> Agree first second node
  | .name simple => Iff.rfl
  | .scoped qualifier simple => Iff.rfl
  | .generic base args => by
    rw [Agree, ← lowerArgs_eq_iff_agree args]
    exact withArgs_eq_iff
  | .array element dims => by
    rw [Agree, ← lower_eq_iff_agree element]
    exact array_inj dims
  | .annotated inner => by
    rw [Agree, ← lower_eq_iff_agree inner]
    rfl
  | .wildcard isSuper bound => by
    rw [Agree, ← lowerBound_eq_iff_agree bound]
    cases isSuper <;> simp [lower, TypeNode.lower]
  | .primitive _ => by simp [Agree, lower, TypeNode.lower]
  | .void => by simp [Agree, lower, TypeNode.lower]
  | .broken => by simp [Agree, lower, TypeNode.lower]

theorem lowerArgs_eq_iff_agree :
    forall nodes, TypeNode.lowerArgs first.vars first.resolveNamed nodes =
        TypeNode.lowerArgs second.vars second.resolveNamed nodes <->
      AgreeAll first second nodes
  | [] => by simp [AgreeAll, TypeNode.lowerArgs]
  | node :: rest => by
    rw [AgreeAll, ← lower_eq_iff_agree node, ← lowerArgs_eq_iff_agree rest]
    simp [TypeNode.lowerArgs, lower]

theorem lowerBound_eq_iff_agree :
    forall bound, TypeNode.lowerBound first.vars first.resolveNamed bound =
        TypeNode.lowerBound second.vars second.resolveNamed bound <->
      AgreeBound first second bound
  | none => by simp [AgreeBound, TypeNode.lowerBound]
  | some node => by
    rw [AgreeBound, ← lower_eq_iff_agree node]
    simp [TypeNode.lowerBound, lower]

end

end Reading

/-!
# The readings of a document
-/

/-- A body of another document is not known under the document that asks. -/
def Level.foreign (level : Level) : Level := { level with decl := none }

theorem lexical_foreign (table : TypeTable) (simple : String)
    (levels : List Level) :
    table.lexical simple (levels.map Level.foreign) = none := by
  induction levels with
  | nil => rfl
  | cons level outer ih => simpa [TypeTable.lexical, Level.foreign] using ih

theorem namedResolver_foreign (levels : List Level) (imports : Imports)
    (table : TypeTable) (source : String -> Bool) (name : String) (dotted : Bool) :
    NameSite.namedResolver ⟨levels.map Level.foreign, imports, table, source⟩
        name dotted =
      NameSite.namedResolver ⟨[], imports, table, source⟩ name dotted := by
  have hresolve : forall dottedText,
      table.resolveTypeNameAt (levels.map Level.foreign)
          (if dotted then lastSegment name else name) dottedText imports =
        table.resolveTypeNameAt []
          (if dotted then lastSegment name else name) dottedText imports := by
    intro dottedText
    cases dottedText with
    | some path => rfl
    | none => simp only [TypeTable.resolveTypeNameAt, lexical_foreign]; rfl
  simp only [NameSite.namedResolver, hresolve]

end JavaVsixLite
