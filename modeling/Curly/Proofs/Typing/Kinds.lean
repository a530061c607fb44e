import Curly.Proofs.Typing.Context

/-! The kinds of complaints. An expression is complained about with kinds of its own, so the
complaints of any other kind come from the statements, each operation of the type checker making
those of one kind only. -/
namespace Curly

namespace TypeError

/-- The kinds of the complaints about expressions. -/
def Kind.ofExpression : Kind → Bool
  | .argumentCount | .argumentType | .mismatch | .notBoolean | .noValue | .logicalOperands
  | .bitwiseOperands | .shiftOperands | .numericOperands => true
  | .variable | .returnType | .strayBreak | .condition | .missingReturn => false

/-- All complaints are about expressions. -/
def Expressive (errors : List TypeError) : Prop :=
  ∀ x ∈ errors, x.kind.ofExpression

namespace Expressive

variable {first second : List TypeError} {cause : Cause} {position : Position}

theorem nil : Expressive [] :=
  fun _ => nofun

theorem single (own : cause.kind.ofExpression) : Expressive [⟨cause, position⟩] :=
  List.forall_mem_singleton.mpr own

theorem append (before : Expressive first) (behind : Expressive second) :
    Expressive (first ++ second) :=
  List.forall_mem_append.mpr ⟨before, behind⟩

end Expressive

end TypeError

open TypeError

namespace Verdict

/-- The complaint of a rule is about an expression. -/
def Expressive (v : Verdict) : Prop :=
  ∀ cause ∈ v.2, cause.kind.ofExpression

namespace Expressive

variable {v w : Verdict} {ty : Ty} {cause : Cause}

theorem fine (ty : Ty) : (Verdict.fine ty).Expressive :=
  fun _ => nofun

theorem complaint (ty : Ty) (own : cause.kind.ofExpression) :
    Expressive (ty, some cause) := by
  rintro _ ⟨⟩
  exact own

theorem ite {p : Prop} [Decidable p] (yes : v.Expressive) (no : w.Expressive) :
    Expressive (if p then v else w) := by
  split
  · exact yes
  · exact no

theorem typed (own : v.Expressive) (position : Position) {before : List TypeError}
    (expressive : TypeError.Expressive before) :
    TypeError.Expressive (v.typed position before).errors := by
  refine expressive.append ?_
  intro x member
  obtain ⟨cause, known, rfl⟩ := Option.map_eq_some_iff.mp (Option.mem_toList.mp member)
  exact own cause known

end Expressive

theorem expressive_integer {cause : Cause} (own : cause.kind.ofExpression) (left right : Ty) :
    (integerVerdict cause left right).Expressive :=
  .ite (.fine _) (.ite (.fine _) (.complaint _ own))

theorem expressive_binary (op : BinaryOp) (left right : Ty) :
    (op.verdict left right).Expressive := by
  unfold BinaryOp.verdict
  cases op.family with
  | logical =>
    dsimp only
    split
    · exact .complaint _ rfl
    · exact .fine _
  | comparison =>
    dsimp only
    split
    · exact .complaint _ rfl
    · exact .fine _
  | bitwise => exact expressive_integer rfl left right
  | shift => exact expressive_integer rfl left right
  | arithmetic => exact .ite (.fine _) (.ite (.fine _) (.complaint _ rfl))
  | modulo => exact .ite (.fine _) (.ite (expressive_integer rfl left right) (.complaint _ rfl))
  | assignment => exact .fine _

theorem expressive_unary (op : UnaryOp) (isName : Bool) (operand : Ty) :
    (op.verdict isName operand).Expressive := by
  refine .ite ?_ (.ite (.fine _) (.ite (.complaint _ rfl) (.ite (.complaint _ rfl) (.fine _))))
  split
  · exact .fine _
  · exact .complaint _ rfl

end Verdict

namespace Typing

variable (table : Table)

theorem expressive_nameVerdict (name : String) : (nameVerdict table name).Expressive := by
  unfold nameVerdict
  split
  · exact .fine _
  · exact .ite (.complaint _ rfl) (.fine _)

theorem expressive_assignmentVerdict (target : Expr) (value : Ty) :
    (assignmentVerdict table target value).Expressive := by
  unfold assignmentVerdict
  split
  · split
    · exact .fine _
    · exact .ite (.complaint _ rfl) (.ite (.fine _) (.complaint _ rfl))
  · exact .complaint _ rfl

theorem expressive_argumentErrors (name : String) (number : Nat) (params : List Ty)
    (arguments : List (Ty × Position)) :
    Expressive (argumentErrors name number params arguments) := by
  induction params generalizing number arguments with
  | nil => exact .nil
  | cons param params ih =>
    cases arguments with
    | nil => exact .nil
    | cons argument arguments =>
      have others : Expressive (argumentErrors name (number + 1) params arguments) := ih _ _
      rw [argumentErrors]
      split
      · exact others
      · exact List.forall_mem_cons.mpr ⟨rfl, others⟩

theorem expressive_callTyped (name : String) (position : Position)
    (arguments : List (Ty × Position)) :
    Expressive (callTyped table name position arguments).errors := by
  simp only [callTyped]
  cases choose? (overloads table name) (arguments.map Prod.fst) with
  | some chosen => exact .nil
  | none =>
    cases overloads table name with
    | nil =>
      dsimp only
      split
      · exact .single rfl
      · exact .nil
    | cons first others =>
      dsimp only
      split
      · exact expressive_argumentErrors name 1 _ arguments
      · exact .single rfl

theorem expressive_asValue {t : Typed} (position : Position) (expressive : Expressive t.errors) :
    Expressive (t.asValue position).errors := by
  unfold Typed.asValue
  split
  · exact expressive.append (.single rfl)
  · exact expressive

mutual

theorem expressive_typeOf : (e : Expr) → Expressive (typeOf table e).errors
  | .int .. | .float .. | .string .. | .char .. | .bool .. => .nil
  | .symbol name => (expressive_nameVerdict table name.name).typed _ .nil
  | .binary op left right span => by
    have before := expressive_asValue left.start (expressive_typeOf left)
    have behind := expressive_asValue right.start (expressive_typeOf right)
    rw [typeOf]
    split
    · exact (expressive_assignmentVerdict table left _).typed _ behind
    · exact (Verdict.expressive_binary op _ _).typed _ (before.append behind)
  | .unary op operand _ _ =>
    (Verdict.expressive_unary op _ _).typed _
      (expressive_asValue operand.start (expressive_typeOf operand))
  | .call callee args span => by
    refine Expressive.append ?_ (expressive_callTyped table callee.name span.start _)
    intro x member
    obtain ⟨t, argument, complained⟩ := List.mem_flatMap.mp member
    exact expressive_typesOf args t argument x complained
termination_by structural e => e

theorem expressive_typesOf : (es : List Expr) → ∀ t ∈ typesOf table es, Expressive t.errors
  | [] => fun _ => nofun
  | e :: others => List.forall_mem_cons.mpr
    ⟨expressive_asValue e.start (expressive_typeOf e), expressive_typesOf others⟩
termination_by structural es => es

end

theorem expressive_valueOf (e : Expr) : Expressive (valueOf table e).errors :=
  expressive_asValue e.start (expressive_typeOf table e)

end Typing

namespace Checker

/-- The complaints of one kind. -/
def complaints (k : Kind) (c : Checker) : List TypeError :=
  c.errors.filter (·.kind = k)

/-- The complaints of a kind that came up in between. -/
def Complains (k : Kind) (errors : List TypeError) (c d : Checker) : Prop :=
  d.complaints k = c.complaints k ++ errors

namespace Complains

variable {k : Kind} {first second : List TypeError} {c d e : Checker}

theorem refl (k : Kind) (c : Checker) : Complains k [] c c :=
  (List.append_nil _).symm

theorem trans (before : Complains k first c d) (behind : Complains k second d e) :
    Complains k (first ++ second) c e := by
  rw [Complains, show e.complaints k = _ from behind, show d.complaints k = _ from before,
    List.append_assoc]

/-- Nothing of the kind came up before. -/
theorem behind (quiet : Complains k [] c d) (complains : Complains k first d e) :
    Complains k first c e :=
  quiet.trans complains

/-- Nothing of the kind came up after it. -/
theorem before (complains : Complains k first c d) (quiet : Complains k [] d e) :
    Complains k first c e :=
  first.append_nil ▸ complains.trans quiet

theorem of_same (complains : Complains k first c d) (same : e.errors = d.errors) :
    Complains k first c e :=
  (congrArg (List.filter _) same).trans complains

theorem note (complains : Complains k first c d) (t : Typed) (expressive : Expressive t.errors)
    (other : k.ofExpression = false) : Complains k first c (d.note t) := by
  have none : t.errors.filter (·.kind = k) = [] := by
    apply List.filter_eq_nil_iff.mpr
    intro x member same
    have own := expressive x member
    rw [of_decide_eq_true same, other] at own
    contradiction
  refine complains.before ?_
  rw [Complains, complaints, Checker.note, List.filter_append, none]
  rfl

theorem report (complains : Complains k first c d) {cause : Cause} (position : Position)
    (other : cause.kind ≠ k) : Complains k first c (d.report cause position) :=
  complains.before (by simp [Complains, complaints, Checker.report, TypeError.kind, other])

theorem reportAny (complains : Complains k first c d) (cause : Option Cause) (position : Position)
    (other : ∀ x ∈ cause, x.kind ≠ k) : Complains k first c (d.reportAny cause position) := by
  cases cause with
  | none => exact complains
  | some cause => exact complains.report position (other cause rfl)

end Complains

theorem kind_returnCause (f : Enclosing) (found : Option Ty) :
    ∀ cause ∈ returnCause f found, cause.kind = .returnType := by
  cases found with
  | none =>
    simp only [returnCause]
    split <;> simp [Cause.kind]
  | some ty =>
    simp only [returnCause]
    split
    · simp [Cause.kind]
    · split <;> simp [Cause.kind]

section

variable {k : Kind} (other : k.ofExpression = false)
include other

theorem complains_expr (e : Expr) (c : Checker) : Complains k [] c (expr e c) :=
  (Complains.refl k c).note _ (Typing.expressive_typeOf c.table e) other

theorem complains_value (e : Expr) (c : Checker) : Complains k [] c (value e c) :=
  (Complains.refl k c).note _ (Typing.expressive_valueOf c.table e) other

theorem complains_values (es : List Expr) (c : Checker) : Complains k [] c (values es c) := by
  induction es generalizing c with
  | nil => exact .refl k c
  | cons e others ih => exact (complains_value other e c).behind (ih (value e c))

theorem complains_condition (own : k ≠ .condition) (construct : String) (position : Position)
    (e : Expr) (c : Checker) : Complains k [] c (condition construct position e c) := by
  refine (complains_expr other e c).reportAny _ position ?_
  split <;> simp [Cause.kind, own.symm]
  rintro rfl
  contradiction

theorem complains_heads (own : k ≠ .condition) (position : Position) (e update : Option Expr)
    (c : Checker) : Complains k [] c (heads position e update c) := by
  have tested : Complains k [] c (heads position e none c) := by
    cases e with
    | none => exact .refl k c
    | some e => exact complains_condition other own "for" position e c
  cases update with
  | none => exact tested
  | some update => exact tested.before (complains_expr other update _)

theorem complains_variableStatement (own : k ≠ .variable) (ty : Ty) (name : String)
    (initial : Option Expr) (position : Position) (c : Checker) :
    Complains k [] c (variableStatement ty name initial position c) := by
  have begun : Complains k [] c
      (if ty = .void then c.report (.voidVariable name) position else c) := by
    split
    · exact (Complains.refl k c).report position own.symm
    · exact .refl k c
  cases initial with
  | none => exact begun.of_same rfl
  | some e =>
    refine Complains.of_same (.reportAny (begun.note _ (Typing.expressive_valueOf _ e) other)
      _ position fun x raised => ?_) rfl
    obtain ⟨-, same⟩ := Option.ite_none_left_eq_some.mp raised
    obtain rfl := Option.some.inj same
    exact own.symm

theorem complains_giveBack (own : k ≠ .returnType) (e : Option Expr) (position : Position)
    (c : Checker) : Complains k [] c (giveBack e position c) := by
  have strayed {d : Checker} (quiet : Complains k [] c d) :
      Complains k [] c (d.report .strayReturn position) :=
    quiet.report position own.symm
  have judged {d : Checker} (quiet : Complains k [] c d) (f : Enclosing) (found : Option Ty) :
      Complains k [] c (Checker.reportAny { d with function := some (f.noting found.isSome) }
        (returnCause f found) position) := by
    have noted : Complains k [] c { d with function := some (f.noting found.isSome) } :=
      quiet.of_same rfl
    apply noted.reportAny
    intro cause complained same
    exact own (same.symm.trans (kind_returnCause f _ cause complained))
  have quiet (e : Expr) : Complains k [] c (c.note (Typing.valueOf c.table e)) :=
    (Complains.refl k c).note _ (Typing.expressive_valueOf c.table e) other
  cases e with
  | none =>
    cases known : c.function with
    | none =>
      simp only [giveBack, Option.map_none, known]
      exact strayed (.refl k c)
    | some f =>
      simp only [giveBack, Option.map_none, known]
      exact judged (.refl k c) f none
  | some e =>
    have same : (c.note (Typing.valueOf c.table e)).function = c.function := rfl
    cases known : c.function with
    | none =>
      simp only [giveBack, Option.map_some, same, known]
      exact strayed (quiet e)
    | some f =>
      simp only [giveBack, Option.map_some, same, known]
      exact judged (quiet e) f (some _)

theorem complains_subject (e : Expr) (c : Checker) : Complains k [] c (subject e c).2 := by
  refine (complains_value other e c).reportAny _ e.start ?_
  split <;> simp [Cause.kind]
  rintro rfl
  contradiction

theorem complains_caseValue (ty : Ty) (e : Expr) (c : Checker) :
    Complains k [] c (caseValue ty e c) := by
  refine (complains_value other e c).reportAny _ e.start ?_
  split <;> simp [Cause.kind]
  rintro rfl
  contradiction

end

theorem complains_leave {k : Kind} (own : k ≠ .strayBreak) (position : Position) (c : Checker) :
    Complains k [] c (leave position c) := by
  unfold leave
  split
  · exact (Complains.refl k c).report position own.symm
  · exact .refl k c

theorem complains_missingReturn {k : Kind} (own : k ≠ .missingReturn) (position : Position)
    (inside c : Checker) : Complains k [] c
      { c with errors := c.errors ++ (missingReturn position inside).toList } := by
  have missing : (missingReturn position inside).toList.filter (·.kind = k) = [] := by
    unfold missingReturn
    split
    · rfl
    · split <;> simp [TypeError.kind, Cause.kind, own.symm]
  rw [Complains, complaints, List.filter_append, missing]
  rfl

end Checker
end Curly
