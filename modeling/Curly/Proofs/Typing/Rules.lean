import Curly.Typing.Expression

/-! The rules for operators and calls. On operands and arguments with types that can be written, the
checker finds no fault just if the rule gives a type, and finds that one. -/
namespace Curly

namespace Ty

def Numeric (t : Ty) : Prop :=
  t = .int ∨ t = .float ∨ t = .double

/-- Numbers widen from `int` over `float` to `double`. -/
def Widens (a b : Ty) : Prop :=
  match a, b with
  | .int, .int | .int, .float | .int, .double | .float, .float | .float, .double
  | .double, .double => True
  | _, _ => False

/-- The wider one of two numbers. -/
def Wider (a b wider : Ty) : Prop :=
  (wider = a ∨ wider = b) ∧ a.Widens wider ∧ b.Widens wider

/-- Equal types, or any two numbers. -/
def Compatible (a b : Ty) : Prop :=
  a = b ∨ a.Numeric ∧ b.Numeric

theorem isNumeric_iff (t : Ty) : t.isNumeric ↔ t.Numeric := by
  cases t <;> simp [isNumeric, width?, Numeric]

theorem fits_iff {a b : Ty} (left : a ≠ .invalid) (right : b ≠ .invalid) :
    a.fits b ↔ a.Compatible b := by
  simp [fits, Compatible, isNumeric_iff, left, right]

theorem wider_iff (a b wider : Ty) :
    a.Wider b wider ↔ (a.isNumeric ∧ b.isNumeric) ∧ wider = a.widest b := by
  cases a <;> cases b <;> cases wider <;> simp [Wider, Widens, isNumeric, widest, width?]

end Ty

/-- What an operator gives for operands that are there, by the family that it belongs to. -/
def BinaryOp.Rule (op : BinaryOp) (left right result : Ty) : Prop :=
  match op.family with
  | .arithmetic => left.Wider right result
  | .modulo | .bitwise | .shift => left = .int ∧ right = .int ∧ result = .int
  | .comparison => left.Compatible right ∧ result = .bool
  | .logical => left = .bool ∧ right = .bool ∧ result = .bool
  | .assignment => False

def UnaryOp.Rule (op : UnaryOp) (isName : Bool) (operand result : Ty) : Prop :=
  match op with
  | .not => operand = .bool ∧ result = .bool
  | .negate | .plus => operand.Numeric ∧ result = operand
  | .increment | .decrement => isName ∧ operand.Numeric ∧ result = operand

theorem integerVerdict_eq_iff {complaint : TypeError.Cause} {left right result : Ty}
    (known : left ≠ .invalid ∧ right ≠ .invalid) :
    integerVerdict complaint left right = (result, none) ↔
      left = .int ∧ right = .int ∧ result = .int := by
  unfold integerVerdict
  rw [if_neg (by simp [known])]
  split
  · simp_all [Verdict.fine, eq_comm]
  · simp_all

theorem BinaryOp.verdict_eq_iff (op : BinaryOp) {left right result : Ty}
    (known : left ≠ .invalid ∧ right ≠ .invalid) (plain : op ≠ .assign) :
    op.verdict left right = (result, none) ↔ op.Rule left right result := by
  have integers (complaint : TypeError.Cause) :=
    @integerVerdict_eq_iff complaint left right result known
  unfold BinaryOp.verdict BinaryOp.Rule
  cases family : op.family with
  | arithmetic =>
    simp only [known, Ty.wider_iff, ne_eq, not_false_eq_true, and_self, not_true, if_false]
    by_cases numbers : left.isNumeric ∧ right.isNumeric
    · simp [Verdict.fine, numbers, eq_comm]
    · simp [numbers]
  | modulo =>
    simp only [known, ne_eq, not_false_eq_true, and_self, not_true, if_false]
    by_cases numbers : left.isNumeric ∧ right.isNumeric
    · rw [if_pos numbers]
      exact integers _
    · rw [if_neg numbers]
      simp only [Prod.mk.injEq, reduceCtorEq, and_false, false_iff]
      rintro ⟨rfl, rfl, -⟩
      exact numbers ⟨rfl, rfl⟩
  | comparison =>
    simp only [known, Ty.isNumeric_iff, Ty.Compatible, ne_eq, not_false_eq_true, true_and,
      Prod.mk.injEq, ite_eq_right_iff, reduceCtorEq, imp_false, Classical.not_not]
    rw [and_comm, eq_comm (a := result)]
  | logical =>
    simp only [known, ne_eq, not_false_eq_true, true_and, Prod.mk.injEq, ite_eq_right_iff,
      reduceCtorEq, imp_false, Classical.not_not]
    rw [and_comm, and_assoc, eq_comm (a := result)]
  | bitwise => exact integers _
  | shift => exact integers _
  | assignment => cases op <;> simp_all [BinaryOp.family]

theorem UnaryOp.verdict_eq_iff (op : UnaryOp) (isName : Bool) {operand result : Ty}
    (known : operand ≠ .invalid) :
    op.verdict isName operand = (result, none) ↔ op.Rule isName operand result := by
  cases op <;> cases isName <;> cases operand <;>
    simp_all [verdict, Rule, isStep, Verdict.fine, Ty.isNumeric, Ty.width?, Ty.Numeric, eq_comm]

theorem BinaryOp.Rule.ne_invalid {op : BinaryOp} {left right result : Ty}
    (rule : op.Rule left right result) : result ≠ .invalid := by
  unfold Rule at rule
  split at rule
  · rintro rfl
    cases left <;> exact rule.2.1
  all_goals simp_all

theorem UnaryOp.Rule.ne_invalid {op : UnaryOp} {isName : Bool} {operand result : Ty}
    (rule : op.Rule isName operand result) : result ≠ .invalid := by
  rintro rfl
  cases op <;> cases operand <;> simp_all [Rule, Ty.Numeric]

namespace Typing

namespace Overload

/-- Each argument fits the parameter at its place. -/
def Accepts (o : Overload) (arguments : List Ty) : Prop :=
  o.params.length = arguments.length ∧ ∀ x ∈ o.params.zip arguments, x.1.Compatible x.2

/-- The first of the candidates with a property. -/
def First (candidates : List Overload) (Fit : Overload → Prop) (o : Overload) : Prop :=
  Fit o ∧ ∃ before behind, candidates = before ++ o :: behind ∧ ∀ x ∈ before, ¬Fit x

/-- The overload with exactly these types or, if there is none, the first that accepts them. -/
def Chosen (candidates : List Overload) (arguments : List Ty) (o : Overload) : Prop :=
  First candidates (·.params = arguments) o ∨
    (∀ x ∈ candidates, x.params ≠ arguments) ∧ First candidates (·.Accepts arguments) o

theorem accepts_iff {o : Overload} {arguments : List Ty} (params : .invalid ∉ o.params)
    (known : .invalid ∉ arguments) : o.accepts arguments ↔ o.Accepts arguments := by
  simp only [accepts, Accepts, Bool.and_eq_true, decide_eq_true_eq, List.all_eq_true]
  refine and_congr_right fun _ => forall₂_congr fun x member => ?_
  obtain ⟨left, right⟩ := List.of_mem_zip member
  exact Ty.fits_iff (fun same => params (same ▸ left)) fun same => known (same ▸ right)

theorem find?_eq_some_iff {candidates : List Overload} {p : Overload → Bool} {o : Overload}
    (Fit : Overload → Prop) (same : ∀ x ∈ candidates, p x ↔ Fit x) :
    candidates.find? p = some o ↔ First candidates Fit o := by
  rw [List.find?_eq_some_iff_append]
  constructor
  · rintro ⟨fit, before, behind, rfl, none⟩
    refine ⟨(same o (by simp)).mp fit, before, behind, rfl, fun x member => ?_⟩
    rw [← same x (by simp [member])]
    simpa using none x member
  · rintro ⟨fit, before, behind, rfl, none⟩
    refine ⟨(same o (by simp)).mpr fit, before, behind, rfl, fun x member => ?_⟩
    have unfit := none x member
    rw [← same x (by simp [member])] at unfit
    simpa using unfit

theorem choose?_eq_some_iff {candidates : List Overload} {arguments : List Ty} {o : Overload}
    (params : ∀ x ∈ candidates, .invalid ∉ x.params) (known : .invalid ∉ arguments) :
    choose? candidates arguments = some o ↔ Chosen candidates arguments o := by
  rw [choose?, Option.or_eq_some_iff, List.find?_eq_none,
    find?_eq_some_iff (·.params = arguments) fun x _ => decide_eq_true_iff,
    find?_eq_some_iff (·.Accepts arguments) fun x member => accepts_iff (params x member) known]
  simp [Chosen]

end Overload
end Typing
end Curly
