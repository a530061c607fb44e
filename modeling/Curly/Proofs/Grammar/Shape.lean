import Curly.Decimal.Numeral
import Curly.Syntax

/-! Trees apart from their spans, and the trees that a text can have: types with a keyword,
variables as targets of assignments, steps as the only operators behind an operand, and loops that
start with a variable or an expression. -/
namespace Curly

def Span.none : Span :=
  ⟨.unknown, .unknown⟩

def Identifier.bare (i : Identifier) : Identifier :=
  { i with span := .none }

def Param.bare (p : Param) : Param :=
  { p with span := .none }

mutual

@[simp] def Expr.bare : Expr → Expr
  | .int value _ => .int value .none
  | .float value _ => .float value .none
  | .string value _ => .string value .none
  | .char value _ => .char value .none
  | .bool value _ => .bool value .none
  | .symbol i => .symbol i.bare
  | .binary op left right _ => .binary op left.bare right.bare .none
  | .unary op operand side _ => .unary op operand.bare side .none
  | .call callee args _ => .call callee.bare (bareExprs args) .none
termination_by structural e => e

@[simp] def bareExprs : List Expr → List Expr
  | [] => []
  | e :: others => e.bare :: bareExprs others
termination_by structural es => es

end

mutual

@[simp] def Stmt.bare : Stmt → Stmt
  | .variable ty name initial _ => .variable ty name (initial.map Expr.bare) .none
  | .prototype ty name params _ => .prototype ty name (params.map Param.bare) .none
  | .function ty name params body _ => .function ty name (params.map Param.bare) body.bare .none
  | .main body _ => .main body.bare .none
  | .enumeration name values _ _ => .enumeration name (values.map Identifier.bare) .none .none
  | .block body => .block body.bare
  | .branch condition yes no _ =>
    .branch condition.bare yes.bare (bareBlock? no) .none
  | .whileLoop condition body _ => .whileLoop condition.bare body.bare .none
  | .doLoop body condition _ => .doLoop body.bare condition.bare .none
  | .forLoop initial condition update body _ =>
    .forLoop (bareStmt? initial) (condition.map Expr.bare) (update.map Expr.bare) body.bare .none
  | .switch subject cases fallback _ =>
    .switch subject.bare (bareCases cases) (bareBlock? fallback) .none
  | .giveBack value _ => .giveBack (value.map Expr.bare) .none
  | .leave _ => .leave .none
  | .print args _ => .print (bareExprs args) .none
  | .evaluate e _ => .evaluate e.bare .none
  | .inclusion header _ => .inclusion header .none
termination_by structural s => s

@[simp] def Block.bare : Block → Block
  | ⟨body, _⟩ => ⟨bareStmts body, .none⟩
termination_by structural b => b

@[simp] def bareBlock? : Option Block → Option Block
  | none => none
  | some b => some b.bare
termination_by structural b => b

@[simp] def bareStmt? : Option Stmt → Option Stmt
  | none => none
  | some s => some s.bare
termination_by structural s => s

@[simp] def bareStmts : List Stmt → List Stmt
  | [] => []
  | s :: others => s.bare :: bareStmts others
termination_by structural body => body

@[simp] def bareCases : List Case → List Case
  | [] => []
  | ⟨value, body, _⟩ :: others => ⟨value.bare, body.bare, .none⟩ :: bareCases others
termination_by structural cases => cases

end

def Program.bare (p : Program) : Program :=
  ⟨bareStmts p.body, .none⟩

/-- The type is one of the seven that a keyword names. -/
def Ty.Written (t : Ty) : Prop :=
  t ∈ [Ty.int, .float, .double, .char, .bool, .void, .string]

mutual

/-- The expression has a text. A whole number takes 64 bits, and the decimal of a double is read as
that double again. -/
@[simp] def Expr.Shaped : Expr → Prop
  | .int value _ => -wholeBound ≤ value ∧ value < wholeBound
  | .float value _ => Double.read? value.text = some value
  | .binary op left right _ =>
    (op = .assign → left.symbol?.isSome) ∧ left.Shaped ∧ right.Shaped
  | .unary op operand side _ => (side = .behind → op.isStep) ∧ operand.Shaped
  | .call _ args _ => shapedExprs args
  | .string .. | .char .. | .bool .. | .symbol _ => True
termination_by structural e => e

@[simp] def shapedExprs : List Expr → Prop
  | [] => True
  | e :: others => e.Shaped ∧ shapedExprs others
termination_by structural es => es

end

def Stmt.IsInitial : Stmt → Prop
  | .variable .. | .evaluate .. => True
  | _ => False

mutual

@[simp] def Stmt.Shaped : Stmt → Prop
  | .variable ty _ initial _ => ty.Written ∧ ∀ e ∈ initial, e.Shaped
  | .prototype ty _ params _ => ty.Written ∧ ∀ p ∈ params, p.ty.Written
  | .function ty _ params body _ => ty.Written ∧ (∀ p ∈ params, p.ty.Written) ∧ body.Shaped
  | .main body _ | .block body => body.Shaped
  | .branch condition yes no _ =>
    condition.Shaped ∧ yes.Shaped ∧ shapedBlock? no
  | .whileLoop condition body _ | .doLoop body condition _ => condition.Shaped ∧ body.Shaped
  | .forLoop initial condition update body _ =>
    shapedInitial initial ∧ (∀ e ∈ condition, e.Shaped) ∧ (∀ e ∈ update, e.Shaped) ∧ body.Shaped
  | .switch subject cases fallback _ =>
    subject.Shaped ∧ shapedCases cases ∧ shapedBlock? fallback
  | .giveBack value _ => ∀ e ∈ value, e.Shaped
  | .print args _ => shapedExprs args
  | .evaluate e _ => e.Shaped
  | .enumeration .. | .leave _ | .inclusion .. => True
termination_by structural s => s

@[simp] def Block.Shaped : Block → Prop
  | ⟨body, _⟩ => shapedStmts body
termination_by structural b => b

@[simp] def shapedBlock? : Option Block → Prop
  | none => True
  | some b => b.Shaped
termination_by structural b => b

@[simp] def shapedInitial : Option Stmt → Prop
  | none => True
  | some s => s.IsInitial ∧ s.Shaped
termination_by structural s => s

@[simp] def shapedStmts : List Stmt → Prop
  | [] => True
  | s :: others => s.Shaped ∧ shapedStmts others
termination_by structural body => body

@[simp] def shapedCases : List Case → Prop
  | [] => True
  | ⟨value, body, _⟩ :: others => value.Shaped ∧ body.Shaped ∧ shapedCases others
termination_by structural cases => cases

end

def Program.Shaped (p : Program) : Prop :=
  shapedStmts p.body

theorem bareExprs_eq_map (es : List Expr) : bareExprs es = es.map Expr.bare := by
  induction es with
  | nil => rfl
  | cons e others ih => rw [bareExprs, ih, List.map_cons]

theorem shapedExprs_iff {es : List Expr} : shapedExprs es ↔ ∀ e ∈ es, e.Shaped := by
  induction es with
  | nil => simp [shapedExprs]
  | cons e others ih => rw [shapedExprs, ih, List.forall_mem_cons]

end Curly
