import Curly.Diagnostic.Typing
import Curly.Scope.Table
import Curly.Syntax

/-! The types of expressions. A type comes with all complaints about the expression; the invalid
type takes the place of one that could not be found, so that no rule complains a second time. -/
namespace Curly

structure Typed where
  ty : Ty
  errors : List TypeError
deriving DecidableEq, Repr

namespace Typed

def pure (ty : Ty) : Typed :=
  ⟨ty, []⟩

/-- The type of an expression of which a value is wanted: nothing is none. -/
def asValue (position : Position) (t : Typed) : Typed :=
  if t.ty = .void then ⟨.invalid, t.errors ++ [⟨.voidValue, position⟩]⟩ else t

end Typed

abbrev Verdict : Type := Ty × Option TypeError.Cause

namespace Verdict

def fine (ty : Ty) : Verdict :=
  (ty, none)

def typed (v : Verdict) (position : Position) (before : List TypeError) : Typed :=
  ⟨v.1, before ++ (v.2.map (⟨·, position⟩)).toList⟩

end Verdict

/-- Operands that must be whole numbers, and are so in the result. -/
def integerVerdict (complaint : TypeError.Cause) (left right : Ty) : Verdict :=
  if left = .invalid ∨ right = .invalid then .fine .invalid
  else if left = .int ∧ right = .int then .fine .int
  else (.invalid, some complaint)

/-- The rule of an operator with two operands. Comparisons and logical operators have a truth value
even where their operands are wrong. -/
def BinaryOp.verdict (op : BinaryOp) (left right : Ty) : Verdict :=
  let known := left ≠ .invalid ∧ right ≠ .invalid
  let numeric := left.isNumeric ∧ right.isNumeric
  match op.family with
  | .logical =>
    (.bool, if known ∧ ¬(left = .bool ∧ right = .bool) then some (.logicalOperands op left right)
      else none)
  | .comparison =>
    (.bool, if known ∧ ¬(left = right ∨ numeric) then some (.comparedOperands op left right)
      else none)
  | .bitwise => integerVerdict (.bitwiseOperands op left right) left right
  | .shift => integerVerdict (.shiftOperands op left right) left right
  | .arithmetic =>
    if ¬known then .fine .invalid
    else if numeric then .fine (left.widest right)
    else (.invalid, some (.numericOperands op left right))
  | .modulo =>
    if ¬known then .fine .invalid
    else if numeric then integerVerdict (.integerOperands op left right) left right
    else (.invalid, some (.numericOperands op left right))
  | .assignment => .fine .invalid

/-- The rule of an operator with one operand. Only a variable can be stepped. -/
def UnaryOp.verdict (op : UnaryOp) (isName : Bool) (operand : Ty) : Verdict :=
  if op = .not then
    (.bool, if operand = .bool ∨ operand = .invalid then none
      else some (.negatedOperand op operand))
  else if operand = .invalid then .fine .invalid
  else if ¬operand.isNumeric then (.invalid, some (.numericOperand op operand))
  else if op.isStep ∧ ¬isName then (operand, some (.steppedExpression op))
  else .fine operand

namespace Typing

section

variable (table : Table)

/-- A name has the type of what it stands for; an unknown one was complained about before. -/
def nameVerdict (name : String) : Verdict :=
  match table.lookup name with
  | none => .fine .invalid
  | some s => if s.isFunction then (.invalid, some (.functionValue name)) else .fine s.ty

/-- A value may be assigned to a variable whose type it fits. -/
def assignmentVerdict (target : Expr) (value : Ty) : Verdict :=
  match target with
  | .symbol name =>
    match table.lookup name.name with
    | none => .fine .invalid
    | some s =>
      if ¬s.isVariable then (.invalid, some (.assignedName name.name))
      else if s.ty.fits value then .fine s.ty
      else (s.ty, some (.assignedValue value name.name s.ty))
  | _ => (.invalid, some .assignedExpression)

/-- What a call may mean: the types of the parameters and of the result. -/
structure Overload where
  params : List Ty
  ty : Ty
deriving DecidableEq, Repr

def overloads (name : String) : List Overload :=
  (table.lookupAll name).filterMap fun s => s.params?.map (⟨·, s.ty⟩)

end

def Overload.accepts (o : Overload) (arguments : List Ty) : Bool :=
  o.params.length = arguments.length &&
    (o.params.zip arguments).all fun (param, argument) => param.fits argument

/-- The overload with exactly these types, or the first that accepts them. -/
def choose? (candidates : List Overload) (arguments : List Ty) : Option Overload :=
  (candidates.find? (·.params = arguments)).or (candidates.find? (·.accepts arguments))

/-- Complaints about arguments that do not fit, the first of them having the given number. -/
def argumentErrors (name : String) : (number : Nat) → List Ty → List (Ty × Position) →
    List TypeError
  | number, param :: params, (argument, position) :: arguments =>
    let others := argumentErrors name (number + 1) params arguments
    if param.fits argument then others
    else ⟨.argument number name param argument, position⟩ :: others
  | _, _, _ => []

/-- The type of a call. Where no overload accepts the arguments, the first one that takes as many
is held against them, or else the first one. -/
def callTyped (table : Table) (name : String) (position : Position)
    (arguments : List (Ty × Position)) : Typed :=
  let types := arguments.map Prod.fst
  let candidates := overloads table name
  match choose? candidates types, candidates with
  | some chosen, _ => .pure chosen.ty
  | none, [] =>
    if (table.lookup name).isSome then ⟨.invalid, [⟨.calledName name, position⟩]⟩
    else .pure .invalid
  | none, first :: _ =>
    match candidates.find? (·.params.length = types.length) with
    | some nearest => ⟨nearest.ty, argumentErrors name 1 nearest.params arguments⟩
    | none => ⟨first.ty, [⟨.argumentCount name first.params.length types.length, position⟩]⟩

section

variable (table : Table)

mutual

/-- The type of an expression, which may be nothing. -/
def typeOf : Expr → Typed
  | .int .. => .pure .int
  | .float .. => .pure .float
  | .string .. => .pure .string
  | .char .. => .pure .char
  | .bool .. => .pure .bool
  | .symbol name => (nameVerdict table name.name).typed name.span.start []
  | .binary op left right span =>
    if op = .assign then
      let value := (typeOf right).asValue right.start
      (assignmentVerdict table left value.ty).typed span.start value.errors
    else
      let left := (typeOf left).asValue left.start
      let right := (typeOf right).asValue right.start
      (op.verdict left.ty right.ty).typed span.start (left.errors ++ right.errors)
  | .unary op operand _ span =>
    let value := (typeOf operand).asValue operand.start
    (op.verdict operand.symbol?.isSome value.ty).typed span.start value.errors
  | .call callee args span =>
    let values := typesOf args
    let called := callTyped table callee.name span.start
      (List.zip (values.map Typed.ty) (args.map Expr.start))
    ⟨called.ty, values.flatMap Typed.errors ++ called.errors⟩
termination_by structural e => e

def typesOf : List Expr → List Typed
  | [] => []
  | e :: others => (typeOf e).asValue e.start :: typesOf others
termination_by structural es => es

end

def valueOf (e : Expr) : Typed :=
  (typeOf table e).asValue e.start

end
end Typing
end Curly
