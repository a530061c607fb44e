import Curly.Operator
import Curly.Position
import Curly.Ty

/-! What can be wrong with the types of a program. A cause knows its kind and its words. -/
namespace Curly

inductive TypeError.Kind where
  | variable
  | argumentCount
  | argumentType
  | returnType
  | mismatch
  | notBoolean
  | strayBreak
  | condition
  | noValue
  | logicalOperands
  | bitwiseOperands
  | shiftOperands
  | numericOperands
  | missingReturn
deriving DecidableEq, Repr

namespace TypeError.Kind

def name : Kind → String
  | .variable => "ErroneousVarDecl"
  | .argumentCount => "FnCallParamCount"
  | .argumentType => "FnCallParamType"
  | .returnType => "ErroneousReturnType"
  | .mismatch => "ExpressionTypeMismatch"
  | .notBoolean => "ExpectedBooleanExpression"
  | .strayBreak => "ErroneousBreak"
  | .condition => "NonBooleanCondStmt"
  | .noValue => "EmptyExpression"
  | .logicalOperands => "AttemptedBoolOpOnNonBools"
  | .bitwiseOperands => "AttemptedBitOpOnNonInt"
  | .shiftOperands => "AttemptedShiftOnNonInt"
  | .numericOperands => "AttemptedAddOpOnNonNumeric"
  | .missingReturn => "ReturnStmtNotFound"

def text : Kind → String
  | .variable => "Erroneous variable declaration"
  | .argumentCount => "Function call parameter count mismatch"
  | .argumentType => "Function call parameter type mismatch"
  | .returnType => "Function return type mismatch"
  | .mismatch => "Expression type mismatch"
  | .notBoolean => "Expected boolean expression"
  | .strayBreak => "Break statement outside loop or switch"
  | .condition => "Non-boolean condition in statement"
  | .noValue => "Expression has no value"
  | .logicalOperands => "Attempted boolean operation on non-boolean types"
  | .bitwiseOperands => "Attempted bitwise operation on non-integer type"
  | .shiftOperands => "Attempted shift operation on non-integer type"
  | .numericOperands => "Attempted arithmetic on non-numeric type"
  | .missingReturn => "Return statement not found where required"

def all : List Kind :=
  [.variable, .argumentCount, .argumentType, .returnType, .mismatch, .notBoolean, .strayBreak,
   .condition, .noValue, .logicalOperands, .bitwiseOperands, .shiftOperands, .numericOperands,
   .missingReturn]

def ofName? (name : String) : Option Kind :=
  all.find? (·.name = name)

def line (k : Kind) (message : String) (position : Position) : String :=
  k.text ++ ": " ++ message ++ " (" ++ position.text ++ ")"

end TypeError.Kind

inductive TypeError.Cause where
  | voidVariable (name : String)
  | initialValue (ty : Ty) (name : String) (found : Ty)
  | voidCondition (construct : String)
  | condition (construct : String) (found : Ty)
  | strayBreak
  | missingReturn (name : String) (ty : Ty)
  | switchSubject (found : Ty)
  | caseValue (found subject : Ty)
  | strayReturn
  | returnFromVoid (name : String)
  | returnValue (name : String) (ty found : Ty)
  /-- A return without a value; `subject` names the function. -/
  | returnNothing (subject : String) (ty : Ty)
  | voidValue
  | functionValue (name : String)
  | logicalOperands (op : BinaryOp) (left right : Ty)
  | comparedOperands (op : BinaryOp) (left right : Ty)
  | bitwiseOperands (op : BinaryOp) (left right : Ty)
  | shiftOperands (op : BinaryOp) (left right : Ty)
  | numericOperands (op : BinaryOp) (left right : Ty)
  | integerOperands (op : BinaryOp) (left right : Ty)
  | assignedExpression
  | assignedName (name : String)
  | assignedValue (found : Ty) (name : String) (ty : Ty)
  | negatedOperand (op : UnaryOp) (found : Ty)
  | numericOperand (op : UnaryOp) (found : Ty)
  | steppedExpression (op : UnaryOp)
  | calledName (name : String)
  | argumentCount (name : String) (wanted found : Nat)
  /-- Arguments are counted from one. -/
  | argument (number : Nat) (name : String) (ty found : Ty)
deriving DecidableEq, Repr

namespace TypeError

def quote (code : String) : String :=
  "`" ++ code ++ "`"

def named (name : String) : String :=
  "'" ++ name ++ "'"

def Cause.kind : Cause → Kind
  | .voidVariable _ | .initialValue .. => .variable
  | .voidCondition _ | .voidValue => .noValue
  | .condition .. => .condition
  | .strayBreak => .strayBreak
  | .missingReturn .. => .missingReturn
  | .strayReturn | .returnFromVoid _ | .returnValue .. | .returnNothing .. => .returnType
  | .logicalOperands .. => .logicalOperands
  | .bitwiseOperands .. => .bitwiseOperands
  | .shiftOperands .. => .shiftOperands
  | .numericOperands .. | .numericOperand .. => .numericOperands
  | .negatedOperand .. => .notBoolean
  | .argumentCount .. => .argumentCount
  | .argument .. => .argumentType
  | .switchSubject _ | .caseValue .. | .functionValue _ | .comparedOperands ..
  | .integerOperands .. | .assignedExpression | .assignedName _ | .assignedValue ..
  | .steppedExpression _ | .calledName _ => .mismatch

def foundTypes (left right : Ty) : String :=
  ", found " ++ quote left.name ++ " and " ++ quote right.name

def Cause.message : Cause → String
  | .voidVariable name => "variable " ++ named name ++ " declared `void`"
  | .initialValue ty name found =>
    "cannot initialize " ++ quote ty.name ++ " variable " ++ named name ++ " with a " ++
      quote found.name ++ " value"
  | .voidCondition construct => quote construct ++ " condition has no value"
  | .condition construct found =>
    quote construct ++ " condition has type " ++ quote found.name ++ ", expected `bool`"
  | .strayBreak => "`break` is only allowed inside a loop or switch"
  | .missingReturn name ty =>
    "function " ++ named name ++ " returns " ++ quote ty.name ++ " but never returns a value"
  | .switchSubject found =>
    "switch expression must be `int` or `char`, found " ++ quote found.name
  | .caseValue found subject =>
    "case value of type " ++ quote found.name ++ " does not match switch type " ++
      quote subject.name
  | .strayReturn => "`return` outside of a function"
  | .returnFromVoid name => "void function " ++ named name ++ " cannot return a value"
  | .returnValue name ty found =>
    "function " ++ named name ++ " returns " ++ quote ty.name ++ ", found " ++ quote found.name
  | .returnNothing subject ty => subject ++ " must return a " ++ quote ty.name ++ " value"
  | .voidValue => "a `void` expression is used as a value"
  | .functionValue name => "function " ++ named name ++ " is used as a value"
  | .logicalOperands op left right =>
    quote op.spelling ++ " needs `bool` operands" ++ foundTypes left right
  | .comparedOperands op left right =>
    "cannot compare " ++ quote left.name ++ " with " ++ quote right.name ++ " using " ++
      quote op.spelling
  | .bitwiseOperands op left right | .shiftOperands op left right
  | .integerOperands op left right =>
    quote op.spelling ++ " needs `int` operands" ++ foundTypes left right
  | .numericOperands op left right =>
    quote op.spelling ++ " needs numeric operands" ++ foundTypes left right
  | .assignedExpression => "assignment target is not a variable"
  | .assignedName name => "cannot assign to " ++ named name ++ ", it is not a variable"
  | .assignedValue found name ty =>
    "cannot assign a " ++ quote found.name ++ " value to " ++ named name ++ " of type " ++
      quote ty.name
  | .negatedOperand op found =>
    quote op.spelling ++ " needs a `bool` operand, found " ++ quote found.name
  | .numericOperand op found =>
    quote op.spelling ++ " needs a numeric operand, found " ++ quote found.name
  | .steppedExpression op => "operand of " ++ quote op.spelling ++ " must be a variable"
  | .calledName name => named name ++ " is not a function"
  | .argumentCount name wanted found =>
    "function " ++ named name ++ " expects " ++ toString wanted ++ " argument(s), found " ++
      toString found
  | .argument number name ty found =>
    "argument " ++ toString number ++ " of " ++ named name ++ " expects " ++ quote ty.name ++
      ", found " ++ quote found.name

end TypeError

structure TypeError where
  cause : TypeError.Cause
  position : Position
deriving DecidableEq, Repr

namespace TypeError

def kind (e : TypeError) : Kind :=
  e.cause.kind

def text (e : TypeError) : String :=
  e.kind.line e.cause.message e.position

def message (e : TypeError) : String :=
  e.kind.text ++ ": " ++ e.cause.message

end TypeError
end Curly
