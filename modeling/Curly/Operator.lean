/-! The operators of expressions: their spellings and the families that share a typing rule. -/
namespace Curly

inductive BinaryOp where
  | add
  | subtract
  | multiply
  | divide
  | modulo
  | equals
  | notEquals
  | less
  | greater
  | lessEquals
  | greaterEquals
  | and
  | or
  | bitAnd
  | bitOr
  | bitXor
  | shiftLeft
  | shiftRight
  | assign
deriving DecidableEq, Repr, Inhabited

inductive BinaryOp.Family where
  | arithmetic
  | modulo
  | comparison
  | logical
  | bitwise
  | shift
  | assignment
deriving DecidableEq, Repr

namespace BinaryOp

def name : BinaryOp → String
  | .add => "Add"
  | .subtract => "Subtract"
  | .multiply => "Multiply"
  | .divide => "Divide"
  | .modulo => "Modulo"
  | .equals => "Equals"
  | .notEquals => "NotEquals"
  | .less => "Less"
  | .greater => "Greater"
  | .lessEquals => "LessEquals"
  | .greaterEquals => "GreaterEquals"
  | .and => "And"
  | .or => "Or"
  | .bitAnd => "BitAnd"
  | .bitOr => "BitOr"
  | .bitXor => "BitXor"
  | .shiftLeft => "ShiftLeft"
  | .shiftRight => "ShiftRight"
  | .assign => "Assign"

def all : List BinaryOp :=
  [.add, .subtract, .multiply, .divide, .modulo, .equals, .notEquals, .less, .greater,
   .lessEquals, .greaterEquals, .and, .or, .bitAnd, .bitOr, .bitXor, .shiftLeft, .shiftRight,
   .assign]

def ofName? (name : String) : Option BinaryOp :=
  all.find? (·.name = name)

def spelling : BinaryOp → String
  | .add => "+"
  | .subtract => "-"
  | .multiply => "*"
  | .divide => "/"
  | .modulo => "%"
  | .equals => "=="
  | .notEquals => "!="
  | .less => "<"
  | .greater => ">"
  | .lessEquals => "<="
  | .greaterEquals => ">="
  | .and => "&&"
  | .or => "||"
  | .bitAnd => "&"
  | .bitOr => "|"
  | .bitXor => "^"
  | .shiftLeft => "<<"
  | .shiftRight => ">>"
  | .assign => "="

def family : BinaryOp → Family
  | .add | .subtract | .multiply | .divide => .arithmetic
  | .modulo => .modulo
  | .equals | .notEquals | .less | .greater | .lessEquals | .greaterEquals => .comparison
  | .and | .or => .logical
  | .bitAnd | .bitOr | .bitXor => .bitwise
  | .shiftLeft | .shiftRight => .shift
  | .assign => .assignment

def Family.name : Family → String
  | .arithmetic => "Arithmetic"
  | .modulo => "Modulo"
  | .comparison => "Comparison"
  | .logical => "Logical"
  | .bitwise => "Bitwise"
  | .shift => "Shift"
  | .assignment => "Assignment"

end BinaryOp

inductive UnaryOp where
  | not
  | negate
  | plus
  | increment
  | decrement
deriving DecidableEq, Repr, Inhabited

namespace UnaryOp

def name : UnaryOp → String
  | .not => "Not"
  | .negate => "Negate"
  | .plus => "Plus"
  | .increment => "Increment"
  | .decrement => "Decrement"

def all : List UnaryOp :=
  [.not, .negate, .plus, .increment, .decrement]

def ofName? (name : String) : Option UnaryOp :=
  all.find? (·.name = name)

def spelling : UnaryOp → String
  | .not => "!"
  | .negate => "-"
  | .plus => "+"
  | .increment => "++"
  | .decrement => "--"

def isStep : UnaryOp → Bool
  | .increment | .decrement => true
  | _ => false

end UnaryOp

/-- Where an operator with one operand stands. -/
inductive Side where
  | before
  | behind
deriving DecidableEq, Repr, Inhabited

end Curly
