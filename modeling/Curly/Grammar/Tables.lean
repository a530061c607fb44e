import Curly.Operator
import Curly.Token
import Curly.Ty

/-! What a token means by its place: at the start of an expression, behind one, at the start of a
statement, or as a type. -/
namespace Curly

/-- How tightly an operator binds its operands, loosest first. -/
inductive Power where
  | lowest
  | assignment
  | logicalOr
  | logicalAnd
  | bitwiseOr
  | bitwiseXor
  | bitwiseAnd
  | equality
  | relational
  | shift
  | additive
  | multiplicative
  | unary
  | suffix
  | primary
deriving DecidableEq, Repr, Inhabited

namespace Power

def all : List Power :=
  [.lowest, .assignment, .logicalOr, .logicalAnd, .bitwiseOr, .bitwiseXor, .bitwiseAnd, .equality,
   .relational, .shift, .additive, .multiplicative, .unary, .suffix, .primary]

def rank (p : Power) : Nat :=
  p.ctorIdx

end Power

/-- An expression begins with an operand of one token, an operator, or a parenthesis. -/
inductive Start where
  | primary
  | operator
  | group
deriving DecidableEq, Repr

/-- An expression goes on with an assignment, a second operand, a step, or arguments. -/
inductive Follow where
  | assignment
  | operand
  | step
  | arguments
deriving DecidableEq, Repr

/-- The statements that their first token gives away. -/
inductive Form where
  | declaration
  | main
  | enumeration
  | inclusion
  | block
  | branch
  | whileLoop
  | doLoop
  | forLoop
  | switch
  | giveBack
  | leave
  | print
deriving DecidableEq, Repr

namespace Token.Kind

def binaryOp? : Kind → Option BinaryOp
  | .plus => some .add
  | .dash => some .subtract
  | .star => some .multiply
  | .slash => some .divide
  | .percent => some .modulo
  | .equals => some .equals
  | .notEquals => some .notEquals
  | .less => some .less
  | .greater => some .greater
  | .lessEquals => some .lessEquals
  | .greaterEquals => some .greaterEquals
  | .and => some .and
  | .or => some .or
  | .bitAnd => some .bitAnd
  | .bitOr => some .bitOr
  | .bitXor => some .bitXor
  | .shiftLeft => some .shiftLeft
  | .shiftRight => some .shiftRight
  | .assignment => some .assign
  | _ => none

def unaryOp? : Kind → Option UnaryOp
  | .not => some .not
  | .dash => some .negate
  | .plus => some .plus
  | .plusPlus => some .increment
  | .minusMinus => some .decrement
  | _ => none

def start? : Kind → Option Start
  | .intLiteral | .floatLiteral | .stringLiteral | .charLiteral | .boolLiteral | .identifier =>
    some .primary
  | .not | .dash | .plus | .plusPlus | .minusMinus => some .operator
  | .openParen => some .group
  | _ => none

def follow? : Kind → Option (Power × Follow)
  | .assignment => some (.assignment, .assignment)
  | .or => some (.logicalOr, .operand)
  | .and => some (.logicalAnd, .operand)
  | .bitOr => some (.bitwiseOr, .operand)
  | .bitXor => some (.bitwiseXor, .operand)
  | .bitAnd => some (.bitwiseAnd, .operand)
  | .equals | .notEquals => some (.equality, .operand)
  | .less | .lessEquals | .greater | .greaterEquals => some (.relational, .operand)
  | .shiftLeft | .shiftRight => some (.shift, .operand)
  | .plus | .dash => some (.additive, .operand)
  | .star | .slash | .percent => some (.multiplicative, .operand)
  | .plusPlus | .minusMinus => some (.suffix, .step)
  | .openParen => some (.suffix, .arguments)
  | _ => none

def form? : Kind → Option Form
  | .intType | .floatType | .doubleType | .charType | .boolType | .voidType | .stringType =>
    some .declaration
  | .mainWord => some .main
  | .enumWord => some .enumeration
  | .inclusion => some .inclusion
  | .openCurly => some .block
  | .ifWord => some .branch
  | .whileWord => some .whileLoop
  | .doWord => some .doLoop
  | .forWord => some .forLoop
  | .switchWord => some .switch
  | .returnWord => some .giveBack
  | .breakWord => some .leave
  | .printWord => some .print
  | _ => none

def ty? : Kind → Option Ty
  | .intType => some .int
  | .floatType => some .float
  | .doubleType => some .double
  | .charType => some .char
  | .boolType => some .bool
  | .voidType => some .void
  | .stringType => some .string
  | _ => none

end Token.Kind

/-- The meanings that a parser goes by. -/
structure Grammar where
  start? : Token.Kind → Option Start
  follow? : Token.Kind → Option (Power × Follow)
  form? : Token.Kind → Option Form
  ty? : Token.Kind → Option Ty

namespace Grammar

def full : Grammar :=
  ⟨Token.Kind.start?, Token.Kind.follow?, Token.Kind.form?, Token.Kind.ty?⟩

def untyped : Grammar :=
  { full with ty? := fun _ => none }

def empty : Grammar :=
  ⟨fun _ => none, fun _ => none, fun _ => none, fun _ => none⟩

end Grammar
end Curly
