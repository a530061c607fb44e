import Curly.Decimal.Numeral
import Curly.Grammar.Cursor
import Curly.Grammar.Tables
import Curly.Syntax

/-! Expressions by operator precedence. Each construct is read by a parser that is told how to read
the expressions inside it; `expressionWithin` ties them together, layer by layer, over the tokens
that are left. -/
namespace Curly.Parse

/-- How to read an expression whose operators bind tighter than a power. -/
abbrev Inner (m : Type → Type) : Type := Power → m Expr

variable {m : Type → Type} [Monad m] [Walk m]

def primary : m Expr := do
  let t ← advance
  match t.kind with
  | .intLiteral =>
    match readInt? t.value with
    | some value => return .int value t.span
    | none => throw ⟨.malformedNumber t.value, t.span.start⟩
  | .floatLiteral =>
    match Double.read? t.value with
    | some value => return .float value t.span
    | none => throw ⟨.malformedNumber t.value, t.span.start⟩
  | .stringLiteral => return .string t.value t.span
  | .charLiteral => return .char (t.value.toList.headD '\x00') t.span
  | .boolLiteral => return .bool (t.value = "true") t.span
  | .identifier => return .symbol ⟨t.value, t.span⟩
  | _ => failAt t

/-- An operator before its operand. -/
def prefixed (inner : Inner m) : m Expr := do
  let t ← advance
  match t.kind.unaryOp? with
  | none => failAt t
  | some op =>
    let operand ← inner .unary
    return .unary op operand .before ⟨t.span.start, operand.span.stop⟩

def grouped (inner : Inner m) : m Expr := do
  let _ ← advance
  let e ← inner .lowest
  let _ ← expect .closeParen
  return e

/-- An operator behind its operand. -/
def stepped (left : Expr) : m Expr := do
  let t ← advance
  match t.kind.unaryOp? with
  | none => failAt t
  | some op => return .unary op left .behind ⟨left.start, t.span.stop⟩

def combined (inner : Inner m) (left : Expr) (power : Power) : m Expr := do
  let t ← advance
  match t.kind.binaryOp? with
  | none => failAt t
  | some op =>
    let right ← inner power
    return .binary op left right ⟨left.start, right.span.stop⟩

/-- A value for a variable. The value may be an assignment itself. -/
def assigned (inner : Inner m) (left : Expr) : m Expr := do
  let t ← advance
  match left with
  | .symbol _ =>
    let right ← inner .lowest
    return .binary .assign left right ⟨left.start, right.span.stop⟩
  | _ => throw ⟨.assignmentTarget, t.span.start⟩

def arguments (inner : Inner m) : m (List Expr) := do
  let _ ← expect .openParen
  enclosed .closeParen (inner .lowest)

def called (inner : Inner m) (left : Expr) : m Expr := do
  match left with
  | .symbol callee =>
    let args ← arguments inner
    let span ← spanFrom callee.span.start
    return .call callee args span
  | _ => throw ⟨.callTarget, ← start⟩

def begun (inner : Inner m) : Start → m Expr
  | .primary => primary
  | .operator => prefixed inner
  | .group => grouped inner

def followed (inner : Inner m) (left : Expr) (power : Power) : Follow → m Expr
  | .assignment => assigned inner left
  | .operand => combined inner left power
  | .step => stepped left
  | .arguments => called inner left

/-- What goes on behind `left` with operators that bind tighter than `floor`. -/
def continued (g : Grammar) (inner : Inner m) (floor : Power) :
    (room : Nat) → (left : Expr) → m Expr
  | 0, left => Walk.spent (return left)
  | room + 1, left => do
    match g.follow? (← kind) with
    | none => return left
    | some (power, follow) =>
      if power.rank ≤ floor.rank then return left
      else
        let left ← followed inner left power follow
        continued g inner floor room left

/-- An expression of at most `room` tokens before the last one. -/
def expressionWithin (g : Grammar) : (room : Nat) → Inner m
  | 0, _ => Walk.spent do failAt (← current)
  | room + 1, floor => do
    let t ← current
    match g.start? t.kind with
    | none => failAt t
    | some start =>
      let left ← begun (expressionWithin g room) start
      continued g (expressionWithin g room) floor (Walk.rounds m room) left

/-- An expression whose operators bind tighter than `floor`. -/
def expression (g : Grammar) (floor : Power) : m Expr := do
  expressionWithin g (Walk.rounds m (← get).room) floor

end Curly.Parse
