import Curly.Code.Builder
import Curly.Decimal.Numeral
import Curly.Syntax
import Curly.Text.Quoted

/-! Lowering of syntax trees to three-address code. An expression gives the operand that holds its
value; control flow becomes labels and jumps. Nothing is checked. -/
namespace Curly.Lowering

def intOperand (n : Int) : Operand :=
  .constant (toString n)

def boolOperand (b : Bool) : Operand :=
  .constant (if b then "true" else "false")

/-- The value of a variable that is given none, and of a function that ends without a return. -/
def defaultOperand : Operand :=
  intOperand 0

/-- An enumeration value is its ordinal; any other name is a variable. -/
def nameOperand (name : String) (b : Builder) : Operand :=
  match b.ordinal? name with
  | some ordinal => intOperand ordinal
  | none => .variable name

def intoTemp (instruction : Operand → Instruction) (b : Builder) : Operand × Builder :=
  let (target, b) := b.newTemp
  (target, b.emit (instruction target))

/-- Puts a value into the variable that an expression names, if it names one. -/
def store (target : Expr) (value : Operand) (b : Builder) : Operand × Builder :=
  match target with
  | .symbol name => (.variable name.name, b.emit (.assign (.variable name.name) value))
  | _ => (value, b)

def stepSpelling : UnaryOp → String
  | .decrement => BinaryOp.spelling .subtract
  | _ => BinaryOp.spelling .add

/-- A step of an operand: a variable is changed. Behind its operand, the operator gives the value
from before. -/
def step (op : UnaryOp) (side : Side) (operand : Operand) (b : Builder) : Operand × Builder :=
  let (previous, b) := match side with
    | .behind =>
      let (saved, b) := intoTemp (.assign · operand) b
      (some saved, b)
    | .before => (none, b)
  let (updated, b) := intoTemp (.binary · (stepSpelling op) operand (intOperand 1)) b
  let (result, b) :=
    if operand.isVariable then (operand, b.emit (.assign operand updated)) else (updated, b)
  (previous.getD result, b)

mutual

def expr : Expr → Builder → Operand × Builder
  | .int value _, b => (intOperand value, b)
  | .float value _, b => (.constant value.text, b)
  | .string value _, b => (.constant (Text.quotedString value), b)
  | .char value _, b => (.constant (Text.quotedCharacter value), b)
  | .bool value _, b => (boolOperand value, b)
  | .symbol name, b => (nameOperand name.name b, b)
  | .binary op left right _, b =>
    if op = .assign then
      let (value, b) := expr right b
      store left value b
    else
      let (left, b) := expr left b
      let (right, b) := expr right b
      intoTemp (.binary · op.spelling left right) b
  | .unary op operand side _, b =>
    let (operand, b) := expr operand b
    if op.isStep then step op side operand b
    else intoTemp (.unary · op.spelling operand) b
  | .call callee args _, b =>
    let (args, b) := exprs args b
    intoTemp (fun target => .call (some target) callee.name args) b
termination_by structural e => e

def exprs : List Expr → Builder → List Operand × Builder
  | [], b => ([], b)
  | e :: others, b =>
    let (first, b) := expr e b
    let (others, b) := exprs others b
    (first :: others, b)
termination_by structural es => es

end

def call (callee : String) (args : List Expr) (wanted : Bool) (b : Builder) :
    Option Operand × Builder :=
  let (args, b) := exprs args b
  if wanted then
    let (target, b) := intoTemp (fun target => .call (some target) callee args) b
    (some target, b)
  else (none, b.emit (.call none callee args))

def effect (e : Expr) (b : Builder) : Builder :=
  match e with
  | .call callee args _ => (call callee.name args false b).2
  | e => (expr e b).2

def variableStatement (name : String) (initial : Option Expr) (b : Builder) : Builder :=
  let (value, b) := match initial with
    | none => (defaultOperand, b)
    | some e => expr e b
  b.emit (.assign (.variable name) value)

def giveBack (value : Option Expr) (b : Builder) : Builder :=
  match value with
  | none => b.emit (.giveBack none)
  | some e =>
    let (value, b) := expr e b
    b.emit (.giveBack (some value))

/-- A break leads to the end of the innermost loop or switch; outside of them it does nothing. -/
def leave (b : Builder) : Builder :=
  match b.break? with
  | none => b
  | some target => b.emit (.jump target)

def print (args : List Expr) (b : Builder) : Builder :=
  let (args, b) := exprs args b
  b.emit (.call none "print" args)

def head (name : String) (params : List String) (b : Builder) : Builder :=
  let b := (b.emit (.beginFunction name)).enterFunction params
  params.foldl (fun b param => b.emit (.param param)) b

/-- The end of a function. A return comes first unless the last instruction is one. -/
def foot (name : String) (value : Option Operand) (b : Builder) : Builder :=
  let returns := match b.last? with
    | none => false
    | some i => i.isReturn
  let b := if returns then b else b.emit (.giveBack value)
  b.leaveFunction.emit (.endFunction name)

/-- Jumps back to `start` while the condition holds, and always if there is none. -/
def repeatWhile (condition : Option Expr) (start : Label) (b : Builder) : Builder :=
  match condition with
  | none => b.emit (.jump start)
  | some e =>
    let (condition, b) := expr e b
    b.emit (.jumpIfTrue condition start)

def tests (subject : Operand) : List Case → Builder → List Label × Builder
  | [], b => ([], b)
  | arm :: others, b =>
    let (value, b) := expr arm.value b
    let (label, b) := b.newLabel
    let (labels, b) := tests subject others (b.emit (.jumpIfEqual subject value label))
    (label :: labels, b)

mutual

def stmt : Stmt → Builder → Builder
  | .variable _ name initial _, b => variableStatement name initial b
  | .prototype .., b => b
  | .function ty name params body _, b =>
    let value := if ty = .void then none else some defaultOperand
    foot name value (block body (head name (params.map Param.name) b))
  | .main body _, b => foot "main" (some defaultOperand) (block body (head "main" [] b))
  | .enumeration _ values _ _, b => b.defineEnum (values.map Identifier.name)
  | .block body, b => block body b
  | .branch e yes no _, b =>
    let (condition, b) := expr e b
    let (otherwise, b) := b.newLabel
    let b := block yes (b.emit (.jumpIfFalse condition otherwise))
    match no with
    | none => b.emit (.label otherwise)
    | some no =>
      let (finish, b) := b.newLabel
      let b := block no ((b.emit (.jump finish)).emit (.label otherwise))
      b.emit (.label finish)
  | .whileLoop e body _, b =>
    let (start, b) := b.newLabel
    let (test, b) := b.newLabel
    let (finish, b) := b.newLabel
    let b := (b.emit (.jump test)).emit (.label start)
    let b := (block body (b.pushBreak finish)).popBreak
    (repeatWhile (some e) start (b.emit (.label test))).emit (.label finish)
  | .doLoop body e _, b =>
    let (start, b) := b.newLabel
    let (test, b) := b.newLabel
    let (finish, b) := b.newLabel
    let b := b.emit (.label start)
    let b := (block body (b.pushBreak finish)).popBreak
    (repeatWhile (some e) start (b.emit (.label test))).emit (.label finish)
  | .forLoop initial e update body _, b =>
    let b := match initial with
      | none => b
      | some initial => stmt initial b
    let (start, b) := b.newLabel
    let (advance, b) := b.newLabel
    let (test, b) := b.newLabel
    let (finish, b) := b.newLabel
    let b := (b.emit (.jump test)).emit (.label start)
    let b := (block body (b.pushBreak finish)).popBreak
    let b := b.emit (.label advance)
    let b := match update with
      | none => b
      | some update => (expr update b).2
    (repeatWhile e start (b.emit (.label test))).emit (.label finish)
  | .switch e cases fallback _, b =>
    let (subject, b) := expr e b
    let (finish, b) := b.newLabel
    let (labels, b) := tests subject cases b
    match fallback with
    | none =>
      let b := (b.emit (.jump finish)).pushBreak finish
      (arms finish labels cases b).popBreak.emit (.label finish)
    | some fallback =>
      let (otherwise, b) := b.newLabel
      let b := (b.emit (.jump otherwise)).pushBreak finish
      let b := (arms finish labels cases b).emit (.label otherwise)
      (block fallback b).popBreak.emit (.label finish)
  | .giveBack value _, b => giveBack value b
  | .leave _, b => leave b
  | .print args _, b => print args b
  | .evaluate e _, b => effect e b
  | .inclusion .., b => b
termination_by structural s => s

def block : Block → Builder → Builder
  | ⟨body, _⟩, b => stmts body b
termination_by structural b => b

def stmts : List Stmt → Builder → Builder
  | [], b => b
  | s :: others, b => stmts others (stmt s b)
termination_by structural body => body

/-- The arms of a switch, each at its label and with a jump behind all of them. -/
def arms (finish : Label) (labels : List Label) : List Case → Builder → Builder
  | [], b => b
  | ⟨_, body, _⟩ :: others, b =>
    match labels with
    | [] => b
    | label :: labels =>
      arms finish labels others ((block body (b.emit (.label label))).emit (.jump finish))
termination_by structural cases => cases

end

def program (p : Program) : List Instruction :=
  (stmts p.body .empty).code.toList

end Curly.Lowering
