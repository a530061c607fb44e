/-! Three-address code: instructions over source variables, temporaries, constants and labels, and
their text. -/
namespace Curly

inductive Operand where
  | temp (index : Nat)
  | variable (name : String)
  | constant (spelling : String)
deriving DecidableEq, Repr, Inhabited

namespace Operand

def isVariable : Operand → Bool
  | .variable _ => true
  | _ => false

def text : Operand → String
  | .temp index => "t" ++ toString index
  | .variable name => name
  | .constant spelling => spelling

end Operand

structure Label where
  index : Nat
deriving DecidableEq, Repr, Inhabited

def Label.text (l : Label) : String :=
  "L" ++ toString l.index

/-- Operators stand in an instruction as they are spelled. -/
inductive Instruction where
  | assign (target value : Operand)
  | binary (target : Operand) (op : String) (left right : Operand)
  | unary (target : Operand) (op : String) (operand : Operand)
  | jumpIfFalse (condition : Operand) (target : Label)
  | jumpIfTrue (condition : Operand) (target : Label)
  | jumpIfEqual (left right : Operand) (target : Label)
  | jump (target : Label)
  | label (here : Label)
  | call (target : Option Operand) (callee : String) (args : List Operand)
  | giveBack (value : Option Operand)
  | beginFunction (name : String)
  | endFunction (name : String)
  | param (name : String)
deriving DecidableEq, Repr, Inhabited

namespace Instruction

def isReturn : Instruction → Bool
  | .giveBack _ => true
  | _ => false

/-- Whether the instruction marks a place and stands at the margin. -/
def isMark : Instruction → Bool
  | .label _ | .beginFunction _ | .endFunction _ => true
  | _ => false

def callText (callee : String) (args : List Operand) : String :=
  "call " ++ callee ++ "(" ++ ", ".intercalate (args.map Operand.text) ++ ")"

def text : Instruction → String
  | .assign target value => target.text ++ " = " ++ value.text
  | .binary target op left right =>
    target.text ++ " = " ++ left.text ++ " " ++ op ++ " " ++ right.text
  | .unary target op operand => target.text ++ " = " ++ op ++ operand.text
  | .jumpIfFalse condition target => "if " ++ condition.text ++ " == 0 goto " ++ target.text
  | .jumpIfTrue condition target => "if " ++ condition.text ++ " != 0 goto " ++ target.text
  | .jumpIfEqual left right target =>
    "if " ++ left.text ++ " == " ++ right.text ++ " goto " ++ target.text
  | .jump target => "goto " ++ target.text
  | .label here => here.text ++ ":"
  | .call (some target) callee args => target.text ++ " = " ++ callText callee args
  | .call none callee args => callText callee args
  | .giveBack (some value) => "return " ++ value.text
  | .giveBack none => "return"
  | .beginFunction name => "function " ++ name ++ " begin"
  | .endFunction name => "function " ++ name ++ " end"
  | .param name => name ++ " = param"

def line (i : Instruction) : String :=
  if i.isMark then i.text else "  " ++ i.text

end Instruction

def listing (code : List Instruction) : String :=
  String.join (code.map fun i => i.line ++ "\n")

end Curly
