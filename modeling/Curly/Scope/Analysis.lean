import Curly.Diagnostic.Scope
import Curly.Scope.Declarations
import Curly.Scope.Table

/-! Scope analysis: a walk over a program with the table of scopes, which rules on every declaration
and resolves every name against the frames around it. All complaints are collected. -/
namespace Curly

structure Analysis where
  table : Table
  errors : List ScopeError
deriving Repr

inductive Ruling where
  | add (s : Symbol)
  /-- The declaration defines a function that has a prototype. -/
  | complete (params : List Ty)
  | ignore
  | reject (kind : ScopeError.Kind)
deriving DecidableEq, Repr

namespace Ruling

/-- A variable may hide a variable of a scope around it, and nothing else. -/
def onVariable (t : Table) (ty : Ty) (name : String) (position : Position) : Ruling :=
  match t.lookupLocal name, t.lookupEnclosing name with
  | some here, _ =>
    .reject (if here.isVariable then .variableRedefinition else .conflictingDeclaration)
  | none, some around =>
    if around.isVariable then .add (.ofVariable name ty position)
    else .reject .conflictingDeclaration
  | none, none => .add (.ofVariable name ty position)

/-- A prototype may stand beside overloads and behind its definition. -/
def onPrototype (t : Table) (ty : Ty) (name : String) (params : List Ty) (position : Position) :
    Ruling :=
  if (t.lookupLocalAll name).any fun s => !s.isFunction then .reject .conflictingDeclaration
  else
    match t.lookupOverload name params with
    | none => .add (.ofFunction name ty params true position)
    | some here =>
      if here.ty ≠ ty then .reject .conflictingDeclaration
      else if here.isPrototype then .reject .prototypeRedefinition
      else .ignore

/-- A function may stand beside overloads and define a prototype. -/
def onFunction (t : Table) (ty : Ty) (name : String) (params : List Ty) (position : Position) :
    Ruling :=
  if (t.lookupLocalAll name).any fun s => !s.isFunction then .reject .conflictingDeclaration
  else
    match t.lookupOverload name params with
    | none => .add (.ofFunction name ty params false position)
    | some here =>
      if here.isPrototype ∧ here.ty = ty then .complete params
      else .reject .conflictingDefinition

def onMain (t : Table) (position : Position) : Ruling :=
  if (t.lookupLocal "main").isSome then .reject .conflictingDefinition
  else .add (.ofFunction "main" .int [] false position)

/-- A parameter must not repeat the name of an earlier one. -/
def onParam (earlier : List String) (p : Param) : Ruling :=
  if earlier.contains p.name then .reject .parameterRedefinition
  else .add (.ofVariable p.name p.ty p.span.start)

/-- Enumerations are declared in the global scope only. -/
def onEnumeration (t : Table) (name : String) (position : Position) : Ruling :=
  if 0 < t.level then .reject .storageClass
  else
    match t.lookupLocal name with
    | some here =>
      .reject (if here.isEnumeration then .enumRedefinition else .conflictingDeclaration)
    | none => .add (.ofEnumeration name position)

def onEnumValue (t : Table) (earlier : List String) (value : Identifier) : Ruling :=
  if earlier.contains value.name then .reject .enumValueRedefinition
  else if (t.lookup value.name).isSome then .reject .conflictingDeclaration
  else .add (.ofEnumValue value.name value.span.start)

def isReject : Ruling → Bool
  | .reject _ => true
  | _ => false

end Ruling

namespace Analysis

def empty : Analysis :=
  ⟨.empty, []⟩

def report (a : Analysis) (kind : ScopeError.Kind) (name : String) (position : Position) :
    Analysis :=
  { a with errors := a.errors ++ [⟨kind, name, position⟩] }

def enter (a : Analysis) : Analysis :=
  { a with table := a.table.enter }

def exit (a : Analysis) : Analysis :=
  { a with table := a.table.exit }

def obey (a : Analysis) (name : String) (position : Position) : Ruling → Analysis
  | .add s => { a with table := a.table.declare s }
  | .complete params => { a with table := a.table.completeOverload name params }
  | .ignore => a
  | .reject kind => a.report kind name position

def params (earlier : List String) : List Param → Analysis → Analysis
  | [], a => a
  | p :: others, a =>
    params (p.name :: earlier) others (a.obey p.name p.span.start (.onParam earlier p))

def enumValues (earlier : List String) : List Identifier → Analysis → Analysis
  | [], a => a
  | value :: others, a =>
    enumValues (value.name :: earlier) others
      (a.obey value.name value.span.start (.onEnumValue a.table earlier value))

def enumeration (name : String) (values : List Identifier) (position : Position)
    (a : Analysis) : Analysis :=
  let ruling := Ruling.onEnumeration a.table name position
  let a := a.obey name position ruling
  if ruling.isReject then a else enumValues [] values a

section

-- Whether the program declares a name anywhere.
variable (declared : String → Bool)

/-- A name in use must be visible. A name that is declared but not visible is used too early, or out
of its scope. -/
def resolve (isCall : Bool) (name : Identifier) (a : Analysis) : Analysis :=
  if (a.table.lookup name.name).isSome then a
  else
    let kind : ScopeError.Kind :=
      if declared name.name then .forwardReference
      else if isCall then .undefinedFunction
      else .undeclaredVariable
    a.report kind name.name name.span.start

mutual

def expr : Expr → Analysis → Analysis
  | .int .., a | .float .., a | .string .., a | .char .., a | .bool .., a => a
  | .symbol name, a => resolve declared false name a
  | .binary _ left right _, a => expr right (expr left a)
  | .unary _ operand _ _, a => expr operand a
  | .call callee args _, a => exprs args (resolve declared true callee a)
termination_by structural e => e

def exprs : List Expr → Analysis → Analysis
  | [], a => a
  | e :: others, a => exprs others (expr e a)
termination_by structural es => es

end

def optional : Option Expr → Analysis → Analysis
  | none, a => a
  | some e, a => expr declared e a

mutual

/-- The value of a variable is looked at before its name is known; the condition of a loop that
tests last stands outside its body. -/
def stmt : Stmt → Analysis → Analysis
  | .variable ty name initial span, a =>
    let a := optional declared initial a
    a.obey name span.start (.onVariable a.table ty name span.start)
  | .prototype ty name ps span, a =>
    a.obey name span.start (.onPrototype a.table ty name (signature ps) span.start)
  | .function ty name ps body span, a =>
    let a := a.obey name span.start (.onFunction a.table ty name (signature ps) span.start)
    (within body (params [] ps a.enter)).exit
  | .main body span, a =>
    (within body (a.obey "main" span.start (.onMain a.table span.start)).enter).exit
  | .enumeration name values _ span, a => enumeration name values span.start a
  | .block body, a => block body a
  | .branch condition yes no _, a =>
    let a := block yes (expr declared condition a)
    match no with
    | none => a
    | some no => block no a
  | .whileLoop condition body _, a => block body (expr declared condition a)
  | .doLoop body condition _, a => expr declared condition (block body a)
  | .forLoop initial condition update body _, a =>
    let a := match initial with
      | none => a.enter
      | some initial => stmt initial a.enter
    (block body (optional declared update (optional declared condition a))).exit
  | .switch subject cases fallback _, a =>
    let a := arms cases (expr declared subject a)
    match fallback with
    | none => a
    | some fallback => block fallback a
  | .giveBack value _, a => optional declared value a
  | .print args _, a => exprs declared args a
  | .evaluate e _, a => expr declared e a
  | .leave _, a | .inclusion .., a => a
termination_by structural s => s

/-- The statements of a block in a frame of their own. -/
def block : Block → Analysis → Analysis
  | ⟨body, _⟩, a => (stmts body a.enter).exit
termination_by structural b => b

/-- The statements of a block in the current frame. -/
def within : Block → Analysis → Analysis
  | ⟨body, _⟩, a => stmts body a
termination_by structural b => b

def stmts : List Stmt → Analysis → Analysis
  | [], a => a
  | s :: others, a => stmts others (stmt s a)
termination_by structural body => body

def arms : List Case → Analysis → Analysis
  | [], a => a
  | ⟨value, body, _⟩ :: others, a => arms others (block body (expr declared value a))
termination_by structural cases => cases

end

end
end Analysis

def analyze (p : Program) : Analysis :=
  Analysis.stmts (isDeclared (declarations p.body)) p.body .empty

end Curly
