import Curly.Decimal.Double
import Curly.Operator
import Curly.Position
import Curly.Ty

/-! Syntax trees. Every node keeps the span of text it was read from. -/
namespace Curly

structure Identifier where
  name : String
  span : Span
deriving DecidableEq, Repr, Inhabited

inductive Expr where
  | int (value : Int) (span : Span)
  | float (value : Double) (span : Span)
  | string (value : String) (span : Span)
  | char (value : Char) (span : Span)
  | bool (value : Bool) (span : Span)
  | symbol (name : Identifier)
  | binary (op : BinaryOp) (left right : Expr) (span : Span)
  | unary (op : UnaryOp) (operand : Expr) (side : Side) (span : Span)
  | call (callee : Identifier) (args : List Expr) (span : Span)
deriving Repr, Inhabited

namespace Expr

def span : Expr → Span
  | .int _ span | .float _ span | .string _ span | .char _ span | .bool _ span => span
  | .symbol name => name.span
  | .binary _ _ _ span | .unary _ _ _ span | .call _ _ span => span

def start (e : Expr) : Position :=
  e.span.start

def symbol? : Expr → Option Identifier
  | .symbol name => some name
  | _ => none

end Expr

structure Param where
  ty : Ty
  name : String
  span : Span
deriving DecidableEq, Repr, Inhabited

/-- The types of a list of parameters, which tell overloads apart. -/
def signature (params : List Param) : List Ty :=
  params.map Param.ty

mutual

inductive Stmt where
  | variable (ty : Ty) (name : String) (initial : Option Expr) (span : Span)
  | prototype (ty : Ty) (name : String) (params : List Param) (span : Span)
  | function (ty : Ty) (name : String) (params : List Param) (body : Block) (span : Span)
  | main (body : Block) (span : Span)
  | enumeration (name : String) (values : List Identifier) (valuesSpan : Span) (span : Span)
  | block (body : Block)
  | branch (condition : Expr) (yes : Block) (no : Option Block) (span : Span)
  | whileLoop (condition : Expr) (body : Block) (span : Span)
  | doLoop (body : Block) (condition : Expr) (span : Span)
  | forLoop (initial : Option Stmt) (condition update : Option Expr) (body : Block) (span : Span)
  | switch (subject : Expr) (cases : List Case) (fallback : Option Block) (span : Span)
  | giveBack (value : Option Expr) (span : Span)
  | leave (span : Span)
  | print (args : List Expr) (span : Span)
  | evaluate (expr : Expr) (span : Span)
  | inclusion (header : String) (span : Span)

structure Block where
  body : List Stmt
  span : Span

structure Case where
  value : Expr
  body : Block
  span : Span

end

deriving instance Repr for Stmt, Block, Case
deriving instance Inhabited for Stmt, Block, Case

namespace Stmt

def span : Stmt → Span
  | .variable _ _ _ span | .prototype _ _ _ span | .function _ _ _ _ span | .main _ span => span
  | .enumeration _ _ _ span | .branch _ _ _ span | .whileLoop _ _ span | .doLoop _ _ span => span
  | .forLoop _ _ _ _ span | .switch _ _ _ span | .giveBack _ span | .leave span => span
  | .print _ span | .evaluate _ span | .inclusion _ span => span
  | .block body => body.span

def start (s : Stmt) : Position :=
  s.span.start

end Stmt

structure Program where
  body : List Stmt
  span : Span
deriving Repr, Inhabited

end Curly
