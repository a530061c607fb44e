import Curly.Decimal.Numeral
import Curly.Syntax
import Curly.Text.Quoted

/-! Outlines: trees of labelled values written over many lines, each part four spaces further in and
with a comma behind it. `Program.outline` is the outline of a syntax tree. -/
namespace Curly

inductive Outline where
  | leaf (text : String)
  | wrapped (label : String) (part : Outline)
  | record (label : String) (fields : List (String × Outline))
  | sequence (parts : List Outline)

namespace Outline

def withComma : List String → List String
  | [] => []
  | [line] => [line ++ ","]
  | line :: others => line :: withComma others

def withLabel (label : String) : List String → List String
  | [] => []
  | line :: others => (label ++ ": " ++ line) :: others

def inner (lines : List String) : List String :=
  (withComma lines).map ("    " ++ ·)

mutual

def lines : Outline → List String
  | .leaf text => [text]
  | .wrapped label part => [label ++ "("] ++ inner part.lines ++ [")"]
  | .record label fields => [label ++ " \x7b"] ++ fieldsLines fields ++ ["\x7d"]
  | .sequence [] => ["[]"]
  | .sequence (first :: others) =>
    ["["] ++ inner first.lines ++ partsLines others ++ ["]"]
termination_by structural o => o

def fieldsLines : List (String × Outline) → List String
  | [] => []
  | (name, part) :: others => inner (withLabel name part.lines) ++ fieldsLines others
termination_by structural fields => fields

def partsLines : List Outline → List String
  | [] => []
  | part :: others => inner part.lines ++ partsLines others
termination_by structural parts => parts

end

def text (o : Outline) : String :=
  "\n".intercalate o.lines

def option : Option Outline → Outline
  | none => .leaf "None"
  | some part => .wrapped "Some" part

def string (s : String) : Outline :=
  .leaf (Text.quotedString s)

/-- A node of a syntax tree: its label, wrapped by the label of its class. -/
def node (label recordLabel : String) (fields : List (String × Outline)) : Outline :=
  .wrapped label (.record recordLabel fields)

end Outline

open Outline

def Position.outline (p : Position) : Outline :=
  .record "Position" [("line", .leaf (toString p.line)), ("column", .leaf (toString p.column))]

def Span.outline (s : Span) : Outline :=
  .record "Span" [("start", s.start.outline), ("end", s.stop.outline)]

def Ty.outline (t : Ty) : Outline :=
  .leaf (match t with
    | .int => "Int"
    | .float => "Float"
    | .double => "Double"
    | .char => "Char"
    | .bool => "Bool"
    | .string => "String"
    | .void => "Void"
    | .enumeration => "Enum"
    | .invalid => "Error")

def boolOutline (b : Bool) : Outline :=
  .leaf (if b then "true" else "false")

def Identifier.symbolOutline (i : Identifier) : Outline :=
  .record "SymbolExpr" [("value", string i.name), ("span", i.span.outline)]

def Identifier.valueOutline (i : Identifier) : Outline :=
  .record "EnumValue" [("name", string i.name), ("span", i.span.outline)]

def Param.outline (p : Param) : Outline :=
  .record "Param" [("ty", p.ty.outline), ("name", string p.name), ("span", p.span.outline)]

def paramsOutline (params : List Param) : Outline :=
  .sequence (params.map Param.outline)

mutual

def Expr.outline : Expr → Outline
  | .int value span =>
    node "Int" "IntExpr" [("value", .leaf (toString value)), ("span", span.outline)]
  | .float value span =>
    node "Float" "FloatExpr" [("value", .leaf value.text), ("span", span.outline)]
  | .string value span =>
    node "String" "StringExpr" [("value", string value), ("span", span.outline)]
  | .char value span =>
    node "Char" "CharExpr"
      [("value", .leaf (Text.quotedCharacter value)), ("span", span.outline)]
  | .bool value span =>
    node "Bool" "BoolExpr" [("value", boolOutline value), ("span", span.outline)]
  | .symbol name => .wrapped "Symbol" name.symbolOutline
  | .binary op left right span =>
    node "Binary" "BinaryExpr"
      [("op", .leaf op.name), ("left", left.outline), ("right", right.outline),
       ("span", span.outline)]
  | .unary op operand side span =>
    node "Unary" "UnaryExpr"
      [("op", .leaf op.name), ("operand", operand.outline),
       ("is_postfix", boolOutline (side = .behind)), ("span", span.outline)]
  | .call callee args span =>
    node "Call" "CallExpr"
      [("callee", callee.symbolOutline), ("arguments", .sequence (exprOutlines args)),
       ("span", span.outline)]
termination_by structural e => e

def exprOutlines : List Expr → List Outline
  | [] => []
  | e :: others => e.outline :: exprOutlines others
termination_by structural es => es

end

def optionalOutline (e : Option Expr) : Outline :=
  .option (e.map Expr.outline)

mutual

def Stmt.outline : Stmt → Outline
  | .variable ty name initial span =>
    node "VarDecl" "VarDeclStmt"
      [("ty", ty.outline), ("name", string name), ("initializer", optionalOutline initial),
       ("span", span.outline)]
  | .prototype ty name params span =>
    node "FunctionProto" "FunctionProtoStmt"
      [("return_type", ty.outline), ("name", string name), ("params", paramsOutline params),
       ("span", span.outline)]
  | .function ty name params body span =>
    node "FunctionDecl" "FunctionDeclStmt"
      [("return_type", ty.outline), ("name", string name), ("params", paramsOutline params),
       ("body", body.outline), ("span", span.outline)]
  | .main body span =>
    node "MainDecl" "MainDeclStmt" [("body", body.outline), ("span", span.outline)]
  | .enumeration name values valuesSpan span =>
    node "EnumDecl" "EnumDeclStmt"
      [("name", string name),
       ("values", .record "EnumValueList"
         [("values", .sequence (values.map Identifier.valueOutline)),
          ("span", valuesSpan.outline)]),
       ("span", span.outline)]
  | .block body => .wrapped "Block" body.outline
  | .branch condition yes no span =>
    node "If" "IfStmt"
      [("condition", condition.outline), ("if_body", yes.outline),
       ("else_body", .option (match no with
         | none => none
         | some no => some no.outline)),
       ("span", span.outline)]
  | .whileLoop condition body span =>
    node "While" "WhileStmt"
      [("condition", condition.outline), ("body", body.outline), ("span", span.outline)]
  | .doLoop body condition span =>
    node "DoWhile" "DoWhileStmt"
      [("body", body.outline), ("condition", condition.outline), ("span", span.outline)]
  | .forLoop initial condition update body span =>
    node "For" "ForStmt"
      [("init", .option (match initial with
         | none => none
         | some initial => some initial.outline)),
       ("condition", optionalOutline condition), ("update", optionalOutline update),
       ("body", body.outline), ("span", span.outline)]
  | .switch subject cases fallback span =>
    node "Switch" "SwitchStmt"
      [("expression", subject.outline), ("cases", .sequence (caseOutlines cases)),
       ("default_body", .option (match fallback with
         | none => none
         | some fallback => some fallback.outline)),
       ("span", span.outline)]
  | .giveBack value span =>
    node "Return" "ReturnStmt" [("value", optionalOutline value), ("span", span.outline)]
  | .leave span => node "Break" "BreakStmt" [("span", span.outline)]
  | .print args span =>
    node "Print" "PrintStmt"
      [("arguments", .sequence (exprOutlines args)), ("span", span.outline)]
  | .evaluate e span =>
    node "Expression" "ExpressionStmt" [("expression", e.outline), ("span", span.outline)]
  | .inclusion header span =>
    node "Include" "IncludeStmt" [("header", string header), ("span", span.outline)]
termination_by structural s => s

def Block.outline : Block → Outline
  | ⟨body, span⟩ =>
    .record "BlockStmt" [("body", .sequence (stmtOutlines body)), ("span", span.outline)]
termination_by structural b => b

def stmtOutlines : List Stmt → List Outline
  | [] => []
  | s :: others => s.outline :: stmtOutlines others
termination_by structural body => body

def caseOutlines : List Case → List Outline
  | [] => []
  | ⟨value, body, span⟩ :: others =>
    .record "CaseBlock"
      [("value", value.outline), ("body", body.outline), ("span", span.outline)] ::
      caseOutlines others
termination_by structural cases => cases

end

def Program.outline (p : Program) : Outline :=
  .record "Program" [("body", .sequence (stmtOutlines p.body)), ("span", p.span.outline)]

end Curly
