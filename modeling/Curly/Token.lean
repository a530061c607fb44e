import Curly.Position

/-! Tokens: their kinds, the reserved words and the fixed spellings. -/
namespace Curly

inductive Token.Kind where
  | eof
  | intLiteral
  | floatLiteral
  | stringLiteral
  | charLiteral
  | boolLiteral
  | identifier
  | inclusion
  | openBracket
  | closeBracket
  | openCurly
  | closeCurly
  | openParen
  | closeParen
  | assignment
  | equals
  | not
  | notEquals
  | less
  | lessEquals
  | greater
  | greaterEquals
  | or
  | and
  | bitAnd
  | bitOr
  | bitXor
  | shiftLeft
  | shiftRight
  | dot
  | semicolon
  | colon
  | comma
  | plusPlus
  | minusMinus
  | plus
  | dash
  | slash
  | star
  | percent
  | intType
  | floatType
  | doubleType
  | charType
  | boolType
  | voidType
  | stringType
  | enumWord
  | ifWord
  | elseWord
  | whileWord
  | doWord
  | forWord
  | switchWord
  | caseWord
  | defaultWord
  | breakWord
  | returnWord
  | printWord
  | mainWord
deriving DecidableEq, Repr, Inhabited

namespace Token.Kind

/-- The name by which a listing or a message refers to the kind. -/
def name : Kind → String
  | .eof => "EOF"
  | .intLiteral => "IntLiteral"
  | .floatLiteral => "FloatLiteral"
  | .stringLiteral => "StringLiteral"
  | .charLiteral => "CharLiteral"
  | .boolLiteral => "BoolLiteral"
  | .identifier => "Identifier"
  | .inclusion => "Include"
  | .openBracket => "OpenBracket"
  | .closeBracket => "CloseBracket"
  | .openCurly => "OpenCurly"
  | .closeCurly => "CloseCurly"
  | .openParen => "OpenParen"
  | .closeParen => "CloseParen"
  | .assignment => "Assignment"
  | .equals => "Equals"
  | .not => "Not"
  | .notEquals => "NotEquals"
  | .less => "Less"
  | .lessEquals => "LessEquals"
  | .greater => "Greater"
  | .greaterEquals => "GreaterEquals"
  | .or => "Or"
  | .and => "And"
  | .bitAnd => "BitAnd"
  | .bitOr => "BitOr"
  | .bitXor => "BitXor"
  | .shiftLeft => "ShiftLeft"
  | .shiftRight => "ShiftRight"
  | .dot => "Dot"
  | .semicolon => "Semicolon"
  | .colon => "Colon"
  | .comma => "Comma"
  | .plusPlus => "PlusPlus"
  | .minusMinus => "MinusMinus"
  | .plus => "Plus"
  | .dash => "Dash"
  | .slash => "Slash"
  | .star => "Star"
  | .percent => "Percent"
  | .intType => "Int"
  | .floatType => "Float"
  | .doubleType => "Double"
  | .charType => "Char"
  | .boolType => "Bool"
  | .voidType => "Void"
  | .stringType => "StringType"
  | .enumWord => "Enum"
  | .ifWord => "If"
  | .elseWord => "Else"
  | .whileWord => "While"
  | .doWord => "Do"
  | .forWord => "For"
  | .switchWord => "Switch"
  | .caseWord => "Case"
  | .defaultWord => "Default"
  | .breakWord => "Break"
  | .returnWord => "Return"
  | .printWord => "Print"
  | .mainWord => "Main"

def all : List Kind :=
  [.eof, .intLiteral, .floatLiteral, .stringLiteral, .charLiteral, .boolLiteral, .identifier,
   .inclusion, .openBracket, .closeBracket, .openCurly, .closeCurly, .openParen, .closeParen,
   .assignment, .equals, .not, .notEquals, .less, .lessEquals, .greater, .greaterEquals, .or, .and,
   .bitAnd, .bitOr, .bitXor, .shiftLeft, .shiftRight, .dot, .semicolon, .colon, .comma, .plusPlus,
   .minusMinus, .plus, .dash, .slash, .star, .percent, .intType, .floatType, .doubleType, .charType,
   .boolType, .voidType, .stringType, .enumWord, .ifWord, .elseWord, .whileWord, .doWord, .forWord,
   .switchWord, .caseWord, .defaultWord, .breakWord, .returnWord, .printWord, .mainWord]

def ofName? (name : String) : Option Kind :=
  all.find? (·.name = name)

def reserved : List (String × Kind) :=
  [("int", .intType), ("float", .floatType), ("double", .doubleType), ("char", .charType),
   ("bool", .boolType), ("void", .voidType), ("string", .stringType), ("enum", .enumWord),
   ("if", .ifWord), ("else", .elseWord), ("while", .whileWord), ("do", .doWord),
   ("for", .forWord), ("switch", .switchWord), ("case", .caseWord), ("default", .defaultWord),
   ("break", .breakWord), ("return", .returnWord), ("print", .printWord), ("main", .mainWord),
   ("true", .boolLiteral), ("false", .boolLiteral)]

def ofWord? (word : String) : Option Kind :=
  reserved.lookup word

/-- The fixed spellings, each before the spellings that it begins with. -/
def marks : List (String × Kind) :=
  [("[", .openBracket), ("]", .closeBracket), ("\x7b", .openCurly), ("\x7d", .closeCurly),
   ("(", .openParen), (")", .closeParen), ("==", .equals), ("!=", .notEquals), ("!", .not),
   ("=", .assignment), ("<<", .shiftLeft), ("<=", .lessEquals), ("<", .less),
   (">>", .shiftRight), (">=", .greaterEquals), (">", .greater), ("||", .or), ("&&", .and),
   ("|", .bitOr), ("&", .bitAnd), ("^", .bitXor), (".", .dot), (";", .semicolon), (":", .colon),
   (",", .comma), ("++", .plusPlus), ("--", .minusMinus), ("+", .plus), ("-", .dash),
   ("/", .slash), ("*", .star), ("%", .percent)]

def isType : Kind → Bool
  | .intType | .floatType | .doubleType | .charType | .boolType | .voidType | .stringType => true
  | _ => false

/-- Whether tokens of the kind differ in their text. -/
def hasText : Kind → Bool
  | .stringLiteral | .charLiteral | .intLiteral | .floatLiteral | .boolLiteral | .identifier
  | .inclusion => true
  | _ => false

theorem mem_all (k : Kind) : k ∈ all := by cases k <;> decide

theorem ofName?_name (k : Kind) : ofName? k.name = some k := by cases k <;> decide +kernel

end Token.Kind

structure Token where
  kind : Token.Kind
  value : String
  span : Span
deriving DecidableEq, Repr, Inhabited

namespace Token

def eof (p : Position) : Token :=
  ⟨.eof, "EOF", ⟨p, p⟩⟩

def line (t : Token) : String :=
  let text := if t.kind.hasText then t.value else ""
  toString t.span.start.line ++ ":" ++ toString t.span.start.column ++ " " ++ t.kind.name ++
    " (" ++ text ++ ")"

def text (t : Token) : String :=
  "Token \x7b\nkind: " ++ t.kind.name ++ ",\nvalue: " ++ t.value ++ "\x7d"

end Token
end Curly
