import Curly.Decimal.Numeral
import Curly.Grammar.Tables
import Curly.Syntax

/-! The tokens that a syntax tree is written with. An operand stands in parentheses only where its
operator would not stay together without them; bodies stand in braces. Nothing here depends on the
spans of the tree. -/
namespace Curly

/-- What a token shows apart from its place: its kind, and its text where tokens of the kind differ
in it. -/
structure Glyph where
  kind : Token.Kind
  text : String
deriving DecidableEq, Repr

def Token.glyph (t : Token) : Glyph :=
  ⟨t.kind, if t.kind.hasText then t.value else ""⟩

namespace Glyph

def mark (k : Token.Kind) : Glyph :=
  ⟨k, ""⟩

def word (text : String) : Glyph :=
  ⟨.identifier, text⟩

def commas : List (List Glyph) → List Glyph
  | [] => []
  | [item] => item
  | item :: others => item ++ mark .comma :: commas others

def parens (glyphs : List Glyph) : List Glyph :=
  mark .openParen :: glyphs ++ [mark .closeParen]

def braces (glyphs : List Glyph) : List Glyph :=
  mark .openCurly :: glyphs ++ [mark .closeCurly]

/-- An operand, which parentheses keep together if it is `loose`. -/
def operand (loose : Bool) (glyphs : List Glyph) : List Glyph :=
  if loose then parens glyphs else glyphs

end Glyph

open Glyph

namespace BinaryOp

def kind : BinaryOp → Token.Kind
  | .add => .plus
  | .subtract => .dash
  | .multiply => .star
  | .divide => .slash
  | .modulo => .percent
  | .equals => .equals
  | .notEquals => .notEquals
  | .less => .less
  | .greater => .greater
  | .lessEquals => .lessEquals
  | .greaterEquals => .greaterEquals
  | .and => .and
  | .or => .or
  | .bitAnd => .bitAnd
  | .bitOr => .bitOr
  | .bitXor => .bitXor
  | .shiftLeft => .shiftLeft
  | .shiftRight => .shiftRight
  | .assign => .assignment

def power : BinaryOp → Power
  | .add | .subtract => .additive
  | .multiply | .divide | .modulo => .multiplicative
  | .equals | .notEquals => .equality
  | .less | .greater | .lessEquals | .greaterEquals => .relational
  | .and => .logicalAnd
  | .or => .logicalOr
  | .bitAnd => .bitwiseAnd
  | .bitOr => .bitwiseOr
  | .bitXor => .bitwiseXor
  | .shiftLeft | .shiftRight => .shift
  | .assign => .assignment

/-- What the second operand has to bind tighter than. An assigned value may be anything, so
assignments group to the right and all other operators to the left. -/
def floor : BinaryOp → Power
  | .assign => .lowest
  | op => op.power

end BinaryOp

def UnaryOp.kind : UnaryOp → Token.Kind
  | .not => .not
  | .negate => .dash
  | .plus => .plus
  | .increment => .plusPlus
  | .decrement => .minusMinus

/-- The keyword of a type. Two types have none and are never written. -/
def Ty.kind : Ty → Token.Kind
  | .int => .intType
  | .float => .floatType
  | .double => .doubleType
  | .char => .charType
  | .bool => .boolType
  | .void => .voidType
  | .string => .stringType
  | .enumeration | .invalid => .eof

namespace Expr

def power : Expr → Power
  | .binary op .. => op.power
  | .unary _ _ .before _ => .unary
  | .unary _ _ .behind _ | .call .. => .suffix
  | _ => .primary

mutual

@[simp] def glyphs : Expr → List Glyph
  | .int value _ => [⟨.intLiteral, toString value⟩]
  | .float value _ => [⟨.floatLiteral, value.text⟩]
  | .string value _ => [⟨.stringLiteral, value⟩]
  | .char value _ => [⟨.charLiteral, String.singleton value⟩]
  | .bool value _ => [⟨.boolLiteral, if value then "true" else "false"⟩]
  | .symbol i => [word i.name]
  | .binary op left right _ =>
    operand (left.power.rank < op.power.rank) left.glyphs ++
      mark op.kind :: operand (right.power.rank ≤ op.floor.rank) right.glyphs
  | .unary op e .before _ => mark op.kind :: operand (e.power.rank < Power.unary.rank) e.glyphs
  | .unary op e .behind _ => operand (e.power.rank < Power.suffix.rank) e.glyphs ++ [mark op.kind]
  | .call callee args _ => word callee.name :: parens (commas (glyphsOfAll args))
termination_by structural e => e

@[simp] def glyphsOfAll : List Expr → List (List Glyph)
  | [] => []
  | e :: others => e.glyphs :: glyphsOfAll others
termination_by structural es => es

end

end Expr

def Param.glyphs (p : Param) : List Glyph :=
  [mark p.ty.kind, word p.name]

def optionalGlyphs (e : Option Expr) : List Glyph :=
  e.elim [] Expr.glyphs

def headingGlyphs (ty : Ty) (text : String) (params : List Param) : List Glyph :=
  mark ty.kind :: word text :: parens (commas (params.map Param.glyphs))

mutual

@[simp] def Stmt.glyphs : Stmt → List Glyph
  | .variable ty text initial _ =>
    mark ty.kind :: word text ::
      (initial.elim [] fun e => mark .assignment :: e.glyphs) ++ [mark .semicolon]
  | .prototype ty text params _ => headingGlyphs ty text params ++ [mark .semicolon]
  | .function ty text params body _ => headingGlyphs ty text params ++ body.glyphs
  | .main body _ => mark .mainWord :: body.glyphs
  | .enumeration text values _ _ =>
    mark .enumWord :: word text :: braces (commas (values.map fun v => [word v.name])) ++
      [mark .semicolon]
  | .block body => body.glyphs
  | .branch condition yes no _ =>
    mark .ifWord :: parens condition.glyphs ++ yes.glyphs ++ elseGlyphs no
  | .whileLoop condition body _ => mark .whileWord :: parens condition.glyphs ++ body.glyphs
  | .doLoop body condition _ =>
    mark .doWord :: body.glyphs ++ mark .whileWord :: parens condition.glyphs ++ [mark .semicolon]
  | .forLoop initial condition update body _ =>
    mark .forWord ::
      parens (initialGlyphs initial ++ optionalGlyphs condition ++
        mark .semicolon :: optionalGlyphs update) ++
      body.glyphs
  | .switch subject cases fallback _ =>
    mark .switchWord :: parens subject.glyphs ++
      braces (casesGlyphs cases ++ fallbackGlyphs fallback)
  | .giveBack value _ => mark .returnWord :: optionalGlyphs value ++ [mark .semicolon]
  | .leave _ => [mark .breakWord, mark .semicolon]
  | .print args _ =>
    mark .printWord :: parens (commas (Expr.glyphsOfAll args)) ++ [mark .semicolon]
  | .evaluate e _ => e.glyphs ++ [mark .semicolon]
  | .inclusion header _ => [⟨.inclusion, header⟩]
termination_by structural s => s

@[simp] def Block.glyphs : Block → List Glyph
  | ⟨body, _⟩ => braces (bodyGlyphs body)
termination_by structural b => b

@[simp] def elseGlyphs : Option Block → List Glyph
  | none => []
  | some no => mark .elseWord :: no.glyphs
termination_by structural no => no

@[simp] def fallbackGlyphs : Option Block → List Glyph
  | none => []
  | some fallback => mark .defaultWord :: fallback.glyphs
termination_by structural fallback => fallback

@[simp] def initialGlyphs : Option Stmt → List Glyph
  | none => [mark .semicolon]
  | some initial => initial.glyphs
termination_by structural initial => initial

@[simp] def bodyGlyphs : List Stmt → List Glyph
  | [] => []
  | s :: others => s.glyphs ++ bodyGlyphs others
termination_by structural body => body

@[simp] def casesGlyphs : List Case → List Glyph
  | [] => []
  | ⟨value, body, _⟩ :: others =>
    mark .caseWord :: value.glyphs ++ body.glyphs ++ casesGlyphs others
termination_by structural cases => cases

end

def Program.glyphs (p : Program) : List Glyph :=
  bodyGlyphs p.body

namespace Glyph

@[simp] theorem mark_kind (k : Token.Kind) : (mark k).kind = k := rfl

@[simp] theorem word_kind (text : String) : (word text).kind = .identifier := rfl

@[simp] theorem operand_false (glyphs : List Glyph) : operand false glyphs = glyphs := rfl

@[simp] theorem operand_true (glyphs : List Glyph) : operand true glyphs = parens glyphs := rfl

@[simp] theorem length_parens (glyphs : List Glyph) :
    (parens glyphs).length = glyphs.length + 2 := by
  simp [parens]

@[simp] theorem length_braces (glyphs : List Glyph) :
    (braces glyphs).length = glyphs.length + 2 := by
  simp [braces]

theorem length_le_commas {item : List Glyph} {items : List (List Glyph)}
    (member : item ∈ items) : item.length ≤ (commas items).length := by
  induction items with
  | nil => cases member
  | cons first others ih =>
    cases others with
    | nil =>
      rw [List.mem_singleton] at member
      subst member
      exact Nat.le_refl _
    | cons second others =>
      rw [commas, List.length_append, List.length_cons]
      · rcases List.mem_cons.mp member with rfl | member
        · omega
        · have := ih member
          omega
      · simp

theorem length_le_length_commas (items : List (List Glyph)) :
    items.length ≤ (commas items).length + 1 := by
  induction items with
  | nil => simp
  | cons first others ih =>
    cases others with
    | nil => simp
    | cons second others =>
      simp only [commas, List.length_append, List.length_cons] at ih ⊢
      omega

end Glyph

theorem Expr.glyphsOfAll_eq_map (es : List Expr) : Expr.glyphsOfAll es = es.map Expr.glyphs := by
  induction es with
  | nil => rfl
  | cons e others ih => rw [Expr.glyphsOfAll, ih, List.map_cons]

end Curly
