/-! The types of the language. Numbers widen from `int` over `float` to `double`; every other type
fits only itself. The type `invalid` marks an expression that was already complained about, so it
fits everything. -/
namespace Curly

inductive Ty where
  | int
  | float
  | double
  | char
  | bool
  | string
  | void
  | enumeration
  | invalid
deriving DecidableEq, Repr, Inhabited

namespace Ty

def name : Ty → String
  | .int => "int"
  | .float => "float"
  | .double => "double"
  | .char => "char"
  | .bool => "bool"
  | .string => "string"
  | .void => "void"
  | .enumeration => "enum"
  | .invalid => "<error>"

def all : List Ty :=
  [.int, .float, .double, .char, .bool, .string, .void, .enumeration, .invalid]

def ofName? (name : String) : Option Ty :=
  all.find? (·.name = name)

/-- The place of a number type in the order of widening. -/
def width? : Ty → Option Nat
  | .int => some 0
  | .float => some 1
  | .double => some 2
  | _ => none

def isNumeric (t : Ty) : Bool :=
  t.width?.isSome

def widest (a b : Ty) : Ty :=
  match a.width?, b.width? with
  | some left, some right => if right ≤ left then a else b
  | _, _ => .invalid

/-- Whether a value of the one type may stand where the other is wanted. -/
def fits (a b : Ty) : Bool :=
  a = .invalid || b = .invalid || a = b || (a.isNumeric && b.isNumeric)

theorem fits_refl (t : Ty) : t.fits t = true := by cases t <;> rfl

theorem fits_comm (a b : Ty) : a.fits b = b.fits a := by cases a <;> cases b <;> rfl

theorem widest_comm (a b : Ty) : a.widest b = b.widest a := by cases a <;> cases b <;> rfl

end Ty
end Curly
