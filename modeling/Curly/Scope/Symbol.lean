import Curly.Position
import Curly.Ty

/-! What a name can stand for. -/
namespace Curly

inductive Symbol.Kind where
  | variable
  | function (params : List Ty) (isPrototype : Bool)
  | enumeration
  | enumValue
deriving DecidableEq, Repr

/-- The type of a function is the type of what it returns. -/
structure Symbol where
  name : String
  ty : Ty
  position : Position
  kind : Symbol.Kind
deriving DecidableEq, Repr

namespace Symbol

def ofVariable (name : String) (ty : Ty) (position : Position) : Symbol :=
  ⟨name, ty, position, .variable⟩

def ofFunction (name : String) (ty : Ty) (params : List Ty) (isPrototype : Bool)
    (position : Position) : Symbol :=
  ⟨name, ty, position, .function params isPrototype⟩

def ofEnumeration (name : String) (position : Position) : Symbol :=
  ⟨name, .enumeration, position, .enumeration⟩

/-- The values of an enumeration are whole numbers. -/
def ofEnumValue (name : String) (position : Position) : Symbol :=
  ⟨name, .int, position, .enumValue⟩

def isVariable (s : Symbol) : Bool :=
  s.kind = .variable

def isEnumeration (s : Symbol) : Bool :=
  s.kind = .enumeration

def isEnumValue (s : Symbol) : Bool :=
  s.kind = .enumValue

def params? (s : Symbol) : Option (List Ty) :=
  match s.kind with
  | .function params _ => some params
  | _ => none

def isFunction (s : Symbol) : Bool :=
  s.params?.isSome

def isPrototype (s : Symbol) : Bool :=
  match s.kind with
  | .function _ isPrototype => isPrototype
  | _ => false

/-- A prototype becomes a definition; anything else stays as it is. -/
def completed (s : Symbol) : Symbol :=
  match s.kind with
  | .function params _ => { s with kind := .function params false }
  | _ => s

@[simp] theorem completed_name (s : Symbol) : s.completed.name = s.name := by
  unfold completed; split <;> rfl

@[simp] theorem completed_ty (s : Symbol) : s.completed.ty = s.ty := by
  unfold completed; split <;> rfl

@[simp] theorem completed_position (s : Symbol) : s.completed.position = s.position := by
  unfold completed; split <;> rfl

@[simp] theorem completed_params? (s : Symbol) : s.completed.params? = s.params? := by
  cases s with
  | mk name ty position kind => cases kind <;> rfl

end Symbol
end Curly
