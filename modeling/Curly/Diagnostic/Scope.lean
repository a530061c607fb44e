import Curly.Position

/-! What can be wrong with a name: the kind of complaint, the name and the place. -/
namespace Curly

inductive ScopeError.Kind where
  | undeclaredVariable
  | undefinedFunction
  | variableRedefinition
  | prototypeRedefinition
  | conflictingDefinition
  | conflictingDeclaration
  | parameterRedefinition
  | forwardReference
  | storageClass
  | enumRedefinition
  | enumValueRedefinition
deriving DecidableEq, Repr

namespace ScopeError.Kind

def name : Kind → String
  | .undeclaredVariable => "UndeclaredVariableAccessed"
  | .undefinedFunction => "UndefinedFunctionCalled"
  | .variableRedefinition => "VariableRedefinition"
  | .prototypeRedefinition => "FunctionPrototypeRedefinition"
  | .conflictingDefinition => "ConflictingFunctionDefinition"
  | .conflictingDeclaration => "ConflictingDeclaration"
  | .parameterRedefinition => "ParameterRedefinition"
  | .forwardReference => "InvalidForwardReference"
  | .storageClass => "InvalidStorageClassUsage"
  | .enumRedefinition => "EnumRedefinition"
  | .enumValueRedefinition => "EnumVariantRedefinition"

def text : Kind → String
  | .undeclaredVariable => "Undeclared variable accessed"
  | .undefinedFunction => "Undefined function called"
  | .variableRedefinition => "Variable redefinition"
  | .prototypeRedefinition => "Function prototype redefinition"
  | .conflictingDefinition => "Conflicting function definition"
  | .conflictingDeclaration => "Conflicting declaration"
  | .parameterRedefinition => "Parameter redefinition"
  | .forwardReference => "Invalid forward reference"
  | .storageClass => "Invalid storage class usage for"
  | .enumRedefinition => "Enum redefinition"
  | .enumValueRedefinition => "Enum variant redefinition"

def all : List Kind :=
  [.undeclaredVariable, .undefinedFunction, .variableRedefinition, .prototypeRedefinition,
   .conflictingDefinition, .conflictingDeclaration, .parameterRedefinition, .forwardReference,
   .storageClass, .enumRedefinition, .enumValueRedefinition]

def ofName? (name : String) : Option Kind :=
  all.find? (·.name = name)

end ScopeError.Kind

structure ScopeError where
  kind : ScopeError.Kind
  name : String
  position : Position
deriving DecidableEq, Repr

namespace ScopeError

def message (e : ScopeError) : String :=
  e.kind.text ++ " '" ++ e.name ++ "'"

def text (e : ScopeError) : String :=
  e.kind.text ++ ": '" ++ e.name ++ "' at " ++ e.position.text

end ScopeError
end Curly
