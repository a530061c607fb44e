import Curly.Code.Lowering
import Curly.Grammar.Statement
import Curly.Scope.Analysis
import Curly.Typing.Checker

/-! Compilation: from a text to three-address code. It stops at the first stage that complains. -/
namespace Curly

inductive CompileError where
  | syntactic (error : SyntaxError)
  | scope (errors : List ScopeError)
  | typing (errors : List TypeError)
deriving DecidableEq, Repr

namespace CompileError

def message : CompileError → String
  | .syntactic error => "syntax error: " ++ error.message
  | .scope errors => "scope analysis failed with " ++ toString errors.length ++ " error(s)"
  | .typing errors => "type checking failed with " ++ toString errors.length ++ " error(s)"

end CompileError

def checkScopes (p : Program) : Except CompileError Unit :=
  match (analyze p).errors with
  | [] => .ok ()
  | errors => .error (.scope errors)

def checkTypes (p : Program) : Except CompileError Unit :=
  match typeCheck p with
  | [] => .ok ()
  | errors => .error (.typing errors)

def readProgram (source : String) : Except CompileError Program :=
  (Parse.ofText source).mapError .syntactic

def compile (source : String) : Except CompileError (List Instruction) := do
  let p ← readProgram source
  checkScopes p
  checkTypes p
  return Lowering.program p

end Curly
