import Curly.Token
import Curly.Text.Quoted

/-! What can be wrong with the form of a text: the cause, the place, and the words for both. -/
namespace Curly

inductive SyntaxError.Cause where
  | unrecognised (text : String)
  | unexpected (text : String)
  | unfitting (text : String) (expectation : String)
  | malformedNumber (text : String)
  | unterminatedBlock
  | callTarget
  | assignmentTarget
deriving DecidableEq, Repr

structure SyntaxError where
  cause : SyntaxError.Cause
  position : Position
deriving DecidableEq, Repr

namespace SyntaxError

namespace Cause

def name : Cause → String
  | .unrecognised _ => "UnrecognisedToken"
  | .unexpected _ => "UnexpectedToken"
  | .unfitting .. => "UnexpectedTokenDetailed"
  | .malformedNumber _ => "NumberParseError"
  | .unterminatedBlock => "UnterminatedBlock"
  | .callTarget => "InvalidCallTarget"
  | .assignmentTarget => "InvalidAssignmentTarget"

def message : Cause → String
  | .unrecognised text => "unrecognised token: " ++ Text.quotedString text
  | .unexpected text => "unexpected token: " ++ Text.quotedString text
  | .unfitting text expectation =>
    "unexpected token (" ++ Text.quotedString expectation ++ "): " ++ Text.quotedString text
  | .malformedNumber text => "error parsing number: " ++ Text.quotedString text
  | .unterminatedBlock => "unterminated block"
  | .callTarget => "call target is not an identifier"
  | .assignmentTarget => "assignment target is not an identifier"

def tip? : Cause → Option String
  | .unrecognised _ => none
  | .unexpected text => some ("Unexpected token: `" ++ text ++ "`, did you miss a semicolon?")
  | .unfitting text expectation => some ("Unexpected token: `" ++ text ++ "`, " ++ expectation)
  | .malformedNumber text =>
    some ("Invalid number: `" ++ text ++ "`, is it above the integer limit?")
  | .unterminatedBlock => some "Reached end of file inside a block, missing `\x7d`?"
  | .callTarget => some "Only named functions can be called"
  | .assignmentTarget => some "Only variables can be assigned to"

end Cause

def message (e : SyntaxError) : String :=
  e.cause.message ++ " at " ++ e.position.text

def unexpected (t : Token) : SyntaxError :=
  ⟨.unexpected t.value, t.span.start⟩

def unfitting (t : Token) (expectation : String) : SyntaxError :=
  ⟨.unfitting t.value expectation, t.span.start⟩

end SyntaxError
end Curly
