import Curly.Diagnostic.Syntax
import Curly.Text.Blank

/-! Complaints with the line of text they are about: the line without its indentation, and under it
an arrow that ends below the place. -/
namespace Curly

/-- The lines of a text, each with the line feed that ends it. -/
def linesOf : List Char → List (List Char)
  | [] => []
  | c :: rest =>
    if c = '\n' then [c] :: linesOf rest
    else
      match linesOf rest with
      | [] => [[c]]
      | line :: others => (c :: line) :: others

def isLineEnd (c : Char) : Bool :=
  c = '\n' || c = '\r'

def bareLine (line : List Char) : List Char :=
  (line.reverse.dropWhile isLineEnd).reverse

def lineAt? (source : String) (p : Position) : Option (List Char) :=
  if p.line = 0 then none else ((linesOf source.toList)[p.line - 1]?).map bareLine

namespace Excerpt

def isIndent (c : Char) : Bool :=
  c = ' ' || c = '\t'

/-- The mark in the margin, aligned with the one behind the line number. -/
def margin (number : String) : String :=
  String.ofList (List.replicate (number.length + 1) ' ') ++ "|"

def arrow (length : Nat) : String :=
  String.ofList (List.replicate (length - 1) '-') ++ "^"

/-- The length of the arrow below a place in a line that lost some characters at its start. -/
def arrowLength (column removed : Nat) : Nat :=
  max 1 (column - removed)

def text (source file : String) (p : Position) : String :=
  let number := toString p.line
  let place := "-> " ++ file ++ ":" ++ number ++ ":" ++ toString p.column ++ "\n"
  match lineAt? source p with
  | none => place
  | some line =>
    let removed := (line.takeWhile isIndent).length
    let shown := Text.trimEnd (line.drop removed)
    place ++ margin number ++ "\n" ++
      number ++ " | " ++ String.ofList shown ++ "\n" ++
      margin number ++ " " ++ arrow (arrowLength p.column removed) ++ "\n"

end Excerpt

def complaint (stage message : String) (p : Position) (source file : String) : String :=
  stage ++ " Error: " ++ message ++ "\n" ++ Excerpt.text source file p

namespace SyntaxError

def report (e : SyntaxError) (source file : String) : String :=
  let tip := match e.cause.tip? with
    | none => ""
    | some tip => " (" ++ tip ++ ")"
  "Error: " ++ e.cause.name ++ tip ++ "\n" ++ Excerpt.text source file e.position

end SyntaxError
end Curly
