import Curly.Token
import Curly.Text.Blank

/-! The lexical rules. A rule says how many characters at the front of a text it covers; the first
rule in `Rule.all` that covers any decides which lexeme the text begins with. -/
namespace Curly

def countFront (p : Char → Bool) (text : List Char) : Nat :=
  (text.takeWhile p).length

def closeComment? : List Char → Option Nat
  | [] => none
  | '*' :: '/' :: _ => some 2
  | _ :: rest => (closeComment? rest).map (· + 1)

/-- The characters up to and with the quote that ends a string. A backslash takes the character
behind it along, unless that is a line feed. -/
def closeString? : List Char → Option Nat
  | [] => none
  | '"' :: _ => some 1
  | '\\' :: c :: rest => if c = '\n' then none else (closeString? rest).map (· + 2)
  | _ :: rest => (closeString? rest).map (· + 1)

def isWordStart (c : Char) : Bool :=
  c.isAlpha || c = '_'

def isWordPart (c : Char) : Bool :=
  c.isAlphanum || c = '_'

/-- A header between `<` and `>` or between quotes, on one line. -/
def headerLength? : List Char → Option Nat
  | '<' :: rest => closedBy '>' rest
  | '"' :: rest => closedBy '"' rest
  | _ => none
where
  closedBy (close : Char) (rest : List Char) : Option Nat :=
    let inner := countFront (fun c => c ≠ close && c ≠ '\n') rest
    if (rest.drop inner).head? = some close then some (inner + 2) else none

def inclusionWord : List Char := ['i', 'n', 'c', 'l', 'u', 'd', 'e']

/-- `include` with a header, a `#` before it or not, white space between or not. -/
def inclusionLength? (text : List Char) : Option Nat :=
  let hash := if text.head? = some '#' then 1 else 0
  let word := text.drop hash
  if inclusionWord.isPrefixOf word then
    let behind := word.drop inclusionWord.length
    let gap := countFront Text.isBlank behind
    (headerLength? (behind.drop gap)).map (hash + inclusionWord.length + gap + ·)
  else none

def fractionLength? (text : List Char) : Option Nat :=
  let whole := countFront Char.isDigit text
  match text.drop whole with
  | '.' :: rest =>
    let fraction := countFront Char.isDigit rest
    if whole = 0 || fraction = 0 then none else some (whole + 1 + fraction)
  | _ => none

/-- One character between single quotes, or a backslash with a character that is no line feed. -/
def characterLength? : List Char → Option Nat
  | '\'' :: '\\' :: c :: '\'' :: _ => if c = '\n' then none else some 4
  | '\'' :: c :: '\'' :: _ => if c = '\'' || c = '\\' then none else some 3
  | _ => none

inductive Rule where
  | blanks
  | lineComment
  | blockComment
  | inclusion
  | word
  | fraction
  | whole
  | string
  | character
  | mark (spelling : String) (kind : Token.Kind)
deriving DecidableEq, Repr

namespace Rule

def all : List Rule :=
  [.blanks, .lineComment, .blockComment, .inclusion, .word, .fraction, .whole, .string,
   .character] ++ Token.Kind.marks.map fun entry => .mark entry.1 entry.2

/-- A front of no characters is none. -/
def nonzero (length : Nat) : Option Nat :=
  if length = 0 then none else some length

def length? (rule : Rule) (text : List Char) : Option Nat :=
  match rule, text with
  | .blanks, text => nonzero (countFront Text.isBlank text)
  | .lineComment, '/' :: '/' :: rest => some (2 + countFront (· ≠ '\n') rest)
  | .lineComment, _ => none
  | .blockComment, '/' :: '*' :: rest => (closeComment? rest).map (· + 2)
  | .blockComment, _ => none
  | .inclusion, text => inclusionLength? text
  | .word, c :: rest => if isWordStart c then some (1 + countFront isWordPart rest) else none
  | .word, [] => none
  | .fraction, text => fractionLength? text
  | .whole, text => nonzero (countFront Char.isDigit text)
  | .string, '"' :: rest => (closeString? rest).map (· + 1)
  | .string, _ => none
  | .character, text => characterLength? text
  | .mark spelling _, text =>
    if spelling.toList.isPrefixOf text then nonzero spelling.toList.length else none

def first? (text : List Char) : Option (Rule × Nat) :=
  all.findSome? fun rule => (rule.length? text).map (rule, ·)

end Rule

/-- A backslash with the letter of a character that has one stands for it; any other backslash
stands for itself. -/
def unescape : List Char → List Char
  | [] => []
  | '\\' :: 'n' :: rest => '\n' :: unescape rest
  | '\\' :: 't' :: rest => '\t' :: unescape rest
  | '\\' :: 'r' :: rest => '\r' :: unescape rest
  | '\\' :: '0' :: rest => '\x00' :: unescape rest
  | '\\' :: '\\' :: rest => '\\' :: unescape rest
  | '\\' :: '"' :: rest => '"' :: unescape rest
  | '\\' :: '\'' :: rest => '\'' :: unescape rest
  | '\\' :: c :: rest => '\\' :: c :: unescape rest
  | c :: rest => c :: unescape rest

def inside (lexeme : List Char) : List Char :=
  lexeme.tail.dropLast

def header (lexeme : List Char) : List Char :=
  inside (lexeme.dropWhile fun c => c ≠ '<' && c ≠ '"')

namespace Rule

/-- The kind and the value of the token that a lexeme of the rule is. White space and comments are
no tokens. -/
def token? (rule : Rule) (lexeme : List Char) : Option (Token.Kind × String) :=
  let text := String.ofList lexeme
  match rule with
  | .blanks | .lineComment | .blockComment => none
  | .inclusion => some (.inclusion, String.ofList (header lexeme))
  | .word => some ((Token.Kind.ofWord? text).getD .identifier, text)
  | .fraction => some (.floatLiteral, text)
  | .whole => some (.intLiteral, text)
  | .string => some (.stringLiteral, String.ofList (unescape (inside lexeme)))
  | .character => some (.charLiteral, String.ofList (unescape (inside lexeme)))
  | .mark spelling kind => some (kind, spelling)

end Rule
end Curly
