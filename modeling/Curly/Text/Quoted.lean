import Curly.Text.Escaped

/-! Text in quotes. A line feed, a tab, a carriage return, a null and a backslash are written with a
backslash, and so is the quote that delimits the text; a character unsafe to show is written by its
code point; all others stand for themselves. -/
namespace Curly.Text

/-- The code point in lower-case hexadecimal, in braces. -/
def codePoint (c : Char) : List Char :=
  ['\\', 'u', '\x7b'] ++ Nat.toDigits 16 c.toNat ++ ['\x7d']

/-- One character as it is written between two `delimiter`s. -/
def quotedChar (delimiter c : Char) : List Char :=
  if c = '\x00' then ['\\', '0']
  else if c = '\t' then ['\\', 't']
  else if c = '\r' then ['\\', 'r']
  else if c = '\n' then ['\\', 'n']
  else if c = '\\' then ['\\', '\\']
  else if c = delimiter then ['\\', delimiter]
  else if isEscaped c then codePoint c
  else [c]

def quotedWith (delimiter : Char) (text : List Char) : String :=
  String.ofList (delimiter :: text.flatMap (quotedChar delimiter) ++ [delimiter])

def quotedString (text : String) : String :=
  quotedWith '"' text.toList

def quotedCharacter (c : Char) : String :=
  quotedWith '\'' [c]

end Curly.Text
