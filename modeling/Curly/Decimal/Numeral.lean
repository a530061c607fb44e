import Curly.Decimal.Shortest

/-! Numbers as text. A whole number is read within 64 bits; a double is read as the nearest to its
decimal, and written with the fewest digits that read back. -/
namespace Curly

def digitsValue (digits : List Char) : Nat :=
  digits.foldl (fun value digit => 10 * value + (digit.toNat - '0'.toNat)) 0

/-- A sign is optional; `true` stands for minus. -/
def takeSign : List Char → Bool × List Char
  | '-' :: rest => (true, rest)
  | '+' :: rest => (false, rest)
  | rest => (false, rest)

/-- A run of digits with a sign, at least one digit and nothing else. -/
def readWhole? (text : List Char) : Option Int :=
  let (negative, digits) := takeSign text
  if digits.isEmpty || !digits.all Char.isDigit then none
  else some (if negative then -(digitsValue digits : Int) else digitsValue digits)

/-- 64 bits with a sign hold the whole numbers below this one, down to its negative. -/
def wholeBound : Int :=
  9223372036854775808

def readInt? (text : String) : Option Int :=
  (readWhole? text.toList).filter fun value => -wholeBound ≤ value && value < wholeBound

namespace Double

/-- The exponent at the end of a decimal: nothing, or `e` and a whole number. -/
def readExponent? : List Char → Option Int
  | [] => some 0
  | mark :: rest => if mark = 'e' || mark = 'E' then readWhole? rest else none

/-- Digits with an optional point among or beside them, then an optional exponent. -/
def readDecimal? (negative : Bool) (text : List Char) : Option Double :=
  let whole := text.takeWhile Char.isDigit
  let rest := text.dropWhile Char.isDigit
  let behind := match rest with
    | '.' :: fraction => fraction
    | _ => []
  let fraction := behind.takeWhile Char.isDigit
  let rest := match rest with
    | '.' :: fraction => fraction.dropWhile Char.isDigit
    | _ => rest
  if whole.isEmpty && fraction.isEmpty then none
  else (readExponent? rest).map fun exponent =>
    ofDecimal negative (digitsValue (whole ++ fraction)) (exponent - fraction.length)

/-- The double a text denotes. The names of the infinite numbers and of the undefined one are read
in any case. -/
def read? (text : String) : Option Double :=
  let (negative, rest) := takeSign text.toList
  let name := String.ofList (rest.map Char.toLower)
  if name = "inf" || name = "infinity" then some (.infinite negative)
  else if name = "nan" then some .nan
  else readDecimal? negative rest

/-- Decimal exponents that are written without an exponent: at least the first, below the second. -/
def positional : Int × Int := (-4, 16)

def zeros (count : Int) : List Char :=
  List.replicate count.toNat '0'

/-- The digits of a decimal with a point after the first `whole` of them, padded by zeros so that a
digit stands on both sides. -/
def withPoint (digits : List Char) (whole : Int) : List Char :=
  if whole ≤ 0 then ['0', '.'] ++ zeros (-whole) ++ digits
  else if whole < digits.length then digits.take whole.toNat ++ ['.'] ++ digits.drop whole.toNat
  else digits ++ zeros (whole - digits.length) ++ ['.', '0']

/-- One digit, the others behind a point if there are any, and the exponent. -/
def scientific (digits : List Char) (exponent : Int) : List Char :=
  let others := digits.drop 1
  let fraction := if others.isEmpty then [] else '.' :: others
  digits.take 1 ++ fraction ++ ['e'] ++ (toString exponent).toList

def decimalText (d : Decimal) : List Char :=
  let digits := Nat.toDigits 10 d.digits
  let exponent := (digits.length : Int) - 1 + d.scale
  if positional.1 ≤ exponent && exponent < positional.2 then withPoint digits (exponent + 1)
  else scientific digits exponent

def minus (negative : Bool) : List Char :=
  if negative then ['-'] else []

def text : Double → String
  | .nan => "NaN"
  | .infinite negative => String.ofList (minus negative ++ ['i', 'n', 'f'])
  | .finite negative significand exponent =>
    String.ofList (minus negative ++
      if significand = 0 then ['0', '.', '0'] else decimalText (shortest significand exponent))

end Double
end Curly
