/-! White space: the characters with the Unicode property of that name. -/
namespace Curly.Text

/-- Ranges of the property, both ends included. -/
def blankRanges : List (Nat × Nat) :=
  [(0x09, 0x0d), (0x20, 0x20), (0x85, 0x85), (0xa0, 0xa0), (0x1680, 0x1680), (0x2000, 0x200a),
   (0x2028, 0x2029), (0x202f, 0x202f), (0x205f, 0x205f), (0x3000, 0x3000)]

def isBlank (c : Char) : Bool :=
  blankRanges.any fun range => range.1 ≤ c.toNat && c.toNat ≤ range.2

def trimEnd (text : List Char) : List Char :=
  (text.reverse.dropWhile isBlank).reverse

example : (blankRanges.map fun range => range.2 + 1 - range.1).sum = 25 := by decide

end Curly.Text
