import Curly.Code.Instruction

/-! The state of lowering: the instructions so far, the counters of fresh names, and what the names
and breaks of the place mean. -/
namespace Curly

structure Builder where
  code : Array Instruction
  temps : Nat
  labels : Nat
  /-- Where a break leads, for the loops and switches around, innermost first. -/
  breaks : List Label
  /-- The ordinals of enumeration values, newest first. -/
  ordinals : List (String × Nat)
  /-- The parameters of the function around, which hide enumeration values. -/
  params : List String
deriving Repr

namespace Builder

def empty : Builder :=
  ⟨#[], 0, 0, [], [], []⟩

def emit (b : Builder) (i : Instruction) : Builder :=
  { b with code := b.code.push i }

def last? (b : Builder) : Option Instruction :=
  b.code.back?

def newTemp (b : Builder) : Operand × Builder :=
  (.temp b.temps, { b with temps := b.temps + 1 })

def newLabel (b : Builder) : Label × Builder :=
  (⟨b.labels⟩, { b with labels := b.labels + 1 })

def pushBreak (b : Builder) (l : Label) : Builder :=
  { b with breaks := l :: b.breaks }

def popBreak (b : Builder) : Builder :=
  { b with breaks := b.breaks.tail }

def break? (b : Builder) : Option Label :=
  b.breaks.head?

/-- The values of an enumeration count from zero. -/
def defineEnum (b : Builder) (names : List String) : Builder :=
  { b with ordinals := names.zipIdx.reverse ++ b.ordinals }

def ordinal? (b : Builder) (name : String) : Option Nat :=
  if b.params.contains name then none else b.ordinals.lookup name

def enterFunction (b : Builder) (params : List String) : Builder :=
  { b with params }

def leaveFunction (b : Builder) : Builder :=
  { b with params := [], breaks := [] }

end Builder
end Curly
