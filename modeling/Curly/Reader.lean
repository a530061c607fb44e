import Curly.Position

/-! A text walked by bytes: what is left of it and the place reached. -/
namespace Curly

structure Reader where
  file : String
  rest : List Char
  position : Position
deriving DecidableEq, Repr

namespace Reader

def unnamed : String := "shell"

def ofText (source : String) (file : String) : Reader :=
  ⟨file, source.toList, .start⟩

def atEnd (r : Reader) : Bool :=
  r.rest.isEmpty

/-- The text left and the place behind `bytes` bytes, or behind the whole text if it is shorter.
A place inside a character is none. -/
def skip (p : Position) : List Char → (bytes : Nat) → Option (List Char × Position)
  | [], _ => some ([], p)
  | c :: rest, bytes =>
    if bytes = 0 then some (c :: rest, p)
    else if bytes < c.utf8Size then none
    else skip (p.after c) rest (bytes - c.utf8Size)

def advance? (r : Reader) (bytes : Nat) : Option Reader :=
  (skip r.position r.rest bytes).map fun (rest, position) => { r with rest, position }

end Reader
end Curly
