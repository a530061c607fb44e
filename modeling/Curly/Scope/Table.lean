import Curly.Scope.Symbol

/-! The tree of scopes. Frames are kept in the order of their creation and never removed; leaving a
scope only moves back to the frame around it. -/
namespace Curly

abbrev FrameId : Type := Nat

structure Frame where
  level : Nat
  parent : Option FrameId
  children : List FrameId
  /-- In the order of declaration. Only functions share a name. -/
  symbols : List Symbol
deriving DecidableEq, Repr, Inhabited

namespace Frame

def named (f : Frame) (name : String) : List Symbol :=
  f.symbols.filter (·.name = name)

def byName (f : Frame) : List (List Symbol) :=
  let names := (f.symbols.map Symbol.name).eraseDups.mergeSort fun a b => !decide (b < a)
  names.map f.named

def declare (f : Frame) (s : Symbol) : Frame :=
  { f with symbols := f.symbols ++ [s] }

def completeFirst (p : Symbol → Bool) : List Symbol → List Symbol
  | [] => []
  | s :: others => if p s then s.completed :: others else s :: completeFirst p others

def complete (f : Frame) (p : Symbol → Bool) : Frame :=
  { f with symbols := completeFirst p f.symbols }

end Frame

/-- The current frame and the frames around it, from the inside out. -/
structure Table where
  frames : Array Frame
  current : FrameId
  outer : List FrameId
deriving Repr

namespace Table

/-- Only the global frame, which is never left. -/
def empty : Table :=
  ⟨#[⟨0, none, [], []⟩], 0, []⟩

def size (t : Table) : Nat :=
  t.frames.size

def frame? (t : Table) (id : FrameId) : Option Frame :=
  t.frames[id]?

def currentFrame (t : Table) : Frame :=
  (t.frame? t.current).getD default

def level (t : Table) : Nat :=
  t.currentFrame.level

def modify (t : Table) (change : Frame → Frame) : Table :=
  { t with frames := t.frames.modify t.current change }

def enter (t : Table) : Table :=
  let id := t.size
  let parent := t.modify fun f => { f with children := f.children ++ [id] }
  { frames := parent.frames.push ⟨t.level + 1, some t.current, [], []⟩
    current := id
    outer := t.current :: t.outer }

def exit (t : Table) : Table :=
  match t.outer with
  | [] => t
  | parent :: outer => { t with current := parent, outer }

def declare (t : Table) (s : Symbol) : Table :=
  t.modify (·.declare s)

def namedIn (t : Table) (id : FrameId) (name : String) : List Symbol :=
  match t.frame? id with
  | some f => f.named name
  | none => []

/-- The symbols of a name in the first of the frames that has any. -/
def search (t : Table) (name : String) : List FrameId → List Symbol
  | [] => []
  | id :: others =>
    match t.namedIn id name with
    | [] => t.search name others
    | found => found

/-- All that a name may stand for: its symbols in the nearest frame that has any. -/
def lookupAll (t : Table) (name : String) : List Symbol :=
  t.search name (t.current :: t.outer)

def lookup (t : Table) (name : String) : Option Symbol :=
  (t.lookupAll name).head?

def lookupEnclosing (t : Table) (name : String) : Option Symbol :=
  (t.search name t.outer).head?

def lookupLocalAll (t : Table) (name : String) : List Symbol :=
  t.namedIn t.current name

def lookupLocal (t : Table) (name : String) : Option Symbol :=
  (t.lookupLocalAll name).head?

def lookupOverload (t : Table) (name : String) (params : List Ty) : Option Symbol :=
  (t.lookupLocalAll name).find? (·.params? = some params)

def complete (t : Table) (name : String) : Table :=
  t.modify (·.complete (·.name = name))

def completeOverload (t : Table) (name : String) (params : List Ty) : Table :=
  t.modify (·.complete fun s => s.name = name && s.params? = some params)

end Table
end Curly
