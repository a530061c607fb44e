import Curly.Diagnostic.Syntax

/-! A walk over tokens. A cursor always stands at a token and never passes the last one, which is
an end mark. A parser reads at a cursor; when it fails, the cursor stays where it had come to. The
parsers are written for every kind of walk, and what reads a text is `Parse`. -/
namespace Curly

structure Cursor where
  /-- The end of the token passed last; there is none at the first token. -/
  passed : Option Position
  current : Token
  ahead : List Token
deriving DecidableEq, Repr

namespace Cursor

/-- The walk over a list of tokens. An end mark is put behind the list unless it ends with one. -/
def ofTokens : List Token → Cursor
  | [] => ⟨none, Token.eof .unknown, []⟩
  | first :: others =>
    let last := others.getLastD first
    ⟨none, first, if last.kind = .eof then others else others ++ [Token.eof last.span.stop]⟩

def kind (c : Cursor) : Token.Kind :=
  c.current.kind

def last (c : Cursor) : Token :=
  c.ahead.getLastD c.current

/-- The kind of the token `offset` places ahead, or of the last one. -/
def peek (c : Cursor) (offset : Nat) : Token.Kind :=
  ((c.current :: c.ahead)[offset]?.getD c.last).kind

/-- How many tokens the walk can still pass. -/
def room (c : Cursor) : Nat :=
  c.ahead.length

def next (c : Cursor) : Cursor :=
  match c.ahead with
  | [] => c
  | token :: ahead => ⟨some c.current.span.stop, token, ahead⟩

def start (c : Cursor) : Position :=
  c.current.span.start

/-- The end of the token passed last, or the start of the first one. -/
def stop (c : Cursor) : Position :=
  c.passed.getD c.start

end Cursor

/-- A kind of walk over tokens. It can fail, and it says how long a loop may go on. -/
class Walk (m : Type → Type) extends MonadStateOf Cursor m, MonadExceptOf SyntaxError m where
  /-- The rounds that a loop is granted where the tokens are enough for so many. -/
  rounds : Nat → Nat
  /-- What is made of the end of a loop that has used up its rounds. -/
  spent {α : Type} : m α → m α

abbrev Parse : Type → Type := EStateM SyntaxError Cursor

/-- A loop is granted what the tokens are enough for, and ends there. -/
@[default_instance]
instance : Walk Parse where
  rounds := id
  spent := id

@[simp]
theorem Walk.rounds_parse (n : Nat) : Walk.rounds Parse n = n :=
  rfl

namespace Parse

variable {m : Type → Type} [Monad m] [Walk m]

def current : m Token :=
  return (← get).current

def kind : m Token.Kind :=
  return (← get).kind

def start : m Position :=
  return (← get).start

def stop : m Position :=
  return (← get).stop

def advance : m Token :=
  modifyGet fun c => (c.current, c.next)

def failAt {α : Type} (t : Token) : m α :=
  throw (.unexpected t)

/-- Passes a token of the kind. Where a closing brace is missing at the end of the text, the block
is to blame and not the end mark. -/
def expect (k : Token.Kind) (expectation : String := "expected " ++ k.name) : m Token := do
  let t ← current
  if t.kind = k then advance
  else if t.kind = .eof ∧ k = .closeCurly then throw ⟨.unterminatedBlock, t.span.start⟩
  else throw (.unfitting t expectation)

/-- Passes a token of the kind if one stands here, and says whether it did. -/
def skip (k : Token.Kind) : m Bool := do
  if (← kind) = k then
    let _ ← advance
    return true
  else return false

/-- What stands behind a token of the kind, if one stands here. -/
def behind? {α : Type} (k : Token.Kind) (item : m α) : m (Option α) := do
  if ← skip k then
    let x ← item
    return some x
  else return none

/-- What stands before a token of the kind, unless one stands here already. -/
def before? {α : Type} (k : Token.Kind) (item : m α) : m (Option α) := do
  if (← kind) = k then return none
  else
    let x ← item
    return some x

def spanFrom (begin : Position) : m Span :=
  return ⟨begin, ← stop⟩

def comma (close : Token.Kind) : m Unit := do
  if (← kind) = close then return ()
  else
    let _ ← expect .comma
    return ()

/-- Items up to a token of the kind `close`, a comma behind each of them or only between. The bound
counts items, and every item passes a token. -/
def separated {α : Type} (close : Token.Kind) (item : m α) : (bound : Nat) → m (List α)
  | 0 => Walk.spent (return [])
  | bound + 1 => do
    if (← kind) = close then return []
    else
      let first ← item
      comma close
      let others ← separated close item bound
      return first :: others

def enclosed {α : Type} (close : Token.Kind) (item : m α) : m (List α) := do
  let items ← separated close item (Walk.rounds m ((← get).room + 1))
  let _ ← expect close
  return items

/-- Items up to a token that `stops` them. The end of the text must not come before it, unless it
stops them too. -/
def upTo {α : Type} (stops : Token.Kind → Bool) (item : m α) :
    (bound : Nat) → m (List α)
  | 0 => Walk.spent (return [])
  | bound + 1 => do
    let t ← current
    if stops t.kind then return []
    else if t.kind = .eof then throw ⟨.unterminatedBlock, t.span.start⟩
    else
      let first ← item
      let others ← upTo stops item bound
      return first :: others

end Parse
end Curly
