import Curly.Grammar.Statement

/-! The parser without an eye to the tokens that are left. Its loops and its recursion go on as long
as the text makes them; they are given up only after a limit of rounds, and then there is no result,
not one that was cut short. A parser that has a result within some limit is one that ends. -/
namespace Curly

/-- A walk over tokens that has no result if it is given up. -/
def Run (_limit : Nat) : Type → Type :=
  StateT Cursor (ExceptT SyntaxError Option)
deriving Monad

namespace Run

section

variable {limit : Nat}

instance : Walk (Run limit) where
  toMonadStateOf :=
    inferInstanceAs (MonadStateOf Cursor (StateT Cursor (ExceptT SyntaxError Option)))
  toMonadExceptOf :=
    inferInstanceAs (MonadExceptOf SyntaxError (StateT Cursor (ExceptT SyntaxError Option)))
  rounds _ := limit
  spent _ := fun _ => none

/-- What the walk over a list of tokens comes to, if it is not given up. -/
def onTokens {α : Type} (m : Run limit α) (tokens : List Token) : Option (Except SyntaxError α) :=
  (m.run (Cursor.ofTokens tokens)).run.map (·.map Prod.fst)

end

section

variable (limit : Nat)

def expression (floor : Power) : Run limit Expr :=
  Parse.expression .full floor

def statement : Run limit Stmt :=
  Parse.statement .full

def program : Run limit Program :=
  Parse.program .full

end

/-- What a parser comes to, as a run that is not given up. -/
def ofParse {α : Type} (m : Parse α) (c : Cursor) : Option (Except SyntaxError (α × Cursor)) :=
  match m.run c with
  | .ok x d => some (.ok (x, d))
  | .error e _ => some (.error e)

end Run

end Curly
