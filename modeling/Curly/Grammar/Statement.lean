import Curly.Grammar.Expression
import Curly.Tokens

/-! Statements and programs. As with expressions, each construct is told how to read the statements
inside it, and `statementWithin` ties them together over the tokens that are left. -/
namespace Curly.Parse

section

variable {m : Type → Type} [Monad m] [Walk m]

variable (g : Grammar)

def ty : m Ty := do
  let t ← current
  match g.ty? t.kind with
  | none => throw (.unfitting t "expected a type name")
  | some ty =>
    let _ ← advance
    return ty

def condition : m Expr := do
  let _ ← expect .openParen
  let e ← expression g .lowest
  let _ ← expect .closeParen
  return e

def initialized (begin : Position) (ty : Ty) (name : String) : m Stmt := do
  let initial ← behind? .assignment (expression g .lowest)
  let _ ← expect .semicolon
  return .variable ty name initial (← spanFrom begin)

def variableStatement : m Stmt := do
  let begin ← start
  let ty ← ty g
  let name ← expect .identifier
  initialized g begin ty name.value

def param : m Param := do
  let begin ← start
  let ty ← ty g
  let name ← expect .identifier
  return ⟨ty, name.value, ← spanFrom begin⟩

/-- The word `void` alone says that there are no parameters. -/
def noParams : m Unit := do
  let c ← get
  if c.kind = .voidType ∧ c.peek 1 = .closeParen then
    let _ ← advance
    return ()
  else return ()

def params : m (List Param) := do
  let _ ← expect .openParen
  noParams
  enclosed .closeParen (param g)

def inclusion : m Stmt := do
  let t ← advance
  return .inclusion t.value t.span

/-- The name of an enumeration and its values, with a semicolon behind or not. -/
def enumeration : m Stmt := do
  let begin := (← advance).span.start
  let name ← expect .identifier
  let list ← expect .openCurly
  let values ← enclosed .closeCurly do
    let t ← expect .identifier
    return Identifier.mk t.value t.span
  let valuesSpan ← spanFrom list.span.start
  let _ ← skip .semicolon
  return .enumeration name.value values valuesSpan (← spanFrom begin)

def giveBack : m Stmt := do
  let begin := (← advance).span.start
  let value ← before? .semicolon (expression g .lowest)
  let _ ← expect .semicolon
  return .giveBack value (← spanFrom begin)

def leave : m Stmt := do
  let begin := (← advance).span.start
  let _ ← expect .semicolon
  return .leave (← spanFrom begin)

def print : m Stmt := do
  let begin := (← advance).span.start
  let args ← arguments (expression g)
  let _ ← expect .semicolon
  return .print args (← spanFrom begin)

def evaluate : m Stmt := do
  let e ← expression g .lowest
  let _ ← expect .semicolon
  return .evaluate e (← spanFrom e.start)

section

variable (inner : m Stmt)

def statements (stops : Token.Kind → Bool) : m (List Stmt) := do
  upTo stops inner (Walk.rounds m ((← get).room + 1))

def block : m Block := do
  let brace ← expect .openCurly
  let body ← statements inner (· = .closeCurly)
  let _ ← expect .closeCurly
  return ⟨body, ← spanFrom brace.span.start⟩

/-- A block, or one statement in place of one. -/
def body : m Block := do
  if (← kind) = .openCurly then block inner
  else
    let s ← inner
    return ⟨[s], s.span⟩

/-- The main function without its type, with empty parentheses behind the word or not. -/
def mainFunction : m Stmt := do
  let begin := (← advance).span.start
  let _ ← behind? .openParen (expect .closeParen)
  let body ← block inner
  return .main body (← spanFrom begin)

/-- What begins with a type: the main function, a variable, a prototype or a function. -/
def declaration : m Stmt := do
  let begin ← start
  let ty ← ty g
  if ← skip .mainWord then
    let _ ← expect .openParen
    let _ ← expect .closeParen
    let body ← block inner
    return .main body (← spanFrom begin)
  let name ← expect .identifier "expected identifier after type name"
  if (← kind) ≠ .openParen then initialized g begin ty name.value
  else
    let params ← params g
    if ← skip .semicolon then
      return .prototype ty name.value params (← spanFrom begin)
    let body ← block inner
    return .function ty name.value params body (← spanFrom begin)

def branch : m Stmt := do
  let begin := (← advance).span.start
  let condition ← condition g
  let yes ← body inner
  let no ← behind? .elseWord (body inner)
  return .branch condition yes no (← spanFrom begin)

def whileLoop : m Stmt := do
  let begin := (← advance).span.start
  let condition ← condition g
  let body ← body inner
  return .whileLoop condition body (← spanFrom begin)

def doLoop : m Stmt := do
  let begin := (← advance).span.start
  let body ← body inner
  let _ ← expect .whileWord
  let condition ← condition g
  let _ ← expect .semicolon
  return .doLoop body condition (← spanFrom begin)

def initial : m (Option Stmt) := do
  if ← skip .semicolon then return none
  else if (← kind).isType then some <$> variableStatement g
  else
    let e ← expression g .lowest
    let _ ← expect .semicolon
    return some (.evaluate e e.span)

def forLoop : m Stmt := do
  let begin := (← advance).span.start
  let _ ← expect .openParen
  let initial ← initial g
  let condition ← before? .semicolon (expression g .lowest)
  let _ ← expect .semicolon
  let update ← before? .closeParen (expression g .lowest)
  let _ ← expect .closeParen
  let body ← body inner
  return .forLoop initial condition update body (← spanFrom begin)

/-- The statements of an arm: a block, or a colon and all that comes before the next arm or the end
of the switch. -/
def arm : m Block := do
  if (← kind) = .openCurly then block inner
  else
    let colon ← expect .colon
    let body ← statements inner fun k => k = .caseWord || k = .defaultWord || k = .closeCurly
    return ⟨body, ← spanFrom colon.span.stop⟩

/-- The arms of a switch up to its closing brace; at most one of them has no value. -/
def arms : (bound : Nat) → (fallback : Option Block) → m (List Case × Option Block)
  | 0, fallback => Walk.spent (return ([], fallback))
  | bound + 1, fallback => do
    let t ← current
    if t.kind = .closeCurly then return ([], fallback)
    else if t.kind = .caseWord then
      let _ ← advance
      let value ← expression g .lowest
      let body ← arm inner
      let first : Case := ⟨value, body, ← spanFrom t.span.start⟩
      let (others, fallback) ← arms bound fallback
      return (first :: others, fallback)
    else if t.kind = .defaultWord ∧ fallback.isNone then
      let _ ← advance
      let body ← arm inner
      arms bound (some body)
    else if t.kind = .eof then throw ⟨.unterminatedBlock, t.span.start⟩
    else throw (.unfitting t "expected `case` or `default` inside switch")

def switch : m Stmt := do
  let begin := (← advance).span.start
  let subject ← condition g
  let _ ← expect .openCurly
  let (cases, fallback) ← arms g inner (Walk.rounds m ((← get).room + 1)) none
  let _ ← expect .closeCurly
  return .switch subject cases fallback (← spanFrom begin)

def formed : Form → m Stmt
  | .declaration => declaration g inner
  | .main => mainFunction inner
  | .enumeration => enumeration
  | .inclusion => inclusion
  | .block => .block <$> block inner
  | .branch => branch g inner
  | .whileLoop => whileLoop g inner
  | .doLoop => doLoop g inner
  | .forLoop => forLoop g inner
  | .switch => switch g inner
  | .giveBack => giveBack g
  | .leave => leave
  | .print => print g

end

/-- A statement of at most `room` tokens before the last one. -/
def statementWithin : (room : Nat) → m Stmt
  | 0 => Walk.spent (evaluate g)
  | room + 1 => do
    match g.form? (← kind) with
    | none => evaluate g
    | some form => formed g (statementWithin room) form

def statement : m Stmt := do
  statementWithin g (Walk.rounds m (← get).room)

def program : m Program := do
  let begin ← start
  let body ← statements (statement g) (· = .eof)
  return ⟨body, ⟨begin, ← start⟩⟩

end

def read {α : Type} (parse : Parse α) (tokens : List Token) : Except SyntaxError α :=
  match parse.run (Cursor.ofTokens tokens) with
  | .ok x _ => .ok x
  | .error e _ => .error e

def ofTokens (tokens : List Token) : Except SyntaxError Program :=
  read (program .full) tokens

def ofText (source : String) : Except SyntaxError Program := do
  ofTokens (← tokenize source)

def expressionOfText (source : String) : Except SyntaxError Expr := do
  read (expression .full .lowest) (← tokenize source)

end Curly.Parse
