import Curly.Typing.Expression

/-! Type checking: a walk over a program that rebuilds the scopes and collects complaints. -/
namespace Curly

structure Enclosing where
  name : String
  ty : Ty
  isMain : Bool
  /-- Whether a return with a value was met. -/
  returnsValue : Bool
deriving DecidableEq, Repr

structure Checker where
  table : Table
  errors : List TypeError
  function : Option Enclosing
  /-- How many loops and switches of the function are around the statement. -/
  depth : Nat
deriving Repr

namespace Checker

def empty : Checker :=
  ⟨.empty, [], none, 0⟩

def enter (c : Checker) : Checker :=
  { c with table := c.table.enter }

def exit (c : Checker) : Checker :=
  { c with table := c.table.exit }

def declare (c : Checker) (s : Symbol) : Checker :=
  { c with table := c.table.declare s }

def report (c : Checker) (cause : TypeError.Cause) (position : Position) : Checker :=
  { c with errors := c.errors ++ [⟨cause, position⟩] }

def reportAny (c : Checker) (cause : Option TypeError.Cause) (position : Position) : Checker :=
  match cause with
  | none => c
  | some cause => c.report cause position

def note (c : Checker) (t : Typed) : Checker :=
  { c with errors := c.errors ++ t.errors }

def expr (e : Expr) (c : Checker) : Checker :=
  c.note (Typing.typeOf c.table e)

def value (e : Expr) (c : Checker) : Checker :=
  c.note (Typing.valueOf c.table e)

def values : List Expr → Checker → Checker
  | [], c => c
  | e :: others, c => values others (value e c)

/-- A condition is a truth value; the complaint points at the construct. -/
def condition (construct : String) (position : Position) (e : Expr) (c : Checker) : Checker :=
  let t := Typing.typeOf c.table e
  let cause : Option TypeError.Cause := match t.ty with
    | .bool | .invalid => none
    | .void => some (.voidCondition construct)
    | found => some (.condition construct found)
  (c.note t).reportAny cause position

/-- A variable holds a value, and its first value fits. It is declared in any case. -/
def variableStatement (ty : Ty) (name : String) (initial : Option Expr) (position : Position)
    (c : Checker) : Checker :=
  let c := if ty = .void then c.report (.voidVariable name) position else c
  let c := match initial with
    | none => c
    | some e =>
      let t := Typing.valueOf c.table e
      let cause : Option TypeError.Cause :=
        if ty = Ty.void ∨ ty.fits t.ty then none else some (.initialValue ty name t.ty)
      (c.note t).reportAny cause position
  c.declare (.ofVariable name ty position)

/-- A function is declared once for each list of parameters. -/
def declareFunction (name : String) (ty : Ty) (params : List Ty) (position : Position)
    (c : Checker) : Checker :=
  if (c.table.lookupOverload name params).isSome then c
  else c.declare (.ofFunction name ty params false position)

def params : List Param → Checker → Checker
  | [], c => c
  | p :: others, c => params others (c.declare (.ofVariable p.name p.ty p.span.start))

def enumValues : List Identifier → Checker → Checker
  | [], c => c
  | v :: others, c =>
    enumValues others
      (if (c.table.lookup v.name).isSome then c
       else c.declare (.ofEnumValue v.name v.span.start))

def enumeration (name : String) (values : List Identifier) (position : Position)
    (c : Checker) : Checker :=
  if 0 < c.table.level then c
  else enumValues values (c.declare (.ofEnumeration name position))

/-- The complaint about a return with or without a value, in a function. -/
def returnCause (f : Enclosing) : Option Ty → Option TypeError.Cause
  | some found =>
    if f.ty = .void then some (.returnFromVoid f.name)
    else if f.ty.fits found then none
    else some (.returnValue f.name f.ty found)
  | none =>
    if f.ty = .void then none
    else
      let subject :=
        if f.isMain then TypeError.quote "main" else "function " ++ TypeError.named f.name
      some (.returnNothing subject f.ty)

def giveBack (value : Option Expr) (position : Position) (c : Checker) : Checker :=
  let t := value.map (Typing.valueOf c.table)
  let c := match t with
    | none => c
    | some t => c.note t
  match c.function with
  | none => c.report .strayReturn position
  | some f =>
    let returnsValue := f.returnsValue || (t.isSome && f.ty ≠ .void)
    { c with function := some { f with returnsValue } }.reportAny
      (returnCause f (t.map Typed.ty)) position

def leave (position : Position) (c : Checker) : Checker :=
  if c.depth = 0 then c.report .strayBreak position else c

def subject (e : Expr) (c : Checker) : Ty × Checker :=
  let t := Typing.valueOf c.table e
  let cause : Option TypeError.Cause :=
    if t.ty = .invalid ∨ t.ty = .int ∨ t.ty = .char then none else some (.switchSubject t.ty)
  (t.ty, (c.note t).reportAny cause e.start)

/-- The value of an arm has the type of the subject. -/
def caseValue (subject : Ty) (e : Expr) (c : Checker) : Checker :=
  let t := Typing.valueOf c.table e
  let cause : Option TypeError.Cause :=
    if subject = .invalid ∨ t.ty = .invalid ∨ t.ty = subject then none
    else some (.caseValue t.ty subject)
  (c.note t).reportAny cause e.start

def begin (f : Enclosing) (c : Checker) : Checker :=
  { c with function := some f, depth := 0 }

def resume (around : Checker) (c : Checker) : Checker :=
  { c with function := around.function, depth := around.depth }

/-- A function that is to return a value returns one somewhere. -/
def missingReturn (position : Position) (c : Checker) : Option TypeError :=
  match c.function with
  | none => none
  | some f =>
    if f.ty = .void ∨ f.returnsValue then none else some ⟨.missingReturn f.name f.ty, position⟩

def deeper (c : Checker) : Checker :=
  { c with depth := c.depth + 1 }

def shallower (c : Checker) : Checker :=
  { c with depth := c.depth - 1 }

mutual

def stmt : Stmt → Checker → Checker
  | .variable ty name initial span, c => variableStatement ty name initial span.start c
  | .prototype ty name ps span, c => declareFunction name ty (signature ps) span.start c
  | .function ty name ps body span, c =>
    let around := (params ps (declareFunction name ty (signature ps) span.start c).enter)
    let inside := within body (begin ⟨name, ty, false, false⟩ around)
    let missing := missingReturn span.start inside
    let c := resume around inside
    { c with errors := c.errors ++ missing.toList }.exit
  | .main body span, c =>
    let around := (declareFunction "main" .int [] span.start c).enter
    (resume around (within body (begin ⟨"main", .int, true, false⟩ around))).exit
  | .enumeration name values _ span, c => enumeration name values span.start c
  | .block body, c => block body c
  | .branch e yes no span, c =>
    let c := block yes (condition "if" span.start e c)
    match no with
    | none => c
    | some no => block no c
  | .whileLoop e body span, c =>
    (block body (condition "while" span.start e c).deeper).shallower
  | .doLoop body e span, c =>
    condition "do-while" span.start e (block body c.deeper).shallower
  | .forLoop initial e update body span, c =>
    let c := match initial with
      | none => c.enter
      | some initial => stmt initial c.enter
    let c := match e with
      | none => c
      | some e => condition "for" span.start e c
    let c := match update with
      | none => c
      | some update => expr update c
    (block body c.deeper).shallower.exit
  | .switch e cases fallback _, c =>
    let (ty, c) := subject e c
    let c := arms ty cases c.deeper
    let c := match fallback with
      | none => c
      | some fallback => block fallback c
    c.shallower
  | .giveBack value span, c => giveBack value span.start c
  | .leave span, c => leave span.start c
  | .print args _, c => values args c
  | .evaluate e _, c => expr e c
  | .inclusion .., c => c
termination_by structural s => s

/-- The statements of a block in a frame of their own. -/
def block : Block → Checker → Checker
  | ⟨body, _⟩, c => (stmts body c.enter).exit
termination_by structural b => b

/-- The statements of a block in the current frame. -/
def within : Block → Checker → Checker
  | ⟨body, _⟩, c => stmts body c
termination_by structural b => b

def stmts : List Stmt → Checker → Checker
  | [], c => c
  | s :: others, c => stmts others (stmt s c)
termination_by structural body => body

def arms (subject : Ty) : List Case → Checker → Checker
  | [], c => c
  | ⟨value, body, _⟩ :: others, c => arms subject others (block body (caseValue subject value c))
termination_by structural cases => cases

end

end Checker

def typeCheck (p : Program) : List TypeError :=
  (Checker.stmts p.body .empty).errors

end Curly
